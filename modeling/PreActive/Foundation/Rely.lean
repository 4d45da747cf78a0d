/-
Module: PreActive.Foundation.Rely
Purpose: Programs among others that change the same world: what each of them may rely on between
  two of its operations, and guarantees to the others with every operation.
Trusted boundary: none
Main exports:
  Program.Relies, Program.Relies.changed, Program.Relies.bind, Program.Relies.seq,
  Program.Relies.inside, Program.Relies.lift, Program.Obeys.first, System.Reachable.relied
-/
import PreActive.Foundation.Sequence
import PreActive.Foundation.Session

namespace PreActive.Foundation

namespace Program

variable {F E : Signature} {ε α β World Answer : Type}

/-- From the world last seen, whatever the others do to it within `rely`, every operation keeps
the invariant and changes the world within `rely` itself, and the outcome satisfies `Q` in the
world the last operation left. -/
def Relies (machine : Machine F ε World Answer) (admits : Answer → Prop) (I : World → Prop)
    (rely : World → World → Prop) (Q : Except ε α → World → Prop) :
    Program F ε α → World → Prop
  | .done value, seen => Q (.ok value) seen
  | .raise error, seen => Q (.error error) seen
  | .call op next, seen => ∀ world, rely seen world → I world → ∀ answer, admits answer →
      I (machine.answer op answer world).2 ∧ rely world (machine.answer op answer world).2 ∧
        (next (machine.answer op answer world).1).Relies machine admits I rely Q
          (machine.answer op answer world).2

/-- The first part of a program keeps to the rule of the whole. -/
theorem Obeys.first {rule : Log F ε → F.Op → Prop} {post : Log F ε → Except ε β → Prop}
    {program : Program F ε α} {next : α → Program F ε β} {log : Log F ε}
    (obeys : (program.bind next).Obeys rule post log) : program.Obeys rule anyOutcome log := by
  induction program generalizing log with
  | done value => trivial
  | raise error => trivial
  | call op continuation ih => exact ⟨obeys.head, fun result => ih result (obeys.tail result)⟩

namespace Relies

variable {machine : Machine F ε World Answer} {admits : Answer → Prop} {I : World → Prop}
variable {rely : World → World → Prop} {seen : World}

/-- Consequence rule. -/
theorem weaken {Q Q' : Except ε α → World → Prop} {program : Program F ε α}
    (relies : program.Relies machine admits I rely Q seen)
    (ends : ∀ outcome world, Q outcome world → Q' outcome world) :
    program.Relies machine admits I rely Q' seen := by
  induction program generalizing seen with
  | done value => exact ends _ _ relies
  | raise error => exact ends _ _ relies
  | call op next ih =>
      intro world changed holds answer admitted
      obtain ⟨kept, within, rest⟩ := relies world changed holds answer admitted
      exact ⟨kept, within, ih _ rest⟩

/-- Where a program returns, the world has changed within what it relies on. -/
theorem changed {Q : α → World → Prop} {program : Program F ε α}
    (refl : ∀ world, rely world world) (trans : ∀ a b c, rely a b → rely b c → rely a c)
    (relies : program.Relies machine admits I rely (Returning Q) seen) :
    program.Relies machine admits I rely
      (Returning fun value world => rely seen world ∧ Q value world) seen := by
  induction program generalizing seen with
  | done value => exact ⟨refl seen, relies⟩
  | raise error => trivial
  | call op next ih =>
      intro world before holds answer admitted
      obtain ⟨kept, within, rest⟩ := relies world before holds answer admitted
      refine ⟨kept, within, (ih _ rest).weaken fun outcome last ends => ?_⟩
      cases outcome with
      | ok value => exact ⟨trans _ _ _ before (trans _ _ _ within ends.1), ends.2⟩
      | error error => trivial

/-- Sequencing rule. -/
theorem bind {M : Except ε α → World → Prop} {Q : Except ε β → World → Prop}
    {first : Program F ε α} {next : α → Program F ε β}
    (relies : first.Relies machine admits I rely M seen)
    (raised : ∀ error world, M (.error error) world → Q (.error error) world)
    (rest : ∀ value world, M (.ok value) world →
      (next value).Relies machine admits I rely Q world) :
    (first.bind next).Relies machine admits I rely Q seen := by
  induction first generalizing seen with
  | done value => exact rest _ _ relies
  | raise error => exact raised _ _ relies
  | call op continuation ih =>
      intro world changed holds answer admitted
      obtain ⟨kept, within, later⟩ := relies world changed holds answer admitted
      exact ⟨kept, within, ih _ later⟩

/-- Sequencing, where nothing is claimed of an end by exception. -/
theorem seq {M : α → World → Prop} {P : β → World → Prop} {first : Program F ε α}
    {next : α → Program F ε β}
    (relies : first.Relies machine admits I rely (Returning M) seen)
    (rest : ∀ value world, M value world →
      (next value).Relies machine admits I rely (Returning P) world) :
    (first.bind next).Relies machine admits I rely (Returning P) seen :=
  relies.bind (fun _ _ _ => trivial) rest

/-- Capturing the outcome turns both ways of ending into a normal end. -/
theorem attempt {Q : Except ε (Except ε α) → World → Prop} {program : Program F ε α}
    (relies : program.Relies machine admits I rely (fun outcome => Q (.ok outcome)) seen) :
    program.attempt.Relies machine admits I rely Q seen := by
  induction program generalizing seen with
  | done value => exact relies
  | raise error => exact relies
  | call op next ih =>
      intro world changed holds answer admitted
      obtain ⟨kept, within, rest⟩ := relies world changed holds answer admitted
      exact ⟨kept, within, ih _ rest⟩

theorem ofExcept {outcome : Except ε α} {Q : Except ε α → World → Prop} (ends : Q outcome seen) :
    (Program.ofExcept outcome).Relies machine admits I rely Q seen := by
  cases outcome with
  | ok value => exact ends
  | error error => exact ends

/-- Rule of one operation. -/
theorem perform {op : F.Op} {Q : Except ε (F.Result op) → World → Prop}
    (step : ∀ world, rely seen world → I world → ∀ answer, admits answer →
      I (machine.answer op answer world).2 ∧ rely world (machine.answer op answer world).2 ∧
        Q (machine.answer op answer world).1 (machine.answer op answer world).2) :
    (Program.perform op).Relies machine admits I rely Q seen := by
  intro world changed holds answer admitted
  obtain ⟨kept, within, ends⟩ := step world changed holds answer admitted
  exact ⟨kept, within, ofExcept ends⟩

/-- A program of the inner system all of whose operations are harmless relies on nothing. -/
theorem inside {machine : Machine (F.extend E) ε World Answer} {rule : Log F ε → F.Op → Prop}
    {post : Log F ε → Except ε α → Prop} {log : Log F ε} {program : Program F ε α}
    (obeys : program.Obeys rule post log)
    (harmless : ∀ log op, rule log op → ∀ world, I world → ∀ answer, admits answer →
      I (machine.answer (.inl op) answer world).2 ∧
        rely world (machine.answer (.inl op) answer world).2) :
    (program.inside (E := E)).Relies machine admits I rely (fun _ _ => True) seen := by
  induction program generalizing log seen with
  | done value => trivial
  | raise error => trivial
  | call op next ih =>
      rw [inside_call]
      intro world _ holds answer admitted
      obtain ⟨kept, within⟩ := harmless log op obeys.head world holds answer admitted
      exact ⟨kept, within, ih _ (obeys.tail _)⟩

/-- A program that is written in the operations of another machine relies on no more there. -/
theorem lift {G : Signature} {Heard : Type} {rename : F.Op → G.Op}
    {back : ∀ op, G.Result (rename op) → F.Result op} {outer : Machine G ε World Heard}
    {heard : Heard → Answer} {hears : Heard → Prop} {Q : Except ε α → World → Prop}
    {program : Program F ε α}
    (same : ∀ op answer world, hears answer →
      machine.answer op (heard answer) world =
        ((outer.answer (rename op) answer world).1.map (back op),
          (outer.answer (rename op) answer world).2))
    (hearing : ∀ answer, hears answer → admits (heard answer))
    (relies : program.Relies machine admits I rely Q seen) :
    (program.lift rename back).Relies outer hears I rely Q seen := by
  induction program generalizing seen with
  | done value => exact relies
  | raise error => exact relies
  | call op next ih =>
      intro world changed holds answer admitted
      have step := relies world changed holds (heard answer) (hearing answer admitted)
      rw [same op answer world admitted] at step
      obtain ⟨kept, within, rest⟩ := step
      refine ⟨kept, within, ?_⟩
      cases result : (outer.answer (rename op) answer world).1 with
      | ok value =>
          rw [result] at rest
          exact ih _ rest
      | error error =>
          rw [result] at rest
          exact ih _ rest

end Relies

end Program

namespace System.Reachable

variable {F : Signature} {ε World Answer Call : Type} {S : System F ε World Answer Call}
variable {allowed : Config F ε World Call → Label Answer Call → Prop}
variable {start config config' : Config F ε World Call}

/-- If every program that is started keeps the invariant as long as the others do, then all of
them together keep it, and the world only ever changes within `rely`. -/
theorem relied {A : Answer → Prop} {I : World → Prop} {rely : World → World → Prop}
    (refl : ∀ world, rely world world)
    (trans : ∀ a b c, rely a b → rely b c → rely a c)
    (programs : ∀ config call, allowed config (.spawn call) → ∀ world, I world →
      (S.program call).Relies S.toMachine A I rely (fun _ _ => True) world)
    (answers : ∀ config pid answer, allowed config (.act pid answer) → A answer)
    (initial : I start.world) (empty : start.procs = []) (reached : Reachable S allowed start config)
    (later : Reachable S allowed config config') :
    I config'.world ∧ rely config.world config'.world := by
  let Sound (config : Config F ε World Call) : Prop := I config.world ∧
    ∀ process ∈ config.procs, ∃ seen, rely seen config.world ∧
      process.rest.Relies S.toMachine A I rely (fun _ _ => True) seen
  have step : ∀ config label config', Sound config → allowed config label →
      S.step config label = some config' → Sound config' ∧ rely config.world config'.world := by
    rintro config label config' ⟨holds, each⟩ admitted stepped
    rcases step_cases stepped with
      ⟨call, rfl, rfl⟩ | ⟨pid, answer, call, op, next, log, rfl, found, rfl⟩ |
        ⟨pid, process, rfl, found, rfl⟩
    · refine ⟨⟨holds, fun process member => ?_⟩, refl _⟩
      rcases List.mem_append.1 member with old | fresh
      · exact each process old
      · rw [List.mem_singleton] at fresh
        subst fresh
        exact ⟨config.world, refl _, programs config call admitted config.world holds⟩
    · obtain ⟨seen, changed, relies⟩ := each _ (List.mem_of_getElem? found)
      obtain ⟨kept, within, rest⟩ :=
        relies config.world changed holds answer (answers _ _ _ admitted)
      refine ⟨⟨kept, fun process member => ?_⟩, within⟩
      rcases mem_set_cases member with old | rfl
      · obtain ⟨seen', changed', relies'⟩ := each process old
        exact ⟨seen', trans _ _ _ changed' within, relies'⟩
      · exact ⟨_, refl _, rest⟩
    · refine ⟨⟨holds, fun process' member => ?_⟩, refl _⟩
      rcases mem_set_cases member with old | rfl
      · exact each process' old
      · obtain ⟨seen, changed, relies⟩ := each process (List.mem_of_getElem? found)
        exact ⟨seen, changed, relies⟩
  have sound : Sound config := by
    refine reached.invariant (I := Sound) ⟨initial, by simp [empty]⟩ ?_
    exact fun config label config' _ held admitted stepped =>
      (step config label config' held admitted stepped).1
  have run : Sound config' ∧ rely config.world config'.world := by
    induction later with
    | start => exact ⟨sound, refl _⟩
    | step _ admitted stepped ih =>
        obtain ⟨held, within⟩ := step _ _ _ ih.1 admitted stepped
        exact ⟨held, trans _ _ _ ih.2 within⟩
  exact ⟨run.1.1, run.2⟩

end System.Reachable

end PreActive.Foundation
