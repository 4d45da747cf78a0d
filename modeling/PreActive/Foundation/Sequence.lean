/-
Module: PreActive.Foundation.Sequence
Purpose: Programs that run one at a time, each of which may be killed anywhere: what every one of
  them secures, they secure together.
Trusted boundary: none
Main exports: Program.Secures, Program.Secures.bind, Program.Returning, Program.Secures.seq,
  System.Reachable.secured
-/
import PreActive.Foundation.System

namespace PreActive.Foundation

namespace Program

variable {F : Signature} {ε α β World Answer : Type}

/-- Whatever the outside answers, within what is admitted, the invariant `I` holds in every world
the program passes through, and its outcome and last world satisfy `Q`. -/
def Secures (machine : Machine F ε World Answer) (admits : Answer → Prop) (I : World → Prop)
    (Q : Except ε α → World → Prop) : Program F ε α → World → Prop
  | .done value, world => I world ∧ Q (.ok value) world
  | .raise error, world => I world ∧ Q (.error error) world
  | .call op next, world =>
      I world ∧ ∀ answer, admits answer →
        (next (machine.answer op answer world).1).Secures machine admits I Q
          (machine.answer op answer world).2

namespace Secures

variable {machine : Machine F ε World Answer} {admits : Answer → Prop} {I : World → Prop}
variable {world : World}

theorem invariant {Q : Except ε α → World → Prop} {program : Program F ε α}
    (secures : program.Secures machine admits I Q world) : I world := by
  cases program with
  | done value => exact secures.1
  | raise error => exact secures.1
  | call op next => exact secures.1

/-- Consequence rule. -/
theorem weaken {Q Q' : Except ε α → World → Prop} {program : Program F ε α}
    (secures : program.Secures machine admits I Q world)
    (ends : ∀ outcome world', I world' → Q outcome world' → Q' outcome world') :
    program.Secures machine admits I Q' world := by
  induction program generalizing world with
  | done value => exact ⟨secures.1, ends _ _ secures.1 secures.2⟩
  | raise error => exact ⟨secures.1, ends _ _ secures.1 secures.2⟩
  | call op next ih => exact ⟨secures.1, fun answer admitted => ih _ (secures.2 answer admitted)⟩

/-- Sequencing rule. -/
theorem bind {M : Except ε α → World → Prop} {Q : Except ε β → World → Prop}
    {first : Program F ε α} {next : α → Program F ε β}
    (secures : first.Secures machine admits I M world)
    (raised : ∀ error world', I world' → M (.error error) world' → Q (.error error) world')
    (rest : ∀ value world', I world' → M (.ok value) world' →
      (next value).Secures machine admits I Q world') :
    (first.bind next).Secures machine admits I Q world := by
  induction first generalizing world with
  | done value => exact rest _ _ secures.1 secures.2
  | raise error => exact ⟨secures.1, raised _ _ secures.1 secures.2⟩
  | call op continuation ih =>
      exact ⟨secures.1, fun answer admitted => ih _ (secures.2 answer admitted)⟩

/-- Capturing the outcome turns both ways of ending into a normal end. -/
theorem attempt {Q : Except ε (Except ε α) → World → Prop} {program : Program F ε α}
    (secures : program.Secures machine admits I (fun outcome => Q (.ok outcome)) world) :
    program.attempt.Secures machine admits I Q world := by
  induction program generalizing world with
  | done value => exact secures
  | raise error => exact secures
  | call op next ih => exact ⟨secures.1, fun answer admitted => ih _ (secures.2 answer admitted)⟩

/-- Rule of one operation. -/
theorem perform {op : F.Op} {Q : Except ε (F.Result op) → World → Prop} (before : I world)
    (after : ∀ answer, admits answer → I (machine.answer op answer world).2 ∧
      Q (machine.answer op answer world).1 (machine.answer op answer world).2) :
    (Program.perform op).Secures machine admits I Q world := by
  refine ⟨before, fun answer admitted => ?_⟩
  obtain ⟨holds, ends⟩ := after answer admitted
  cases result : (machine.answer op answer world).1 with
  | ok value => exact ⟨holds, result ▸ ends⟩
  | error error => exact ⟨holds, result ▸ ends⟩

theorem ofExcept {outcome : Except ε α} {Q : Except ε α → World → Prop} (holds : I world)
    (ends : Q outcome world) : (Program.ofExcept outcome).Secures machine admits I Q world := by
  cases outcome with
  | ok value => exact ⟨holds, ends⟩
  | error error => exact ⟨holds, ends⟩

end Secures

/-- A postcondition of normal ends only. -/
def Returning (P : α → World → Prop) : Except ε α → World → Prop
  | .ok value, world => P value world
  | .error _, _ => True

/-- Sequencing, where nothing is claimed of an end by exception. -/
theorem Secures.seq {machine : Machine F ε World Answer} {admits : Answer → Prop}
    {I : World → Prop} {world : World} {M : α → World → Prop} {P : β → World → Prop}
    {first : Program F ε α} {next : α → Program F ε β}
    (secures : first.Secures machine admits I (Returning M) world)
    (rest : ∀ value world', I world' → M value world' →
      (next value).Secures machine admits I (Returning P) world') :
    (first.bind next).Secures machine admits I (Returning P) world :=
  secures.bind (fun _ _ _ _ => trivial) rest

end Program

namespace System.Reachable

variable {F : Signature} {ε World Answer Call : Type} {S : System F ε World Answer Call}
variable {allowed : Config F ε World Call → Label Answer Call → Prop}
variable {start config : Config F ε World Call}

/-- If every program that is started secures an invariant, and is started only while nothing else
has something left to do, then the invariant holds in every reachable state, and so does what a
program achieves when it returns, if this is never lost again. -/
theorem secured {A : Answer → Prop} {I : World → Prop} {D : Call → World → Prop}
    (programs : ∀ config call, allowed config (.spawn call) → ∀ world, I world →
      (S.program call).Secures S.toMachine A I
        (Program.Returning fun _ => D call) world)
    (oneByOne : ∀ config call, allowed config (.spawn call) →
      ∀ process ∈ config.procs, process.nextOp = none)
    (answers : ∀ config pid answer, allowed config (.act pid answer) → A answer)
    (stable : ∀ call op answer world, D call world →
      D call (S.answer op answer world).2)
    (initial : I start.world) (empty : start.procs = []) (reached : Reachable S allowed start config) :
    I config.world ∧ ∀ process ∈ config.procs,
      (process.nextOp.isSome = true → process.rest.Secures S.toMachine A I
        (Program.Returning fun _ => D process.call) config.world) ∧
        (process.rest = .done () → D process.call config.world) := by
  let Secured (config : Config F ε World Call) (process : Process F ε Call) : Prop :=
    (process.nextOp.isSome = true → process.rest.Secures S.toMachine A I
      (Program.Returning fun _ => D process.call) config.world) ∧
      (process.rest = .done () → D process.call config.world)
  refine reached.invariant (I := fun config => I config.world ∧
    ∀ process ∈ config.procs, Secured config process) ?_ ?_
  · simp [empty, initial]
  · rintro config label config' before ⟨holds, each⟩ admitted stepped
    have alone : ∀ (i j : Nat) (one other : Process F ε Call), config.procs[i]? = some one →
        config.procs[j]? = some other → Busy (fun _ => True) one → Busy (fun _ => True) other →
          i = j := by
      refine before.alone ?_ empty
      intro config call admits _ process member busy
      rw [Busy, oneByOne config call admits process member] at busy
      cases busy.2
    rcases step_cases stepped with
      ⟨call, rfl, rfl⟩ | ⟨pid, answer, call, op, next, log, rfl, found, rfl⟩ |
        ⟨pid, process, rfl, found, rfl⟩
    · refine ⟨holds, fun process member => ?_⟩
      rcases List.mem_append.1 member with old | fresh
      · exact each process old
      · rw [List.mem_singleton] at fresh
        subst fresh
        have secures := programs config call admitted config.world holds
        refine ⟨fun _ => secures, fun finished => ?_⟩
        change S.program call = .done () at finished
        rw [finished] at secures
        exact secures.2
    · -- the process that acts is the only one with something left to do
      have secures := (each _ (List.mem_of_getElem? found)).1 rfl
      have rest := secures.2 answer (answers _ _ _ admitted)
      refine ⟨rest.invariant, fun process member => ?_⟩
      obtain ⟨index, there⟩ := List.mem_iff_getElem?.1 member
      rw [List.getElem?_set] at there
      split at there
      · split at there
        · cases there
          refine ⟨fun _ => rest, fun finished => ?_⟩
          change next _ = .done () at finished
          rw [finished] at rest
          exact rest.2
        · cases there
      · rename_i apart
        obtain ⟨_, finished⟩ := each process (List.mem_of_getElem? there)
        refine ⟨fun busy => ?_, fun isDone => stable _ _ _ _ (finished isDone)⟩
        exact absurd (alone pid index _ process found there ⟨trivial, rfl⟩ ⟨trivial, busy⟩) apart
    · refine ⟨holds, fun process' member => ?_⟩
      rcases mem_set_cases member with old | rfl
      · exact each process' old
      · refine ⟨fun busy => ?_, (each process (List.mem_of_getElem? found)).2⟩
        rw [Process.nextOp_dead] at busy
        cases busy

end System.Reachable

end PreActive.Foundation
