/-
Module: PreActive.Foundation.Strike
Purpose: Programs that run alone and are struck once: one operation ends otherwise than the machine
  answers it, with an effect of its own on the world.
Trusted boundary: none
Main exports:
  Point, Program.pointAt, Program.executeStruck, Program.Ran, Program.Struck, Struck.of_bind,
  Struck.of_attempt, Struck.keeps, Program.Relays, Struck.relays, struck_of_embedded,
  executeStruck_keeps
-/
import PreActive.Foundation.Program

namespace PreActive.Foundation

/-- An operation that a program asks for, after what it did before and in the world it finds. -/
structure Point (F : Signature) (ε World : Type) where
  log : Log F ε
  op : F.Op
  world : World

namespace Program

variable {F : Signature} {ε α β World Answer : Type}

/-- How an operation ends that is struck, and the world it leaves. -/
abbrev Strike (F : Signature) (ε World : Type) :=
  (op : F.Op) → World → Except ε (F.Result op) × World

/-- What a program asks for after a number of operations. -/
def pointAt (machine : Machine F ε World Answer) (answers : F.Op → Answer) :
    Nat → Log F ε → Program F ε α → World → Option (Point F ε World)
  | _, _, .done _, _ => none
  | _, _, .raise _, _ => none
  | 0, log, .call op _, world => some ⟨log, op, world⟩
  | count + 1, log, .call op next, world =>
      let (result, world') := machine.answer op (answers op) world
      (next result).pointAt machine answers count (⟨op, result⟩ :: log) world'

/-- Run a program whose operation after a number of others is struck. -/
def executeStruck (machine : Machine F ε World Answer) (answers : F.Op → Answer)
    (strike : Strike F ε World) : Nat → Program F ε α → World → Except ε α × World
  | _, .done value, world => (.ok value, world)
  | _, .raise error, world => (.error error, world)
  | 0, .call op next, world =>
      let (result, world') := strike op world
      (next result).execute machine answers world'
  | count + 1, .call op next, world =>
      let (result, world') := machine.answer op (answers op) world
      (next result).executeStruck machine answers strike count world'

/-! ### Runs with their history -/

/-- The program runs alone and is not struck. -/
inductive Ran (machine : Machine F ε World Answer) (answers : F.Op → Answer) :
    Log F ε → Program F ε α → World → Log F ε → Except ε α → World → Prop where
  | done {log : Log F ε} {world : World} (value : α) :
      Ran machine answers log (.done value) world log (.ok value) world
  | raise {log : Log F ε} {world : World} (error : ε) :
      Ran machine answers log (.raise error) world log (.error error) world
  | call {log log' : Log F ε} {op : F.Op} {next : Except ε (F.Result op) → Program F ε α}
      {world world' : World} {outcome : Except ε α}
      (rest : Ran machine answers (⟨op, (machine.answer op (answers op) world).1⟩ :: log)
        (next (machine.answer op (answers op) world).1)
        (machine.answer op (answers op) world).2 log' outcome world') :
      Ran machine answers log (.call op next) world log' outcome world'

/-- The program runs alone and is struck at the point. -/
inductive Struck (machine : Machine F ε World Answer) (answers : F.Op → Answer)
    (strike : Strike F ε World) :
    Log F ε → Program F ε α → World → Point F ε World → Except ε α → World → Prop where
  | here {log : Log F ε} {op : F.Op} {next : Except ε (F.Result op) → Program F ε α}
      {world world' : World} {outcome : Except ε α}
      (rest : RunsTo machine answers (next (strike op world).1) (strike op world).2 outcome
        world') :
      Struck machine answers strike log (.call op next) world ⟨log, op, world⟩ outcome world'
  | later {log : Log F ε} {op : F.Op} {next : Except ε (F.Result op) → Program F ε α}
      {world world' : World} {point : Point F ε World} {outcome : Except ε α}
      (rest : Struck machine answers strike (⟨op, (machine.answer op (answers op) world).1⟩ :: log)
        (next (machine.answer op (answers op) world).1)
        (machine.answer op (answers op) world).2 point outcome world') :
      Struck machine answers strike log (.call op next) world point outcome world'

variable {machine : Machine F ε World Answer} {answers : F.Op → Answer}
variable {strike : Strike F ε World} {log log' : Log F ε} {world world' : World}
  {point : Point F ε World}

/-- A program can be struck at every operation that it has. -/
theorem exists_struck {count : Nat} {program : Program F ε α}
    (there : program.pointAt machine answers count log world = some point) :
    ∃ outcome world', Struck machine answers strike log program world point outcome world' := by
  induction program generalizing count log world with
  | done value => cases count <;> cases there
  | raise error => cases count <;> cases there
  | call op next ih =>
      cases count with
      | zero =>
          obtain rfl := Option.some.inj there
          exact ⟨_, _, .here rfl⟩
      | succ count =>
          obtain ⟨outcome, world', struck⟩ := ih _ there
          exact ⟨outcome, world', .later struck⟩

namespace Ran

/-- The history of a run is only looked at. -/
theorem runsTo {program : Program F ε α} {outcome : Except ε α}
    (ran : Ran machine answers log program world log' outcome world') :
    RunsTo machine answers program world outcome world' := by
  induction ran with
  | done value => exact .done value
  | raise error => exact .raise error
  | call rest ih => exact ih

theorem of_bind {first : Program F ε α} {next : α → Program F ε β} {outcome : Except ε β}
    (ran : Ran machine answers log (first.bind next) world log' outcome world') :
    (∃ value log₁ mid, Ran machine answers log first world log₁ (.ok value) mid ∧
        Ran machine answers log₁ (next value) mid log' outcome world') ∨
      ∃ error, Ran machine answers log first world log' (.error error) world' ∧
        outcome = .error error := by
  induction first generalizing log world with
  | done value => exact .inl ⟨value, log, world, .done value, ran⟩
  | raise error =>
      cases ran
      exact .inr ⟨error, .raise error, rfl⟩
  | call op rest ih =>
      cases ran with
      | call ran =>
          rcases ih _ ran with ⟨value, log₁, mid, first, second⟩ | ⟨error, first, same⟩
          · exact .inl ⟨value, log₁, mid, .call first, second⟩
          · exact .inr ⟨error, .call first, same⟩

theorem of_attempt {program : Program F ε α} {outcome : Except ε (Except ε α)}
    (ran : Ran machine answers log program.attempt world log' outcome world') :
    ∃ inner, outcome = .ok inner ∧ Ran machine answers log program world log' inner world' := by
  induction program generalizing log world with
  | done value =>
      cases ran
      exact ⟨.ok value, rfl, .done value⟩
  | raise error =>
      cases ran
      exact ⟨.error error, rfl, .raise error⟩
  | call op next ih =>
      cases ran with
      | call ran =>
          obtain ⟨inner, same, rest⟩ := ih _ ran
          exact ⟨inner, same, .call rest⟩

theorem of_ofExcept {outcome outcome' : Except ε α}
    (ran : Ran machine answers log (Program.ofExcept outcome) world log' outcome' world') :
    outcome' = outcome ∧ log' = log ∧ world' = world := by
  cases outcome <;> cases ran <;> exact ⟨rfl, rfl, rfl⟩

/-- A run ends as the rules of its program say. -/
theorem ends {rule : Log F ε → F.Op → Prop} {post : Log F ε → Except ε α → Prop}
    {program : Program F ε α} {outcome : Except ε α}
    (ran : Ran machine answers log program world log' outcome world')
    (obeys : program.Obeys rule post log) : post log' outcome := by
  induction ran with
  | done value => exact obeys
  | raise error => exact obeys
  | call rest ih => exact ih (obeys.tail _)

/-- The history of a run only grows. -/
theorem longer {program : Program F ε α} {outcome : Except ε α}
    (ran : Ran machine answers log program world log' outcome world') : log <:+ log' := by
  induction ran with
  | done value => exact List.suffix_refl _
  | raise error => exact List.suffix_refl _
  | call rest ih => exact (List.suffix_cons _ _).trans ih

/-- What every allowed operation keeps, a run keeps. -/
theorem keeps {rule : Log F ε → F.Op → Prop} {post : Log F ε → Except ε α → Prop}
    {program : Program F ε α} {outcome : Except ε α} (I : World → Prop)
    (each : ∀ log op answer world, rule log op → I world → I (machine.answer op answer world).2)
    (ran : Ran machine answers log program world log' outcome world')
    (obeys : program.Obeys rule post log) (holds : I world) : I world' := by
  induction ran with
  | done value => exact holds
  | raise error => exact holds
  | call rest ih => exact ih (obeys.tail _) (each _ _ _ _ obeys.head holds)

end Ran

namespace Struck

/-- A sequence is struck in its first part, which then ends normally or not, or after it. -/
theorem of_bind {first : Program F ε α} {next : α → Program F ε β} {outcome : Except ε β}
    (struck : Struck machine answers strike log (first.bind next) world point outcome world') :
    (∃ value mid, Struck machine answers strike log first world point (.ok value) mid ∧
        RunsTo machine answers (next value) mid outcome world') ∨
      (∃ error, Struck machine answers strike log first world point (.error error) world' ∧
        outcome = .error error) ∨
      ∃ value log₁ mid, Ran machine answers log first world log₁ (.ok value) mid ∧
        Struck machine answers strike log₁ (next value) mid point outcome world' := by
  induction first generalizing log world with
  | done value => exact .inr (.inr ⟨value, log, world, .done value, struck⟩)
  | raise error => cases struck
  | call op rest ih =>
      cases struck with
      | here ran =>
          rcases ended : (rest (strike op world).1).execute machine answers (strike op world).2
            with ⟨error | value, mid⟩
          · have raised : RunsTo machine answers (rest (strike op world).1) (strike op world).2
              (.error error) mid := ended
            obtain ⟨same, rfl⟩ := ran.unique (.bindRaised raised)
            exact .inr (.inl ⟨error, .here raised, same⟩)
          · have returned : RunsTo machine answers (rest (strike op world).1) (strike op world).2
              (.ok value) mid := ended
            exact .inl ⟨value, mid, .here returned, returned.after ran⟩
      | later struck =>
          rcases ih _ struck with ⟨value, mid, first, second⟩ | ⟨error, first, same⟩ |
            ⟨value, log₁, mid, first, second⟩
          · exact .inl ⟨value, mid, .later first, second⟩
          · exact .inr (.inl ⟨error, .later first, same⟩)
          · exact .inr (.inr ⟨value, log₁, mid, .call first, second⟩)

/-- Capturing the outcome does not change where a program is struck. -/
theorem of_attempt {program : Program F ε α} {outcome : Except ε (Except ε α)}
    (struck : Struck machine answers strike log program.attempt world point outcome world') :
    ∃ inner, outcome = .ok inner ∧
      Struck machine answers strike log program world point inner world' := by
  induction program generalizing log world with
  | done value => cases struck
  | raise error => cases struck
  | call op next ih =>
      cases struck with
      | here ran =>
          rcases ended : (next (strike op world).1).execute machine answers (strike op world).2
            with ⟨inner, mid⟩
          have returned : RunsTo machine answers (next (strike op world).1) (strike op world).2
            inner mid := ended
          obtain ⟨same, rfl⟩ := ran.unique returned.attempt
          exact ⟨inner, same, .here returned⟩
      | later struck =>
          obtain ⟨inner, same, rest⟩ := ih _ struck
          exact ⟨inner, same, .later rest⟩

/-- Pure code is not struck. -/
theorem not_ofExcept {outcome outcome' : Except ε α} :
    ¬ Struck machine answers strike log (Program.ofExcept outcome) world point outcome' world' := by
  intro struck
  cases outcome <;> cases struck

/-- The operation that is struck is one that the rules of the program allow there. -/
theorem allowed {rule : Log F ε → F.Op → Prop} {post : Log F ε → Except ε α → Prop}
    {program : Program F ε α} {outcome : Except ε α}
    (struck : Struck machine answers strike log program world point outcome world')
    (obeys : program.Obeys rule post log) : rule point.log point.op := by
  induction struck with
  | here rest => exact obeys.head
  | later rest ih => exact ih (obeys.tail _)

/-- The history before the strike extends the one before the program. -/
theorem longer {program : Program F ε α} {outcome : Except ε α}
    (struck : Struck machine answers strike log program world point outcome world') :
    log <:+ point.log := by
  induction struck with
  | here rest => exact List.suffix_refl _
  | later rest ih => exact (List.suffix_cons _ _).trans ih

/-- What every allowed operation keeps still holds where the program is struck. -/
theorem keeps {rule : Log F ε → F.Op → Prop} {post : Log F ε → Except ε α → Prop}
    {program : Program F ε α} {outcome : Except ε α} (I : World → Prop)
    (each : ∀ log op answer world, rule log op → I world → I (machine.answer op answer world).2)
    (struck : Struck machine answers strike log program world point outcome world')
    (obeys : program.Obeys rule post log) (holds : I world) : I point.world := by
  induction struck with
  | here rest => exact holds
  | later rest ih => exact ih (obeys.tail _) (each _ _ _ _ obeys.head holds)

end Struck

/-! ### Programs that pass an exception on -/

/-- An exception of this kind, raised by any operation, is at once the exception of the program. -/
def Relays (kind : ε → Prop) : Program F ε α → Prop
  | .done _ => True
  | .raise _ => True
  | .call _ next =>
      (∀ error, kind error → next (.error error) = .raise error) ∧
        ∀ result, (next result).Relays kind

namespace Relays

variable {kind : ε → Prop}

theorem bind {first : Program F ε α} {next : α → Program F ε β} (relays : first.Relays kind)
    (rest : ∀ value, (next value).Relays kind) : (first.bind next).Relays kind := by
  induction first with
  | done value => exact rest value
  | raise error => trivial
  | call op continuation ih =>
      constructor
      · intro error isKind
        exact congrArg (fun program => program.bind next) (relays.1 error isKind)
      · intro result
        exact ih result (relays.2 result)

theorem ofExcept (outcome : Except ε α) :
    (Program.ofExcept outcome : Program F ε α).Relays kind := by
  cases outcome <;> trivial

theorem perform (op : F.Op) : (Program.perform op : Program F ε _).Relays kind :=
  ⟨fun _ _ => rfl, fun result => ofExcept result⟩

/-- An operation whose exceptions are handled, but not those of this kind. -/
theorem afterAttempt (op : F.Op) {next : Except ε (F.Result op) → Program F ε β}
    (raises : ∀ error, kind error → next (.error error) = .raise error)
    (rest : ∀ outcome, (next outcome).Relays kind) :
    ((Program.perform op).attempt.bind next).Relays kind := by
  constructor
  · intro error isKind
    exact raises error isKind
  · intro result
    cases result <;> exact rest _

/-- Renaming the operations keeps how exceptions are passed on. -/
theorem lift {G : Signature} {rename : F.Op → G.Op}
    {back : ∀ op, G.Result (rename op) → F.Result op} {program : Program F ε α}
    (relays : program.Relays kind) : (program.lift rename back).Relays kind := by
  induction program with
  | done value => trivial
  | raise error => trivial
  | call op next ih =>
      constructor
      · intro error isKind
        exact congrArg (fun program => program.lift rename back) (relays.1 error isKind)
      · intro result
        exact ih _ (relays.2 _)

end Relays

/-- A program that passes an exception on ends with it, in the world that the strike left. -/
theorem Struck.relays {kind : ε → Prop} {program : Program F ε α} {outcome : Except ε α}
    {error : ε} (struck : Struck machine answers strike log program world point outcome world')
    (relays : program.Relays kind)
    (raised : (strike point.op point.world).1 = .error error) (isKind : kind error) :
    outcome = .error error ∧ world' = (strike point.op point.world).2 := by
  induction struck with
  | here rest =>
      rw [raised, relays.1 error isKind] at rest
      obtain ⟨same, rfl⟩ := rest.unique (.raise error)
      exact ⟨same, rfl⟩
  | later rest ih => exact ih (relays.2 _) raised

/-! ### A machine inside a larger one

The larger machine may react to a strike in ways that the smaller one has no world for. -/

section Embedding

variable {World' : Type} {outer : Machine F ε World' Answer} {strike' : Strike F ε World'}
variable {embed : World → World'}

/-- On the worlds of the inner machine the outer one answers as the inner one does. -/
def Embeds (machine : Machine F ε World Answer) (outer : Machine F ε World' Answer)
    (embed : World → World') : Prop :=
  ∀ op answer world, outer.answer op answer (embed world) =
    ((machine.answer op answer world).1, embed (machine.answer op answer world).2)

/-- A run of the inner machine is one of the outer machine. -/
theorem execute_embed (embeds : Embeds machine outer embed) (program : Program F ε α)
    (world : World) :
    program.execute outer answers (embed world) =
      ((program.execute machine answers world).1,
        embed (program.execute machine answers world).2) := by
  induction program generalizing world with
  | done value => rfl
  | raise error => rfl
  | call op next ih =>
      change (next (outer.answer op (answers op) (embed world)).1).execute outer answers
        (outer.answer op (answers op) (embed world)).2 = _
      rw [embeds]
      exact ih _ _

/-- A run that is struck in the outer machine, where the inner one is struck in the same way. -/
theorem struck_of_embedded (embeds : Embeds machine outer embed) {count : Nat}
    {program : Program F ε α} {outcome : Except ε α} {last : World'}
    (there : program.pointAt machine answers count log world = some point)
    (same : strike' point.op (embed point.world) =
      ((strike point.op point.world).1, embed (strike point.op point.world).2))
    (ran : program.executeStruck outer answers strike' count (embed world) = (outcome, last)) :
    ∃ world', last = embed world' ∧
      Struck machine answers strike log program world point outcome world' := by
  induction program generalizing count log world with
  | done value => cases count <;> cases there
  | raise error => cases count <;> cases there
  | call op next ih =>
      cases count with
      | zero =>
          obtain rfl := Option.some.inj there
          simp only [executeStruck, same, execute_embed embeds] at ran
          obtain ⟨rfl, rfl⟩ := Prod.mk.inj ran
          exact ⟨_, rfl, .here rfl⟩
      | succ count =>
          simp only [executeStruck, embeds op] at ran
          obtain ⟨world', isLast, struck⟩ := ih _ there ran
          exact ⟨world', isLast, .later struck⟩

/-- What the strike brings about, and every operation of the outer machine keeps, still holds at
the end. -/
theorem executeStruck_keeps (embeds : Embeds machine outer embed) (I : World' → Prop)
    (kept : ∀ op answer world, I world → I (outer.answer op answer world).2) {count : Nat}
    {program : Program F ε α} {outcome : Except ε α} {last : World'}
    (there : program.pointAt machine answers count log world = some point)
    (brings : I (strike' point.op (embed point.world)).2)
    (ran : program.executeStruck outer answers strike' count (embed world) = (outcome, last)) :
    I last := by
  induction program generalizing count log world with
  | done value => cases count <;> cases there
  | raise error => cases count <;> cases there
  | call op next ih =>
      cases count with
      | zero =>
          obtain rfl := Option.some.inj there
          have ends : RunsTo outer answers (next (strike' op (embed world)).1)
              (strike' op (embed world)).2 outcome last := ran
          exact ends.keeps I kept brings
      | succ count =>
          simp only [executeStruck, embeds op] at ran
          exact ih _ there ran

end Embedding

end Program

end PreActive.Foundation
