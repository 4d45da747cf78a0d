/-
Module: PreActive.Foundation.Crash
Purpose: Crash triples: what holds whenever a program that runs alone is killed, and how it ends
  if it is not.  Programs whose operations may each fail.
Trusted boundary: none
Main exports: Program.Passes, Program.passes_runFor, Program.passes_execute,
  Program.runThrough, Program.Strict, Program.Strict.execute_of_runThrough
-/
import PreActive.Foundation.Program

namespace PreActive.Foundation

namespace Program

variable {F : Signature} {ε α β World Answer : Type}

/-- Every world the program passes through satisfies the crash condition `P`, and its outcome and
last world satisfy `Q`. -/
def Passes (machine : Machine F ε World Answer) (answers : F.Op → Answer) (P : World → Prop)
    (Q : Except ε α → World → Prop) : Program F ε α → World → Prop
  | .done value, world => P world ∧ Q (.ok value) world
  | .raise error, world => P world ∧ Q (.error error) world
  | .call op next, world =>
      P world ∧ (next (machine.answer op (answers op) world).1).Passes machine answers P Q
        (machine.answer op (answers op) world).2

variable {machine : Machine F ε World Answer} {answers : F.Op → Answer} {P P' : World → Prop}

/-- Wherever the program is killed, the crash condition holds. -/
theorem passes_runFor {Q : Except ε α → World → Prop} {program : Program F ε α} {world : World}
    (passes : program.Passes machine answers P Q world) (count : Nat) :
    P (program.runFor machine answers count world) := by
  induction count generalizing program world with
  | zero => cases program <;> exact passes.1
  | succ count ih =>
      cases program with
      | done value => exact passes.1
      | raise error => exact passes.1
      | call op next => exact ih passes.2

/-- A program that is not killed ends as its triple says. -/
theorem passes_execute {Q : Except ε α → World → Prop} {program : Program F ε α} {world : World}
    (passes : program.Passes machine answers P Q world) :
    Q (program.execute machine answers world).1 (program.execute machine answers world).2 := by
  induction program generalizing world with
  | done value => exact passes.2
  | raise error => exact passes.2
  | call op next ih => exact ih _ passes.2

namespace Passes

/-- Consequence rule. -/
theorem weaken {Q Q' : Except ε α → World → Prop} {program : Program F ε α} {world : World}
    (passes : program.Passes machine answers P Q world)
    (ends : ∀ outcome world', P world' → Q outcome world' → Q' outcome world') :
    program.Passes machine answers P Q' world := by
  induction program generalizing world with
  | done value => exact ⟨passes.1, ends _ _ passes.1 passes.2⟩
  | raise error => exact ⟨passes.1, ends _ _ passes.1 passes.2⟩
  | call op next ih => exact ⟨passes.1, ih _ passes.2⟩

/-- Sequencing rule. -/
theorem bind {M : Except ε α → World → Prop} {Q : Except ε β → World → Prop}
    {first : Program F ε α} {next : α → Program F ε β} {world : World}
    (passes : first.Passes machine answers P M world)
    (raised : ∀ error world', P world' → M (.error error) world' → Q (.error error) world')
    (rest : ∀ value world', P world' → M (.ok value) world' →
      (next value).Passes machine answers P Q world') :
    (first.bind next).Passes machine answers P Q world := by
  induction first generalizing world with
  | done value => exact rest _ _ passes.1 passes.2
  | raise error => exact ⟨passes.1, raised _ _ passes.1 passes.2⟩
  | call op continuation ih => exact ⟨passes.1, ih _ passes.2⟩

/-- Capturing the outcome turns both ways of ending into a normal end. -/
theorem attempt {Q : Except ε (Except ε α) → World → Prop} {program : Program F ε α}
    {world : World}
    (passes : program.Passes machine answers P (fun outcome => Q (.ok outcome)) world) :
    program.attempt.Passes machine answers P Q world := by
  induction program generalizing world with
  | done value => exact passes
  | raise error => exact passes
  | call op next ih => exact ⟨passes.1, ih _ passes.2⟩

/-- Rule of one operation. -/
theorem perform {op : F.Op} {Q : Except ε (F.Result op) → World → Prop} {world : World}
    (before : P world) (after : P (machine.answer op (answers op) world).2)
    (ends : Q (machine.answer op (answers op) world).1 (machine.answer op (answers op) world).2) :
    (Program.perform op).Passes machine answers P Q world := by
  refine ⟨before, ?_⟩
  cases result : (machine.answer op (answers op) world).1 with
  | ok value => exact ⟨after, result ▸ ends⟩
  | error error => exact ⟨after, result ▸ ends⟩

theorem ofExcept {outcome : Except ε α} {Q : Except ε α → World → Prop} {world : World}
    (holds : P world) (ends : Q outcome world) :
    (Program.ofExcept outcome).Passes machine answers P Q world := by
  cases outcome with
  | ok value => exact ⟨holds, ends⟩
  | error error => exact ⟨holds, ends⟩

end Passes

/-- How a program ends when its whole run is known. -/
def EndsIn (outcome : Except ε α) (last : World) : Except ε α → World → Prop :=
  fun outcome' world => outcome' = outcome ∧ world = last

/-- One operation whose answer is known. -/
theorem Passes.performOk {op : F.Op} {value : F.Result op} {world last : World}
    (answered : machine.answer op (answers op) world = (.ok value, last)) (before : P world)
    (after : P last) :
    (Program.perform op).Passes machine answers P (EndsIn (.ok value) last) world := by
  refine .perform before ?_ ?_
  · rw [answered]
    exact after
  · rw [answered]
    exact ⟨rfl, rfl⟩

/-- Capturing a known outcome. -/
theorem Passes.attemptEnds {program : Program F ε α} {outcome : Except ε α} {world last : World}
    (passes : program.Passes machine answers P (EndsIn outcome last) world) :
    program.attempt.Passes machine answers P (EndsIn (.ok outcome) last) world := by
  refine (passes.weaken ?_).attempt
  rintro outcome' last' _ ⟨rfl, rfl⟩
  exact ⟨rfl, rfl⟩

/-- Sequencing after a first program whose end is known. -/
theorem Passes.thenOk {Q : Except ε β → World → Prop} {first : Program F ε α}
    {next : α → Program F ε β} {value : α} {world middle : World}
    (passes : first.Passes machine answers P (EndsIn (.ok value) middle) world)
    (rest : P middle → (next value).Passes machine answers P Q middle) :
    (first.bind next).Passes machine answers P Q world := by
  refine passes.bind ?_ ?_
  · rintro error world' _ ⟨impossible, _⟩
    cases impossible
  · rintro value' world' holds ⟨same, rfl⟩
    cases same
    exact rest holds

/-! ### Failing operations -/

section Outages

variable {Plain : Type}

/-- Run a program against a list of answers, one for each operation.  The process dies where the
list ends, and then has no outcome. -/
def runThrough (machine : Machine F ε World Answer) :
    Program F ε α → List Answer → World → Option (Except ε α) × World × List Answer
  | .done value, answers, world => (some (.ok value), world, answers)
  | .raise error, answers, world => (some (.error error), world, answers)
  | .call _ _, [], world => (none, world, [])
  | .call op next, answer :: answers, world =>
      (next (machine.answer op answer world).1).runThrough machine answers
        (machine.answer op answer world).2

/-- A failure of any operation ends the program with an exception. -/
def Strict (failures : ε → Prop) : Program F ε α → Prop
  | .done _ => True
  | .raise _ => True
  | .call _ next =>
      (∀ error, failures error → ∃ error', next (.error error) = .raise error') ∧
        ∀ result, (next result).Strict failures

namespace Strict

variable {failures : ε → Prop}

theorem bind {first : Program F ε α} {next : α → Program F ε β} (strict : first.Strict failures)
    (rest : ∀ value, (next value).Strict failures) : (first.bind next).Strict failures := by
  induction first with
  | done value => exact rest value
  | raise error => trivial
  | call op continuation ih =>
      constructor
      · intro error failed
        obtain ⟨error', raises⟩ := strict.1 error failed
        exact ⟨error', congrArg (fun program => program.bind next) raises⟩
      · intro result
        exact ih result (strict.2 result)

theorem ofExcept (outcome : Except ε α) :
    (Program.ofExcept outcome : Program F ε α).Strict failures := by
  cases outcome <;> trivial

theorem perform (op : F.Op) : (Program.perform op : Program F ε _).Strict failures :=
  ⟨fun error _ => ⟨error, rfl⟩, fun result => ofExcept result⟩

/-- An operation whose exception is handled, but not that of a failure. -/
theorem afterAttempt (op : F.Op) {next : Except ε (F.Result op) → Program F ε β}
    (raises : ∀ error, failures error → ∃ error', next (.error error) = .raise error')
    (rest : ∀ outcome, (next outcome).Strict failures) :
    ((Program.perform op).attempt.bind next).Strict failures := by
  constructor
  · intro error failed
    exact raises error failed
  · intro result
    cases result <;> exact rest _

/-- A strict program that returns met no failure. -/
theorem execute_of_runThrough {machine : Machine F ε World Answer}
    {program : Program F ε α} (strict : program.Strict failures)
    (plain : Machine F ε World Plain) (answers : F.Op → Plain)
    (either : ∀ op answer world, machine.answer op answer world = plain.answer op (answers op) world ∨
      ∃ error, failures error ∧ (machine.answer op answer world).1 = .error error)
    {outages rest : List Answer} {world world' : World} {value : α}
    (ran : program.runThrough machine outages world = (some (.ok value), world', rest)) :
    program.execute plain answers world = (.ok value, world') := by
  induction program generalizing outages world with
  | done value' =>
      simp only [runThrough, Prod.mk.injEq, Option.some.injEq, Except.ok.injEq] at ran
      obtain ⟨rfl, rfl, _⟩ := ran
      rfl
  | raise error => cases ran
  | call op next ih =>
      cases outages with
      | nil => cases ran
      | cons answer outages =>
          simp only [runThrough] at ran
          rcases either op answer world with calm | ⟨error, failed, answered⟩
          · rw [calm] at ran
            exact ih _ (strict.2 _) ran
          · obtain ⟨error', raises⟩ := strict.1 error failed
            rw [answered, raises] at ran
            cases ran

end Strict

end Outages

end Program

end PreActive.Foundation
