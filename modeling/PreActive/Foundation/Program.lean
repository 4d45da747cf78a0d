/-
Module: PreActive.Foundation.Program
Purpose: Client programs over a signature of atomic operations, the history rules their
  operations obey, and their uninterrupted and interrupted execution.
Trusted boundary: none
Main exports:
  Signature, Program, Program.attempt, Program.lift, Entry, Log,
  Program.Obeys, Machine, Program.execute, Program.runFor, Program.RunsTo, Program.execute_frame,
  Program.execute_keeps
-/
import Mathlib.Logic.Function.Basic

namespace PreActive.Foundation

/-!
A program is the tree of the atomic operations it may still ask for.  An operation either answers
or raises, and the program sees which; between two operations anything may happen to the world,
so interleavings and process death fall out of the tree without further bookkeeping.

`Program.Obeys` is the logic of one program on its own.  It says which operations may follow which
history, whatever the operations answer.  Nothing in it mentions a world or another process.
-/

/-- The atomic operations of a system, and what each one answers. -/
structure Signature where
  Op : Type
  Result : Op → Type

/-- A program: finished, failed with an exception, or about to perform one operation. -/
inductive Program (F : Signature) (ε α : Type) : Type where
  | done (value : α) : Program F ε α
  | raise (error : ε) : Program F ε α
  | call (op : F.Op) (next : Except ε (F.Result op) → Program F ε α) : Program F ε α

namespace Program

variable {F G : Signature} {ε α β γ : Type}

/-- Sequencing: an exception of the first program is an exception of the whole. -/
def bind : Program F ε α → (α → Program F ε β) → Program F ε β
  | .done value, next => next value
  | .raise error, _ => .raise error
  | .call op rest, next => .call op (fun result => (rest result).bind next)

instance : Monad (Program F ε) where
  pure := .done
  bind := bind

/-- Run a program to its end and hand the caller its outcome, as `try ... except` does. -/
def attempt : Program F ε α → Program F ε (Except ε α)
  | .done value => .done (.ok value)
  | .raise error => .done (.error error)
  | .call op rest => .call op (fun result => (rest result).attempt)

/-- Return or raise the outcome of pure code. -/
def ofExcept : Except ε α → Program F ε α
  | .ok value => .done value
  | .error error => .raise error

/-- Perform one operation and pass its exception on. -/
def perform (op : F.Op) : Program F ε (F.Result op) := .call op ofExcept

/-- Rename the operations of a program into a larger signature. -/
def lift (rename : F.Op → G.Op) (back : ∀ op, G.Result (rename op) → F.Result op) :
    Program F ε α → Program G ε α
  | .done value => .done value
  | .raise error => .raise error
  | .call op rest =>
      .call (rename op) (fun result => (rest (result.map (back op))).lift rename back)

@[simp] theorem pure_eq_done (value : α) :
    (pure value : Program F ε α) = .done value := rfl

@[simp] theorem bind_eq_bind (first : Program F ε α) (next : α → Program F ε β) :
    (first >>= next) = first.bind next := rfl

@[simp] theorem done_bind (value : α) (next : α → Program F ε β) :
    (Program.done value).bind next = next value := rfl

@[simp] theorem raise_bind (error : ε) (next : α → Program F ε β) :
    (Program.raise error : Program F ε α).bind next = .raise error := rfl

@[simp] theorem call_bind (op : F.Op) (rest : Except ε (F.Result op) → Program F ε α)
    (next : α → Program F ε β) :
    (Program.call op rest).bind next = .call op fun result => (rest result).bind next := rfl

@[simp] theorem done_attempt (value : α) :
    (Program.done value : Program F ε α).attempt = .done (.ok value) := rfl

@[simp] theorem raise_attempt (error : ε) :
    (Program.raise error : Program F ε α).attempt = .done (.error error) := rfl

@[simp] theorem call_attempt (op : F.Op) (rest : Except ε (F.Result op) → Program F ε α) :
    (Program.call op rest).attempt = .call op fun result => (rest result).attempt := rfl

@[simp] theorem ofExcept_ok (value : α) :
    (ofExcept (.ok value) : Program F ε α) = .done value := rfl

@[simp] theorem ofExcept_error (error : ε) :
    (ofExcept (.error error) : Program F ε α) = .raise error := rfl

/-- Capturing the outcome of pure code gives that outcome. -/
@[simp] theorem ofExcept_attempt (outcome : Except ε α) :
    (ofExcept outcome : Program F ε α).attempt = .done outcome := by
  cases outcome <;> rfl

@[simp] theorem bind_assoc (first : Program F ε α) (next : α → Program F ε β)
    (last : β → Program F ε γ) :
    (first.bind next).bind last = first.bind fun value => (next value).bind last := by
  induction first with
  | done value => rfl
  | raise error => rfl
  | call op rest ih =>
      simp only [call_bind]
      congr 1
      funext result
      exact ih result

section Lift

variable (rename : F.Op → G.Op) (back : ∀ op, G.Result (rename op) → F.Result op)

@[simp] theorem lift_done (value : α) :
    (Program.done value : Program F ε α).lift rename back = .done value := rfl

@[simp] theorem lift_raise (error : ε) :
    (Program.raise error : Program F ε α).lift rename back = .raise error := rfl

/-- Renaming distributes over sequencing. -/
theorem lift_bind (first : Program F ε α) (next : α → Program F ε β) :
    (first.bind next).lift rename back =
      (first.lift rename back).bind fun value => (next value).lift rename back := by
  induction first with
  | done value => rfl
  | raise error => rfl
  | call op rest ih =>
      simp only [call_bind, lift]
      congr 1
      funext result
      exact ih _

/-- Renaming distributes over capturing the outcome. -/
theorem lift_attempt (program : Program F ε α) :
    program.attempt.lift rename back = (program.lift rename back).attempt := by
  induction program with
  | done value => rfl
  | raise error => rfl
  | call op rest ih =>
      simp only [call_attempt, lift]
      congr 1
      funext result
      exact ih _

end Lift

end Program

/-! ### History rules -/

/-- One performed operation together with what it answered. -/
structure Entry (F : Signature) (ε : Type) where
  op : F.Op
  result : Except ε (F.Result op)

/-- What one process has done, latest operation first. -/
abbrev Log (F : Signature) (ε : Type) := List (Entry F ε)

namespace Program

variable {F G : Signature} {ε α β γ : Type}

/-- Every operation the program can still perform is one the rule allows after the history
at that point, and every outcome it can reach satisfies `post`. -/
def Obeys (rule : Log F ε → F.Op → Prop) (post : Log F ε → Except ε α → Prop) :
    Log F ε → Program F ε α → Prop
  | log, .done value => post log (.ok value)
  | log, .raise error => post log (.error error)
  | log, .call op next =>
      rule log op ∧ ∀ result, (next result).Obeys rule post (⟨op, result⟩ :: log)

/-- The outcome predicate that asks for nothing. -/
def anyOutcome : Log F ε → Except ε α → Prop := fun _ _ => True

namespace Obeys

variable {rule rule' : Log F ε → F.Op → Prop} {log : Log F ε}

/-- The operation at the head of a program is allowed. -/
theorem head {post : Log F ε → Except ε α → Prop} {op : F.Op}
    {next : Except ε (F.Result op) → Program F ε α}
    (obeys : (Program.call op next).Obeys rule post log) : rule log op :=
  obeys.1

/-- After the head operation the rest obeys the rule under the longer history. -/
theorem tail {post : Log F ε → Except ε α → Prop} {op : F.Op}
    {next : Except ε (F.Result op) → Program F ε α}
    (obeys : (Program.call op next).Obeys rule post log)
    (result : Except ε (F.Result op)) :
    (next result).Obeys rule post (⟨op, result⟩ :: log) :=
  obeys.2 result

/-- Consequence rule for both the operations and the outcome. -/
theorem mono {post post' : Log F ε → Except ε α → Prop} {program : Program F ε α}
    (obeys : program.Obeys rule post log)
    (rules : ∀ log op, rule log op → rule' log op)
    (posts : ∀ log outcome, post log outcome → post' log outcome) :
    program.Obeys rule' post' log := by
  induction program generalizing log with
  | done value => exact posts _ _ obeys
  | raise error => exact posts _ _ obeys
  | call op next ih => exact ⟨rules _ _ obeys.1, fun result => ih result (obeys.2 result)⟩

/-- Weaken only what is known about the outcome. -/
theorem weaken {post post' : Log F ε → Except ε α → Prop} {program : Program F ε α}
    (obeys : program.Obeys rule post log)
    (posts : ∀ log outcome, post log outcome → post' log outcome) :
    program.Obeys rule post' log :=
  obeys.mono (fun _ _ allowed => allowed) posts

/-- Sequencing rule: the second program starts from what the first one guarantees. -/
theorem bind {post : Log F ε → Except ε β → Prop} {mid : Log F ε → Except ε α → Prop}
    {first : Program F ε α} {next : α → Program F ε β}
    (obeys : first.Obeys rule mid log)
    (raised : ∀ log error, mid log (.error error) → post log (.error error))
    (rest : ∀ log value, mid log (.ok value) → (next value).Obeys rule post log) :
    (first.bind next).Obeys rule post log := by
  induction first generalizing log with
  | done value => exact rest _ _ obeys
  | raise error => exact raised _ _ obeys
  | call op continuation ih => exact ⟨obeys.1, fun result => ih result (obeys.2 result)⟩

/-- Capturing the outcome turns both ways of ending into a normal end. -/
theorem attempt {mid : Log F ε → Except ε α → Prop}
    {post : Log F ε → Except ε (Except ε α) → Prop} {program : Program F ε α}
    (obeys : program.Obeys rule mid log)
    (ends : ∀ log outcome, mid log outcome → post log (.ok outcome)) :
    program.attempt.Obeys rule post log := by
  induction program generalizing log with
  | done value => exact ends _ _ obeys
  | raise error => exact ends _ _ obeys
  | call op next ih => exact ⟨obeys.1, fun result => ih result (obeys.2 result)⟩

/-- Rule of one operation. -/
theorem perform {op : F.Op} {post : Log F ε → Except ε (F.Result op) → Prop}
    (allowed : rule log op)
    (ends : ∀ result, post (⟨op, result⟩ :: log) result) :
    (Program.perform op).Obeys rule post log := by
  refine ⟨allowed, fun result => ?_⟩
  cases result with
  | ok value => exact ends (.ok value)
  | error error => exact ends (.error error)

/-- A history only grows, so what follows a program may use what came before it. -/
theorem extend {post : Log F ε → Except ε α → Prop} {program : Program F ε α}
    (obeys : program.Obeys rule post log) :
    program.Obeys rule (fun log' outcome => log <:+ log' ∧ post log' outcome) log := by
  induction program generalizing log with
  | done value => exact ⟨List.suffix_refl _, obeys⟩
  | raise error => exact ⟨List.suffix_refl _, obeys⟩
  | call op next ih =>
      refine ⟨obeys.1, fun result => (ih result (obeys.2 result)).weaken ?_⟩
      rintro log' outcome ⟨longer, ends⟩
      exact ⟨(List.suffix_cons _ _).trans longer, ends⟩

/-- Two rules obeyed separately are obeyed together. -/
theorem both {post post' : Log F ε → Except ε α → Prop} {program : Program F ε α}
    (one : program.Obeys rule post log) (two : program.Obeys rule' post' log) :
    program.Obeys (fun log op => rule log op ∧ rule' log op)
      (fun log outcome => post log outcome ∧ post' log outcome) log := by
  induction program generalizing log with
  | done value => exact ⟨one, two⟩
  | raise error => exact ⟨one, two⟩
  | call op next ih =>
      exact ⟨⟨one.1, two.1⟩, fun result => ih result (one.2 result) (two.2 result)⟩

/-- A property of histories that the allowed operations keep is carried to the end, and may be
used for the operations on the way. -/
theorem carry {P : Log F ε → Prop} {Q : Log F ε → F.Op → Prop}
    {post : Log F ε → Except ε α → Prop} {program : Program F ε α}
    (obeys : program.Obeys rule post log)
    (allowed : ∀ log op, rule log op → P log → Q log op)
    (kept : ∀ log op result, rule log op → P log → P (⟨op, result⟩ :: log)) (holds : P log) :
    program.Obeys Q (fun log' outcome => post log' outcome ∧ P log') log := by
  induction program generalizing log with
  | done value => exact ⟨obeys, holds⟩
  | raise error => exact ⟨obeys, holds⟩
  | call op next ih =>
      refine ⟨allowed _ _ obeys.1 holds, fun result => ?_⟩
      exact ih result (obeys.2 result) (kept _ _ result obeys.1 holds)

/-! #### Programs judged by what they return

An exception carries no obligation here. -/

/-- The outcome predicate that speaks of returned values only. -/
def returns (Q : Log F ε → α → Prop) : Log F ε → Except ε α → Prop
  | log, .ok value => Q log value
  | _, .error _ => True

theorem of_done {Q : Log F ε → α → Prop} {value : α} (ends : Q log value) :
    (Program.done value : Program F ε α).Obeys rule (returns Q) log := ends

theorem of_raise {Q : Log F ε → α → Prop} {error : ε} :
    (Program.raise error : Program F ε α).Obeys rule (returns Q) log := trivial

theorem of_ofExcept {Q : Log F ε → α → Prop} {outcome : Except ε α}
    (ends : ∀ value, outcome = .ok value → Q log value) :
    (ofExcept outcome : Program F ε α).Obeys rule (returns Q) log := by
  cases outcome with
  | ok value => exact ends value rfl
  | error error => exact trivial

/-- Sequencing, with the first history inside the second. -/
theorem seq {Q : Log F ε → β → Prop} {M : Log F ε → α → Prop}
    {first : Program F ε α} {next : α → Program F ε β}
    (obeys : first.Obeys rule (returns M) log)
    (rest : ∀ log' value, log <:+ log' → M log' value →
      (next value).Obeys rule (returns Q) log') :
    (first.bind next).Obeys rule (returns Q) log :=
  obeys.extend.bind (fun _ _ _ => trivial) fun log' value ends => rest log' value ends.1 ends.2

variable {op : F.Op}

/-- One operation followed by the rest of a program. -/
theorem afterCall {Q : Log F ε → β → Prop} {next : F.Result op → Program F ε β}
    (allowed : rule log op)
    (rest : ∀ value, (next value).Obeys rule (returns Q) (⟨op, .ok value⟩ :: log)) :
    (Program.call op fun result => (ofExcept result).bind next).Obeys rule (returns Q) log := by
  refine ⟨allowed, fun result => ?_⟩
  cases result with
  | ok value => exact rest value
  | error error => exact trivial

/-- One operation whose outcome the program inspects. -/
theorem afterAttempt {Q : Log F ε → β → Prop}
    {next : Except ε (F.Result op) → Program F ε β} (allowed : rule log op)
    (rest : ∀ result, (next result).Obeys rule (returns Q) (⟨op, result⟩ :: log)) :
    (Program.call op fun result => (ofExcept result).attempt.bind next).Obeys rule (returns Q)
      log := by
  refine ⟨allowed, fun result => ?_⟩
  simpa using rest result

/-- Capturing the outcome of a program. -/
theorem captured {Q : Log F ε → α → Prop} {program : Program F ε α}
    (obeys : program.Obeys rule (returns Q) log) :
    program.attempt.Obeys rule
      (returns fun log' outcome => ∀ value, outcome = .ok value → Q log' value) log := by
  refine obeys.attempt fun log' outcome ends value same => ?_
  subst same
  exact ends

/-- Weaken only what is known about returned values. -/
theorem returning {Q Q' : Log F ε → α → Prop} {program : Program F ε α}
    (obeys : program.Obeys rule (returns Q) log)
    (weaker : ∀ log' value, log <:+ log' → Q log' value → Q' log' value) :
    program.Obeys rule (returns Q') log := by
  refine obeys.extend.weaken fun log' outcome ends => ?_
  cases outcome with
  | ok value => exact weaker log' value ends.1 ends.2
  | error error => exact trivial

end Obeys

end Program

/-! ### Execution against a world -/

/-- A world that answers operations.  `Answer` is what the outside decides: the reply of a
model or of a handler, or that the operation is refused. -/
structure Machine (F : Signature) (ε World Answer : Type) where
  answer : (op : F.Op) → Answer → World → Except ε (F.Result op) × World

namespace Program

variable {F : Signature} {ε α β World Answer : Type}

/-- Run a program to its end with nothing interleaved. -/
def execute (machine : Machine F ε World Answer) (answers : F.Op → Answer) :
    Program F ε α → World → Except ε α × World
  | .done value, world => (.ok value, world)
  | .raise error, world => (.error error, world)
  | .call op next, world =>
      let (result, world') := machine.answer op (answers op) world
      (next result).execute machine answers world'

/-- Run at most `count` operations and then kill the process: only the world survives. -/
def runFor (machine : Machine F ε World Answer) (answers : F.Op → Answer) :
    Nat → Program F ε α → World → World
  | 0, _, world => world
  | _ + 1, .done _, world => world
  | _ + 1, .raise _, world => world
  | count + 1, .call op next, world =>
      let (result, world') := machine.answer op (answers op) world
      (next result).runFor machine answers count world'

variable {machine : Machine F ε World Answer} {answers : F.Op → Answer}

@[simp] theorem execute_done (value : α) (world : World) :
    (Program.done value : Program F ε α).execute machine answers world = (.ok value, world) := rfl

@[simp] theorem execute_raise (error : ε) (world : World) :
    (Program.raise error : Program F ε α).execute machine answers world =
      (.error error, world) := rfl

/-- Sequencing runs the second program in the world the first one left. -/
theorem execute_bind (first : Program F ε α) (next : α → Program F ε β) (world : World) :
    (first.bind next).execute machine answers world =
      match first.execute machine answers world with
      | (.ok value, world') => (next value).execute machine answers world'
      | (.error error, world') => (.error error, world') := by
  induction first generalizing world with
  | done value => rfl
  | raise error => rfl
  | call op rest ih => exact ih _ _

/-- Capturing the outcome does not change the run. -/
theorem execute_attempt (program : Program F ε α) (world : World) :
    program.attempt.execute machine answers world =
      (.ok (program.execute machine answers world).1,
        (program.execute machine answers world).2) := by
  induction program generalizing world with
  | done value => rfl
  | raise error => rfl
  | call op rest ih => exact ih _ _

/-- One operation answers in the world it finds. -/
theorem execute_perform (op : F.Op) (world : World) :
    (Program.perform op).execute machine answers world =
      machine.answer op (answers op) world := by
  rcases answered : machine.answer op (answers op) world with ⟨result, world'⟩
  cases result <;> simp [perform, execute, answered]

/-! ### Rules for uninterrupted execution -/

/-- The program that runs alone from the first world ends so, in the second world. -/
def RunsTo (machine : Machine F ε World Answer) (answers : F.Op → Answer) (program : Program F ε α)
    (world : World) (outcome : Except ε α) (world' : World) : Prop :=
  program.execute machine answers world = (outcome, world')

namespace RunsTo

variable {world mid world' : World}

theorem done (value : α) :
    RunsTo machine answers (.done value : Program F ε α) world (.ok value) world := rfl

theorem raise (error : ε) :
    RunsTo machine answers (.raise error : Program F ε α) world (.error error) world := rfl

theorem perform (op : F.Op) :
    RunsTo machine answers (Program.perform op) world (machine.answer op (answers op) world).1
      (machine.answer op (answers op) world).2 :=
  execute_perform op world

/-- Sequencing after a normal end. -/
theorem bind {first : Program F ε α} {next : α → Program F ε β} {value : α}
    {outcome : Except ε β} (runs : RunsTo machine answers first world (.ok value) mid)
    (rest : RunsTo machine answers (next value) mid outcome world') :
    RunsTo machine answers (first.bind next) world outcome world' := by
  unfold RunsTo at runs rest ⊢
  rw [execute_bind, runs]
  exact rest

/-- Sequencing after an exception. -/
theorem bindRaised {first : Program F ε α} {next : α → Program F ε β} {error : ε}
    (runs : RunsTo machine answers first world (.error error) mid) :
    RunsTo machine answers (first.bind next) world (.error error) mid := by
  unfold RunsTo at runs ⊢
  rw [execute_bind, runs]

/-- A sequence that returned passed through its first part. -/
theorem of_bind {first : Program F ε α} {next : α → Program F ε β} {value : β}
    (runs : RunsTo machine answers (first.bind next) world (.ok value) world') :
    ∃ result mid, RunsTo machine answers first world (.ok result) mid ∧
      RunsTo machine answers (next result) mid (.ok value) world' := by
  unfold RunsTo at runs ⊢
  rw [execute_bind] at runs
  rcases outcome : first.execute machine answers world with ⟨exc | result, mid⟩
  · rw [outcome] at runs
    cases runs
  · rw [outcome] at runs
    exact ⟨result, mid, rfl, runs⟩

/-- What follows the first part of a sequence. -/
theorem after {first : Program F ε α} {next : α → Program F ε β} {value : α}
    {outcome : Except ε β} (runs : RunsTo machine answers first world (.ok value) mid)
    (whole : RunsTo machine answers (first.bind next) world outcome world') :
    RunsTo machine answers (next value) mid outcome world' := by
  unfold RunsTo at runs whole ⊢
  rwa [execute_bind, runs] at whole

theorem of_ofExcept {outcome : Except ε α} {value : α}
    (runs : RunsTo machine answers (Program.ofExcept outcome) world (.ok value) world') :
    outcome = .ok value ∧ world' = world := by
  cases outcome with
  | error exc => cases runs
  | ok result =>
      obtain ⟨same, rfl⟩ := Prod.mk.inj runs
      exact ⟨same, rfl⟩

theorem attempt {program : Program F ε α} {outcome : Except ε α}
    (runs : RunsTo machine answers program world outcome world') :
    RunsTo machine answers program.attempt world (.ok outcome) world' := by
  unfold RunsTo at runs ⊢
  rw [execute_attempt, runs]

/-- What every operation keeps, a run keeps. -/
theorem keeps (I : World → Prop)
    (kept : ∀ op answer world, I world → I (machine.answer op answer world).2)
    {program : Program F ε α} {outcome : Except ε α}
    (runs : RunsTo machine answers program world outcome world') (holds : I world) : I world' := by
  induction program generalizing world with
  | done value =>
      obtain ⟨-, rfl⟩ := Prod.mk.inj runs
      exact holds
  | raise error =>
      obtain ⟨-, rfl⟩ := Prod.mk.inj runs
      exact holds
  | call op next ih => exact ih _ runs (kept _ _ _ holds)

/-- A program ends in one way. -/
theorem unique {program : Program F ε α} {outcome outcome' : Except ε α}
    (runs : RunsTo machine answers program world outcome mid)
    (runs' : RunsTo machine answers program world outcome' world') :
    outcome = outcome' ∧ mid = world' := by
  unfold RunsTo at runs runs'
  rw [runs, Prod.mk.injEq] at runs'
  exact runs'

end RunsTo

/-- What every allowed operation leaves alone, a program that keeps to the rule leaves alone. -/
theorem execute_frame {γ : Type} {rule : Log F ε → F.Op → Prop}
    {post : Log F ε → Except ε α → Prop} (frame : World → γ)
    (keeps : ∀ log op answer world, rule log op →
      frame (machine.answer op answer world).2 = frame world)
    {log : Log F ε} {program : Program F ε α} (obeys : program.Obeys rule post log)
    (world : World) : frame (program.execute machine answers world).2 = frame world := by
  induction program generalizing log world with
  | done value => rfl
  | raise error => rfl
  | call op next ih =>
      exact (ih _ (obeys.tail _) _).trans (keeps log op (answers op) world obeys.head)

/-- What every allowed operation keeps, a program that keeps to the rule keeps. -/
theorem execute_keeps {rule : Log F ε → F.Op → Prop} {post : Log F ε → Except ε α → Prop}
    (I : World → Prop)
    (keeps : ∀ log op answer world, rule log op → I world → I (machine.answer op answer world).2)
    {log : Log F ε} {program : Program F ε α} (obeys : program.Obeys rule post log)
    {world : World} (holds : I world) : I (program.execute machine answers world).2 := by
  induction program generalizing log world with
  | done value => exact holds
  | raise error => exact holds
  | call op next ih =>
      exact ih _ (obeys.tail _) (keeps log op (answers op) world obeys.head holds)

end Program

end PreActive.Foundation
