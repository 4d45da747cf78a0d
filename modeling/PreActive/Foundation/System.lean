/-
Module: PreActive.Foundation.System
Purpose: Processes interleaving their atomic operations on one shared world, with process
  death between any two operations, and the induction rules for their reachable states.
Trusted boundary: none
Main exports:
  Process, Config, Label, System, System.step, System.Reachable,
  System.Reachable.invariant, System.Reachable.obeys, System.Reachable.lawful,
  System.Reachable.learned_with, System.Reachable.learned, System.Reachable.calls,
  System.Reachable.performed
-/
import PreActive.Foundation.Program
import Mathlib.Data.List.Basic

namespace PreActive.Foundation

/-- A started call: what was called, what is left to do, and what it has done so far.  A dead
process keeps its record but performs nothing more. -/
structure Process (F : Signature) (ε Call : Type) where
  call : Call
  rest : Program F ε Unit
  log : Log F ε
  alive : Bool

namespace Process

variable {F : Signature} {ε Call : Type}

/-- The operation a live process is about to perform. -/
def nextOp (process : Process F ε Call) : Option F.Op :=
  match process.alive, process.rest with
  | true, .call op _ => some op
  | _, _ => none

theorem nextOp_call {call : Call} {op : F.Op}
    {next : Except ε (F.Result op) → Program F ε Unit} {log : Log F ε} :
    (Process.mk call (.call op next) log true).nextOp = some op := rfl

@[simp] theorem nextOp_dead (process : Process F ε Call) :
    ({ process with alive := false } : Process F ε Call).nextOp = none := rfl

end Process

/-- A shared world and the processes started on it. -/
structure Config (F : Signature) (ε World Call : Type) where
  world : World
  procs : List (Process F ε Call)

/-- What the scheduler may do: start a call, let one process perform its next operation with
an answer from outside, or kill a process. -/
inductive Label (Answer Call : Type) where
  | spawn (call : Call)
  | act (pid : Nat) (answer : Answer)
  | die (pid : Nat)

/-- A machine together with the program of every call. -/
structure System (F : Signature) (ε World Answer Call : Type) extends
    Machine F ε World Answer where
  program : Call → Program F ε Unit

namespace System

variable {F : Signature} {ε World Answer Call : Type}
variable (S : System F ε World Answer Call)

/-- One scheduling step; `none` when the label names nothing that can happen. -/
def step (config : Config F ε World Call) : Label Answer Call → Option (Config F ε World Call)
  | .spawn call =>
      some { config with procs := config.procs ++ [⟨call, S.program call, [], true⟩] }
  | .act pid answer =>
      match config.procs[pid]? with
      | some ⟨call, .call op next, log, true⟩ =>
          let (result, world') := S.answer op answer config.world
          some
            { world := world'
              procs := config.procs.set pid ⟨call, next result, ⟨op, result⟩ :: log, true⟩ }
      | _ => none
  | .die pid =>
      match config.procs[pid]? with
      | some process =>
          some { config with procs := config.procs.set pid { process with alive := false } }
      | none => none

/-- A whole schedule, each step of which passes a guard. -/
def run (guard : Config F ε World Call → Label Answer Call → Bool)
    (config : Config F ε World Call) :
    List (Label Answer Call) → Option (Config F ε World Call)
  | [] => some config
  | label :: labels =>
      if guard config label then
        match S.step config label with
        | some config' => run guard config' labels
        | none => none
      else none

variable {S}

/-- Everything one scheduling step can have done. -/
theorem step_cases {config config' : Config F ε World Call} {label : Label Answer Call}
    (stepped : S.step config label = some config') :
    (∃ call, label = .spawn call ∧
      config' = { config with procs := config.procs ++ [⟨call, S.program call, [], true⟩] }) ∨
    (∃ pid answer call op next log,
      label = .act pid answer ∧
      config.procs[pid]? = some ⟨call, .call op next, log, true⟩ ∧
      config' =
        { world := (S.answer op answer config.world).2
          procs := config.procs.set pid
            ⟨call, next (S.answer op answer config.world).1,
              ⟨op, (S.answer op answer config.world).1⟩ :: log, true⟩ }) ∨
    (∃ pid process, label = .die pid ∧ config.procs[pid]? = some process ∧
      config' =
        { config with procs := config.procs.set pid { process with alive := false } }) := by
  cases label with
  | spawn call =>
      simp only [step, Option.some.injEq] at stepped
      exact .inl ⟨call, rfl, stepped.symm⟩
  | act pid answer =>
      simp only [step] at stepped
      split at stepped
      · rename_i call op next log found
        simp only [Option.some.injEq] at stepped
        exact .inr (.inl ⟨pid, answer, call, op, next, log, rfl, found, stepped.symm⟩)
      · cases stepped
  | die pid =>
      simp only [step] at stepped
      split at stepped
      · rename_i process found
        simp only [Option.some.injEq] at stepped
        exact .inr (.inr ⟨pid, process, rfl, found, stepped.symm⟩)
      · cases stepped

/-- What a process list can contain after one entry was replaced. -/
theorem mem_set_cases {procs : List (Process F ε Call)} {pid : Nat}
    {fresh process : Process F ε Call} (member : process ∈ procs.set pid fresh) :
    process ∈ procs ∨ process = fresh :=
  List.mem_or_eq_of_mem_set member

/-- The configurations reachable from a starting one by steps that `allowed` admits. -/
inductive Reachable (S : System F ε World Answer Call)
    (allowed : Config F ε World Call → Label Answer Call → Prop)
    (start : Config F ε World Call) : Config F ε World Call → Prop where
  | start : Reachable S allowed start start
  | step {config config' : Config F ε World Call} {label : Label Answer Call}
      (before : Reachable S allowed start config)
      (admitted : allowed config label)
      (stepped : S.step config label = some config') :
      Reachable S allowed start config'

namespace Reachable

variable {allowed allowed' : Config F ε World Call → Label Answer Call → Prop}
variable {start config config' : Config F ε World Call}

/-- An invariant of the start that every admitted step keeps holds in every reachable state. -/
theorem invariant {I : Config F ε World Call → Prop} (initial : I start)
    (preserved : ∀ config label config', Reachable S allowed start config → I config →
      allowed config label → S.step config label = some config' → I config')
    (reached : Reachable S allowed start config) : I config := by
  induction reached with
  | start => exact initial
  | step before admitted stepped ih => exact preserved _ _ _ before ih admitted stepped

/-- Only the steps in reachable states matter. -/
theorem mono_reached (wider : ∀ config label, Reachable S allowed start config →
    allowed config label → allowed' config label)
    (reached : Reachable S allowed start config) : Reachable S allowed' start config := by
  induction reached with
  | start => exact .start
  | step before admitted stepped ih => exact .step ih (wider _ _ before admitted) stepped

/-- Admitting more steps reaches at least as much. -/
theorem mono (wider : ∀ config label, allowed config label → allowed' config label)
    (reached : Reachable S allowed start config) : Reachable S allowed' start config :=
  reached.mono_reached fun config label _ => wider config label

/-- Runs compose. -/
theorem trans (first : Reachable S allowed start config)
    (second : Reachable S allowed config config') : Reachable S allowed start config' := by
  induction second with
  | start => exact first
  | step _ admitted stepped ih => exact .step ih admitted stepped

/-- A schedule that passes its guard, and whose labels have a property, leads to a reachable
state. -/
theorem of_run_each {guard : Config F ε World Call → Label Answer Call → Bool}
    {P : Label Answer Call → Prop} (labels : List (Label Answer Call))
    (each : ∀ label ∈ labels, P label) {start config : Config F ε World Call}
    (ran : S.run guard start labels = some config) :
    Reachable S (fun config label => P label ∧ guard config label = true) start config := by
  induction labels generalizing start with
  | nil =>
      simp only [run, Option.some.injEq] at ran
      exact ran ▸ .start
  | cons label labels ih =>
      simp only [run] at ran
      split at ran
      · rename_i passed
        split at ran
        · rename_i middle stepped
          have first : P label := each label List.mem_cons_self
          exact (Reachable.step .start ⟨first, passed⟩ stepped).trans
            (ih (fun later member => each later (List.mem_cons_of_mem _ member)) ran)
        · cases ran
      · cases ran

/-- What a guarded schedule of labels with a property shows about the state it ends in. -/
theorem exists_of_run_each {guard : Config F ε World Call → Label Answer Call → Bool}
    {check : Config F ε World Call → Bool} {P : Label Answer Call → Prop}
    (labels : List (Label Answer Call)) (each : ∀ label ∈ labels, P label)
    (ran : (S.run guard start labels).any check = true) :
    ∃ config, Reachable S (fun config label => P label ∧ guard config label = true) start config ∧
      check config = true := by
  cases ended : S.run guard start labels with
  | none => simp [ended] at ran
  | some config => exact ⟨config, of_run_each labels each ended, by simpa [ended] using ran⟩

/-- What a guarded schedule shows about the state it ends in. -/
theorem exists_of_run {guard : Config F ε World Call → Label Answer Call → Bool}
    {check : Config F ε World Call → Bool} (labels : List (Label Answer Call))
    (ran : (S.run guard start labels).any check = true) :
    ∃ config, Reachable S (fun config label => guard config label = true) start config ∧
      check config = true := by
  obtain ⟨config, reached, checked⟩ :=
    exists_of_run_each (P := fun _ => True) labels (fun _ _ => trivial) ran
  exact ⟨config, reached.mono fun _ _ both => both.2, checked⟩

/-- What a guarded schedule shows about a state on the way and the state it ends in. -/
theorem exists_of_run_then {guard : Config F ε World Call → Label Answer Call → Bool}
    {check check' : Config F ε World Call → Bool} (labels labels' : List (Label Answer Call))
    (ran : (S.run guard start labels).any (fun config =>
      check config && (S.run guard config labels').any check') = true) :
    ∃ config config', Reachable S (fun config label => guard config label = true) start config ∧
      Reachable S (fun config label => guard config label = true) config config' ∧
        check config = true ∧ check' config' = true := by
  obtain ⟨config, first, passed⟩ := exists_of_run labels ran
  rw [Bool.and_eq_true] at passed
  obtain ⟨config', second, ended⟩ := exists_of_run labels' passed.2
  exact ⟨config, config', first, second, passed.1, ended⟩

/-- Every process is running the rest of its own program: if the programs obey a rule, so does
what is left of each process after its own history. -/
theorem obeys {rule : Call → Log F ε → F.Op → Prop}
    (programs : ∀ call, (S.program call).Obeys (rule call) Program.anyOutcome [])
    (empty : start.procs = [])
    (reached : Reachable S allowed start config) :
    ∀ process ∈ config.procs,
      process.rest.Obeys (rule process.call) Program.anyOutcome process.log := by
  refine reached.invariant (I := fun config => ∀ process ∈ config.procs,
    process.rest.Obeys (rule process.call) Program.anyOutcome process.log) ?_ ?_
  · simp [empty]
  · intro config label config' _ obeyed _ stepped
    rcases step_cases stepped with
      ⟨call, rfl, rfl⟩ | ⟨pid, answer, call, op, next, log, rfl, found, rfl⟩ |
        ⟨pid, process, rfl, found, rfl⟩
    · intro process member
      rcases List.mem_append.1 member with old | fresh
      · exact obeyed process old
      · rw [List.mem_singleton] at fresh
        exact fresh ▸ programs call
    · intro process member
      rcases mem_set_cases member with old | rfl
      · exact obeyed process old
      · exact (obeyed _ (List.mem_of_getElem? found)).tail _
    · intro process' member
      rcases mem_set_cases member with old | rfl
      · exact obeyed process' old
      · exact obeyed process (List.mem_of_getElem? found)

/-- Every operation of a history was allowed after what came before it. -/
def Lawful (rule : Log F ε → F.Op → Prop) : Log F ε → Prop
  | [] => True
  | entry :: older => rule older entry.op ∧ Lawful rule older

theorem Lawful.of_suffix {rule : Log F ε → F.Op → Prop} {log older : Log F ε} {entry : Entry F ε}
    (lawful : Lawful rule log) (longer : entry :: older <:+ log) : rule older entry.op := by
  induction log with
  | nil => simp at longer
  | cons first rest ih =>
      rcases List.suffix_cons_iff.1 longer with same | later
      · rw [← same] at lawful
        exact lawful.1
      · exact ih lawful.2 later

theorem Lawful.of_mem {rule : Log F ε → F.Op → Prop} {log : Log F ε} {entry : Entry F ε}
    (lawful : Lawful rule log) (member : entry ∈ log) :
    ∃ older, entry :: older <:+ log ∧ rule older entry.op := by
  induction log with
  | nil => cases member
  | cons first rest ih =>
      rcases List.mem_cons.1 member with rfl | later
      · exact ⟨rest, List.suffix_refl _, lawful.1⟩
      · obtain ⟨older, longer, allowed⟩ := ih lawful.2 later
        exact ⟨older, longer.trans (List.suffix_cons _ _), allowed⟩

/-- Two operations that a rule only allows after histories of one length are the same step. -/
theorem Lawful.eq_of_length {rule : Log F ε → F.Op → Prop} {log : Log F ε}
    {entry entry' : Entry F ε} (count : Nat) (lawful : Lawful rule log) (member : entry ∈ log)
    (member' : entry' ∈ log) (first : ∀ older, rule older entry.op → older.length = count)
    (second : ∀ older, rule older entry'.op → older.length = count) : entry = entry' := by
  obtain ⟨older, longer, allowed⟩ := lawful.of_mem member
  obtain ⟨older', longer', allowed'⟩ := lawful.of_mem member'
  have lengths : (entry :: older).length = (entry' :: older').length := by
    rw [List.length_cons, List.length_cons, first _ allowed, second _ allowed']
  have same : entry :: older = entry' :: older' :=
    (List.suffix_of_suffix_length_le longer longer' (Nat.le_of_eq lengths)).eq_of_length lengths
  exact (List.cons.inj same).1

/-- What a process has performed was allowed when it was performed. -/
theorem lawful {rule : Call → Log F ε → F.Op → Prop}
    (programs : ∀ call, (S.program call).Obeys (rule call) Program.anyOutcome [])
    (empty : start.procs = [])
    (reached : Reachable S allowed start config) :
    ∀ process ∈ config.procs, Lawful (rule process.call) process.log := by
  refine reached.invariant (I := fun config => ∀ process ∈ config.procs,
    Lawful (rule process.call) process.log) ?_ ?_
  · simp [empty]
  · intro config label config' before held _ stepped
    have obeyed := before.obeys programs empty
    rcases step_cases stepped with
      ⟨call, rfl, rfl⟩ | ⟨pid, answer, call, op, next, log, rfl, found, rfl⟩ |
        ⟨pid, process, rfl, found, rfl⟩
    · intro process member
      rcases List.mem_append.1 member with old | fresh
      · exact held process old
      · rw [List.mem_singleton] at fresh
        rw [fresh]
        trivial
    · intro process member
      rcases mem_set_cases member with old | rfl
      · exact held process old
      · have running := List.mem_of_getElem? found
        exact ⟨(obeyed _ running).head, held _ running⟩
    · intro process' member
      rcases mem_set_cases member with old | rfl
      · exact held process' old
      · exact held process (List.mem_of_getElem? found)

/-- What the steps of a process have taught it: a fact about an entry of its history may use the
history before that entry. -/
def Learned (fact : Log F ε → Entry F ε → World → Prop) (world : World) : Log F ε → Prop
  | [] => True
  | entry :: older => fact older entry world ∧ Learned fact world older

theorem Learned.of_mem {fact : Log F ε → Entry F ε → World → Prop} {world : World}
    {log : Log F ε} {entry : Entry F ε} (learned : Learned fact world log)
    (member : entry ∈ log) : ∃ older, entry :: older <:+ log ∧ fact older entry world := by
  induction log with
  | nil => cases member
  | cons first rest ih =>
      rcases List.mem_cons.1 member with rfl | later
      · exact ⟨rest, List.suffix_refl _, learned.1⟩
      · obtain ⟨older, longer, holds⟩ := ih learned.2 later
        exact ⟨older, longer.trans (List.suffix_cons _ _), holds⟩

theorem Learned.mono {fact : Log F ε → Entry F ε → World → Prop} {world world' : World}
    {log : Log F ε} (stable : ∀ older entry, fact older entry world → fact older entry world')
    (learned : Learned fact world log) : Learned fact world' log := by
  induction log with
  | nil => trivial
  | cons entry older ih => exact ⟨stable _ _ learned.1, ih learned.2⟩

/-- A property of the world and what every process has learned hold together: it is enough that
an operation keeps the property and establishes the fact about its own entry, and that no
operation destroys a fact. -/
theorem learned_with {I : World → Prop} (fact : Call → Log F ε → Entry F ε → World → Prop)
    (initial : I start.world)
    (keeps : ∀ config pid call op next log answer, Reachable S allowed start config →
      config.procs[pid]? = some ⟨call, .call op next, log, true⟩ →
      allowed config (.act pid answer) → I config.world → Learned (fact call) config.world log →
      I (S.answer op answer config.world).2)
    (established : ∀ config pid call op next log answer, Reachable S allowed start config →
      config.procs[pid]? = some ⟨call, .call op next, log, true⟩ →
      allowed config (.act pid answer) → I config.world → Learned (fact call) config.world log →
      fact call log ⟨op, (S.answer op answer config.world).1⟩ (S.answer op answer config.world).2)
    (stable : ∀ config pid call op next log answer, Reachable S allowed start config →
      config.procs[pid]? = some ⟨call, .call op next, log, true⟩ →
      allowed config (.act pid answer) → I config.world → ∀ call older entry,
      fact call older entry config.world →
        fact call older entry (S.answer op answer config.world).2)
    (empty : start.procs = []) (reached : Reachable S allowed start config) :
    I config.world ∧
      ∀ process ∈ config.procs, Learned (fact process.call) config.world process.log := by
  refine reached.invariant (I := fun config => I config.world ∧
    ∀ process ∈ config.procs, Learned (fact process.call) config.world process.log) ?_ ?_
  · simp [empty, initial]
  · rintro config label config' before ⟨holds, knows⟩ admitted stepped
    rcases step_cases stepped with
      ⟨call, rfl, rfl⟩ | ⟨pid, answer, call, op, next, log, rfl, found, rfl⟩ |
        ⟨pid, process, rfl, found, rfl⟩
    · refine ⟨holds, fun process member => ?_⟩
      rcases List.mem_append.1 member with old | fresh
      · exact knows process old
      · rw [List.mem_singleton] at fresh
        rw [fresh]
        trivial
    · have own := knows _ (List.mem_of_getElem? found)
      have stays := stable config pid call op next log answer before found admitted holds
      refine ⟨keeps config pid call op next log answer before found admitted holds own, ?_⟩
      intro process member
      rcases mem_set_cases member with old | rfl
      · exact (knows process old).mono (stays _)
      · exact ⟨established config pid call op next log answer before found admitted holds own,
          own.mono (stays _)⟩
    · refine ⟨holds, fun process' member => ?_⟩
      rcases mem_set_cases member with old | rfl
      · exact knows process' old
      · exact knows process (List.mem_of_getElem? found)

/-- What every process has learned stays true. -/
theorem learned (fact : Call → Log F ε → Entry F ε → World → Prop)
    (established : ∀ config pid call op next log answer, Reachable S allowed start config →
      config.procs[pid]? = some ⟨call, .call op next, log, true⟩ →
      allowed config (.act pid answer) → Learned (fact call) config.world log →
      fact call log ⟨op, (S.answer op answer config.world).1⟩ (S.answer op answer config.world).2)
    (stable : ∀ config pid call op next log answer, Reachable S allowed start config →
      config.procs[pid]? = some ⟨call, .call op next, log, true⟩ →
      allowed config (.act pid answer) → ∀ call older entry, fact call older entry config.world →
      fact call older entry (S.answer op answer config.world).2)
    (empty : start.procs = []) (reached : Reachable S allowed start config) :
    ∀ process ∈ config.procs, Learned (fact process.call) config.world process.log := by
  have both := reached.learned_with (I := fun _ => True) fact trivial
    (fun _ _ _ _ _ _ _ _ _ _ _ _ => trivial)
    (fun config pid call op next log answer before found admitted _ own =>
      established config pid call op next log answer before found admitted own)
    (fun config pid call op next log answer before found admitted _ =>
      stable config pid call op next log answer before found admitted) empty
  exact both.2

/-- A restriction on the calls that are started holds of every process. -/
theorem calls {P : Call → Prop} (spawned : ∀ config call, allowed config (.spawn call) → P call)
    (empty : start.procs = []) (reached : Reachable S allowed start config) :
    ∀ process ∈ config.procs, P process.call := by
  refine reached.invariant (I := fun config => ∀ process ∈ config.procs, P process.call) ?_ ?_
  · simp [empty]
  · intro config label config' _ held admitted stepped
    rcases step_cases stepped with
      ⟨call, rfl, rfl⟩ | ⟨pid, answer, call, op, next, log, rfl, found, rfl⟩ |
        ⟨pid, process, rfl, found, rfl⟩
    · intro process member
      rcases List.mem_append.1 member with old | fresh
      · exact held process old
      · rw [List.mem_singleton] at fresh
        rw [fresh]
        exact spawned config call admitted
    · intro process member
      rcases mem_set_cases member with old | rfl
      · exact held process old
      · have running := held _ (List.mem_of_getElem? found)
        exact running
    · intro process' member
      rcases mem_set_cases member with old | rfl
      · exact held process' old
      · exact held process (List.mem_of_getElem? found)

/-- A process of a kind of calls that has something left to do. -/
def Busy (kind : Call → Prop) (process : Process F ε Call) : Prop :=
  kind process.call ∧ process.nextOp.isSome = true

/-- Calls of a kind that are started only while no process of that kind is busy are busy one at a
time. -/
theorem alone {kind : Call → Prop}
    (guarded : ∀ config call, allowed config (.spawn call) → kind call →
      ∀ process ∈ config.procs, ¬ Busy kind process)
    (empty : start.procs = []) (reached : Reachable S allowed start config) :
    ∀ (i j : Nat) (one other : Process F ε Call), config.procs[i]? = some one →
      config.procs[j]? = some other → Busy kind one → Busy kind other → i = j := by
  refine reached.invariant (I := fun config =>
    ∀ (i j : Nat) (one other : Process F ε Call), config.procs[i]? = some one →
      config.procs[j]? = some other → Busy kind one → Busy kind other → i = j) ?_ ?_
  · simp [empty]
  · intro config label config' _ held admitted stepped
    -- a step that replaces a process by one that is busy only if the old one was
    have replaced : ∀ (pid : Nat) (old fresh : Process F ε Call), config.procs[pid]? = some old →
        (Busy kind fresh → Busy kind old) →
        ∀ (i j : Nat) (one other : Process F ε Call), (config.procs.set pid fresh)[i]? = some one →
          (config.procs.set pid fresh)[j]? = some other → Busy kind one → Busy kind other →
            i = j := by
      intro pid old fresh found less i j one other isOne isOther busyOne busyOther
      have before : ∀ (k : Nat) (process : Process F ε Call),
          (config.procs.set pid fresh)[k]? = some process → Busy kind process →
            ∃ process', config.procs[k]? = some process' ∧ Busy kind process' := by
        intro k process there busy
        rw [List.getElem?_set] at there
        split at there
        · rename_i same
          subst same
          split at there
          · cases there
            exact ⟨old, found, less busy⟩
          · cases there
        · exact ⟨process, there, busy⟩
      obtain ⟨one', isOne', busyOne'⟩ := before i one isOne busyOne
      obtain ⟨other', isOther', busyOther'⟩ := before j other isOther busyOther
      exact held i j one' other' isOne' isOther' busyOne' busyOther'
    rcases step_cases stepped with
      ⟨call, rfl, rfl⟩ | ⟨pid, answer, call, op, next, log, rfl, found, rfl⟩ |
        ⟨pid, process, rfl, found, rfl⟩
    · intro i j one other isOne isOther busyOne busyOther
      have added : ∀ (k : Nat) (process : Process F ε Call),
          (config.procs ++ [⟨call, S.program call, [], true⟩])[k]? = some process →
            Busy kind process → config.procs[k]? = some process ∨
              k = config.procs.length ∧ kind call := by
        intro k process there busy
        rcases Nat.lt_or_ge k config.procs.length with inside | outside
        · rw [List.getElem?_append_left inside] at there
          exact .inl there
        · rw [List.getElem?_append_right outside, List.getElem?_singleton] at there
          split at there
          · cases there
            exact .inr ⟨by omega, busy.1⟩
          · cases there
      rcases added i one isOne busyOne with oldOne | ⟨lastOne, isKind⟩
      · rcases added j other isOther busyOther with oldOther | ⟨lastOther, isKind⟩
        · exact held i j one other oldOne oldOther busyOne busyOther
        · exact absurd busyOne (guarded _ _ admitted isKind _ (List.mem_of_getElem? oldOne))
      · rcases added j other isOther busyOther with oldOther | ⟨lastOther, _⟩
        · exact absurd busyOther (guarded _ _ admitted isKind _ (List.mem_of_getElem? oldOther))
        · exact lastOne.trans lastOther.symm
    · exact replaced pid _ _ found fun busy => ⟨busy.1, rfl⟩
    · exact replaced pid _ _ found fun busy => by simp [Busy] at busy

/-- A restriction on what is performed holds of everything that was performed. -/
theorem performed {P : Call → F.Op → Prop}
    (acts : ∀ config pid answer call op next log,
      config.procs[pid]? = some ⟨call, .call op next, log, true⟩ →
      allowed config (.act pid answer) → P call op)
    (empty : start.procs = []) (reached : Reachable S allowed start config) :
    ∀ process ∈ config.procs, ∀ entry ∈ process.log, P process.call entry.op := by
  refine reached.invariant (I := fun config =>
    ∀ process ∈ config.procs, ∀ entry ∈ process.log, P process.call entry.op) ?_ ?_
  · simp [empty]
  · intro config label config' _ held admitted stepped
    rcases step_cases stepped with
      ⟨call, rfl, rfl⟩ | ⟨pid, answer, call, op, next, log, rfl, found, rfl⟩ |
        ⟨pid, process, rfl, found, rfl⟩
    · intro process member
      rcases List.mem_append.1 member with old | fresh
      · exact held process old
      · rw [List.mem_singleton] at fresh
        simp [fresh]
    · intro process member
      rcases mem_set_cases member with old | rfl
      · exact held process old
      · intro entry done
        rcases List.mem_cons.1 done with rfl | earlier
        · exact acts config pid answer call op next log found admitted
        · exact held _ (List.mem_of_getElem? found) entry earlier
    · intro process' member
      rcases mem_set_cases member with old | rfl
      · exact held process' old
      · exact held process (List.mem_of_getElem? found)

end Reachable

/-- Replacing a process by a later state of it keeps the calls. -/
theorem calls_of_set {procs : List (Process F ε Call)} {pid : Nat} {old fresh : Process F ε Call}
    (found : procs[pid]? = some old) (same : fresh.call = old.call) :
    ∀ process ∈ procs, ∃ process' ∈ procs.set pid fresh, process'.call = process.call := by
  intro process member
  obtain ⟨index, inside, rfl⟩ := List.getElem_of_mem member
  by_cases own : index = pid
  · subst own
    refine ⟨fresh, List.mem_set inside _, ?_⟩
    rw [List.getElem?_eq_getElem inside, Option.some.injEq] at found
    rw [found, same]
  · refine ⟨procs[index], ?_, rfl⟩
    have kept : (procs.set pid fresh)[index]? = some procs[index] := by
      rw [List.getElem?_set_ne (Ne.symm own), List.getElem?_eq_getElem inside]
    exact List.mem_of_getElem? kept

/-- Replacing one process changes a count by that process alone. -/
theorem countP_set {procs : List (Process F ε Call)} {pid : Nat} {old : Process F ε Call}
    (p : Process F ε Call → Bool) (fresh : Process F ε Call) (found : procs[pid]? = some old) :
    (procs.set pid fresh).countP p + (if p old then 1 else 0) =
      procs.countP p + (if p fresh then 1 else 0) := by
  obtain ⟨inside, rfl⟩ := List.getElem?_eq_some_iff.1 found
  have counted := List.countP_set (p := p) (a := fresh) inside
  rw [counted]
  by_cases there : p procs[pid] = true
  · have positive : 0 < procs.countP p :=
      List.countP_pos_iff.2 ⟨_, List.getElem_mem inside, there⟩
    simp only [there, if_true]
    omega
  · simp only [there, Bool.false_eq_true, if_false]
    omega

end System

end PreActive.Foundation
