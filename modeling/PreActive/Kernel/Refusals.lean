/-
Module: PreActive.Kernel.Refusals
Purpose: The runs that a tool error fails, against the ledger row of the call they failed on.
Trusted boundary: human-reviewed spec
Main exports: KeepsAdmitted, Excluded, FailuresSound, failed_unadmitted
-/
import PreActive.Kernel.Confinement
import PreActive.Kernel.Ownership

namespace PreActive.Kernel

open PreActive.Foundation PreActive.Python

/-! ### The condition -/

/-- The process has read last a ledger row that passes the idempotency check of `execute` for the
call it entered. -/
def readsOwnRow (host : Host) : History → Bool
  | ⟨.sql (.selectEffect _), .ok (some row)⟩ :: older =>
      (enteredCall older).any fun call => row.isOf host call
  | _ => false

/-- The run is at the step that the process read. -/
def standsAsRead (db : Db) (log : History) (runId : String) : Bool :=
  (db.run runId).all fun row => (readRun log).any fun run => run.stepCount == row.stepCount

/-- Every run that has decided the call of the row may be admitted for it. -/
def decidersAdmissible (host : Host) (registry : ToolRegistry) (db : Db) (row : EffectRow) : Bool :=
  db.decisions.rows.all fun decision =>
    match decodeDecision host decision.decisionJson with
    | .ok (.toolCall call) =>
        !(call.requestId == row.requestId && row.isOf host call) ||
          (db.run decision.runId).any fun run =>
            registry.admissible host call run.capabilities
    | _ => true

/-- A worker that fails a run finds it at the step it read, and has not read the row of its own
call; a call is admitted only if all runs that have decided it may be admitted. -/
def keepsAdmittedAt (host : Host) (registry : ToolRegistry) (db : Db) (log : History) :
    Op → Bool
  | .sql (.updateRun runId change) =>
      change.status != some .failed || (standsAsRead db log runId && !readsOwnRow host log)
  | .sql (.insertEffect row) => decidersAdmissible host registry db row
  | _ => true

def keepsAdmitted (host : Host) (registry : ToolRegistry) (config : KernelConfig) :
    Label Answer Call → Bool
  | .act pid answer =>
      answer.fault.isSome || (config.procs[pid]?).all fun process =>
        process.nextOp.all (keepsAdmittedAt host registry config.world.db process.log)
  | _ => true

/-- The label starts no call with another registry, and no worker with another bound. -/
def FixedSetup (host : Host) (registry : ToolRegistry) (maxSteps : Int)
    (label : Label Answer Call) : Prop :=
  FixedRegistry host registry label ∧
    ∀ engine now, label = .spawn (.runOnce engine now) → engine.maxSteps = maxSteps

/-- The steps of a run with one registry and one bound, in which every failed update and every
admission meets the condition. -/
def KeepsAdmitted (host : Host) (registry : ToolRegistry) (maxSteps : Int)
    (config : KernelConfig) (label : Label Answer Call) : Prop :=
  FixedSetup host registry maxSteps label ∧ keepsAdmitted host registry config label = true

/-! ### Excluded calls -/

/-- The ledger does not hold the call that the run has decided, and never will. -/
inductive Excluded (host : Host) (registry : ToolRegistry) (db : Db) (runId : String)
    (call : ToolCall) : Prop where
  | taken (row : EffectRow) (stored : db.effect call.requestId = some row)
      (other : ¬ row.admits host call) : Excluded host registry db runId call
  | barred (run : RunRow) (stored : db.run runId = some run)
      (inadmissible : registry.admissible host call run.capabilities = false)
      (absent : db.effect call.requestId = none) : Excluded host registry db runId call

/-- The step of the run is decided, and its call is excluded from the ledger. -/
def FailedOn (host : Host) (registry : ToolRegistry) (db : Db) (runId : String) (step : Nat)
    (call : ToolCall) : Prop :=
  DecidedCall host db runId step call ∧ Excluded host registry db runId call

/-- No step from the bound on is decided, and a failed run has used up its steps or failed on an
excluded call. -/
structure FailuresSound (host : Host) (registry : ToolRegistry) (maxSteps : Int) (db : Db) :
    Prop where
  bounded : ∀ runId step, (db.decision runId step).isSome = true → (step : Int) < maxSteps
  failed : ∀ runId run, db.run runId = some run → run.status = .failed →
    maxSteps ≤ (run.stepCount : Int) ∨
      ∃ call, FailedOn host registry db runId run.stepCount call

variable {host : Host} {registry : ToolRegistry} {maxSteps : Int} {world : World} {op : Op}
variable {runId : String} {call : ToolCall} {log : History}

theorem EffectRow.SameRequest.admits_iff {old new : EffectRow} (same : old.SameRequest new) :
    new.admits host call ↔ old.admits host call := by
  simp only [EffectRow.admits, same.requestSha256, same.toolName]

/-- An excluded call is not in the ledger. -/
theorem Excluded.unadmitted {db : Db} {row : EffectRow}
    (excluded : Excluded host registry db runId call)
    (stored : db.effect call.requestId = some row) : ¬ row.admits host call := by
  cases excluded with
  | taken row' stored' other =>
      rw [stored, Option.some.injEq] at stored'
      rw [stored']
      exact other
  | barred run storedRun inadmissible absent =>
      rw [stored] at absent
      cases absent

/-- An admission that meets the condition is not one of a call that is barred. -/
theorem not_admits_of_barred {db : Db} {row : EffectRow} {run : RunRow} {step : Nat}
    (meets : decidersAdmissible host registry db row = true)
    (decided : DecidedCall host db runId step call) (stored : db.run runId = some run)
    (inadmissible : registry.admissible host call run.capabilities = false)
    (named : row.requestId = call.requestId) : ¬ row.admits host call := by
  intro admits
  obtain ⟨decision, found, decoded⟩ := decided
  obtain ⟨member, isRun, _⟩ := Db.decision_eq_some.1 found
  have deciders := List.all_eq_true.1 meets decision member
  have ofCall := EffectRow.isOf_iff.2 admits
  simp only [decoded, named, beq_self_eq_true, ofCall, Bool.and_true, Bool.not_true, Bool.false_or,
    isRun, stored, Option.any_some, inadmissible] at deciders
  cases deciders

/-- A failure on an excluded call stays one. -/
theorem FailedOn.later {step : Nat} (fails : FailedOn host registry world.db runId step call)
    (answer : Answer) (issued : op.issued)
    (meets : ∀ row, op = .sql (.insertEffect row) → answer.fault = none →
      decidersAdmissible host registry world.db row = true) :
    FailedOn host registry (op.answer host answer world).2.db runId step call := by
  obtain ⟨⟨decision, decided, decoded⟩, excluded⟩ := fails
  refine ⟨⟨decision, decision_kept host answer op decided, decoded⟩, ?_⟩
  cases excluded with
  | taken row stored other =>
      obtain ⟨row', stored', same⟩ := effect_sameRequest host answer issued stored
      exact .taken row' stored' fun admits => other (same.admits_iff.1 admits)
  | barred run stored inadmissible absent =>
      obtain ⟨run', stored', evolves⟩ := run_evolves host answer issued stored
      have inadmissible' : registry.admissible host call run'.capabilities = false := by
        rw [evolves.capabilities]
        exact inadmissible
      have change := ledgerChange host world answer issued call.requestId
      rw [absent] at change
      generalize after : (op.answer host answer world).2.db.effect call.requestId = row' at change
      cases change with
      | keep => exact .barred run' stored' inadmissible' after
      | @enter row named =>
          refine .taken row after ?_
          cases faulty : answer.fault with
          | some fault =>
              rw [Op.answer_fault faulty, absent] at after
              cases after
          | none =>
              exact not_admits_of_barred (meets row rfl faulty) ⟨decision, decided, decoded⟩ stored
                inadmissible named

/-! ### What a worker has learned -/

theorem Stmt.exec_error {stmt : Stmt} {exc : Exc} (raised : (stmt.exec host world).1 = .error exc) :
    exc.isToolError = false := by
  cases stmt <;> simp only [Stmt.exec] at raised
  all_goals repeat' split at raised
  all_goals first
    | (cases raised; done)
    | (obtain rfl := Except.error.inj raised; rfl)

/-- No step fails as a `ToolError` that comes from the database. -/
theorem not_mishap_of_answer (op : Op) (answer : Answer) (world : World) :
    ¬ Mishap ⟨op, (op.answer host answer world).1⟩ := by
  rintro (⟨stmt, exc, same, isToolError⟩ | ⟨call, allowed, exc, same⟩)
  · obtain ⟨rfl, answered⟩ := Entry.mk.inj same
    rw [heq_eq_eq] at answered
    cases faulty : answer.fault with
    | some fault =>
        simp only [Op.answer, faulty, Except.error.injEq] at answered
        rw [← answered] at isToolError
        cases fault <;> cases isToolError
    | none =>
        simp only [Op.answer, faulty] at answered
        rw [Stmt.exec_error answered] at isToolError
        cases isToolError
  · obtain ⟨rfl, answered⟩ := Entry.mk.inj same
    rw [heq_eq_eq] at answered
    cases answered

/-- What a process learns by finding no ledger row for a request: it has not seen one before, and
a call it could not admit is excluded. -/
def Abstained (host : Host) (registry : ToolRegistry) (older : History) (entry : Entry kernel Exc)
    (world : World) : Prop :=
  ∀ requestId, entry = ⟨.sql (.selectEffect requestId), .ok none⟩ →
    ¬ RowSeen older requestId ∧
      ∀ runId run step call, Saw older (.sql (.selectRun runId)) (some run) →
        Decided host older runId step (.toolCall call) → call.requestId = requestId →
          registry.admissible host call run.capabilities = false →
            FailedOn host registry world.db runId step call

/-- What the steps of a worker have taught it about its refusals. -/
structure RefusalKnown (host : Host) (registry : ToolRegistry) (older : History)
    (entry : Entry kernel Exc) (world : World) : Prop where
  noMishap : ¬ Mishap entry
  abstained : Abstained host registry older entry world

theorem RefusalKnown.later {older : History} {entry : Entry kernel Exc}
    (known : RefusalKnown host registry older entry world) (answer : Answer) (issued : op.issued)
    (meets : ∀ row, op = .sql (.insertEffect row) → answer.fault = none →
      decidersAdmissible host registry world.db row = true) :
    RefusalKnown host registry older entry (op.answer host answer world).2 where
  noMishap := known.noMishap
  abstained := by
    intro requestId same
    obtain ⟨unseen, excluded⟩ := known.abstained requestId same
    refine ⟨unseen, fun runId run step call saw decided isRequest inadmissible => ?_⟩
    exact (excluded runId run step call saw decided isRequest inadmissible).later answer issued
      meets

theorem RefusalKnown.of_answer (op : Op) (answer : Answer)
    (learned : System.Reachable.Learned (fun _ entry world => Known entry world) world log) :
    RefusalKnown host registry log ⟨op, (op.answer host answer world).1⟩
      (op.answer host answer world).2 where
  noMishap := not_mishap_of_answer op answer world
  abstained := by
    intro requestId same
    obtain ⟨rfl, answered⟩ := Entry.mk.inj same
    rw [heq_eq_eq] at answered
    cases faulty : answer.fault with
    | some fault => simp [Op.answer, faulty] at answered
    | none =>
        simp only [Op.answer, faulty, Stmt.exec, Except.ok.injEq] at answered ⊢
        constructor
        · rintro (⟨row, saw⟩ | ⟨row, rfl, saw⟩)
          · obtain ⟨row', stored, _⟩ := Saw.effect learned saw
            rw [stored] at answered
            cases answered
          · obtain ⟨_, _, known⟩ := learned.of_mem saw
            obtain ⟨row', stored, _⟩ := known.effectEntered _ rfl
            rw [stored] at answered
            cases answered
        · rintro runId run step call saw ⟨decisionJson, seen, decoded⟩ rfl inadmissible
          obtain ⟨decision, decided, rfl⟩ := seen.stored learned
          obtain ⟨run', stored, evolves⟩ := Saw.run learned saw
          refine ⟨⟨decision, decided, decoded⟩, .barred run' stored ?_ answered⟩
          rw [evolves.capabilities]
          exact inadmissible

/-! ### Steps -/

section Step

variable {config : KernelConfig} {pid : Nat} {caller : Call} {answer : Answer}
variable {next : Except Exc op.Result → Proc Unit}

theorem keepsAdmittedAt_of_step
    (found : config.procs[pid]? =
      some ⟨caller, .call (F := kernel) op next, log, true⟩)
    (meets : KeepsAdmitted host registry maxSteps config (.act pid answer))
    (faultless : answer.fault = none) :
    keepsAdmittedAt host registry config.world.db log op = true := by
  simpa [keepsAdmitted, found, Process.nextOp, faultless] using meets.2

variable (reached : (system host).Reachable (KeepsAdmitted host registry maxSteps)
  KernelConfig.initial config)
include reached

/-- Every worker has the registry and the bound. -/
theorem keepsAdmitted_worker {engine : Engine} {now : Time} {process : Process kernel Exc Call}
    (member : process ∈ config.procs) (worker : process.call = .runOnce engine now) :
    engine.tools = registry ∧ engine.maxSteps = maxSteps := by
  have uses := reached.calls (P := fun call => call.Uses host registry)
    (fun _ call admitted => admitted.1.1 call rfl) rfl process member
  have bound := reached.calls (P := fun call => ∀ engine now, call = .runOnce engine now →
    engine.maxSteps = maxSteps)
    (fun _ call admitted engine now same => admitted.1.2 engine now (congrArg _ same)) rfl
  rw [worker] at uses
  exact ⟨uses _ _ rfl, bound process member engine now worker⟩

/-- A worker that fails a run and meets the condition has used up its steps or fails it on an
excluded call. -/
theorem Updates.failsOn {engine : Engine} {now started : Time} {claim : Claim} {event : Event}
    {run : RunRow} {error : String} {rest : Proc Unit}
    (member : (⟨.runOnce engine started, rest, log, true⟩ : Process kernel Exc Call) ∈ config.procs)
    (learned : System.Reachable.Learned (RefusalKnown host registry) config.world log)
    (unread : readsOwnRow host log = false)
    (stepping : Stepping host engine log claim event runId run)
    (updates : Updates host engine log runId run ⟨now, some .failed, none, some error, false, false⟩) :
    maxSteps ≤ (run.stepCount : Int) ∨
      ∃ call, FailedOn host registry config.world.db runId run.stepCount call := by
  have known := reachable_known reached _ member
  obtain ⟨isRegistry, isBound⟩ := keepsAdmitted_worker reached member rfl
  generalize isChange : RunChange.mk now (some .failed) none (some error) false false = change
    at updates
  cases updates with
  | complete => cases isChange
  | note => cases isChange
  | exceed now full => exact .inl (isBound ▸ full)
  | refuse now exc call found older decided raised read resolved =>
      right
      subst read
      have own : DecidedCall host config.world.db runId run.stepCount call := by
        obtain ⟨decisionJson, seen, decoded⟩ := decided
        obtain ⟨decision, stored, rfl⟩ := seen.stored known.2
        exact ⟨decision, stored, decoded⟩
      -- the run was read before the ledger was
      have selected : Saw older (.sql (.selectRun runId)) (some run) :=
        (List.mem_cons.1 stepping.selected).resolve_left fun same => nomatch same
      have noMishap : ∀ entry ∈ older, ¬ Mishap entry := fun entry done =>
        have ⟨_, _, fact⟩ := learned.2.of_mem done
        fact.noMishap
      refine ⟨call, ?_⟩
      cases found with
      | none =>
          obtain ⟨unseen, excluded⟩ := learned.1.abstained call.requestId rfl
          cases raised with
          | mishap entry done failed => exact absurd failed (noMishap entry done)
          | seen entered row => exact absurd row unseen
          | refused entered inadmissible =>
              rw [isRegistry] at inadmissible
              exact excluded runId run run.stepCount call selected decided rfl inadmissible
      | some row =>
          have entered : Saw older (.enterExecute call run.capabilities) () := by
            cases raised with
            | mishap entry done failed => exact absurd failed (noMishap entry done)
            | refused entered => exact entered
            | seen entered => exact entered
          obtain ⟨row', stored', same⟩ := Saw.effect known Saw.here
          refine ⟨own, .taken row' stored' fun admits => ?_⟩
          -- the call it has entered last is the decided one
          obtain ⟨entered', isEntered⟩ : ∃ call', enteredCall older = some call' := by
            rw [← Option.isSome_iff_exists, enteredCall, List.findSome?_isSome_iff]
            exact ⟨_, entered, rfl⟩
          obtain ⟨allowed, executed⟩ := enteredCall_saw isEntered
          obtain rfl := executed_own reached member rfl stepping own executed.cons
          have isOf := EffectRow.isOf_iff.2 (same.admits_iff.1 admits)
          simp [readsOwnRow, isEntered, isOf] at unread

/-- A decision is only added below the bound. -/
theorem decision_bounded (sound : FailuresSound host registry maxSteps config.world.db)
    (found : config.procs[pid]? = some ⟨caller, .call (F := kernel) op next, log, true⟩)
    {step : Nat}
    (decided : ((op.answer host answer config.world).2.db.decision runId step).isSome = true) :
    (step : Int) < maxSteps := by
  have member := List.mem_of_getElem? found
  rcases decisions_change host config.world answer op with same | ⟨row, rfl, inserted⟩
  · rw [Db.decision, same] at decided
    exact sound.bounded runId step decided
  · change (Db.decision { config.world.db with decisions := _ } runId step).isSome = true at decided
    rw [decision_insert inserted, Option.isSome_or, Bool.or_eq_true] at decided
    rcases decided with old | added
    · exact sound.bounded runId step old
    · split at added
      · rename_i isRow
        simp only [Bool.and_eq_true, beq_iff_eq] at isRow
        have rule := (reachable_rule reached _ member).head
        cases caller with
        | runOnce engine now =>
            obtain ⟨claim, event, run, response, stepping, isStep, _, below⟩ := rule
            rw [(keepsAdmitted_worker reached member rfl).2, ← isStep, isRow.2] at below
            exact below
        | _ => exact rule.elim
      · cases added

/-- A run that is failed after a step failed before it, or is failed by it at the step it was read
at. -/
theorem failure_step (sound : FailuresSound host registry maxSteps config.world.db)
    (learned : System.Reachable.Learned (RefusalKnown host registry) config.world log)
    (found : config.procs[pid]? = some ⟨caller, .call (F := kernel) op next, log, true⟩)
    (meets : KeepsAdmitted host registry maxSteps config (.act pid answer)) {run : RunRow}
    (stored : (op.answer host answer config.world).2.db.run runId = some run)
    (failed : run.status = .failed) :
    maxSteps ≤ (run.stepCount : Int) ∨
      ∃ call, FailedOn host registry config.world.db runId run.stepCount call := by
  have member := List.mem_of_getElem? found
  have rule := (reachable_rule reached _ member).head
  cases faulty : answer.fault with
  | some fault =>
      rw [Op.answer_fault faulty] at stored
      exact sound.failed runId run stored failed
  | none =>
      have change := Kernel.runStep host config.world answer rule.issued runId
      rw [stored] at change
      generalize before : config.world.db.run runId = old at change
      cases change with
      | keep => exact sound.failed runId run before failed
      | create => cases failed
      | @update row change issued =>
          cases issued with
          | complete now text => cases failed
          | note now error => exact sound.failed runId row before failed
          | fail now error =>
              have holds := keepsAdmittedAt_of_step found meets faulty
              simp only [keepsAdmittedAt, bne_self_eq_false, Bool.false_or, Bool.and_eq_true,
                Bool.not_eq_true', standsAsRead, before, Option.all_some] at holds
              obtain ⟨stands, unread⟩ := holds
              obtain ⟨read, isRead, sameStep⟩ := (Option.any_eq_true _ _).1 stands
              cases caller with
              | runOnce engine started =>
                  obtain ⟨claim, event, run', stepping, updates⟩ := rule
                  have lawful := worker_lawful reached member rfl
                  have isRun := readRun_eq_some
                    (fun _ _ saw => (selects_once lawful stepping.selected saw).2)
                    stepping.selected
                  obtain rfl := Option.some.inj (isRead.symm.trans isRun)
                  have fails := updates.failsOn reached member learned unread stepping
                  rw [beq_iff_eq.1 sameStep] at fails
                  exact fails
              | _ => exact rule.elim
      | block => cases failed
      | advance running => cases running.symm.trans failed
      | resume => cases failed

theorem failuresSound_step (sound : FailuresSound host registry maxSteps config.world.db)
    (learned : System.Reachable.Learned (RefusalKnown host registry) config.world log)
    (found : config.procs[pid]? = some ⟨caller, .call (F := kernel) op next, log, true⟩)
    (meets : KeepsAdmitted host registry maxSteps config (.act pid answer)) :
    FailuresSound host registry maxSteps (op.answer host answer config.world).2.db where
  bounded := fun _ _ decided => decision_bounded reached sound found decided
  failed := by
    intro runId run stored failed
    have issued := (reachable_rule reached _ (List.mem_of_getElem? found)).head.issued
    refine (failure_step reached sound learned found meets stored failed).imp_right ?_
    rintro ⟨call, fails⟩
    refine ⟨call, fails.later answer issued ?_⟩
    rintro row rfl faultless
    exact keepsAdmittedAt_of_step found meets faultless

end Step

theorem FailuresSound.empty : FailuresSound host registry maxSteps .empty where
  bounded := fun _ _ stored => nomatch stored
  failed := fun _ _ stored => nomatch stored

theorem reachable_failuresSound {config : KernelConfig}
    (reached : (system host).Reachable (KeepsAdmitted host registry maxSteps)
      KernelConfig.initial config) :
    FailuresSound host registry maxSteps config.world.db := by
  have both := reached.learned_with
    (I := fun world => FailuresSound host registry maxSteps world.db)
    (fun _ => RefusalKnown host registry) .empty ?_ ?_ ?_ rfl
  · exact both.1
  · intro config pid call op next log answer before found meets sound learned
    exact failuresSound_step before sound learned found meets
  · intro config pid call op next log answer before found _ _ _
    exact .of_answer op answer (reachable_known before _ (List.mem_of_getElem? found))
  · intro config pid call op next log answer before found meets _ call' older entry known
    refine known.later answer (reachable_rule before _ (List.mem_of_getElem? found)).head.issued ?_
    rintro row rfl faultless
    exact keepsAdmittedAt_of_step found meets faultless

/-- The ledger row of the call that was decided for the step at which a run failed, if there is
one, is of another tool or input. -/
def FailedUnadmitted (host : Host) (db : Db) : Prop :=
  ∀ runId run, db.run runId = some run → run.status = .failed →
    ∀ call, DecidedCall host db runId run.stepCount call →
      ∀ row, db.effect call.requestId = some row → ¬ row.admits host call

/-- In every run that meets the condition, no run has failed on a call that was admitted to the
ledger. -/
theorem failed_unadmitted (host : Host) (registry : ToolRegistry) (maxSteps : Int)
    (config : KernelConfig)
    (reached : (system host).Reachable (KeepsAdmitted host registry maxSteps)
      KernelConfig.initial config) : FailedUnadmitted host config.world.db := by
  intro runId run stored failed call decided row ledger
  have sound := reachable_failuresSound reached
  rcases sound.failed runId run stored failed with full | ⟨call', decided', excluded⟩
  · obtain ⟨decision, isDecision, _⟩ := decided
    have below := sound.bounded runId run.stepCount (by rw [isDecision]; rfl)
    omega
  · obtain rfl := decided'.unique decided
    exact excluded.unadmitted ledger

/-! ### Two reads of the ledger -/

/-- A second worker takes over the step while the first one is paying, and is refused; the payment
is committed before the second worker asks for the state of the effect. -/
def refusedInFlight : List (Label Answer Call) :=
  unresolvedPayment.take 13 ++
    [.spawn (.runOnce (payEngine "b") 20), .act 2 .quiet, .act 2 .quiet, .act 2 .quiet,
      .act 2 .quiet, .act 2 .quiet, .act 2 .quiet, .act 2 .quiet, .act 1 .quiet, .act 1 .quiet,
      .act 2 .quiet, .act 2 .quiet]

/-- The run has failed at a step whose decided call is in the ledger. -/
def Db.failedAdmitted (host : Host) (db : Db) (runId : String) : Bool :=
  (db.run runId).any fun run => run.status == .failed &&
    (db.decision runId run.stepCount).any fun decision =>
      match decodeDecision host decision.decisionJson with
      | .ok (.toolCall call) => (db.effect call.requestId).any (EffectRow.isOf host call)
      | _ => false

theorem not_failedUnadmitted {db : Db} (admitted : db.failedAdmitted host runId = true) :
    ¬ FailedUnadmitted host db := by
  intro held
  obtain ⟨run, stored, both⟩ := (Option.any_eq_true _ _).1 admitted
  rw [Bool.and_eq_true, beq_iff_eq] at both
  obtain ⟨failed, decides⟩ := both
  obtain ⟨decision, decided, known⟩ := (Option.any_eq_true _ _).1 decides
  split at known
  · rename_i call decoded
    obtain ⟨row, ledger, isOf⟩ := (Option.any_eq_true _ _).1 known
    exact held runId run stored failed call ⟨decision, decided, decoded⟩ row ledger
      (EffectRow.isOf_iff.1 isOf)
  · cases known

theorem refusedInFlight_fixed :
    ∀ label ∈ refusedInFlight, FixedSetup plainHost payRegistry 8 label := by
  intro label member
  simp only [refusedInFlight, unresolvedPayment, List.take, List.cons_append, List.nil_append,
    List.mem_cons, List.not_mem_nil, or_false] at member
  constructor
  · rintro call rfl
    simp at member
    rcases member with rfl | rfl | rfl <;> simp [Call.Uses, Call.entering, payEngine]
  · rintro engine now rfl
    simp at member
    rcases member with ⟨rfl, _⟩ | ⟨rfl, _⟩ <;> rfl

set_option maxRecDepth 10000 in
/-- Without the condition a run fails although its payment was made and is committed. -/
theorem failed_admitted :
    ∃ config, (system plainHost).Reachable
        (fun _ label => FixedSetup plainHost payRegistry 8 label) KernelConfig.initial config ∧
      config.world.db.ledgerState "q" = some .committed ∧
        config.world.db.failedAdmitted plainHost "id-0" = true ∧
          ¬ FailedUnadmitted plainHost config.world.db := by
  have ran : ((system plainHost).run (fun _ _ => true) KernelConfig.initial refusedInFlight).any
      (fun config => config.world.db.ledgerState "q" == some .committed &&
        config.world.db.failedAdmitted plainHost "id-0") = true := by decide +kernel
  obtain ⟨config, reached, ended⟩ :=
    System.Reachable.exists_of_run_each _ refusedInFlight_fixed ran
  rw [Bool.and_eq_true, beq_iff_eq] at ended
  exact ⟨config, reached.mono fun _ _ both => both.1, ended.1, ended.2,
    not_failedUnadmitted ended.2⟩

/-- The model decides a tool that does not exist. -/
def refusedTool : List (Label Answer Call) :=
  [.spawn (.submitTask "task" [] 0 none), .act 0 .quiet,
    .spawn (.runOnce (payEngine "a") 0), .act 1 .quiet, .act 1 .quiet, .act 1 .quiet,
    .act 1 .quiet, .act 1 (.ofResponse (.toolCall ⟨"q", "look", .empty⟩)), .act 1 .quiet,
    .act 1 .quiet, .act 1 .quiet, .act 1 .quiet, .act 1 .quiet]

theorem refusedTool_fixed :
    ∀ label ∈ refusedTool, FixedSetup plainHost payRegistry 8 label := by
  intro label member
  simp only [refusedTool, List.mem_cons, List.not_mem_nil, or_false] at member
  constructor
  · rintro call rfl
    simp at member
    rcases member with rfl | rfl <;> simp [Call.Uses, Call.entering, payEngine]
  · rintro engine now rfl
    simp at member
    rw [member.1]
    rfl

/-- The run has failed. -/
def Db.hasFailed (db : Db) (runId : String) : Bool :=
  (db.run runId).any fun run => run.status == .failed

set_option maxRecDepth 10000 in
/-- A run that meets the condition and in which a run fails. -/
theorem failed_unadmitted_refused :
    ∃ config, (system plainHost).Reachable (KeepsAdmitted plainHost payRegistry 8)
        KernelConfig.initial config ∧
      config.world.db.hasFailed "id-0" = true ∧ FailedUnadmitted plainHost config.world.db := by
  have ran : ((system plainHost).run (keepsAdmitted plainHost payRegistry) KernelConfig.initial
      refusedTool).any (fun config => config.world.db.hasFailed "id-0") = true := by
    decide +kernel
  obtain ⟨config, reached, failed⟩ :=
    System.Reachable.exists_of_run_each _ refusedTool_fixed ran
  exact ⟨config, reached, failed, failed_unadmitted plainHost payRegistry 8 config reached⟩

end PreActive.Kernel
