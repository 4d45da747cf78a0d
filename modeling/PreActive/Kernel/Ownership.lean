/-
Module: PreActive.Kernel.Ownership
Purpose: Whose effect a blocked run waits for, and the runs of the system in which it is its own.
Trusted boundary: human-reviewed spec
Main exports: enteredCall, blocksOwn, OwnEffect, blocked_on_own_effect
-/
import PreActive.Kernel.Fence

namespace PreActive.Kernel

open PreActive.Foundation PreActive.Python

/-! ### The entered call -/

/-- The call that the step enters `execute` with. -/
def entersCall : Entry kernel Exc → Option ToolCall
  | ⟨.enterExecute call _, .ok _⟩ => some call
  | _ => none

/-- The call that a process has last entered `execute` with. -/
def enteredCall (log : History) : Option ToolCall := log.findSome? entersCall

theorem entersCall_eq_some {entry : Entry kernel Exc} {call : ToolCall}
    (enters : entersCall entry = some call) :
    ∃ allowed, entry = ⟨.enterExecute call allowed, .ok ()⟩ := by
  unfold entersCall at enters
  split at enters
  · cases enters
    exact ⟨_, rfl⟩
  · cases enters

variable {host : Host} {engine : Engine} {log : History} {config config' : KernelConfig}

theorem enteredCall_saw {call : ToolCall} (entered : enteredCall log = some call) :
    ∃ allowed, Saw log (.enterExecute call allowed) () := by
  obtain ⟨entry, member, enters⟩ := List.exists_of_findSome?_eq_some entered
  obtain ⟨allowed, rfl⟩ := entersCall_eq_some enters
  exact ⟨allowed, member⟩

/-! ### The condition -/

/-- The row passes the idempotency check of `execute` for the call. -/
def EffectRow.isOf (host : Host) (call : ToolCall) (row : EffectRow) : Bool :=
  row.requestSha256 == requestDigest host call.name call.arguments && row.toolName == call.name

theorem EffectRow.isOf_iff {call : ToolCall} {row : EffectRow} :
    row.isOf host call = true ↔ row.admits host call := by
  simp [isOf, admits]

/-- A worker with this history that blocks the run on the request finds the run at the step it
read, and a ledger row that passes the idempotency check for the call it entered. -/
def blocksOnOwn (host : Host) (db : Db) (log : History) (runId requestId : String) : Bool :=
  (db.run runId).all fun row =>
    row.status != .running ||
      ((readRun log).any (fun run => run.stepCount == row.stepCount) &&
        (enteredCall log).any fun call => (db.effect requestId).any (EffectRow.isOf host call))

/-- The step blocks no run, or is one of a worker that blocks on its own effect. -/
def blocksOwn (host : Host) (config : KernelConfig) : Label Answer Call → Bool
  | .act pid answer =>
      match config.procs[pid]? with
      | some process =>
          match process.nextOp with
          | some (.sql (.blockRun runId requestId _ _)) =>
              answer.fault.isSome ||
                blocksOnOwn host config.world.db process.log runId requestId
          | _ => true
      | none => true
  | _ => true

/-- The steps of a run in which no worker blocks a later step than its own, or blocks on the
effect of a different request. -/
def BlocksOwn (host : Host) (config : KernelConfig) (label : Label Answer Call) : Prop :=
  blocksOwn host config label = true

/-! ### The invariant -/

/-- The decision of the step the run stands at is a call under the request it is blocked on, and
the ledger row of the request is that of this very call. -/
def OwnEffect (host : Host) (db : Db) (run : RunRow) (requestId : String) : Prop :=
  ∃ call row, DecidedCall host db run.id run.stepCount call ∧ call.requestId = requestId ∧
    db.effect requestId = some row ∧ row.admits host call

/-- Every blocked run waits for its own effect. -/
def BlockedOwn (host : Host) (db : Db) : Prop :=
  ∀ runId run, db.run runId = some run → run.status = .blockedEffect →
    ∃ requestId, run.blockedRequestId = some requestId ∧ OwnEffect host db run requestId

theorem EffectRow.SameRequest.admits {call : ToolCall} {old new : EffectRow}
    (same : old.SameRequest new) (admits : old.admits host call) : new.admits host call :=
  ⟨same.requestSha256.trans admits.1, same.toolName.trans admits.2⟩

/-- An effect that is the run's own stays so. -/
theorem OwnEffect.later {world : World} {op : Op} {run : RunRow} {requestId : String}
    (own : OwnEffect host world.db run requestId) (answer : Answer) (issued : op.issued) :
    OwnEffect host (op.answer host answer world).2.db run requestId := by
  obtain ⟨call, row, ⟨decision, decided, decoded⟩, same, stored, admits⟩ := own
  obtain ⟨row', stored', sameRequest⟩ := effect_sameRequest host answer issued stored
  exact ⟨call, row', ⟨decision, decision_kept host answer op decided, decoded⟩, same, stored',
    sameRequest.admits admits⟩

/-- Two calls decided for one step are one call. -/
theorem DecidedCall.unique {db : Db} {runId : String} {step : Nat} {call call' : ToolCall}
    (decided : DecidedCall host db runId step call)
    (decided' : DecidedCall host db runId step call') : call = call' := by
  obtain ⟨row, stored, decoded⟩ := decided
  obtain ⟨row', stored', decoded'⟩ := decided'
  rw [stored, Option.some.injEq] at stored'
  rw [← stored', decoded, Except.ok.injEq, ModelResponse.toolCall.injEq] at decoded'
  exact decoded'

/-- The call a worker has entered is the one that is decided for its step. -/
theorem executed_own {steps : KernelConfig → Label Answer Call → Prop}
    {process : Process kernel Exc Call} {now : Time} {claim : Claim} {event : Event}
    {runId : String} {run : RunRow} {call call' : ToolCall} {allowed : List String}
    (reached : (system host).Reachable steps KernelConfig.initial config)
    (member : process ∈ config.procs) (worker : process.call = .runOnce engine now)
    (stepping : Stepping host engine process.log claim event runId run)
    (own : DecidedCall host config.world.db runId run.stepCount call)
    (executed : Saw process.log (.enterExecute call' allowed) ()) : call = call' := by
  obtain ⟨runId', step', acts, own'⟩ := executes_decided reached member worker (.inr executed)
  have lawful := worker_lawful reached member worker
  -- the worker acts for one step
  obtain ⟨rfl, rfl⟩ := acts.unique lawful ⟨claim, event, run, stepping, rfl⟩
  exact own.unique own'

/-- A worker that meets the condition blocks the run on its own effect. -/
theorem blocks_own {steps : KernelConfig → Label Answer Call → Prop} {pid : Nat}
    {call : Call} {next : Except Exc Nat → Proc Unit} {runId requestId error : String}
    {now : Time} {row : RunRow}
    (reached : (system host).Reachable steps KernelConfig.initial config)
    (found : config.procs[pid]? =
      some ⟨call, .call (F := kernel) (.sql (.blockRun runId requestId error now)) next, log, true⟩)
    (meets : blocksOnOwn host config.world.db log runId requestId = true)
    (stored : config.world.db.run runId = some row) (running : row.status = .running) :
    OwnEffect host config.world.db row requestId := by
  have member := List.mem_of_getElem? found
  have rule := (reachable_rule reached _ member).head
  cases call with
  | runOnce engine started =>
      obtain ⟨claim, event, run, call, stepping, ⟨decisionJson, seen, decoded⟩, _, rfl⟩ := rule
      have lawful := worker_lawful reached member rfl
      have read := readRun_eq_some
        (fun _ _ saw => (selects_once lawful stepping.selected saw).2) stepping.selected
      obtain ⟨decision, decided, rfl⟩ := seen.stored (reachable_known reached _ member)
      simp only [blocksOnOwn, stored, Option.all_some, running, read, Option.any_some,
        bne_self_eq_false, Bool.false_or, Bool.and_eq_true, beq_iff_eq] at meets
      obtain ⟨sameStep, checked⟩ := meets
      obtain ⟨call', entered, checked⟩ := (Option.any_eq_true _ _).1 checked
      obtain ⟨effect, ledger, checked⟩ := (Option.any_eq_true _ _).1 checked
      have own : DecidedCall host config.world.db runId run.stepCount call :=
        ⟨decision, decided, decoded⟩
      obtain ⟨allowed, executed⟩ := enteredCall_saw entered
      obtain rfl := executed_own reached member rfl stepping own executed
      refine ⟨call, effect, ?_, rfl, ledger, EffectRow.isOf_iff.1 checked⟩
      rw [(Db.run_eq_some.1 stored).2, ← sameStep]
      exact own
  | _ => exact rule.elim

/-- A step of a run that meets the condition keeps every blocked run on its own effect. -/
theorem blockedOwn_step {steps : KernelConfig → Label Answer Call → Prop}
    {label : Label Answer Call}
    (reached : (system host).Reachable steps KernelConfig.initial config)
    (meets : BlocksOwn host config label) (stepped : Steps host config label config')
    (held : BlockedOwn host config.world.db) : BlockedOwn host config'.world.db := by
  cases stepped with
  | spawn call => exact held
  | die found => exact held
  | @act pid answer call op next log found =>
      have rule := (reachable_rule reached _ (List.mem_of_getElem? found)).head
      cases faulty : answer.fault with
      | some fault =>
          change BlockedOwn host (op.answer host answer config.world).2.db
          rw [Op.answer_fault faulty]
          exact held
      | none =>
          intro runId run stored blocked
          have step := Kernel.runStep host config.world answer rule.issued runId
          change (op.answer host answer config.world).2.db.run runId = some run at stored
          rw [stored] at step
          generalize before : config.world.db.run runId = old at step
          have kept : ∀ {run requestId}, OwnEffect host config.world.db run requestId →
              OwnEffect host (op.answer host answer config.world).2.db run requestId :=
            fun own => own.later answer rule.issued
          cases step with
          | keep =>
              obtain ⟨requestId, waits, own⟩ := held runId run before blocked
              exact ⟨requestId, waits, kept own⟩
          | create => cases blocked
          | @update row change issued =>
              cases issued with
              | complete now text => cases blocked
              | fail now error => cases blocked
              | note now error =>
                  obtain ⟨requestId, waits, own⟩ := held runId row before blocked
                  exact ⟨requestId, waits, kept own⟩
          | @block row requestId error now running =>
              refine ⟨requestId, rfl, ?_⟩
              have own : OwnEffect host config.world.db row requestId := by
                refine blocks_own reached found ?_ before running
                simpa [BlocksOwn, blocksOwn, found, Process.nextOp, faulty] using meets
              exact kept own
          | advance running => cases running.symm.trans blocked
          | resume => cases blocked

/-- In every run whose workers block on their own effects, a blocked run waits for a request that
the decision of its step names, and the ledger row of the request has the tool and the digest of
that decision. -/
theorem blocked_on_own_effect (host : Host) (config : KernelConfig)
    (reached : (system host).Reachable (BlocksOwn host) KernelConfig.initial config) :
    BlockedOwn host config.world.db := by
  refine reached.invariant (I := fun config => BlockedOwn host config.world.db) ?_ ?_
  · intro runId run stored
    cases stored
  · intro config label config' before held meets stepped
    exact blockedOwn_step before meets (.of_step stepped) held

/-! ### One request id, two runs -/

/-- A second run, without capabilities, decides an unknown tool under the same request id. -/
def unknownTool : List (Label Answer Call) :=
  [.spawn (.submitTask "other" [] 0 none), .act 2 .quiet,
    .spawn (.runOnce (payEngine "b") 0), .act 3 .quiet, .act 3 .quiet, .act 3 .quiet,
    .act 3 .quiet, .act 3 (.ofResponse (.toolCall ⟨"q", "look", .empty⟩)), .act 3 .quiet,
    .act 3 .quiet, .act 3 .quiet, .act 3 .quiet, .act 3 .quiet]

/-- The decision of the first step of the run is a call of the tool. -/
def Db.decides (host : Host) (db : Db) (runId toolName : String) : Bool :=
  (db.decision runId 0).any fun row =>
    match decodeDecision host row.decisionJson with
    | .ok (.toolCall call) => call.name == toolName
    | _ => false

/-- The ledger row of the request belongs to the tool. -/
def Db.ledgerTool (db : Db) (requestId toolName : String) : Bool :=
  (db.effect requestId).any fun row => row.toolName == toolName

theorem not_blockedOwn {db : Db} {runId requestId toolName toolName' : String}
    (blocked : db.isBlockedOn runId requestId 0 = true)
    (decides : db.decides host runId toolName = true)
    (ledger : db.ledgerTool requestId toolName' = true) (other : toolName' ≠ toolName) :
    ¬ BlockedOwn host db := by
  intro held
  obtain ⟨run, stored, blocked⟩ := (Option.any_eq_true _ _).1 blocked
  obtain ⟨decision, decided, named⟩ := (Option.any_eq_true _ _).1 decides
  obtain ⟨effect, found, isTool⟩ := (Option.any_eq_true _ _).1 ledger
  simp only [Bool.and_eq_true, beq_iff_eq] at blocked isTool
  obtain ⟨requestId', waits, call, effect', own, _, found', admits⟩ :=
    held runId run stored blocked.1.1
  obtain rfl := Option.some.inj (waits.symm.trans blocked.1.2)
  obtain rfl := Option.some.inj (found'.symm.trans found)
  obtain ⟨decision', decided', decoded⟩ := own
  rw [(Db.run_eq_some.1 stored).2, blocked.2, decided] at decided'
  obtain rfl := Option.some.inj decided'
  rw [decoded] at named
  exact other (isTool.symm.trans (admits.2.trans (beq_iff_eq.1 named)))

set_option maxRecDepth 10000 in
/-- Without the condition a run whose decision names an unknown tool is blocked on the payment of
another run. -/
theorem blocked_on_foreign_effect :
    ∃ config, (system plainHost).Reachable (fun _ _ => True) KernelConfig.initial config ∧
      config.world.db.isBlockedOn "id-2" "q" 0 = true ∧ ¬ BlockedOwn plainHost config.world.db := by
  have ran : ((system plainHost).run (fun _ _ => true) KernelConfig.initial
      (unresolvedPayment ++ unknownTool)).any (fun config =>
        config.world.db.isBlockedOn "id-2" "q" 0 &&
          (config.world.db.decides plainHost "id-2" "look" &&
            config.world.db.ledgerTool "q" "pay")) = true := by decide +kernel
  obtain ⟨config, reached, ended⟩ := System.Reachable.exists_of_run _ ran
  simp only [Bool.and_eq_true] at ended
  obtain ⟨blocked, decides, ledger⟩ := ended
  refine ⟨config, reached.mono fun _ _ _ => trivial, blocked, ?_⟩
  exact not_blockedOwn blocked decides ledger (by decide)

set_option maxRecDepth 10000 in
/-- A run that meets the condition and blocks on its own payment. -/
theorem blocked_on_own_effect_payment :
    ∃ config, (system plainHost).Reachable (BlocksOwn plainHost) KernelConfig.initial config ∧
      config.world.db.isBlockedOn "id-0" "q" 0 = true ∧ BlockedOwn plainHost config.world.db := by
  have ran : ((system plainHost).run (blocksOwn plainHost) KernelConfig.initial
      unresolvedPayment).any (fun config => config.world.db.isBlockedOn "id-0" "q" 0) = true := by
    decide +kernel
  obtain ⟨config, reached, blocked⟩ := System.Reachable.exists_of_run _ ran
  exact ⟨config, reached, blocked, blocked_on_own_effect plainHost config reached⟩

end PreActive.Kernel
