/-
Module: PreActive.Kernel.Dispatch
Purpose: How often a mutation handler is invoked under one request id.
Trusted boundary: none
Main exports: invocations, noEffectReports, reentersCleared, invocations_le
-/
import PreActive.Kernel.Paths

namespace PreActive.Kernel

open PreActive.Foundation PreActive.Python

/-!
Admission is a `SELECT` followed by an `INSERT` or an `UPDATE`, and the handler call comes later
still.  The account below gives every ledger row a number of admissions, and lets each handler call
and each process about to make one use up one of them.
-/

/-- The call invokes a mutation handler under the request id. -/
def HandlerCall.mutates (requestId : String) (call : HandlerCall) : Bool :=
  call.spec.mutation && call.requestId == requestId

/-- How often a mutation handler has been invoked under the request id. -/
def invocations (world : World) (requestId : String) : Nat :=
  world.calls.countP fun run => run.call.mutates requestId

/-- How often the request id was reconciled as having had no effect. -/
def noEffectReports (world : World) (requestId : String) : Nat :=
  world.db.reconciliations.countP fun row =>
    row.requestId == requestId && !row.effectOccurred

/-- The process is about to invoke a mutation handler under the request id. -/
def dispatching (requestId : String) (process : Process kernel Exc Call) : Bool :=
  match process.nextOp with
  | some (.handler call) => call.mutates requestId
  | _ => false

/-- The handler calls that the ledger row of a request accounts for. -/
def admissions (row : Option EffectRow) (reports : Nat) : Nat :=
  match row with
  | none => 0
  | some row => if row.state = .reconciledNoEffect then reports else reports + 1

/-- The step is no re-admission, or finds the row it re-admits cleared. -/
def reentersCleared (config : KernelConfig) (label : Label Answer Call) : Bool :=
  match config.performing label with
  | some (.sql (.readmitEffect requestId _), answer) =>
      answer.fault.isSome ||
        (config.world.db.effect requestId).any fun row => row.state == .reconciledNoEffect
  | _ => true

variable {host : Host} {world : World} {answer : Answer}

theorem noEffectReports_reconciled (target : String) (effectOccurred : Bool)
    (evidenceDigest : String) (resultJson resultDigest : Option String) (now : Time)
    (requestId : String) :
    noEffectReports (reconciledWorld world target effectOccurred evidenceDigest resultJson
        resultDigest now) requestId =
      noEffectReports world requestId +
        (if target = requestId ∧ effectOccurred = false then 1 else 0) := by
  have rows : (reconciledWorld world target effectOccurred evidenceDigest resultJson
      resultDigest now).db.reconciliations = world.db.reconciliations ++
        [⟨target, effectOccurred, evidenceDigest, resultJson, now⟩] := by
    cases effectOccurred <;> rfl
  rw [noEffectReports, rows, List.countP_append, noEffectReports]
  congr 1
  cases effectOccurred <;> simp [List.countP_singleton]

/-- No step takes an admission back. -/
theorem admissions_le (host : Host) (world : World) (answer : Answer) {op : Op}
    (issued : op.issued) (requestId : String) :
    admissions (world.db.effect requestId) (noEffectReports world requestId) ≤
      admissions ((op.answer host answer world).2.db.effect requestId)
        (noEffectReports (op.answer host answer world).2 requestId) := by
  rcases reconciliations_change host world answer issued with
    ⟨sameReports, unchanged⟩ |
      ⟨target, effectOccurred, evidenceDigest, resultJson, resultDigest, now, row, rfl, found,
        unresolved, same⟩
  · have reports : noEffectReports (op.answer host answer world).2 requestId =
        noEffectReports world requestId := by
      rw [noEffectReports, sameReports, noEffectReports]
    rw [reports]
    have change := ledgerChange host world answer issued requestId
    generalize after : (op.answer host answer world).2.db.effect requestId = row' at change ⊢
    generalize before : world.db.effect requestId = row at change ⊢
    cases change with
    | keep => exact le_refl _
    | enter named => exact Nat.zero_le _
    | reenter => simp only [admissions, EffectRow.readmitted]; split <;> simp
    | attempt => simp only [admissions, EffectRow.attempted]; split <;> simp
    | commit => simp only [admissions, EffectRow.committed]; split <;> simp
    | reconcile unresolved =>
        rw [unchanged rfl, before] at after
        rw [← after]
  · rw [same, noEffectReports_reconciled, effect_reconciledWorld]
    by_cases named : target = requestId
    · subst named
      have isTarget := (Db.effect_eq_some.1 found).2
      have open' : row.state ≠ .reconciledNoEffect := by
        intro cleared
        rw [cleared] at unresolved
        cases unresolved
      cases effectOccurred <;>
        simp [found, isTarget, admissions, open', EffectRow.reconciled, EffectRow.committed,
          EffectRow.cleared]
    · cases other : world.db.effect requestId with
      | none => exact Nat.zero_le _
      | some row' =>
          have notTarget : row'.requestId ≠ target :=
            fun same => named (same.symm.trans (Db.effect_eq_some.1 other).2)
          simp [admissions, notTarget, named]

/-- A step that admits a request to the ledger adds an admission, if a re-admission finds the
row cleared. -/
theorem admissions_lt {call : ToolCall} {log : History} {op : Op}
    (admitted : AdmittedLast host (⟨op, (op.answer host answer world).1⟩ :: log) call)
    (clean : ∀ now, op = .sql (.readmitEffect call.requestId now) → answer.fault = none →
      ∃ row, world.db.effect call.requestId = some row ∧ row.state = .reconciledNoEffect) :
    admissions (world.db.effect call.requestId) (noEffectReports world call.requestId) <
      admissions ((op.answer host answer world).2.db.effect call.requestId)
        (noEffectReports (op.answer host answer world).2 call.requestId) := by
  obtain ⟨now, fresh | again⟩ := admitted.last
  · obtain ⟨rfl, answered⟩ := Entry.mk.inj fresh
    rw [heq_eq_eq] at answered
    cases fault : answer.fault with
    | some fault' => simp [Op.answer, fault] at answered
    | none =>
        simp only [Op.answer, fault, Stmt.exec] at answered ⊢
        split at answered
        · rename_i effects inserted
          have absent := effect_none_of_insert inserted
          simp only [freshEffect] at absent
          change admissions (world.db.effect call.requestId) (noEffectReports world call.requestId) <
            admissions (({ world.db with effects := effects } : Db).effect call.requestId)
              (noEffectReports world call.requestId)
          rw [effect_insert inserted, absent]
          simp [admissions, freshEffect]
        · cases answered
  · obtain ⟨rfl, answered⟩ := Entry.mk.inj again
    rw [heq_eq_eq] at answered
    cases fault : answer.fault with
    | some fault' => simp [Op.answer, fault] at answered
    | none =>
        obtain ⟨row, found, cleared⟩ := clean now rfl fault
        have named := (Db.effect_eq_some.1 found).2
        have again : (Op.answer host (.sql (.readmitEffect call.requestId now)) answer
            world).2.db.effect call.requestId = some (row.readmitted now) := by
          simp only [Op.answer, fault]
          refine (effect_updateEffects call.requestId _ _ call.requestId).trans ?_
          rw [found, Option.map_some, if_pos named]
        have reports : noEffectReports (Op.answer host (.sql (.readmitEffect call.requestId now))
            answer world).2 call.requestId = noEffectReports world call.requestId := by
          simp [Op.answer, fault, Stmt.exec, noEffectReports, updateEffects]
        rw [again, reports, found]
        simp [admissions, cleared, EffectRow.readmitted]

/-- A process that is about to invoke a mutation handler admitted its request just before. -/
theorem admittedLast_of_dispatching {call : Call} {rest : Proc Unit} {log : History}
    {alive : Bool} {requestId : String}
    (rule : rest.Obeys (CallRule host call) Program.anyOutcome log)
    (about : dispatching requestId ⟨call, rest, log, alive⟩ = true) :
    ∃ entered : ToolCall, entered.requestId = requestId ∧ AdmittedLast host log entered := by
  unfold dispatching at about
  split at about
  · rename_i handled next
    unfold Process.nextOp at next
    split at next
    · rename_i op continuation running
      obtain rfl := Option.some.inj next
      simp only at running
      subst running
      obtain ⟨registry, enter, _, entered, capabilities, spec, _, _, rfl, admitted⟩ :=
        CallRule.tool rule.head rfl
      simp only [HandlerCall.mutates, Bool.and_eq_true, beq_iff_eq] at about
      exact ⟨entered, about.2, admitted about.1⟩
    · cases next
  · cases about

/-! ### Runs -/

/-- Handler calls made and about to be made never outnumber the admissions. -/
def Accounted (requestId : String) (config : KernelConfig) : Prop :=
  invocations config.world requestId + config.procs.countP (dispatching requestId) ≤
    admissions (config.world.db.effect requestId) (noEffectReports config.world requestId)

theorem accounted_step {steps : KernelConfig → Label Answer Call → Prop}
    {config config' : KernelConfig} {label : Label Answer Call} {requestId : String}
    (reached : (system host).Reachable steps KernelConfig.initial config)
    (accounted : Accounted requestId config) (clean : reentersCleared config label = true)
    (stepped : Steps host config label config') :
    Accounted requestId config' := by
  have rules := reachable_rule reached
  cases stepped with
  | spawn call =>
      -- a fresh call has admitted nothing yet
      have idle : dispatching requestId ⟨call, call.program host, [], true⟩ = false := by
        rw [Bool.eq_false_iff]
        intro about
        obtain ⟨entered, _, admitted⟩ :=
          admittedLast_of_dispatching (program_obeys host call) about
        cases admitted
      simpa [Accounted, List.countP_append, idle] using accounted
  | @act pid answer call op next log found =>
      have rule := rules _ (List.mem_of_getElem? found)
      have keeps := admissions_le host config.world answer rule.head.issued requestId
      generalize fresh : (⟨call, next (op.answer host answer config.world).1,
        ⟨op, (op.answer host answer config.world).1⟩ :: log, true⟩ :
          Process kernel Exc Call) = process
      have counted := System.countP_set (dispatching requestId) process found
      have gains : dispatching requestId process = true →
          (∀ handled, op ≠ .handler handled) ∧
            admissions (config.world.db.effect requestId)
                (noEffectReports config.world requestId) <
              admissions ((op.answer host answer config.world).2.db.effect requestId)
                (noEffectReports (op.answer host answer config.world).2 requestId) := by
        intro about
        rw [← fresh] at about
        obtain ⟨entered, rfl, admitted⟩ := admittedLast_of_dispatching (rule.tail _) about
        constructor
        · rintro handled rfl
          obtain ⟨now, impossible | impossible⟩ := admitted.last
          · cases impossible
          · cases impossible
        · refine admissions_lt admitted fun now isReadmit sound => ?_
          subst isReadmit
          have stored : (config.world.db.effect entered.requestId).any
              (fun row => row.state == .reconciledNoEffect) = true := by
            simpa [reentersCleared, KernelConfig.performing_act found, sound] using clean
          cases at' : config.world.db.effect entered.requestId with
          | none => simp [at'] at stored
          | some row => exact ⟨row, rfl, by simpa [at'] using stored⟩
      simp only [Accounted] at accounted ⊢
      rcases calls_change host config.world answer op with
        same | ⟨handled, rfl, ran⟩
      · have sameCalls : invocations (op.answer host answer config.world).2 requestId =
            invocations config.world requestId := by rw [invocations, same, invocations]
        rw [sameCalls]
        by_cases about : dispatching requestId process = true
        · have more := (gains about).2
          rw [if_pos about] at counted
          omega
        · rw [if_neg about] at counted
          omega
      · -- the handler call was counted as about to happen and is now counted as made
        have notAgain : dispatching requestId process = false :=
          Bool.eq_false_iff.2 fun about => (gains about).1 handled rfl
        have moved : invocations (Op.answer host (.handler handled) answer config.world).2
            requestId = invocations config.world requestId +
              (if dispatching requestId ⟨call, .call (F := kernel) (.handler handled) next, log,
                true⟩ = true then 1 else 0) := by
          rw [invocations, ran, List.countP_append, List.countP_singleton]
          rfl
        rw [moved]
        rw [notAgain] at counted
        simp only [Bool.false_eq_true, if_false] at counted
        omega
  | @die pid process found =>
      have counted := System.countP_set (dispatching requestId)
        { process with alive := false } found
      have idle : dispatching requestId { process with alive := false } = false := rfl
      unfold Accounted at accounted ⊢
      simp only [idle, Bool.false_eq_true, if_false] at counted ⊢
      omega

theorem admissions_le_reports (row : Option EffectRow) (reports : Nat) :
    admissions row reports ≤ 1 + reports := by
  unfold admissions
  split
  · exact Nat.zero_le _
  · split <;> omega

/-- The steps of a run in which no re-admission overwrites a row that is no longer cleared. -/
def CleanlyReentered (config : KernelConfig) (label : Label Answer Call) : Prop :=
  reentersCleared config label = true

theorem accounted_of_reachable {config : KernelConfig} (requestId : String)
    (reached : (system host).Reachable CleanlyReentered KernelConfig.initial config) :
    Accounted requestId config := by
  refine reached.invariant (I := Accounted requestId) (le_refl _) ?_
  intro config label config' before accounted clean stepped
  exact accounted_step before accounted clean (.of_step stepped)

/-- A mutation handler is invoked at most once more than its request was reconciled as having had
no effect, in every run whose re-admissions all find the row they cleared their call for. -/
theorem invocations_le (host : Host) (config : KernelConfig)
    (reached : (system host).Reachable CleanlyReentered KernelConfig.initial config)
    (requestId : String) :
    invocations config.world requestId ≤ 1 + noEffectReports config.world requestId := by
  have accounted := accounted_of_reachable requestId reached
  have bounded := admissions_le_reports (config.world.db.effect requestId)
    (noEffectReports config.world requestId)
  unfold Accounted at accounted
  omega

/-! ### Two hosts re-admit one request -/

/-- A first call fails without an outcome, its request is reconciled as having had no effect, and
two hosts then execute it again, each reading the row before the other writes it. -/
def racingReentries : List (Label Answer Call) :=
  let timeout : Answer := .ofOutput (.error ⟨.other "TimeoutError", "no answer"⟩)
  let pay (now : Time) : Call := .execute payRegistry (payCall "q") ["money"] now
  [.spawn (pay 0), .act 0 .quiet, .act 0 .quiet, .act 0 .quiet, .act 0 timeout, .act 0 .quiet,
    .spawn (.reconcile "q" false someEvidence 1 none), .act 1 .quiet, .act 1 .quiet,
    .spawn (pay 2), .spawn (pay 2), .act 2 .quiet, .act 2 .quiet, .act 3 .quiet, .act 3 .quiet,
    .act 2 .quiet, .act 3 .quiet, .act 2 .quiet, .act 3 .quiet]

set_option maxRecDepth 10000 in
/-- Without the condition the handler is invoked a third time after one reconciliation. -/
theorem invocations_race :
    ∃ config, (system plainHost).Reachable (fun _ _ => True) KernelConfig.initial config ∧
      1 + noEffectReports config.world "q" < invocations config.world "q" := by
  have ran : ((system plainHost).run (fun _ _ => true) KernelConfig.initial racingReentries).any
      (fun config => decide (1 + noEffectReports config.world "q" <
        invocations config.world "q")) = true := by decide +kernel
  obtain ⟨config, reached, more⟩ := System.Reachable.exists_of_run racingReentries ran
  exact ⟨config, reached.mono fun _ _ _ => trivial, by simpa using more⟩

/-- A first call that fails without an outcome, a reconciliation, and one execution after it. -/
def singleReentry : List (Label Answer Call) :=
  racingReentries.take 9 ++
    [.spawn (.execute payRegistry (payCall "q") ["money"] 2), .act 2 .quiet, .act 2 .quiet,
      .act 2 .quiet, .act 2 .quiet]

set_option maxRecDepth 10000 in
/-- A run that meets the condition and reaches the bound. -/
theorem invocations_le_reentry :
    ∃ config, (system plainHost).Reachable CleanlyReentered KernelConfig.initial config ∧
      invocations config.world "q" = 2 ∧
        invocations config.world "q" ≤ 1 + noEffectReports config.world "q" := by
  have ran : ((system plainHost).run reentersCleared KernelConfig.initial singleReentry).any
      (fun config => decide (invocations config.world "q" = 2)) = true := by decide +kernel
  obtain ⟨config, reached, twice⟩ := System.Reachable.exists_of_run singleReentry ran
  exact ⟨config, reached, by simpa using twice, invocations_le plainHost config reached "q"⟩

end PreActive.Kernel
