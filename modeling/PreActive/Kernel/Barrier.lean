/-
Module: PreActive.Kernel.Barrier
Purpose: The effect recovery barrier, and the runs of the system that keep it.
Trusted boundary: human-reviewed spec
Main exports: reliesOn, keepsBarrier, RecoveryBarrier, recovery_barrier
-/
import PreActive.Kernel.Origins

namespace PreActive.Kernel

open PreActive.Foundation PreActive.Python

/-! ### The condition -/

/-- The step read the request as `COMMITTED`, or committed it. -/
def showsCommitted (requestId : String) : Entry kernel Exc → Bool
  | ⟨.sql (.selectEffect target), .ok (some row)⟩ =>
      target == requestId && row.state == .committed
  | ⟨.sql (.commitEffect target _ _ _), .ok _⟩ => target == requestId
  | _ => false

/-- A host that still has to resume its run has seen the request `COMMITTED`. -/
def reliesOn (requestId : String) (process : Process kernel Exc Call) : Bool :=
  process.nextOp.isSome && process.call.resumes && process.log.any (showsCommitted requestId)

def Db.committed (db : Db) (requestId : String) : Bool :=
  (db.effect requestId).any fun row => row.state == .committed

/-- The step of the process does none of these: resume a run that waits for another request than
the one this host read; overwrite a `COMMITTED` row that a resuming host relies on; execute a tool
that mutates nothing in place of the blocked mutation. -/
def keepsBarrierAt (config : KernelConfig) (process : Process kernel Exc Call) (fault : Bool) :
    Op → Bool
  | .transaction (.resumeRunAfterEffect runId _ _) =>
      fault || (config.world.db.run runId).all fun row =>
        row.status != .blockedEffect ||
          (readRun process.log).any fun run => run.blockedRequestId == row.blockedRequestId
  | .sql (.attemptUnknown requestId _) | .sql (.readmitEffect requestId _) =>
      fault || !config.world.db.committed requestId || !config.procs.any (reliesOn requestId)
  | .handler handled => handled.spec.mutation || !process.call.resumes
  | _ => true

def keepsBarrier (config : KernelConfig) : Label Answer Call → Bool
  | .act pid answer =>
      (config.procs[pid]?).all fun process =>
        process.nextOp.all (keepsBarrierAt config process answer.fault.isSome)
  | _ => true

/-- The steps of a run in which every resume is for the request it was made for, and the effect
it relies on stays committed. -/
def KeepsBarrier (config : KernelConfig) (label : Label Answer Call) : Prop :=
  keepsBarrier config label = true

variable {host : Host} {config config' : KernelConfig} {label : Label Answer Call}
variable {log : History}

theorem KeepsBarrier.at {pid : Nat} {answer : Answer} {call : Call} {op : Op}
    {next : Except Exc op.Result → Proc Unit} (keeps : KeepsBarrier config (.act pid answer))
    (found : config.procs[pid]? = some ⟨call, .call (F := kernel) op next, log, true⟩) :
    keepsBarrierAt config ⟨call, .call (F := kernel) op next, log, true⟩ answer.fault.isSome op =
      true := by
  simpa [KeepsBarrier, keepsBarrier, found, Process.nextOp] using keeps

/-! ### What a resuming host relies on -/

theorem Db.committed_iff {db : Db} {requestId : String} :
    db.committed requestId = true ↔
      ∃ row, db.effect requestId = some row ∧ row.state = .committed := by
  simp [committed, Option.any_eq_true]

/-- A step that shows the request committed leaves it committed. -/
theorem committed_of_shows {answer : Answer} {op : Op} {world : World} {requestId : String}
    (shows : showsCommitted requestId ⟨op, (op.answer host answer world).1⟩ = true)
    (stored : ∀ resultJson resultSha256 now,
      op = .sql (.commitEffect requestId resultJson resultSha256 now) →
        ∃ row, world.db.effect requestId = some row) :
    (op.answer host answer world).2.db.committed requestId = true := by
  rw [Db.committed_iff]
  unfold showsCommitted at shows
  split at shows
  · rename_i target row same
    obtain ⟨rfl, answered⟩ := Entry.mk.inj same
    rw [heq_eq_eq] at answered
    simp only [Bool.and_eq_true, beq_iff_eq] at shows
    obtain ⟨rfl, committed⟩ := shows
    cases faulty : answer.fault with
    | some fault => simp [Op.answer, faulty] at answered
    | none =>
        simp only [Op.answer, faulty, Stmt.exec, Except.ok.injEq] at answered ⊢
        exact ⟨row, answered, committed⟩
  · rename_i target resultJson resultSha256 now _ same
    obtain ⟨rfl, answered⟩ := Entry.mk.inj same
    rw [heq_eq_eq] at answered
    obtain rfl := beq_iff_eq.1 shows
    obtain ⟨row, stored⟩ := stored _ _ _ rfl
    cases faulty : answer.fault with
    | some fault => simp [Op.answer, faulty] at answered
    | none =>
        refine ⟨row.committed resultJson resultSha256 now, ?_, rfl⟩
        simp only [Op.answer, faulty]
        refine (effect_updateEffects target _ _ target).trans ?_
        rw [stored, Option.map_some, if_pos (Db.effect_eq_some.1 stored).2]
  · cases shows

/-- A committed row that no step overwrites stays committed. -/
theorem LedgerChange.committed_kept {requestId : String} {op : Op} {before after : Option EffectRow}
    (change : LedgerChange requestId op before after)
    (attempts : ∀ now, op ≠ .sql (.attemptUnknown requestId now))
    (readmits : ∀ now, op ≠ .sql (.readmitEffect requestId now))
    (committed : ∃ row, before = some row ∧ row.state = .committed) :
    ∃ row, after = some row ∧ row.state = .committed := by
  cases change with
  | keep => exact committed
  | enter named =>
      obtain ⟨row, impossible, _⟩ := committed
      cases impossible
  | reenter => exact absurd rfl (readmits _)
  | attempt => exact absurd rfl (attempts _)
  | commit => exact ⟨_, rfl, rfl⟩
  | @reconcile row effectOccurred _ _ _ _ unresolved =>
      obtain ⟨_, same, committed⟩ := committed
      rw [Option.some.inj same, committed] at unresolved
      cases unresolved

/-- Every request that a resuming host relies on is committed. -/
def Relied (config : KernelConfig) : Prop :=
  ∀ process ∈ config.procs, ∀ requestId, reliesOn requestId process = true →
    config.world.db.committed requestId = true

/-- A committed row that a host relies on stays committed in a step that meets the condition. -/
theorem committed_step {steps : KernelConfig → Label Answer Call → Prop} {pid : Nat}
    {answer : Answer} {call : Call} {op : Op} {next : Except Exc op.Result → Proc Unit}
    {requestId : String}
    (reached : (system host).Reachable steps KernelConfig.initial config)
    (keeps : KeepsBarrier config (.act pid answer))
    (found : config.procs[pid]? = some ⟨call, .call (F := kernel) op next, log, true⟩)
    (relied : config.procs.any (reliesOn requestId) = true)
    (committed : config.world.db.committed requestId = true) :
    (op.answer host answer config.world).2.db.committed requestId = true := by
  cases faulty : answer.fault with
  | some fault =>
      rw [Op.answer_fault faulty]
      exact committed
  | none =>
      have rule := (reachable_rule reached _ (List.mem_of_getElem? found)).head
      have allowed := keeps.at found
      rw [Db.committed_iff] at committed ⊢
      apply (ledgerChange host config.world answer rule.issued requestId).committed_kept
      · rintro now rfl
        simp [keepsBarrierAt, faulty, Db.committed_iff.2 committed, relied] at allowed
      · rintro now rfl
        simp [keepsBarrierAt, faulty, Db.committed_iff.2 committed, relied] at allowed
      · exact committed

theorem relied_step {steps : KernelConfig → Label Answer Call → Prop}
    (reached : (system host).Reachable steps KernelConfig.initial config)
    (keeps : KeepsBarrier config label) (stepped : Steps host config label config')
    (held : Relied config) : Relied config' := by
  cases stepped with
  | spawn call =>
      intro process member requestId relies
      rcases List.mem_append.1 member with old | fresh
      · exact held process old requestId relies
      · rw [List.mem_singleton] at fresh
        simp [fresh, reliesOn] at relies
  | @die pid process found =>
      intro process' member requestId relies
      rcases System.mem_set_cases member with old | rfl
      · exact held process' old requestId relies
      · simp [reliesOn] at relies
  | @act pid answer call op next log found =>
      have running := List.mem_of_getElem? found
      intro process member requestId relies
      rcases System.mem_set_cases member with old | rfl
      · exact committed_step reached keeps found (List.any_eq_true.2 ⟨process, old, relies⟩)
          (held process old requestId relies)
      · simp only [reliesOn, List.any_cons, Bool.and_eq_true, Bool.or_eq_true] at relies
        obtain ⟨⟨_, resumes⟩, shows | before⟩ := relies
        · -- the step itself shows the request committed
          refine committed_of_shows shows fun resultJson resultSha256 now isCommit => ?_
          subst isCommit
          have rule := (reachable_rule reached _ running).head
          obtain ⟨registry, enter, _, handled, output, older, rfl, mutation, rfl, _⟩ :=
            rule.tool rfl
          obtain ⟨row, stored, _⟩ := handled_stored (reachable_known reached _ running)
            (reachable_lawful reached _ running) List.mem_cons_self mutation
          exact ⟨row, stored⟩
        · have relies : reliesOn requestId ⟨call, .call (F := kernel) op next, log, true⟩ = true := by
            simp only [reliesOn, Process.nextOp_call, Option.isSome_some, resumes, before,
              Bool.and_self]
          exact committed_step reached keeps found
            (List.any_eq_true.2 ⟨_, running, relies⟩) (held _ running requestId relies)

theorem relied_of_reachable
    (reached : (system host).Reachable KeepsBarrier KernelConfig.initial config) :
    Relied config := by
  refine reached.invariant (I := Relied) ?_ ?_
  · intro process member
    cases member
  · intro config label config' before held keeps stepped
    exact relied_step before keeps (.of_step stepped) held

/-! ### Resumes -/

/-- Only a resuming host resumes a run. -/
theorem CallRule.resumeRun {call : Call} {runId : String} {now : Time} {priority : Int}
    (rule : CallRule host call log (.transaction (.resumeRunAfterEffect runId now priority))) :
    ∃ registry started, call = .resumeBlockedEffect registry runId started ∧
      ∃ run requestId result, Resuming log runId run requestId ∧
        RecoverReturns host registry requestId run.capabilities log result := by
  cases call with
  | resumeBlockedEffect registry target started =>
      obtain ⟨rfl, run, requestId, result, resuming, returned⟩ := rule
      exact ⟨registry, started, rfl, run, requestId, result, resuming, returned⟩
  | _ => exact rule.elim

/-- A recovery that executed nothing but the mutation has seen the request committed. -/
theorem RecoverReturns.shows {registry : ToolRegistry} {requestId : String}
    {allowed : List String} {result : ToolExecution}
    (returned : RecoverReturns host registry requestId allowed log result)
    (mutations : ∀ entry ∈ log, ∀ handled, entry.op = .handler handled →
      handled.spec.mutation = true) :
    log.any (showsCommitted requestId) = true := by
  rw [List.any_eq_true]
  rcases returned with ⟨row, saw, committed, _⟩ | ⟨call, stored, executed⟩
  · exact ⟨_, saw, by simp [showsCommitted, committed]⟩
  · obtain ⟨_, spec, _, evidence⟩ := executed
    rw [← stored.sameRequest]
    rcases evidence with ⟨handled, commits⟩ | ⟨_, row, saw, _, committed, _⟩
    · obtain ⟨resultJson, resultSha256, now, saw⟩ := commits (mutations _ handled _ rfl)
      exact ⟨_, saw, by simp [showsCommitted]⟩
    · exact ⟨_, saw, by simp [showsCommitted, committed]⟩

/-- In a run that meets the condition, a resuming host invokes mutation handlers only. -/
theorem resumes_mutations
    (reached : (system host).Reachable KeepsBarrier KernelConfig.initial config) :
    ∀ process ∈ config.procs, ∀ entry ∈ process.log, ∀ handled, process.call.resumes = true →
      entry.op = .handler handled → handled.spec.mutation = true := by
  intro process member entry done handled resumes same
  have performed := reached.performed (P := fun call (op : Op) => ∀ handled : HandlerCall,
    call.resumes = true → op = .handler handled → handled.spec.mutation = true) ?_ rfl
  · exact performed process member entry done handled resumes same
  · rintro config pid answer call op next log found keeps handled resumes rfl
    simpa [keepsBarrierAt, resumes] using KeepsBarrier.at keeps found

/-- A run leaves `BLOCKED_EFFECT` for `RUNNING` only by a resume, and then the request it is
blocked on is committed. -/
theorem resumed_committed {runId : String} {row row' : RunRow}
    (reached : (system host).Reachable KeepsBarrier KernelConfig.initial config)
    (keeps : KeepsBarrier config label) (stepped : Steps host config label config')
    (before : config.world.db.run runId = some row) (blocked : row.status = .blockedEffect)
    (after : config'.world.db.run runId = some row') (running : row'.status = .running) :
    ∃ requestId, row.blockedRequestId = some requestId ∧
      config.world.db.committed requestId = true := by
  cases stepped with
  | spawn call =>
      obtain rfl := Option.some.inj (before.symm.trans after)
      cases running.symm.trans blocked
  | die found =>
      obtain rfl := Option.some.inj (before.symm.trans after)
      cases running.symm.trans blocked
  | @act pid answer call op next log found =>
      have member := List.mem_of_getElem? found
      have rule := (reachable_rule reached _ member).head
      have step := Kernel.runStep host config.world answer rule.issued runId
      change (op.answer host answer config.world).2.db.run runId = some row' at after
      rw [before, after] at step
      cases faulty : answer.fault with
      | some fault =>
          rw [Op.answer_fault faulty] at after
          obtain rfl := Option.some.inj (before.symm.trans after)
          cases running.symm.trans blocked
      | none =>
          cases step with
          | keep => cases running.symm.trans blocked
          | update issued =>
              cases issued with
              | complete now text => cases running
              | fail now error => cases running
              | note now error => cases running.symm.trans blocked
          | block open' => cases running
          | advance open' => cases open'.symm.trans blocked
          | @resume _ now priority _ =>
              obtain ⟨registry, started, rfl, run, requestId, result, resuming, returned⟩ :=
                CallRule.resumeRun rule
              have once : ∀ runId' run', Saw log (.sql (.selectRun runId')) (some run') →
                  run = run' := fun _ _ saw => (selects_once_of 0
                (reachable_lawful reached _ member) (fun _ _ both => by rw [both.2]; rfl)
                resuming.selected saw).2
              have read := readRun_eq_some once resuming.selected
              have allowed := keeps.at found
              simp only [keepsBarrierAt, faulty, Option.isSome_none, Bool.false_or, before,
                Option.all_some, blocked, bne_self_eq_false, read, Option.any_some,
                resuming.request, beq_iff_eq] at allowed
              refine ⟨requestId, allowed.symm, ?_⟩
              have shows := returned.shows fun entry done handled =>
                resumes_mutations reached _ member entry done handled rfl
              refine relied_of_reachable reached _ member requestId ?_
              simp only [reliesOn, Process.nextOp_call, Option.isSome_some, Call.resumes, shows,
                Bool.and_self]

/-! ### The barrier -/

/-- The barrier around the runs that are blocked on an effect. -/
structure RecoveryBarrier (host : Host) (config : KernelConfig) : Prop where
  resumed : ∀ label config', KeepsBarrier config label →
    (system host).step config label = some config' → ∀ runId row row',
      config.world.db.run runId = some row → row.status = .blockedEffect →
        config'.world.db.run runId = some row' → row'.status = .running →
          ∃ requestId, row.blockedRequestId = some requestId ∧
            config.world.db.committed requestId = true
  /-- No model is asked past a blocked run, whose decision on the effect is stored. -/
  asked : ∀ process ∈ config.procs, ∀ engine now, process.call = .runOnce engine now →
    ∀ messages tools, process.nextOp = some (.respond messages tools) →
      ∃ runId step run, ActsFor host engine process.log runId step ∧
        config.world.db.run runId = some run ∧ step ≤ run.stepCount ∧
          (run.status = .blockedEffect → ∃ decidedStep call, decidedStep ≤ run.stepCount ∧
            DecidedCall host config.world.db runId decidedStep call ∧
              run.blockedRequestId = some call.requestId)

/-- In every run in which each resume is for the request it was made for and that request stays
committed until then, a run is resumed only while the request it is blocked on is committed, and
no model is asked for a later step than the run stands at. -/
theorem recovery_barrier (host : Host) (config : KernelConfig)
    (reached : (system host).Reachable KeepsBarrier KernelConfig.initial config) :
    RecoveryBarrier host config where
  resumed := by
    intro label config' keeps stepped runId row row' before blocked after running
    exact resumed_committed reached keeps (.of_step stepped) before blocked after running
  asked := by
    intro process member engine now worker messages tools next
    obtain ⟨claim, event, runId, run, stepping, _⟩ := worker_rule reached member worker next
    obtain ⟨row, stored, evolves⟩ := Saw.run (reachable_known reached process member)
      stepping.selected
    refine ⟨runId, run.stepCount, row, ⟨claim, event, run, stepping, rfl⟩, stored,
      evolves.stepCount, fun blocked => ?_⟩
    obtain ⟨decidedStep, call, _, decided, waits, _, notAfter⟩ :=
      blocked_decided reached runId row stored blocked
    exact ⟨decidedStep, call, notAfter, decided, waits⟩

/-! ### A delayed resume -/

/-- A second host resumes the run, and its next step is blocked on another payment. -/
def secondPayment : List (Label Answer Call) :=
  [.spawn (.resumeBlockedEffect payRegistry "id-0" 2), .act 4 .quiet, .act 4 .quiet,
    .act 4 .quiet, .act 4 .quiet, .act 4 .quiet,
    .spawn (.runOnce (payEngine "b") 20), .act 5 .quiet, .act 5 .quiet, .act 5 .quiet,
    .act 5 .quiet, .act 5 (.ofResponse (.toolCall (payCall "q2"))), .act 5 .quiet, .act 5 .quiet,
    .act 5 .quiet, .act 5 .quiet, .act 5 .quiet,
    .act 5 (.ofOutput (.error ⟨.other "TimeoutError", "no answer"⟩)), .act 5 .quiet,
    .act 5 .quiet, .act 5 .quiet]

set_option maxRecDepth 10000 in
/-- Without the condition a resume for one payment clears the block on another. -/
theorem resumed_unresolved :
    ∃ config label config', (system plainHost).Reachable (fun _ _ => True) KernelConfig.initial
        config ∧
      (system plainHost).step config label = some config' ∧
        config.world.db.isBlockedOn "id-0" "q2" 1 = true ∧
          config.world.db.ledgerState "q2" = some .attemptedUnknown ∧
            config'.world.db.runStanding "id-0" = some (.running, 2) := by
  have ran : ((system plainHost).run (fun _ _ => true) KernelConfig.initial
      (confirmedPayment ++ secondPayment)).any (fun config =>
        config.world.db.isBlockedOn "id-0" "q2" 1 &&
          (decide (config.world.db.ledgerState "q2" = some .attemptedUnknown) &&
            ((system plainHost).step config (.act 3 .quiet)).any fun config' =>
              decide (config'.world.db.runStanding "id-0" = some (.running, 2)))) = true := by
    decide +kernel
  obtain ⟨config, reached, ended⟩ := System.Reachable.exists_of_run _ ran
  simp only [Bool.and_eq_true, decide_eq_true_eq] at ended
  obtain ⟨blocked, unresolved, resumed⟩ := ended
  obtain ⟨config', stepped, running⟩ := (Option.any_eq_true _ _).1 resumed
  exact ⟨config, .act 3 .quiet, config', reached.mono fun _ _ _ => trivial, stepped, blocked,
    unresolved, of_decide_eq_true running⟩

set_option maxRecDepth 10000 in
/-- The barrier in a state in which a host is about to resume a run whose payment is confirmed. -/
theorem recovery_barrier_confirmed :
    ∃ config, (system plainHost).Reachable KeepsBarrier KernelConfig.initial config ∧
      config.world.db.isBlockedOn "id-0" "q" 0 = true ∧
        config.world.db.ledgerState "q" = some .committed ∧
          RecoveryBarrier plainHost config := by
  have ran : ((system plainHost).run keepsBarrier KernelConfig.initial confirmedPayment).any
      (fun config => config.world.db.isBlockedOn "id-0" "q" 0 &&
        decide (config.world.db.ledgerState "q" = some .committed)) = true := by decide +kernel
  obtain ⟨config, reached, ended⟩ := System.Reachable.exists_of_run _ ran
  simp only [Bool.and_eq_true, decide_eq_true_eq] at ended
  exact ⟨config, reached, ended.1, ended.2, recovery_barrier plainHost config reached⟩

end PreActive.Kernel
