/-
Module: PreActive.Kernel.Transactions
Purpose: What the multi-statement methods do when nothing comes in between: the outcomes of
  `enqueue_event` and of each `BEGIN IMMEDIATE .. COMMIT` block.
Trusted boundary: none
Main exports: Sql.run_bind, Enqueues, Transacts, Transaction.exec_ok, Transaction.exec_error
-/
import PreActive.Kernel.Rows
import PreActive.Kernel.Store

namespace PreActive.Kernel

open PreActive.Foundation PreActive.Python

variable {host : Host} {world world' : World}

namespace Sql

variable {α β : Type}

@[simp] theorem run_done (value : α) : Sql.run host (.done value) world = (.ok value, world) := rfl

@[simp] theorem run_raise (exc : Exc) :
    Sql.run host (.raise exc : Sql α) world = (.error exc, world) := rfl

/-- One statement answers, and the rest runs in the world it leaves. -/
@[simp] theorem run_call (stmt : Stmt) (next : Except Exc stmt.Result → Sql α) (world : World) :
    Sql.run host (.call (F := stmtSignature) stmt next) world =
      (next (stmt.exec host world).1).run host (stmt.exec host world).2 := rfl

theorem run_bind (first : Sql α) (next : α → Sql β) (world : World) :
    Sql.run host (first.bind next) world =
      match first.run host world with
      | (.ok value, world') => (next value).run host world'
      | (.error exc, world') => (.error exc, world') := by
  unfold Sql.run
  rw [Program.execute_bind]
  rcases first.execute (sqlMachine host) (fun _ => ()) world with ⟨value | exc, world'⟩ <;> rfl

/-- A sequence that returned passed through its first part. -/
theorem run_bind_ok {first : Sql α} {next : α → Sql β} {result : β}
    (ran : Sql.run host (first.bind next) world = (.ok result, world')) :
    ∃ value middle, first.run host world = (.ok value, middle) ∧
      (next value).run host middle = (.ok result, world') := by
  rw [run_bind] at ran
  rcases outcome : Sql.run host first world with ⟨exc | value, middle⟩
  · rw [outcome] at ran
    cases ran
  · rw [outcome] at ran
    exact ⟨value, middle, rfl, ran⟩

/-- A sequence that ends by returning a known value. -/
theorem run_bind_done_ok {first : Sql α} {value result : β}
    (ran : Sql.run host (first.bind fun _ => .done value) world = (.ok result, world')) :
    ∃ middle, first.run host world = (.ok middle, world') ∧ result = value := by
  obtain ⟨middle, last, firstRan, rest⟩ := run_bind_ok ran
  simp only [run_done, Prod.mk.injEq, Except.ok.injEq] at rest
  obtain ⟨rfl, rfl⟩ := rest
  exact ⟨middle, firstRan, rfl⟩

end Sql

/-! ### Enqueueing -/

/-- The event found under a key of which the empty one means nothing. -/
def Db.existing (db : Db) (dedupKey : Option String) : Option EventRow :=
  dedupKey.bind fun key => if key = "" then none else db.eventByKey key

theorem run_existingForDedup (dedupKey : Option String) :
    (existingForDedup dedupKey).run host world = (.ok (world.db.existing dedupKey), world) := by
  cases dedupKey with
  | none => rfl
  | some key =>
      by_cases empty : key = ""
      · simp [existingForDedup, Db.existing, empty]
      · simp [existingForDedup, Db.existing, empty, Stmt.perform, Program.perform, Stmt.exec]

/-- The journal entry of a fresh event. -/
def EventRequest.journalRow (request : EventRequest) (eventId : String) : JournalRow where
  eventType := .eventEnqueued
  subjectId := some eventId
  payload := [("kind", .text request.kind), ("priority", .int request.priority),
    ("dedup_key", (request.dedupKey.map JournalField.text).getD .null)]
  createdAt := request.now

/-- How `enqueue_event` can return: with the event already bound to the key, or with a new one. -/
inductive Enqueues (host : Host) (request : EventRequest) (world : World) :
    String → World → Prop where
  | reused (row : EventRow) (found : world.db.existing request.dedupKey = some row)
      (same : request.sameAs row = true) :
      Enqueues host request world row.id world
  | fresh (events : Table EventRow)
      (absent : world.db.existing request.dedupKey = none)
      (inserted : world.db.events.insert (request.row (host.uuid4 world.drawn)) = some events) :
      Enqueues host request world (host.uuid4 world.drawn)
        { world with
          db := { world.db with
            events := events
            journal := world.db.journal ++ [request.journalRow (host.uuid4 world.drawn)] }
          drawn := world.drawn + 1 }

theorem reuseOrReject_ok {request : EventRequest} {row : EventRow} {eventId : String}
    (ran : (reuseOrReject request row).run host world = (.ok eventId, world')) :
    request.sameAs row = true ∧ eventId = row.id ∧ world' = world := by
  unfold reuseOrReject at ran
  split at ran
  · rename_i same
    simp only [Sql.run_done, Prod.mk.injEq, Except.ok.injEq] at ran
    exact ⟨same, ran.1.symm, ran.2.symm⟩
  · cases ran

theorem enqueueEvent_ok {request : EventRequest} {eventId : String}
    (ran : (enqueueEvent request).run host world = (.ok eventId, world')) :
    Enqueues host request world eventId world' := by
  unfold enqueueEvent at ran
  simp only [Program.bind_eq_bind, Sql.run_bind, run_existingForDedup] at ran
  cases found : world.db.existing request.dedupKey with
  | some row =>
      rw [found] at ran
      obtain ⟨same, rfl, rfl⟩ := reuseOrReject_ok ran
      exact .reused row found same
  | none =>
      simp only [found, Stmt.perform, Program.perform, Program.call_bind, Sql.run_call, Stmt.exec,
        Program.ofExcept_ok, Program.done_bind, Program.call_attempt,
        Program.ofExcept_attempt] at ran
      cases inserted : world.db.events.insert (request.row (host.uuid4 world.drawn)) with
      | some events =>
          simp [inserted, appendJournal, Stmt.perform, Program.perform, Stmt.exec] at ran
          obtain ⟨rfl, rfl⟩ := ran
          exact .fresh events found inserted
      | none =>
          -- the second lookup sees what the first one saw
          simp only [inserted, uniqueFailed, Exc.isIntegrityError, decide_true, if_true,
            Sql.run_bind, run_existingForDedup, found, Sql.run_raise] at ran
          cases ran

theorem reuseOrReject_world {request : EventRequest} {row : EventRow} {outcome : Except Exc String}
    (ran : (reuseOrReject request row).run host world = (outcome, world')) : world' = world := by
  unfold reuseOrReject at ran
  split at ran
  · exact (congrArg Prod.snd ran).symm
  · exact (congrArg Prod.snd ran).symm

/-- An `enqueue_event` that raises leaves the database as it was. -/
theorem enqueueEvent_error {request : EventRequest} {exc : Exc}
    (ran : (enqueueEvent request).run host world = (.error exc, world')) :
    world'.db = world.db := by
  unfold enqueueEvent at ran
  simp only [Program.bind_eq_bind, Sql.run_bind, run_existingForDedup] at ran
  cases found : world.db.existing request.dedupKey with
  | some row =>
      rw [found] at ran
      rw [reuseOrReject_world ran]
  | none =>
      simp only [found, Stmt.perform, Program.perform, Program.call_bind, Sql.run_call, Stmt.exec,
        Program.ofExcept_ok, Program.done_bind, Program.call_attempt,
        Program.ofExcept_attempt] at ran
      cases inserted : world.db.events.insert (request.row (host.uuid4 world.drawn)) with
      | some events =>
          simp [inserted, appendJournal, Stmt.perform, Program.perform, Stmt.exec] at ran
      | none =>
          simp only [inserted, uniqueFailed, Exc.isIntegrityError, decide_true, if_true,
            Sql.run_bind, run_existingForDedup, found, Sql.run_raise] at ran
          obtain ⟨_, rfl⟩ := Prod.mk.inj ran
          rfl

/-! ### Runs -/

/-- How `create_run` can return: with the run already bound to the source event, or a new one. -/
inductive CreatesRun (host : Host) (task : String) (capabilities : List String) (now : Time)
    (sourceEventId : Option String) (world : World) : String → World → Prop where
  | reused (source : String) (row : RunRow) (bound : sourceEventId = some source)
      (found : world.db.runBySource source = some row)
      (sameTask : row.task = task)
      (sameSet : sameCapabilities row.capabilities capabilities = true) :
      CreatesRun host task capabilities now sourceEventId world row.id world
  | fresh (runs : Table RunRow)
      (inserted : world.db.runs.insert
        (newRunRow task capabilities now sourceEventId (host.uuid4 world.drawn)) = some runs) :
      CreatesRun host task capabilities now sourceEventId world (host.uuid4 world.drawn)
        { world with db := { world.db with runs := runs }, drawn := world.drawn + 1 }

theorem reuseRun_ok {task runId : String} {capabilities : List String} {row : RunRow}
    (ran : (reuseRun task capabilities row).run host world = (.ok runId, world')) :
    row.task = task ∧ sameCapabilities row.capabilities capabilities = true ∧
      runId = row.id ∧ world' = world := by
  unfold reuseRun at ran
  split at ran
  · cases ran
  · rename_i same
    simp only [not_or, not_not, Bool.not_eq_true', Bool.not_eq_false] at same
    simp only [Sql.run_done, Prod.mk.injEq, Except.ok.injEq] at ran
    exact ⟨same.1, same.2, ran.1.symm, ran.2.symm⟩

/-- The lookup after a failed insert sees what the lookup before it saw. -/
theorem insertNewRun_ok {task runId : String} {capabilities : List String} {now : Time}
    {sourceEventId : Option String}
    (unbound : ∀ source, sourceEventId = some source → world.db.runBySource source = none)
    (ran : (insertNewRun task capabilities now sourceEventId).run host world =
      (.ok runId, world')) :
    CreatesRun host task capabilities now sourceEventId world runId world' := by
  simp only [insertNewRun, Stmt.perform, Program.perform, Program.bind_eq_bind, Program.call_bind,
    Program.call_attempt, Program.ofExcept_attempt, Sql.run_call, Stmt.exec, Program.ofExcept_ok,
    Program.done_bind] at ran
  cases inserted : world.db.runs.insert
      (newRunRow task capabilities now sourceEventId (host.uuid4 world.drawn)) with
  | some runs =>
      simp only [inserted, Program.pure_eq_done, Sql.run_done, Prod.mk.injEq,
        Except.ok.injEq] at ran
      obtain ⟨rfl, rfl⟩ := ran
      exact .fresh runs inserted
  | none =>
      simp only [inserted, uniqueFailed, Exc.isIntegrityError, decide_true, if_true] at ran
      cases sourceEventId with
      | none => cases ran
      | some source =>
          simp only [Sql.run_call, Stmt.exec, unbound source rfl, Program.ofExcept_ok,
            Program.done_bind, Sql.run_raise] at ran
          cases ran

theorem createRun_ok {task runId : String} {capabilities : List String} {now : Time}
    {sourceEventId : Option String}
    (ran : (createRun task capabilities now sourceEventId).run host world = (.ok runId, world')) :
    CreatesRun host task capabilities now sourceEventId world runId world' := by
  cases sourceEventId with
  | none => exact insertNewRun_ok (fun source bound => nomatch bound) ran
  | some source =>
      simp only [createRun, Stmt.perform, Program.perform, Program.bind_eq_bind,
        Program.call_bind, Sql.run_call, Stmt.exec, Program.ofExcept_ok,
        Program.done_bind] at ran
      cases found : world.db.runBySource source with
      | some row =>
          rw [found] at ran
          obtain ⟨sameTask, sameSet, rfl, rfl⟩ := reuseRun_ok ran
          exact .reused source row rfl found sameTask sameSet
      | none =>
          rw [found] at ran
          refine insertNewRun_ok (fun other bound => ?_) ran
          rw [← Option.some.inj bound]
          exact found

/-! ### Blocks -/

theorem standsAt_eq_true {runId : String} {status : RunStatus} {step : Nat} {row : RunRow} :
    row.standsAt runId status step = true ↔
      row.id = runId ∧ row.status = status ∧ row.stepCount = step := by
  simp [RunRow.standsAt, and_assoc]

/-- The `rowcount` of a guarded update of one run. -/
theorem count_standsAt (db : Db) (runId : String) (status : RunStatus) (step : Nat) :
    db.runs.count (RunRow.standsAt runId status step) = 1 ↔
      ∃ row, db.run runId = some row ∧ row.status = status ∧ row.stepCount = step := by
  rw [Table.count_eq_one]
  · constructor
    · rintro ⟨row, member, stands⟩
      obtain ⟨isRun, isStatus, isStep⟩ := standsAt_eq_true.1 stands
      exact ⟨row, Db.run_eq_some.2 ⟨member, isRun⟩, isStatus, isStep⟩
    · rintro ⟨row, found, isStatus, isStep⟩
      obtain ⟨member, isRun⟩ := Db.run_eq_some.1 found
      exact ⟨row, member, standsAt_eq_true.2 ⟨isRun, isStatus, isStep⟩⟩
  · intro a b inA inB
    rw [standsAt_eq_true] at inA inB
    simp [UniqueKeys.clash, UniqueKeys.key, inA.1, inB.1]

/-- The world in which an event was leased to a worker. -/
def leased (world : World) (workerId : String) (now leaseSeconds : Time) (row : EventRow) : World :=
  let world' := updateEvents world (fun other => other.id == row.id)
    (EventRow.claimedBy workerId (now + leaseSeconds) (row.attempts + 1) now) fun _ => rfl
  { world' with
    db := { world'.db with
      journal := world'.db.journal ++
        [⟨.eventClaimed, some row.id,
          [("worker_id", .text workerId), ("attempt", .int (row.attempts + 1 : Nat)),
            ("lease_until", .time (now + leaseSeconds))], now⟩] } }

theorem RunRow.advanced_key (now : Time) (row : RunRow) :
    UniqueKeys.key (row.advanced now) = UniqueKeys.key row := rfl

theorem RunRow.resumed_key (now : Time) (row : RunRow) :
    UniqueKeys.key (row.resumed now) = UniqueKeys.key row := rfl

/-- The world in which a run has left a step. -/
def advancedWorld (world : World) (runId : String) (step : Nat) (now : Time) : World :=
  updateRuns world (RunRow.standsAt runId .running step) (RunRow.advanced now)
    (RunRow.advanced_key now)

/-- The world in which a blocked run has left a step. -/
def resumedWorld (world : World) (runId : String) (step : Nat) (now : Time) : World :=
  let world' := updateRuns world (RunRow.standsAt runId .blockedEffect step) (RunRow.resumed now)
    (RunRow.resumed_key now)
  { world' with
    db := { world'.db with
      journal := world'.db.journal ++
        [⟨.runEffectRecovered, some runId, [("next_step", .int (step + 1 : Nat))], now⟩] } }

/-- The row of a run after it advanced, and those of the others. -/
theorem run_advancedWorld {runId : String} {step : Nat} (now : Time) {row : RunRow}
    (found : world.db.run runId = some row) (running : row.status = .running)
    (stands : row.stepCount = step) :
    (advancedWorld world runId step now).db.run runId = some (row.advanced now) ∧
      ∀ other, other ≠ runId →
        (advancedWorld world runId step now).db.run other = world.db.run other := by
  have updated := run_updateRuns world (RunRow.standsAt runId .running step)
    (RunRow.advanced now) fun _ => rfl
  constructor
  · refine (updated runId).trans ?_
    rw [found, Option.map_some,
      if_pos (standsAt_eq_true.2 ⟨(Db.run_eq_some.1 found).2, running, stands⟩)]
  · intro other apart
    refine (updated other).trans ?_
    cases stored : world.db.run other with
    | none => rfl
    | some row' =>
        rw [Option.map_some, if_neg]
        intro matched
        exact apart ((Db.run_eq_some.1 stored).2.symm.trans (standsAt_eq_true.1 matched).1)

/-- The row of a run after it resumed, and those of the others. -/
theorem run_resumedWorld {runId : String} (now : Time) {row : RunRow}
    (found : world.db.run runId = some row) (blocked : row.status = .blockedEffect) :
    (resumedWorld world runId row.stepCount now).db.run runId = some (row.resumed now) ∧
      ∀ other, other ≠ runId →
        (resumedWorld world runId row.stepCount now).db.run other = world.db.run other := by
  have updated := run_updateRuns world
    (RunRow.standsAt runId .blockedEffect row.stepCount) (RunRow.resumed now) fun _ => rfl
  constructor
  · refine (updated runId).trans ?_
    rw [found, Option.map_some,
      if_pos (standsAt_eq_true.2 ⟨(Db.run_eq_some.1 found).2, blocked, rfl⟩)]
  · intro other apart
    refine (updated other).trans ?_
    cases stored : world.db.run other with
    | none => rfl
    | some row' =>
        rw [Option.map_some, if_neg]
        intro matched
        exact apart ((Db.run_eq_some.1 stored).2.symm.trans (standsAt_eq_true.1 matched).1)

/-- The world in which a request was reconciled. -/
def reconciledWorld (world : World) (requestId : String) (effectOccurred : Bool)
    (evidenceDigest : String) (resultJson resultDigest : Option String) (now : Time) : World :=
  let settle : EffectRow → EffectRow :=
    if effectOccurred then EffectRow.committed (resultJson.getD "") (resultDigest.getD "") now
    else EffectRow.cleared now
  updateEffects
    { world with
      db := { world.db with
        reconciliations := world.db.reconciliations ++
          [⟨requestId, effectOccurred, evidenceDigest, resultJson, now⟩] } }
    requestId settle fun row => by unfold settle; split <;> rfl

/-- The outcomes of the blocks that commit. -/
inductive Transacts (host : Host) (world : World) :
    (block : Transaction) → block.Result → World → Prop where
  | claimNothing {workerId : String} {now leaseSeconds : Time}
      (idle : firstBy host.tieBreak EventRow.before
        (world.db.events.rows.filter (EventRow.claimable now)) = none) :
      Transacts host world (.claimEvent workerId now leaseSeconds) none world
  | claim {workerId : String} {now leaseSeconds : Time} (row : EventRow)
      (found : firstBy host.tieBreak EventRow.before
        (world.db.events.rows.filter (EventRow.claimable now)) = some row) :
      Transacts host world (.claimEvent workerId now leaseSeconds)
        (some ⟨row, row.attempts + 1, now + leaseSeconds⟩)
        (leased world workerId now leaseSeconds row)
  | createRun {task : String} {capabilities : List String} {now : Time}
      {sourceEventId : Option String} {priority : Int} {runId eventId : String}
      {middle world' : World}
      (created : CreatesRun host task capabilities now sourceEventId world runId middle)
      (enqueued : Enqueues host (runStepRequest runId 0 priority now) middle eventId world') :
      Transacts host world
        (.createRunWithInitialStep task capabilities now sourceEventId priority) runId world'
  | advance {runId : String} {step : Nat} {priority : Int} {now : Time} {eventId : String}
      {world' : World} (row : RunRow) (found : world.db.run runId = some row)
      (running : row.status = .running) (stands : row.stepCount = step)
      (enqueued : Enqueues host (runStepRequest runId (step + 1) priority now)
        (advancedWorld world runId step now) eventId world') :
      Transacts host world (.advanceRunStep runId step priority now) (step + 1) world'
  | resume {runId : String} {now : Time} {priority : Int} {eventId : String} {world' : World}
      (row : RunRow) (found : world.db.run runId = some row)
      (blocked : row.status = .blockedEffect)
      (enqueued : Enqueues host (runStepRequest runId (row.stepCount + 1) priority now)
        (resumedWorld world runId row.stepCount now) eventId world') :
      Transacts host world (.resumeRunAfterEffect runId now priority) (row.stepCount + 1) world'
  | reconcile {requestId : String} {effectOccurred : Bool} {evidenceDigest : String}
      {resultJson resultDigest : Option String} {now : Time} (row : EffectRow)
      (found : world.db.effect requestId = some row) (unresolved : row.state.unresolved = true) :
      Transacts host world
        (.reconcile requestId effectOccurred evidenceDigest resultJson resultDigest now) ()
        (reconciledWorld world requestId effectOccurred evidenceDigest resultJson resultDigest now)

/-- A block that raises leaves the database as it was. -/
theorem Transaction.exec_error {block : Transaction} {exc : Exc}
    (ran : block.exec host world = (.error exc, world')) :
    world' = { world with drawn := world'.drawn } := by
  unfold Transaction.exec at ran
  split at ran
  · cases ran
  · simp only [Prod.mk.injEq] at ran
    rw [← ran.2]

/-- A block that returns ran its body. -/
theorem Transaction.body_of_exec_ok {block : Transaction} {result : block.Result}
    (ran : block.exec host world = (.ok result, world')) :
    (block.body host).run host world = (.ok result, world') := by
  unfold Transaction.exec at ran
  split at ran
  · rename_i value world'' body
    rw [body]
    simpa using ran
  · cases ran

section Bodies

variable {now : Time} {runId : String}

theorem claimEventBody_ok {workerId : String} {leaseSeconds : Time} {claim : Option Claim}
    (ran : (claimEventBody workerId now leaseSeconds).run host world = (.ok claim, world')) :
    Transacts host world (.claimEvent workerId now leaseSeconds) claim world' := by
  simp only [claimEventBody, Stmt.perform, Program.perform, Program.bind_eq_bind,
    Program.call_bind, Sql.run_call, Stmt.exec, Program.ofExcept_ok, Program.done_bind] at ran
  cases found : firstBy host.tieBreak EventRow.before
    (world.db.events.rows.filter (EventRow.claimable now)) with
  | none =>
      simp only [found, Program.pure_eq_done, Sql.run_done, Prod.mk.injEq, Except.ok.injEq] at ran
      obtain ⟨rfl, rfl⟩ := ran
      exact .claimNothing found
  | some row =>
      simp only [found, appendJournal, Stmt.perform, Program.perform, Program.call_bind,
        Sql.run_call, Stmt.exec, Program.ofExcept_ok, Program.done_bind, Program.pure_eq_done,
        Sql.run_done, Prod.mk.injEq, Except.ok.injEq] at ran
      obtain ⟨rfl, rfl⟩ := ran
      exact .claim row found

theorem createRunWithInitialStepBody_ok {task : String} {capabilities : List String}
    {sourceEventId : Option String} {priority : Int}
    (ran : (createRunWithInitialStepBody task capabilities now sourceEventId priority).run host
      world = (.ok runId, world')) :
    Transacts host world
      (.createRunWithInitialStep task capabilities now sourceEventId priority) runId world' := by
  obtain ⟨newId, middle, created, rest⟩ := Sql.run_bind_ok ran
  obtain ⟨eventId, enqueued, rfl⟩ := Sql.run_bind_done_ok rest
  exact .createRun (createRun_ok created) (enqueueEvent_ok enqueued)

theorem advanceRunStepBody_ok {step next : Nat} {priority : Int}
    (ran : (advanceRunStepBody runId step priority now).run host world = (.ok next, world')) :
    Transacts host world (.advanceRunStep runId step priority now) next world' := by
  simp only [advanceRunStepBody, Stmt.perform, Program.perform, Program.bind_eq_bind,
    Program.call_bind, Sql.run_call, Stmt.exec, Program.ofExcept_ok, Program.done_bind] at ran
  split at ran
  · cases ran
  · rename_i counted
    obtain ⟨row, found, running, stands⟩ := (count_standsAt _ _ _ _).1 (not_not.1 counted)
    obtain ⟨eventId, enqueued, rfl⟩ := Sql.run_bind_done_ok ran
    exact .advance row found running stands (enqueueEvent_ok enqueued)

theorem resumeRunAfterEffectBody_ok {next : Nat} {priority : Int}
    (ran : (resumeRunAfterEffectBody host runId now priority).run host world =
      (.ok next, world')) :
    Transacts host world (.resumeRunAfterEffect runId now priority) next world' := by
  simp only [resumeRunAfterEffectBody, Stmt.perform, Program.perform, Program.bind_eq_bind,
    Program.call_bind, Sql.run_call, Stmt.exec, Program.ofExcept_ok, Program.done_bind] at ran
  cases found : world.db.run runId with
  | none => simp [found] at ran
  | some row =>
      simp only [found] at ran
      split at ran
      · cases ran
      · rename_i blocked
        have counted : world.db.runs.count (RunRow.standsAt runId .blockedEffect row.stepCount) =
            1 := (count_standsAt _ _ _ _).2 ⟨row, found, not_not.1 blocked, rfl⟩
        simp only [Sql.run_call, Stmt.exec, Program.ofExcept_ok, Program.done_bind, counted,
          ne_eq, not_true_eq_false, if_false, appendJournal, Stmt.perform, Program.perform,
          Program.call_bind] at ran
        obtain ⟨eventId, enqueued, rfl⟩ := Sql.run_bind_done_ok ran
        exact .resume row found (not_not.1 blocked) (enqueueEvent_ok enqueued)

theorem reconcileBody_ok {requestId evidenceDigest : String} {effectOccurred : Bool}
    {resultJson resultDigest : Option String}
    (ran : (reconcileBody requestId effectOccurred evidenceDigest resultJson resultDigest
      now).run host world = (.ok (), world')) :
    Transacts host world
      (.reconcile requestId effectOccurred evidenceDigest resultJson resultDigest now) ()
      world' := by
  simp only [reconcileBody, Stmt.perform, Program.perform, Program.bind_eq_bind,
    Program.call_bind, Sql.run_call, Stmt.exec, Program.ofExcept_ok, Program.done_bind] at ran
  cases found : world.db.effect requestId with
  | none => simp [found] at ran
  | some row =>
      simp only [found] at ran
      split at ran
      · cases ran
      · rename_i unresolved
        have known : (world.db.effects.rows.any fun effect => effect.requestId == requestId) =
            true := by
          obtain ⟨member, isRow⟩ := Db.effect_eq_some.1 found
          exact List.any_eq_true.2 ⟨row, member, by simp [isRow]⟩
        have outcome : Transacts host world
            (.reconcile requestId effectOccurred evidenceDigest resultJson resultDigest now) () _ :=
          .reconcile row found (by simpa using unresolved)
        cases effectOccurred with
        | true =>
            simp only [Sql.run_call, Stmt.exec, known, if_true, Program.ofExcept_ok,
              Program.done_bind, Sql.run_done, Prod.mk.injEq, true_and] at ran
            exact ran ▸ outcome
        | false =>
            simp only [Sql.run_call, Stmt.exec, known, if_true, Bool.false_eq_true, if_false,
              Program.ofExcept_ok, Program.done_bind, Sql.run_done, Prod.mk.injEq,
              true_and] at ran
            exact ran ▸ outcome

end Bodies

theorem Transaction.exec_ok {block : Transaction} {result : block.Result}
    (ran : block.exec host world = (.ok result, world')) :
    Transacts host world block result world' := by
  have body := Transaction.body_of_exec_ok ran
  cases block with
  | claimEvent workerId now leaseSeconds => exact claimEventBody_ok body
  | createRunWithInitialStep task capabilities now sourceEventId priority =>
      exact createRunWithInitialStepBody_ok body
  | advanceRunStep runId step priority now => exact advanceRunStepBody_ok body
  | resumeRunAfterEffect runId now priority => exact resumeRunAfterEffectBody_ok body
  | reconcile requestId effectOccurred evidenceDigest resultJson resultDigest now =>
      exact reconcileBody_ok body

end PreActive.Kernel
