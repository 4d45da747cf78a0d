/-
Module: PreActive.Kernel.Changes
Purpose: What one atomic step can do to each table, said once for every later invariant.
Trusted boundary: none
Main exports:
  Op.issued, Op.answer_cases, LedgerChange, ledgerChange, RunStep, runStep, decisions_change,
  messages_change, calls_change, reconciliations_change
-/
import PreActive.Kernel.Operations
import PreActive.Kernel.Transactions

namespace PreActive.Kernel

open PreActive.Foundation PreActive.Python

/-! ### The steps that are taken

Some statements only occur inside a block, and the columns of others are always filled in the same
way.  Programs are shown to keep to this in `Kernel.Paths`. -/

/-- The three ways `update_run` is called. -/
inductive RunChange.Issued : RunChange → Prop where
  | complete (now : Time) (text : String) :
      Issued ⟨now, some .completed, some text, none, true, true⟩
  | fail (now : Time) (error : String) : Issued ⟨now, some .failed, none, some error, false, false⟩
  | note (now : Time) (error : String) : Issued ⟨now, none, none, some error, false, false⟩

def Op.issued : Op → Prop
  | .sql stmt =>
      match stmt with
      | .insertEvent row => ∃ (request : EventRequest) (eventId : String), row = request.row eventId
      | .updateRun _ change => change.Issued
      | .insertRun _ | .advanceRun .. | .resumeRun .. | .claimEvent .. | .clearEffect ..
      | .insertReconciliation _ => False
      | _ => True
  | _ => True

variable {host : Host} {world : World} {answer : Answer}

/-- A step leaves the world alone, or is a statement, a block that commits, or a handler. -/
theorem Op.answer_cases (host : Host) (op : Op) (answer : Answer) (world : World) :
    (op.answer host answer world).2 = world ∨
    (∃ stmt, op = .sql stmt ∧ (op.answer host answer world).2 = (stmt.exec host world).2) ∨
    (∃ block, op = .transaction block ∧
      ((∃ drawn, (op.answer host answer world).2 = { world with drawn := drawn }) ∨
        ∃ result, Transacts host world block result (op.answer host answer world).2)) ∨
    (∃ call, op = .handler call ∧
      (op.answer host answer world).2 =
        { world with calls := world.calls ++ [⟨call, answer.output⟩] }) := by
  cases op with
  | sql stmt =>
      cases fault : answer.fault with
      | some fault' => exact .inl (by simp [Op.answer, fault])
      | none => exact .inr (.inl ⟨stmt, rfl, by simp [Op.answer, fault]⟩)
  | transaction block =>
      cases fault : answer.fault with
      | some fault' => exact .inl (by simp [Op.answer, fault])
      | none =>
          refine .inr (.inr (.inl ⟨block, rfl, ?_⟩))
          rcases ran : block.exec host world with ⟨exc | result, world'⟩
          · exact .inl ⟨world'.drawn, by
              simpa [Op.answer, fault, ran] using Transaction.exec_error ran⟩
          · exact .inr ⟨result, by simpa [Op.answer, fault, ran] using Transaction.exec_ok ran⟩
  | enterExecute call allowed => exact .inl rfl
  | respond messages tools => exact .inl rfl
  | handler call => exact .inr (.inr (.inr ⟨call, rfl, rfl⟩))

/-- A faulty step leaves the database as it was. -/
theorem Op.answer_fault {host : Host} {op : Op} {answer : Answer} {world : World} {fault : Fault}
    (faulty : answer.fault = some fault) : (op.answer host answer world).2.db = world.db := by
  cases op with
  | sql stmt => simp [Op.answer, faulty]
  | transaction block => simp [Op.answer, faulty]
  | _ => rfl

/-- The answer of a block that returned is the outcome of its body. -/
theorem Op.transacts_of_answer {block : Transaction} {answer : Answer} {result : block.Result}
    (answered : ((Op.transaction block).answer host answer world).1 = .ok result) :
    Transacts host world block result ((Op.transaction block).answer host answer world).2 := by
  cases faulty : answer.fault with
  | some fault => simp [Op.answer, faulty] at answered
  | none =>
      simp only [Op.answer, faulty] at answered ⊢
      apply Transaction.exec_ok
      rw [← answered]

/-! ### Frames -/

/-- A statement writes to one table at most. -/
inductive Stmt.Writes (world : World) : Stmt → World → Prop where
  | nothing {stmt : Stmt} : Writes world stmt world
  | draw : Writes world .uuid4 { world with drawn := world.drawn + 1 }
  | journal (row : JournalRow) :
      Writes world (.insertJournal row)
        { world with db := { world.db with journal := world.db.journal ++ [row] } }
  | event (row : EventRow) (events : Table EventRow)
      (inserted : world.db.events.insert row = some events) :
      Writes world (.insertEvent row) { world with db := { world.db with events := events } }
  | events {stmt : Stmt} (p : EventRow → Bool) (f : EventRow → EventRow)
      (keeps : ∀ row, UniqueKeys.key (f row) = UniqueKeys.key row) :
      Writes world stmt (updateEvents world p f keeps)
  | run (row : RunRow) (runs : Table RunRow) (inserted : world.db.runs.insert row = some runs) :
      Writes world (.insertRun row) { world with db := { world.db with runs := runs } }
  | runs {stmt : Stmt} (p : RunRow → Bool) (f : RunRow → RunRow)
      (keeps : ∀ row, UniqueKeys.key (f row) = UniqueKeys.key row) :
      Writes world stmt (updateRuns world p f keeps)
  | decision (row : DecisionRow) (decisions : Table DecisionRow)
      (inserted : world.db.decisions.insert row = some decisions) :
      Writes world (.insertDecision row)
        { world with db := { world.db with decisions := decisions } }
  | message (row : MessageRow) (messages : Table MessageRow)
      (inserted : world.db.messages.insert row = some messages) :
      Writes world (.insertMessage row) { world with db := { world.db with messages := messages } }
  | memory (row : MemoryRow) (memories : Table MemoryRow)
      (inserted : world.db.memories.insert row = some memories) :
      Writes world (.insertMemory row) { world with db := { world.db with memories := memories } }
  | effect (row : EffectRow) (effects : Table EffectRow)
      (inserted : world.db.effects.insert row = some effects) :
      Writes world (.insertEffect row) { world with db := { world.db with effects := effects } }
  | effects {stmt : Stmt} (requestId : String) (f : EffectRow → EffectRow)
      (keeps : ∀ row, UniqueKeys.key (f row) = UniqueKeys.key row) :
      Writes world stmt (updateEffects world requestId f keeps)
  | reconciliation (row : ReconciliationRow) :
      Writes world (.insertReconciliation row)
        { world with
          db := { world.db with reconciliations := world.db.reconciliations ++ [row] } }

theorem Stmt.writes (host : Host) (stmt : Stmt) (world : World) :
    stmt.Writes world (stmt.exec host world).2 := by
  cases stmt with
  | uuid4 => exact .draw
  | insertJournal row => exact .journal row
  | insertEvent row =>
      simp only [Stmt.exec]
      split
      · exact .event row _ ‹_›
      · exact .nothing
  | insertRun row =>
      simp only [Stmt.exec]
      split
      · exact .run row _ ‹_›
      · exact .nothing
  | insertDecision row =>
      simp only [Stmt.exec]
      split
      · split
        · exact .decision row _ ‹_›
        · exact .nothing
      · exact .nothing
  | insertMessage row =>
      simp only [Stmt.exec]
      split
      · split
        · exact .message row _ ‹_›
        · exact .nothing
      · exact .nothing
  | insertMemory row =>
      simp only [Stmt.exec]
      split
      · exact .memory row _ ‹_›
      · exact .nothing
  | insertEffect row =>
      simp only [Stmt.exec]
      split
      · exact .effect row _ ‹_›
      · exact .nothing
  | insertReconciliation row =>
      simp only [Stmt.exec]
      split
      · exact .reconciliation row
      · exact .nothing
  | ackEvent eventId workerId now => exact .events _ _ _
  | releaseEvent eventId workerId availableAt now => exact .events _ _ _
  | claimEvent eventId workerId leaseUntil attempts now => exact .events _ _ _
  | updateRun runId change => exact .runs _ _ _
  | advanceRun runId step now => exact .runs _ _ _
  | blockRun runId requestId error now => exact .runs _ _ _
  | resumeRun runId step now => exact .runs _ _ _
  | readmitEffect requestId now => exact .effects _ _ _
  | attemptUnknown requestId now => exact .effects _ _ _
  | commitEffect requestId resultJson resultSha256 now => exact .effects _ _ _
  | clearEffect requestId now => exact .effects _ _ _
  | _ => exact .nothing

theorem Enqueues.touches {request : EventRequest} {eventId : String} {world' : World}
    (enqueues : Enqueues host request world eventId world') :
    ∃ events journal drawn, world' =
      { world with db := { world.db with events := events, journal := journal }, drawn := drawn } := by
  cases enqueues with
  | reused row found same => exact ⟨_, _, _, rfl⟩
  | fresh events absent inserted => exact ⟨_, _, _, rfl⟩

theorem CreatesRun.touches {task runId : String} {capabilities : List String} {now : Time}
    {sourceEventId : Option String} {world' : World}
    (creates : CreatesRun host task capabilities now sourceEventId world runId world') :
    ∃ runs drawn, world' = { world with db := { world.db with runs := runs }, drawn := drawn } := by
  cases creates with
  | reused source row bound found sameTask sameSet => exact ⟨_, _, rfl⟩
  | fresh runs inserted => exact ⟨_, _, rfl⟩

/-- No block touches decisions, transcripts or memories, and none calls a handler. -/
theorem Transacts.touches {block : Transaction} {result : block.Result} {world' : World}
    (transacts : Transacts host world block result world') :
    world'.db.decisions = world.db.decisions ∧ world'.db.messages = world.db.messages ∧
      world'.db.memories = world.db.memories ∧ world'.calls = world.calls := by
  cases transacts with
  | claimNothing idle => exact ⟨rfl, rfl, rfl, rfl⟩
  | claim row found => exact ⟨rfl, rfl, rfl, rfl⟩
  | createRun created enqueued =>
      obtain ⟨runs, drawn, rfl⟩ := created.touches
      obtain ⟨events, journal, drawn', rfl⟩ := enqueued.touches
      exact ⟨rfl, rfl, rfl, rfl⟩
  | advance row found running stands enqueued =>
      obtain ⟨events, journal, drawn, rfl⟩ := enqueued.touches
      exact ⟨rfl, rfl, rfl, rfl⟩
  | resume row found blocked enqueued =>
      obtain ⟨events, journal, drawn, rfl⟩ := enqueued.touches
      exact ⟨rfl, rfl, rfl, rfl⟩
  | reconcile row found unresolved => exact ⟨rfl, rfl, rfl, rfl⟩

/-! ### The ledger -/

/-- The row a reconciliation leaves. -/
def EffectRow.reconciled (effectOccurred : Bool) (resultJson resultDigest : Option String)
    (now : Time) (row : EffectRow) : EffectRow :=
  if effectOccurred then row.committed (resultJson.getD "") (resultDigest.getD "") now
  else row.cleared now

/-- What one step can do to the ledger row of a request. -/
inductive LedgerChange (requestId : String) : Op → Option EffectRow → Option EffectRow → Prop where
  | keep {op : Op} {row : Option EffectRow} : LedgerChange requestId op row row
  | enter {row : EffectRow} (named : row.requestId = requestId) :
      LedgerChange requestId (.sql (.insertEffect row)) none (some row)
  | reenter {row : EffectRow} {now : Time} :
      LedgerChange requestId (.sql (.readmitEffect requestId now)) (some row)
        (some (row.readmitted now))
  | attempt {row : EffectRow} {now : Time} :
      LedgerChange requestId (.sql (.attemptUnknown requestId now)) (some row)
        (some (row.attempted now))
  | commit {row : EffectRow} {resultJson resultSha256 : String} {now : Time} :
      LedgerChange requestId (.sql (.commitEffect requestId resultJson resultSha256 now))
        (some row) (some (row.committed resultJson resultSha256 now))
  | reconcile {row : EffectRow} {effectOccurred : Bool} {evidenceDigest : String}
      {resultJson resultDigest : Option String} {now : Time}
      (unresolved : row.state.unresolved = true) :
      LedgerChange requestId
        (.transaction (.reconcile requestId effectOccurred evidenceDigest resultJson resultDigest
          now)) (some row) (some (row.reconciled effectOccurred resultJson resultDigest now))

/-- An unguarded update of a ledger row, seen from one request. -/
theorem LedgerChange.of_update {requestId target : String} {f : EffectRow → EffectRow}
    {keeps : ∀ row, UniqueKeys.key (f row) = UniqueKeys.key row} {op : Op}
    (change : ∀ row, target = requestId → LedgerChange requestId op (some row) (some (f row))) :
    LedgerChange requestId op (world.db.effect requestId)
      ((updateEffects world target f keeps).db.effect requestId) := by
  rw [effect_updateEffects]
  cases found : world.db.effect requestId with
  | none => exact .keep
  | some row =>
      simp only [Option.map_some]
      split
      · rename_i isTarget
        exact change row (isTarget ▸ (Db.effect_eq_some.1 found).2)
      · exact .keep

theorem effect_insert {effects : Table EffectRow} {row : EffectRow} {db : Db}
    (inserted : db.effects.insert row = some effects) (requestId : String) :
    ({ db with effects := effects } : Db).effect requestId =
      (db.effect requestId).or (if row.requestId = requestId then some row else none) := by
  simpa [Db.effect] using Table.select_insert (fun row => row.requestId == requestId) inserted

/-- A row that could be inserted was not there. -/
theorem effect_none_of_insert {effects : Table EffectRow} {row : EffectRow} {db : Db}
    (inserted : db.effects.insert row = some effects) : db.effect row.requestId = none := by
  rw [Db.effect_eq_none]
  intro old member same
  have apart := Table.fresh_of_insert inserted old member
  simp [UniqueKeys.clash, UniqueKeys.key, same] at apart

theorem ledgerChange_exec {stmt : Stmt} (issued : (Op.sql stmt).issued) (requestId : String) :
    LedgerChange requestId (.sql stmt) (world.db.effect requestId)
      ((stmt.exec host world).2.db.effect requestId) := by
  cases stmt with
  | insertEffect row =>
      simp only [Stmt.exec]
      split
      · rename_i effects inserted
        rw [effect_insert inserted]
        by_cases named : row.requestId = requestId
        · have absent := effect_none_of_insert inserted
          rw [named] at absent
          rw [absent, if_pos named]
          exact .enter named
        · rw [if_neg named, Option.or_none]
          exact .keep
      · exact .keep
  | readmitEffect target now => exact .of_update fun row same => same ▸ .reenter
  | attemptUnknown target now => exact .of_update fun row same => same ▸ .attempt
  | commitEffect target resultJson resultSha256 now =>
      exact .of_update fun row same => same ▸ .commit
  | clearEffect target now => exact issued.elim
  | insertReconciliation row => exact issued.elim
  | insertEvent row => simp only [Stmt.exec]; split <;> exact .keep
  | insertRun row => exact issued.elim
  | insertDecision row => simp only [Stmt.exec]; (repeat' split) <;> exact .keep
  | insertMessage row => simp only [Stmt.exec]; (repeat' split) <;> exact .keep
  | insertMemory row => simp only [Stmt.exec]; split <;> exact .keep
  | _ => exact .keep

theorem effect_reconciledWorld (target : String) (effectOccurred : Bool) (evidenceDigest : String)
    (resultJson resultDigest : Option String) (now : Time) (requestId : String) :
    (reconciledWorld world target effectOccurred evidenceDigest resultJson resultDigest
      now).db.effect requestId =
      (world.db.effect requestId).map fun row =>
        if row.requestId = target then row.reconciled effectOccurred resultJson resultDigest now
        else row := by
  unfold reconciledWorld
  rw [effect_updateEffects]
  cases effectOccurred <;> rfl

theorem ledgerChange_transacts {block : Transaction} {result : block.Result} {world' : World}
    (transacts : Transacts host world block result world') (requestId : String) :
    LedgerChange requestId (.transaction block) (world.db.effect requestId)
      (world'.db.effect requestId) := by
  cases transacts with
  | claimNothing idle => exact .keep
  | claim row found => exact .keep
  | createRun created enqueued =>
      obtain ⟨runs, drawn, rfl⟩ := created.touches
      obtain ⟨events, journal, drawn', rfl⟩ := enqueued.touches
      exact .keep
  | advance row found running stands enqueued =>
      obtain ⟨events, journal, drawn, rfl⟩ := enqueued.touches
      exact .keep
  | resume row found blocked enqueued =>
      obtain ⟨events, journal, drawn, rfl⟩ := enqueued.touches
      exact .keep
  | @reconcile target effectOccurred evidenceDigest resultJson resultDigest now row found
      unresolved =>
      rw [effect_reconciledWorld]
      by_cases named : requestId = target
      · subst named
        rw [found, Option.map_some, if_pos (Db.effect_eq_some.1 found).2]
        exact .reconcile unresolved
      · cases other : world.db.effect requestId with
        | none => exact .keep
        | some row' =>
            rw [Option.map_some, if_neg ((Db.effect_eq_some.1 other).2 ▸ named)]
            exact .keep

/-- What one step does to the ledger row of a request. -/
theorem ledgerChange (host : Host) (world : World) (answer : Answer) {op : Op}
    (issued : op.issued) (requestId : String) :
    LedgerChange requestId op (world.db.effect requestId)
      ((op.answer host answer world).2.db.effect requestId) := by
  rcases op.answer_cases host answer world with
    same | ⟨stmt, rfl, same⟩ | ⟨block, rfl, ⟨drawn, same⟩ | ⟨result, transacts⟩⟩ |
      ⟨call, rfl, same⟩
  · rw [same]; exact .keep
  · rw [same]; exact ledgerChange_exec issued requestId
  · rw [same]; exact .keep
  · exact ledgerChange_transacts transacts requestId
  · rw [same]; exact .keep

/-! ### Runs -/

/-- What one step can do to the row of a run. -/
inductive RunStep (runId : String) : Op → Option RunRow → Option RunRow → Prop where
  | keep {op : Op} {row : Option RunRow} : RunStep runId op row row
  | create {task : String} {capabilities : List String} {now : Time}
      {sourceEventId : Option String} {priority : Int} :
      RunStep runId
        (.transaction (.createRunWithInitialStep task capabilities now sourceEventId priority))
        none (some (newRunRow task capabilities now sourceEventId runId))
  | update {row : RunRow} {change : RunChange} (issued : change.Issued) :
      RunStep runId (.sql (.updateRun runId change)) (some row) (some (change.apply row))
  | block {row : RunRow} {requestId error : String} {now : Time}
      (running : row.status = .running) :
      RunStep runId (.sql (.blockRun runId requestId error now)) (some row)
        (some (row.blocked requestId error now))
  | advance {row : RunRow} {priority : Int} {now : Time} (running : row.status = .running) :
      RunStep runId (.transaction (.advanceRunStep runId row.stepCount priority now)) (some row)
        (some (row.advanced now))
  | resume {row : RunRow} {now : Time} {priority : Int} (blocked : row.status = .blockedEffect) :
      RunStep runId (.transaction (.resumeRunAfterEffect runId now priority)) (some row)
        (some (row.resumed now))

/-- A guarded update of run rows, seen from one run. -/
theorem RunStep.of_update {runId : String} {p : RunRow → Bool} {f : RunRow → RunRow}
    {keeps : ∀ row, UniqueKeys.key (f row) = UniqueKeys.key row} {op : Op}
    (change : ∀ row, row.id = runId → p row = true → RunStep runId op (some row) (some (f row))) :
    RunStep runId op (world.db.run runId) ((updateRuns world p f keeps).db.run runId) := by
  rw [run_updateRuns]
  cases found : world.db.run runId with
  | none => exact .keep
  | some row =>
      simp only [Option.map_some]
      split
      · rename_i matched
        exact change row (Db.run_eq_some.1 found).2 matched
      · exact .keep

theorem run_insert {runs : Table RunRow} {row : RunRow} {db : Db}
    (inserted : db.runs.insert row = some runs) (runId : String) :
    ({ db with runs := runs } : Db).run runId =
      (db.run runId).or (if row.id = runId then some row else none) := by
  simpa [Db.run] using Table.select_insert (fun row => row.id == runId) inserted

theorem run_none_of_insert {runs : Table RunRow} {row : RunRow} {db : Db}
    (inserted : db.runs.insert row = some runs) : db.run row.id = none := by
  rw [Db.run_eq_none]
  intro old member same
  have apart := Table.fresh_of_insert inserted old member
  simp [UniqueKeys.clash, UniqueKeys.key, same] at apart

theorem runStep_exec {stmt : Stmt} (issued : (Op.sql stmt).issued) (runId : String) :
    RunStep runId (.sql stmt) (world.db.run runId) ((stmt.exec host world).2.db.run runId) := by
  cases stmt with
  | updateRun target change =>
      refine .of_update fun row isRun matched => ?_
      obtain rfl : row.id = target := by simpa using matched
      exact isRun ▸ .update issued
  | blockRun target requestId error now =>
      refine .of_update fun row isRun matched => ?_
      simp only [RunRow.isRunning, Bool.and_eq_true, beq_iff_eq] at matched
      obtain ⟨rfl, running⟩ := matched
      exact isRun ▸ .block running
  | insertRun row => exact issued.elim
  | advanceRun target step now => exact issued.elim
  | resumeRun target step now => exact issued.elim
  | insertReconciliation row => exact issued.elim
  | insertEvent row => simp only [Stmt.exec]; split <;> exact .keep
  | insertDecision row => simp only [Stmt.exec]; (repeat' split) <;> exact .keep
  | insertMessage row => simp only [Stmt.exec]; (repeat' split) <;> exact .keep
  | insertMemory row => simp only [Stmt.exec]; split <;> exact .keep
  | insertEffect row => simp only [Stmt.exec]; split <;> exact .keep
  | _ => exact .keep

theorem runStep_transacts {block : Transaction} {result : block.Result} {world' : World}
    (transacts : Transacts host world block result world') (runId : String) :
    RunStep runId (.transaction block) (world.db.run runId) (world'.db.run runId) := by
  cases transacts with
  | claimNothing idle => exact .keep
  | claim row found => exact .keep
  | createRun created enqueued =>
      obtain ⟨events, journal, drawn', rfl⟩ := enqueued.touches
      cases created with
      | reused source row bound found sameTask sameSet => exact .keep
      | fresh runs inserted =>
          change RunStep runId _ _ (({ world.db with runs := runs } : Db).run runId)
          rw [run_insert inserted]
          by_cases named : host.uuid4 world.drawn = runId
          · have absent := run_none_of_insert inserted
            simp only [newRunRow, named] at absent
            simp only [newRunRow, named, absent, if_true, Option.none_or]
            exact .create
          · rw [if_neg (by simpa [newRunRow] using named), Option.or_none]
            exact .keep
  | advance row found running stands enqueued =>
      obtain ⟨events, journal, drawn, rfl⟩ := enqueued.touches
      change RunStep runId _ _ ((advancedWorld world _ _ _).db.run runId)
      refine .of_update fun row isRun matched => ?_
      obtain ⟨rfl, running, rfl⟩ := standsAt_eq_true.1 matched
      exact isRun ▸ .advance running
  | resume row found blocked enqueued =>
      obtain ⟨events, journal, drawn, rfl⟩ := enqueued.touches
      change RunStep runId _ _ ((updateRuns world (RunRow.standsAt _ .blockedEffect _)
        (RunRow.resumed _) fun _ => rfl).db.run runId)
      refine .of_update fun row isRun matched => ?_
      obtain ⟨rfl, blocked, same⟩ := standsAt_eq_true.1 matched
      exact isRun ▸ .resume blocked
  | @reconcile requestId effectOccurred _ _ _ _ row found unresolved =>
      cases effectOccurred <;> exact .keep

/-- What one step does to the row of a run. -/
theorem runStep (host : Host) (world : World) (answer : Answer) {op : Op} (issued : op.issued)
    (runId : String) :
    RunStep runId op (world.db.run runId)
      ((op.answer host answer world).2.db.run runId) := by
  rcases op.answer_cases host answer world with
    same | ⟨stmt, rfl, same⟩ | ⟨block, rfl, ⟨drawn, same⟩ | ⟨result, transacts⟩⟩ |
      ⟨call, rfl, same⟩
  · rw [same]; exact .keep
  · rw [same]; exact runStep_exec issued runId
  · rw [same]; exact .keep
  · exact runStep_transacts transacts runId
  · rw [same]; exact .keep

/-! ### Tables that only grow -/

/-- Decisions are only ever added, by their own statement. -/
theorem decisions_change (host : Host) (world : World) (answer : Answer) (op : Op) :
    (op.answer host answer world).2.db.decisions = world.db.decisions ∨
      ∃ row, op = .sql (.insertDecision row) ∧
        world.db.decisions.insert row = some (op.answer host answer world).2.db.decisions := by
  rcases op.answer_cases host answer world with
    same | ⟨stmt, rfl, same⟩ | ⟨block, rfl, ⟨drawn, same⟩ | ⟨result, transacts⟩⟩ |
      ⟨call, rfl, same⟩
  · exact .inl (by rw [same])
  · rw [same]
    have writes := stmt.writes host world
    generalize (stmt.exec host world).2 = world' at writes ⊢
    cases writes with
    | decision row decisions inserted => exact .inr ⟨row, rfl, inserted⟩
    | _ => exact .inl rfl
  · exact .inl (by rw [same])
  · exact .inl transacts.touches.1
  · exact .inl (by rw [same])

theorem decision_none_of_insert {decisions : Table DecisionRow} {row : DecisionRow} {db : Db}
    (inserted : db.decisions.insert row = some decisions) : db.decision row.runId row.step = none := by
  rw [Db.decision, Table.select_eq_none]
  intro old member
  have apart := Table.fresh_of_insert inserted old member
  rw [Bool.eq_false_iff]
  intro both
  simp only [Bool.and_eq_true, beq_iff_eq] at both
  simp [UniqueKeys.clash, UniqueKeys.key, both.1, both.2] at apart

/-- A message that could be inserted was not there. -/
theorem message_none_of_insert {messages : Table MessageRow} {row : MessageRow} {db : Db}
    {messageKey : String} (inserted : db.messages.insert row = some messages)
    (keyed : row.messageKey = some messageKey) : db.message row.runId messageKey = none := by
  rw [Db.message, Table.select_eq_none]
  intro old member
  have apart := Table.fresh_of_insert inserted old member
  simp only [UniqueKeys.clash, UniqueKeys.key, keyed] at apart
  rw [Bool.eq_false_iff]
  intro both
  simp only [Bool.and_eq_true, beq_iff_eq] at both
  simp [both.1, both.2] at apart

/-- Messages are only ever added, by their own statement. -/
theorem messages_change (host : Host) (world : World) (answer : Answer) (op : Op) :
    (op.answer host answer world).2.db.messages = world.db.messages ∨
      ∃ row, op = .sql (.insertMessage row) ∧
        world.db.messages.insert row = some (op.answer host answer world).2.db.messages := by
  rcases op.answer_cases host answer world with
    same | ⟨stmt, rfl, same⟩ | ⟨block, rfl, ⟨drawn, same⟩ | ⟨result, transacts⟩⟩ |
      ⟨call, rfl, same⟩
  · exact .inl (by rw [same])
  · rw [same]
    have writes := stmt.writes host world
    generalize (stmt.exec host world).2 = world' at writes ⊢
    cases writes with
    | message row messages inserted => exact .inr ⟨row, rfl, inserted⟩
    | _ => exact .inl rfl
  · exact .inl (by rw [same])
  · exact .inl transacts.touches.2.1
  · exact .inl (by rw [same])

/-- Handlers are only invoked by their own step. -/
theorem calls_change (host : Host) (world : World) (answer : Answer) (op : Op) :
    (op.answer host answer world).2.calls = world.calls ∨
      ∃ call, op = .handler call ∧
        (op.answer host answer world).2.calls = world.calls ++ [⟨call, answer.output⟩] := by
  rcases op.answer_cases host answer world with
    same | ⟨stmt, rfl, same⟩ | ⟨block, rfl, ⟨drawn, same⟩ | ⟨result, transacts⟩⟩ |
      ⟨call, rfl, same⟩
  · exact .inl (by rw [same])
  · rw [same]
    have writes := stmt.writes host world
    generalize (stmt.exec host world).2 = world' at writes ⊢
    cases writes <;> exact .inl rfl
  · exact .inl (by rw [same])
  · exact .inl transacts.touches.2.2.2
  · exact .inr ⟨call, rfl, by rw [same]⟩

def Op.isReconcile : Op → Bool
  | .transaction (.reconcile ..) => true
  | _ => false

/-- Reconciliations are recorded only together with their effect on the ledger. -/
theorem reconciliations_change (host : Host) (world : World) (answer : Answer) {op : Op}
    (issued : op.issued) :
    ((op.answer host answer world).2.db.reconciliations = world.db.reconciliations ∧
      (op.isReconcile = true → (op.answer host answer world).2.db = world.db)) ∨
      ∃ requestId effectOccurred evidenceDigest resultJson resultDigest now row,
        op = .transaction (.reconcile requestId effectOccurred evidenceDigest resultJson
          resultDigest now) ∧
        world.db.effect requestId = some row ∧ row.state.unresolved = true ∧
        (op.answer host answer world).2 = reconciledWorld world requestId effectOccurred
          evidenceDigest resultJson resultDigest now := by
  rcases op.answer_cases host answer world with
    same | ⟨stmt, rfl, same⟩ | ⟨block, rfl, ⟨drawn, same⟩ | ⟨result, transacts⟩⟩ |
      ⟨call, rfl, same⟩
  · exact .inl (by rw [same]; exact ⟨rfl, fun _ => rfl⟩)
  · rw [same]
    have writes := stmt.writes host world
    generalize (stmt.exec host world).2 = world' at writes ⊢
    cases writes with
    | reconciliation row => exact issued.elim
    | _ => exact .inl ⟨rfl, fun impossible => nomatch impossible⟩
  · exact .inl (by rw [same]; exact ⟨rfl, fun _ => rfl⟩)
  · generalize (Op.answer host (.transaction block) answer world).2 = world' at transacts ⊢
    cases transacts with
    | claimNothing idle => exact .inl ⟨rfl, fun _ => rfl⟩
    | claim row found => exact .inl ⟨rfl, fun impossible => nomatch impossible⟩
    | createRun created enqueued =>
        obtain ⟨runs, drawn, rfl⟩ := created.touches
        obtain ⟨events, journal, drawn', rfl⟩ := enqueued.touches
        exact .inl ⟨rfl, fun impossible => nomatch impossible⟩
    | advance row found running stands enqueued =>
        obtain ⟨events, journal, drawn, rfl⟩ := enqueued.touches
        exact .inl ⟨rfl, fun impossible => nomatch impossible⟩
    | resume row found blocked enqueued =>
        obtain ⟨events, journal, drawn, rfl⟩ := enqueued.touches
        exact .inl ⟨rfl, fun impossible => nomatch impossible⟩
    | reconcile row found unresolved =>
        exact .inr ⟨_, _, _, _, _, _, row, rfl, found, unresolved, rfl⟩
  · exact .inl (by rw [same]; exact ⟨rfl, fun _ => rfl⟩)

end PreActive.Kernel
