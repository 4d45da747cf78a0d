/-
Module: PreActive.Kernel.Knowledge
Purpose: What the store never forgets, and what a process may therefore rely on long after it has
  read or written it.
Trusted boundary: none
Main exports:
  RunRow.Evolves, run_evolves, EffectRow.SameRequest, effect_sameRequest, decision_kept,
  message_kept, Known, reachable_known, DecisionSeen.stored, Saw.run, Saw.effect
-/
import PreActive.Kernel.Paths

namespace PreActive.Kernel

open PreActive.Foundation PreActive.Python

/-! ### What one step keeps -/

/-- Two versions of one run: its request is fixed and its generation only grows. -/
structure RunRow.Evolves (old new : RunRow) : Prop where
  id : new.id = old.id
  task : new.task = old.task
  capabilitiesJson : new.capabilitiesJson = old.capabilitiesJson
  sourceEventId : new.sourceEventId = old.sourceEventId
  stepCount : old.stepCount ≤ new.stepCount

/-- Two versions of the ledger row of one request. -/
structure EffectRow.SameRequest (old new : EffectRow) : Prop where
  requestId : new.requestId = old.requestId
  toolName : new.toolName = old.toolName
  requestSha256 : new.requestSha256 = old.requestSha256
  requestJson : new.requestJson = old.requestJson
  createdAt : new.createdAt = old.createdAt

theorem RunRow.Evolves.refl (row : RunRow) : row.Evolves row :=
  ⟨rfl, rfl, rfl, rfl, le_refl _⟩

theorem RunRow.Evolves.trans {a b c : RunRow} (first : a.Evolves b) (second : b.Evolves c) :
    a.Evolves c where
  id := second.id.trans first.id
  task := second.task.trans first.task
  capabilitiesJson := second.capabilitiesJson.trans first.capabilitiesJson
  sourceEventId := second.sourceEventId.trans first.sourceEventId
  stepCount := first.stepCount.trans second.stepCount

theorem RunRow.Evolves.capabilities {old new : RunRow} (evolves : old.Evolves new) :
    new.capabilities = old.capabilities := by
  rw [RunRow.capabilities, evolves.capabilitiesJson, RunRow.capabilities]

theorem EffectRow.SameRequest.refl (row : EffectRow) : row.SameRequest row :=
  ⟨rfl, rfl, rfl, rfl, rfl⟩

theorem EffectRow.SameRequest.trans {a b c : EffectRow} (first : a.SameRequest b)
    (second : b.SameRequest c) : a.SameRequest c where
  requestId := second.requestId.trans first.requestId
  toolName := second.toolName.trans first.toolName
  requestSha256 := second.requestSha256.trans first.requestSha256
  requestJson := second.requestJson.trans first.requestJson
  createdAt := second.createdAt.trans first.createdAt

/-- Two versions of one event. -/
structure EventRow.SameRequest (old new : EventRow) : Prop where
  id : new.id = old.id
  kind : new.kind = old.kind
  payloadJson : new.payloadJson = old.payloadJson
  priority : new.priority = old.priority
  dedupKey : new.dedupKey = old.dedupKey

theorem EventRow.SameRequest.refl (row : EventRow) : row.SameRequest row :=
  ⟨rfl, rfl, rfl, rfl, rfl⟩

theorem EventRow.SameRequest.trans {a b c : EventRow} (first : a.SameRequest b)
    (second : b.SameRequest c) : a.SameRequest c where
  id := second.id.trans first.id
  kind := second.kind.trans first.kind
  payloadJson := second.payloadJson.trans first.payloadJson
  priority := second.priority.trans first.priority
  dedupKey := second.dedupKey.trans first.dedupKey

variable {world world' : World} {op : Op}

theorem RunStep.evolves {runId : String} {row : RunRow} {after : Option RunRow}
    (step : RunStep runId op (some row) after) : ∃ row', after = some row' ∧ row.Evolves row' := by
  cases step with
  | keep => exact ⟨row, rfl, .refl row⟩
  | update issued =>
      refine ⟨_, rfl, rfl, rfl, rfl, rfl, ?_⟩
      simp only [RunChange.apply]
      split
      · exact Nat.le_succ _
      · exact le_refl _
  | block running => exact ⟨_, rfl, rfl, rfl, rfl, rfl, le_refl _⟩
  | advance running => exact ⟨_, rfl, rfl, rfl, rfl, rfl, Nat.le_succ _⟩
  | resume blocked => exact ⟨_, rfl, rfl, rfl, rfl, rfl, Nat.le_succ _⟩

/-- Runs are never removed. -/
theorem run_evolves (host : Host) (answer : Answer) (issued : op.issued) {runId : String}
    {row : RunRow} (stored : world.db.run runId = some row) :
    ∃ row', (op.answer host answer world).2.db.run runId = some row' ∧ row.Evolves row' := by
  have step := Kernel.runStep host world answer issued runId
  rw [stored] at step
  exact step.evolves

theorem LedgerChange.sameRequest {requestId : String} {row : EffectRow}
    {after : Option EffectRow} (change : LedgerChange requestId op (some row) after) :
    ∃ row', after = some row' ∧ row.SameRequest row' := by
  cases change with
  | keep => exact ⟨row, rfl, .refl row⟩
  | reenter => exact ⟨_, rfl, rfl, rfl, rfl, rfl, rfl⟩
  | attempt => exact ⟨_, rfl, rfl, rfl, rfl, rfl, rfl⟩
  | commit => exact ⟨_, rfl, rfl, rfl, rfl, rfl, rfl⟩
  | @reconcile _ effectOccurred _ _ _ _ unresolved =>
      cases effectOccurred <;> exact ⟨_, rfl, rfl, rfl, rfl, rfl, rfl⟩

/-- Ledger rows are never removed or bound to another request. -/
theorem effect_sameRequest (host : Host) (answer : Answer) (issued : op.issued)
    {requestId : String} {row : EffectRow} (stored : world.db.effect requestId = some row) :
    ∃ row', (op.answer host answer world).2.db.effect requestId = some row' ∧
      row.SameRequest row' := by
  have change := ledgerChange host world answer issued requestId
  rw [stored] at change
  exact change.sameRequest

theorem decision_insert {decisions : Table DecisionRow} {row : DecisionRow} {db : Db}
    (inserted : db.decisions.insert row = some decisions) (runId : String) (step : Nat) :
    ({ db with decisions := decisions } : Db).decision runId step =
      (db.decision runId step).or
        (if row.runId == runId && row.step == step then some row else none) := by
  simpa [Db.decision] using
    Table.select_insert (fun row => row.runId == runId && row.step == step) inserted

/-- A stored decision never changes. -/
theorem decision_kept (host : Host) (answer : Answer) (op : Op) {runId : String} {step : Nat}
    {row : DecisionRow} (stored : world.db.decision runId step = some row) :
    (op.answer host answer world).2.db.decision runId step = some row := by
  rcases decisions_change host world answer op with same | ⟨added, rfl, inserted⟩
  · rw [Db.decision, same]
    exact stored
  · have found := decision_insert inserted runId step
    rw [stored, Option.some_or] at found
    exact found

/-- A stored message never changes. -/
theorem message_kept (host : Host) (answer : Answer) (op : Op) {row : MessageRow}
    (stored : row ∈ world.db.messages.rows) :
    row ∈ (op.answer host answer world).2.db.messages.rows := by
  rcases messages_change host world answer op with same | ⟨added, rfl, inserted⟩
  · rw [same]
    exact stored
  · rw [Table.rows_insert inserted]
    exact List.mem_append_left _ stored

theorem updateEvents_sameRequest {row : EventRow} (p : EventRow → Bool) (f : EventRow → EventRow)
    (keeps : ∀ row, UniqueKeys.key (f row) = UniqueKeys.key row)
    (same : ∀ row : EventRow, row.SameRequest (f row)) (stored : row ∈ world.db.events.rows) :
    ∃ row' ∈ (updateEvents world p f keeps).db.events.rows, row.SameRequest row' := by
  refine ⟨_, List.mem_map_of_mem stored, ?_⟩
  split
  · exact same row
  · exact .refl row

theorem Enqueues.event_kept {host : Host} {request : EventRequest} {eventId : String}
    {row : EventRow} (enqueues : Enqueues host request world eventId world')
    (stored : row ∈ world.db.events.rows) :
    ∃ row' ∈ world'.db.events.rows, row.SameRequest row' := by
  refine ⟨row, ?_, .refl row⟩
  cases enqueues with
  | reused found same => exact stored
  | fresh events absent inserted =>
      change row ∈ events.rows
      rw [Table.rows_insert inserted]
      exact List.mem_append_left _ stored

theorem Stmt.event_kept (host : Host) {stmt : Stmt} {row : EventRow}
    (stored : row ∈ world.db.events.rows) :
    ∃ row' ∈ (stmt.exec host world).2.db.events.rows, row.SameRequest row' := by
  cases stmt with
  | insertEvent added =>
      refine ⟨row, ?_, .refl row⟩
      simp only [Stmt.exec]
      split
      · rename_i events inserted
        change row ∈ events.rows
        rw [Table.rows_insert inserted]
        exact List.mem_append_left _ stored
      · exact stored
  | ackEvent eventId workerId now =>
      exact updateEvents_sameRequest _ _ _ (fun _ => ⟨rfl, rfl, rfl, rfl, rfl⟩) stored
  | releaseEvent eventId workerId availableAt now =>
      exact updateEvents_sameRequest _ _ _ (fun _ => ⟨rfl, rfl, rfl, rfl, rfl⟩) stored
  | claimEvent eventId workerId leaseUntil attempts now =>
      exact updateEvents_sameRequest _ _ _ (fun _ => ⟨rfl, rfl, rfl, rfl, rfl⟩) stored
  | insertRun added =>
      refine ⟨row, ?_, .refl row⟩
      simp only [Stmt.exec]
      split <;> exact stored
  | insertDecision added =>
      refine ⟨row, ?_, .refl row⟩
      simp only [Stmt.exec]
      (repeat' split) <;> exact stored
  | insertMessage added =>
      refine ⟨row, ?_, .refl row⟩
      simp only [Stmt.exec]
      (repeat' split) <;> exact stored
  | insertMemory added =>
      refine ⟨row, ?_, .refl row⟩
      simp only [Stmt.exec]
      split <;> exact stored
  | insertEffect added =>
      refine ⟨row, ?_, .refl row⟩
      simp only [Stmt.exec]
      split <;> exact stored
  | insertReconciliation added =>
      refine ⟨row, ?_, .refl row⟩
      simp only [Stmt.exec]
      split <;> exact stored
  | _ => exact ⟨row, stored, .refl row⟩

theorem Transacts.event_kept {host : Host} {block : Transaction} {result : block.Result}
    {row : EventRow} (transacts : Transacts host world block result world')
    (stored : row ∈ world.db.events.rows) :
    ∃ row' ∈ world'.db.events.rows, row.SameRequest row' := by
  cases transacts with
  | claimNothing idle => exact ⟨row, stored, .refl row⟩
  | @claim workerId now leaseSeconds chosen found =>
      exact updateEvents_sameRequest (fun other => other.id == chosen.id)
        (EventRow.claimedBy workerId (now + leaseSeconds) (chosen.attempts + 1) now)
        (fun _ => rfl) (fun _ => ⟨rfl, rfl, rfl, rfl, rfl⟩) stored
  | createRun created enqueued =>
      obtain ⟨runs, drawn, rfl⟩ := created.touches
      exact enqueued.event_kept stored
  | advance run found running stands enqueued => exact enqueued.event_kept stored
  | resume run found blocked enqueued => exact enqueued.event_kept stored
  | @reconcile requestId effectOccurred _ _ _ _ effect found unresolved =>
      cases effectOccurred <;> exact ⟨row, stored, .refl row⟩

/-- Events are never removed. -/
theorem event_sameRequest (host : Host) (answer : Answer) (op : Op) {row : EventRow}
    (stored : row ∈ world.db.events.rows) :
    ∃ row' ∈ (op.answer host answer world).2.db.events.rows, row.SameRequest row' := by
  rcases op.answer_cases host answer world with
    same | ⟨stmt, rfl, same⟩ | ⟨block, rfl, ⟨drawn, same⟩ | ⟨result, transacts⟩⟩ |
      ⟨call, rfl, same⟩
  · rw [same]
    exact ⟨row, stored, .refl row⟩
  · rw [same]
    exact Stmt.event_kept host stored
  · rw [same]
    exact ⟨row, stored, .refl row⟩
  · exact transacts.event_kept stored
  · rw [same]
    exact ⟨row, stored, .refl row⟩

/-- Where an event of the state after a step comes from. -/
inductive EventRow.ComesFrom (events : Table EventRow) (op : Op) (row : EventRow) : Prop where
  | old (earlier : EventRow) (stored : earlier ∈ events.rows) (same : earlier.SameRequest row)
      (acked : row.status = .done → earlier.status = .done ∨
        ∃ workerId now, op = .sql (.ackEvent earlier.id workerId now)) :
      ComesFrom events op row
  | new (pending : row.status = .pending) : ComesFrom events op row

theorem EventRow.ComesFrom.kept {events : Table EventRow} {op : Op} {row : EventRow}
    (stored : row ∈ events.rows) : row.ComesFrom events op :=
  .old row stored (.refl row) .inl

theorem comesFrom_updateEvents {row : EventRow} {p : EventRow → Bool} {f : EventRow → EventRow}
    (keeps : ∀ row, UniqueKeys.key (f row) = UniqueKeys.key row)
    (same : ∀ row : EventRow, row.SameRequest (f row))
    (acked : ∀ row, p row = true → (f row).status = .done → row.status = .done ∨
      ∃ workerId now, op = .sql (.ackEvent row.id workerId now))
    (stored : row ∈ (updateEvents world p f keeps).db.events.rows) :
    row.ComesFrom world.db.events op := by
  obtain ⟨earlier, member, rfl⟩ := List.mem_map.1 stored
  by_cases matched : p earlier = true
  · rw [if_pos matched]
    exact .old earlier member (same earlier) (acked earlier matched)
  · rw [if_neg matched]
    exact .kept member

theorem Enqueues.comesFrom {host : Host} {request : EventRequest} {eventId : String}
    {row : EventRow} (enqueues : Enqueues host request world eventId world')
    (stored : row ∈ world'.db.events.rows) : row.ComesFrom world.db.events op := by
  cases enqueues with
  | reused found same => exact .kept stored
  | fresh events absent inserted =>
      change row ∈ events.rows at stored
      rw [Table.rows_insert inserted, List.mem_append, List.mem_singleton] at stored
      rcases stored with old | rfl
      · exact .kept old
      · exact .new rfl

theorem Stmt.comesFrom (host : Host) {stmt : Stmt} {row : EventRow}
    (issued : (Op.sql stmt).issued) (stored : row ∈ (stmt.exec host world).2.db.events.rows) :
    row.ComesFrom world.db.events (.sql stmt) := by
  cases stmt with
  | insertEvent added =>
      obtain ⟨request, eventId, rfl⟩ := issued
      simp only [Stmt.exec] at stored
      split at stored
      · rename_i events inserted
        change row ∈ events.rows at stored
        rw [Table.rows_insert inserted, List.mem_append, List.mem_singleton] at stored
        rcases stored with old | rfl
        · exact .kept old
        · exact .new rfl
      · exact .kept stored
  | ackEvent eventId workerId now =>
      refine comesFrom_updateEvents (f := EventRow.acked now) (fun _ => rfl)
        (fun _ => ⟨rfl, rfl, rfl, rfl, rfl⟩) (fun earlier held _ => ?_) stored
      simp only [EventRow.heldBy, Bool.and_eq_true, beq_iff_eq] at held
      exact .inr ⟨workerId, now, by rw [held.1.1]⟩
  | releaseEvent eventId workerId availableAt now =>
      exact comesFrom_updateEvents (f := EventRow.released availableAt now) (fun _ => rfl)
        (fun _ => ⟨rfl, rfl, rfl, rfl, rfl⟩) (fun _ _ impossible => by cases impossible) stored
  | claimEvent eventId workerId leaseUntil attempts now => exact issued.elim
  | insertRun added => exact issued.elim
  | insertReconciliation added => exact issued.elim
  | insertDecision _ | insertMessage _ | insertMemory _ | insertEffect _ =>
      simp only [Stmt.exec] at stored
      (repeat' split at stored) <;> exact .kept stored
  | _ => exact .kept stored

theorem Transacts.comesFrom {host : Host} {block : Transaction} {result : block.Result}
    {row : EventRow} (transacts : Transacts host world block result world')
    (stored : row ∈ world'.db.events.rows) : row.ComesFrom world.db.events op := by
  cases transacts with
  | claimNothing idle => exact .kept stored
  | @claim workerId now leaseSeconds chosen found =>
      exact comesFrom_updateEvents
        (f := EventRow.claimedBy workerId (now + leaseSeconds) (chosen.attempts + 1) now)
        (fun _ => rfl) (fun _ => ⟨rfl, rfl, rfl, rfl, rfl⟩)
        (fun _ _ impossible => nomatch impossible) stored
  | createRun created enqueued =>
      obtain ⟨runs, drawn, rfl⟩ := created.touches
      exact enqueued.comesFrom stored
  | advance run found running stands enqueued => exact enqueued.comesFrom stored
  | resume run found blocked enqueued => exact enqueued.comesFrom stored
  | @reconcile requestId effectOccurred _ _ _ _ effect found unresolved =>
      cases effectOccurred <;> exact .kept stored

/-- An event of the next state was there before, or is pending; it is acknowledged by
`ack_event` alone. -/
theorem event_comesFrom (host : Host) (answer : Answer) (issued : op.issued) {row : EventRow}
    (stored : row ∈ (op.answer host answer world).2.db.events.rows) :
    row.ComesFrom world.db.events op := by
  rcases op.answer_cases host answer world with
    same | ⟨stmt, rfl, same⟩ | ⟨block, rfl, ⟨drawn, same⟩ | ⟨result, transacts⟩⟩ |
      ⟨call, rfl, same⟩
  · rw [same] at stored
    exact .kept stored
  · rw [same] at stored
    exact Stmt.comesFrom host issued stored
  · rw [same] at stored
    exact .kept stored
  · exact transacts.comesFrom stored
  · rw [same] at stored
    exact .kept stored

theorem Enqueues.journal_grows {host : Host} {request : EventRequest} {eventId : String}
    (enqueues : Enqueues host request world eventId world') :
    world.db.journal <+: world'.db.journal := by
  cases enqueues with
  | reused found same => exact List.prefix_refl _
  | fresh events absent inserted => exact List.prefix_append _ _

/-- The journal only grows. -/
theorem journal_grows (host : Host) (answer : Answer) (op : Op) (world : World) :
    world.db.journal <+: (op.answer host answer world).2.db.journal := by
  rcases op.answer_cases host answer world with
    same | ⟨stmt, rfl, same⟩ | ⟨block, rfl, ⟨drawn, same⟩ | ⟨result, transacts⟩⟩ |
      ⟨call, rfl, same⟩
  · simp only [same, List.prefix_refl]
  · rw [same]
    have written := Stmt.writes host stmt world
    generalize (stmt.exec host world).2 = after at written ⊢
    cases written with
    | journal row => exact List.prefix_append _ _
    | _ => exact List.prefix_refl _
  · simp only [same, List.prefix_refl]
  · generalize (Op.answer host _ answer world).2 = after at transacts ⊢
    cases transacts with
    | claimNothing idle => exact List.prefix_refl _
    | claim row found => exact List.prefix_append _ _
    | createRun created enqueued =>
        obtain ⟨runs, drawn, rfl⟩ := created.touches
        exact enqueued.journal_grows
    | advance row found running stands enqueued => exact enqueued.journal_grows
    | resume row found blocked enqueued =>
        exact (List.prefix_append _ _).trans enqueued.journal_grows
    | @reconcile requestId effectOccurred _ _ _ _ effect found unresolved =>
        cases effectOccurred <;> exact List.prefix_refl _
  · simp only [same, List.prefix_refl]

/-- A journal entry is never removed. -/
theorem journal_kept (host : Host) (answer : Answer) (op : Op) {entry : JournalRow}
    (stored : entry ∈ world.db.journal) :
    entry ∈ (op.answer host answer world).2.db.journal :=
  (journal_grows host answer op world).subset stored

/-! ### What a process knows -/

/-- What an entry of a history still says about the store. -/
structure Known (entry : Entry kernel Exc) (world : World) : Prop where
  run : ∀ runId row, entry = ⟨.sql (.selectRun runId), .ok (some row)⟩ →
    ∃ row', world.db.run runId = some row' ∧ row.Evolves row'
  effect : ∀ requestId row, entry = ⟨.sql (.selectEffect requestId), .ok (some row)⟩ →
    ∃ row', world.db.effect requestId = some row' ∧ row.SameRequest row'
  effectEntered : ∀ row, entry = ⟨.sql (.insertEffect row), .ok ()⟩ →
    ∃ row', world.db.effect row.requestId = some row' ∧ row.SameRequest row'
  decisionRead : ∀ runId step row,
    entry = ⟨.sql (.selectDecision runId step), .ok (some row)⟩ →
      world.db.decision runId step = some row
  decisionWritten : ∀ row, entry = ⟨.sql (.insertDecision row), .ok ()⟩ →
    world.db.decision row.runId row.step = some row

theorem Known.later {entry : Entry kernel Exc} (known : Known entry world) (host : Host)
    (answer : Answer) (issued : op.issued) : Known entry (op.answer host answer world).2 where
  run := by
    intro runId row same
    obtain ⟨row', stored, evolves⟩ := known.run runId row same
    obtain ⟨row'', stored', evolves'⟩ := run_evolves host answer issued stored
    exact ⟨row'', stored', evolves.trans evolves'⟩
  effect := by
    intro requestId row same
    obtain ⟨row', stored, sameRequest⟩ := known.effect requestId row same
    obtain ⟨row'', stored', sameRequest'⟩ := effect_sameRequest host answer issued stored
    exact ⟨row'', stored', sameRequest.trans sameRequest'⟩
  effectEntered := by
    intro row same
    obtain ⟨row', stored, sameRequest⟩ := known.effectEntered row same
    obtain ⟨row'', stored', sameRequest'⟩ := effect_sameRequest host answer issued stored
    exact ⟨row'', stored', sameRequest.trans sameRequest'⟩
  decisionRead := fun runId step row same =>
    decision_kept host answer op (known.decisionRead runId step row same)
  decisionWritten := fun row same =>
    decision_kept host answer op (known.decisionWritten row same)

/-- What a statement answers holds in the state it leaves. -/
theorem Known.of_answer (host : Host) (answer : Answer) (op : Op) (world : World) :
    Known ⟨op, (op.answer host answer world).1⟩ (op.answer host answer world).2 where
  run := by
    intro runId row same
    obtain ⟨rfl, answered⟩ := Entry.mk.inj same
    rw [heq_eq_eq] at answered
    cases faulty : answer.fault with
    | some fault => simp [Op.answer, faulty] at answered
    | none =>
        simp only [Op.answer, faulty, Stmt.exec, Except.ok.injEq] at answered ⊢
        exact ⟨row, answered, .refl row⟩
  effect := by
    intro requestId row same
    obtain ⟨rfl, answered⟩ := Entry.mk.inj same
    rw [heq_eq_eq] at answered
    cases faulty : answer.fault with
    | some fault => simp [Op.answer, faulty] at answered
    | none =>
        simp only [Op.answer, faulty, Stmt.exec, Except.ok.injEq] at answered ⊢
        exact ⟨row, answered, .refl row⟩
  effectEntered := by
    intro row same
    obtain ⟨rfl, answered⟩ := Entry.mk.inj same
    rw [heq_eq_eq] at answered
    cases faulty : answer.fault with
    | some fault => simp [Op.answer, faulty] at answered
    | none =>
        simp only [Op.answer, faulty, Stmt.exec] at answered ⊢
        split at answered
        · rename_i effects inserted
          refine ⟨row, ?_, .refl row⟩
          change ({ world.db with effects := effects } : Db).effect row.requestId = some row
          rw [effect_insert inserted, effect_none_of_insert inserted, Option.none_or, if_pos rfl]
        · cases answered
  decisionRead := by
    intro runId step row same
    obtain ⟨rfl, answered⟩ := Entry.mk.inj same
    rw [heq_eq_eq] at answered
    cases faulty : answer.fault with
    | some fault => simp [Op.answer, faulty] at answered
    | none => simpa [Op.answer, faulty, Stmt.exec] using answered
  decisionWritten := by
    intro row same
    obtain ⟨rfl, answered⟩ := Entry.mk.inj same
    rw [heq_eq_eq] at answered
    cases faulty : answer.fault with
    | some fault => simp [Op.answer, faulty] at answered
    | none =>
        simp only [Op.answer, faulty, Stmt.exec] at answered ⊢
        split at answered
        · rename_i known
          split at answered
          · rename_i decisions inserted
            rw [Db.decision_eq_some, if_pos known]
            refine ⟨?_, rfl, rfl⟩
            change row ∈ decisions.rows
            rw [Table.rows_insert inserted]
            exact List.mem_append_right _ (List.mem_singleton.2 rfl)
          · cases answered
        · cases answered

variable {host : Host} {config : KernelConfig} {log : History}

/-- In every reachable state, everything a process has seen is still known. -/
theorem reachable_known {steps : KernelConfig → Label Answer Call → Prop}
    (reached : (system host).Reachable steps KernelConfig.initial config) :
    ∀ process ∈ config.procs,
      System.Reachable.Learned (fun _ entry world => Known entry world) config.world
        process.log := by
  refine reached.learned (fun _ _ entry world => Known entry world) ?_ ?_ rfl
  · intro config pid call op next log answer _ _ _ _
    exact Known.of_answer host answer op config.world
  · intro config pid call op next log answer before found _ _ older entry known
    have rule := (reachable_rule before _ (List.mem_of_getElem? found)).head
    exact known.later host answer rule.issued

section Learned

variable (learned : System.Reachable.Learned (fun _ entry world => Known entry world) world log)
include learned

theorem Saw.run {runId : String} {row : RunRow}
    (saw : Saw log (.sql (.selectRun runId)) (some row)) :
    ∃ row', world.db.run runId = some row' ∧ row.Evolves row' := by
  obtain ⟨_, _, known⟩ := learned.of_mem saw
  exact known.run runId row rfl

theorem Saw.effect {requestId : String} {row : EffectRow}
    (saw : Saw log (.sql (.selectEffect requestId)) (some row)) :
    ∃ row', world.db.effect requestId = some row' ∧ row.SameRequest row' := by
  obtain ⟨_, _, known⟩ := learned.of_mem saw
  exact known.effect requestId row rfl

/-- A mutation whose handler was invoked has a ledger row of its tool. -/
theorem handled_stored {call : Call} {handled : HandlerCall} {output : Except Exc PyVal}
    (lawful : System.Reachable.Lawful (CallRule host call) log)
    (ran : (⟨.handler handled, output⟩ : Entry kernel Exc) ∈ log)
    (mutation : handled.spec.mutation = true) :
    ∃ row, world.db.effect handled.requestId = some row ∧ row.toolName = handled.spec.name := by
  obtain ⟨older, longer, rule⟩ := lawful.of_mem ran
  obtain ⟨registry, enter, _, entered, allowed, spec, _, granted, rfl, admitted⟩ := rule.tool rfl
  have inside := (List.suffix_cons _ _).trans longer
  cases admitted mutation with
  | fresh now rest =>
      obtain ⟨_, _, known⟩ := learned.of_mem (inside.subset List.mem_cons_self)
      obtain ⟨row, stored, same⟩ := known.effectEntered _ rfl
      exact ⟨row, stored, same.toolName.trans granted.name.symm⟩
  | again now rest selected admits =>
      obtain ⟨row, stored, same⟩ :=
        Saw.effect learned (selected.later ((List.suffix_cons _ _).trans inside))
      exact ⟨row, stored, same.toolName.trans (admits.2.trans granted.name.symm)⟩

/-- The decision a process has seen is the stored one. -/
theorem DecisionSeen.stored {runId : String} {step : Nat} {decisionJson : String}
    (seen : DecisionSeen log runId step decisionJson) :
    ∃ row, world.db.decision runId step = some row ∧ row.decisionJson = decisionJson := by
  rcases seen with ⟨row, saw, same⟩ | ⟨now, saw⟩
  · obtain ⟨_, _, known⟩ := learned.of_mem saw
    exact ⟨row, known.decisionRead runId step row rfl, same⟩
  · obtain ⟨_, _, known⟩ := learned.of_mem saw
    exact ⟨_, known.decisionWritten _ rfl, rfl⟩

end Learned

end PreActive.Kernel
