/-
Module: PreActive.Kernel.EventSteps
Purpose: Everything one atomic step can do to the table of events.
Trusted boundary: none
Main exports: Op.Inserts, EventsStep, eventsStep, EventRow.Timed, EventRow.Lasting,
  EventsStep.lasting, EventsStep.origin
-/
import PreActive.Kernel.Changes
import PreActive.Kernel.Knowledge

namespace PreActive.Kernel

open PreActive.Foundation PreActive.Python

/-- The operation may insert the event of the request. -/
inductive Op.Inserts : Op → EventRequest → Prop where
  | direct (request : EventRequest) (eventId : String) :
      Inserts (.sql (.insertEvent (request.row eventId))) request
  | create {task : String} {capabilities : List String} {now : Time}
      {sourceEventId : Option String} {priority : Int} (runId : String) :
      Inserts (.transaction (.createRunWithInitialStep task capabilities now sourceEventId priority))
        (runStepRequest runId 0 priority now)
  | advance (runId : String) (step : Nat) (priority : Int) (now : Time) :
      Inserts (.transaction (.advanceRunStep runId step priority now))
        (runStepRequest runId (step + 1) priority now)
  | resume (runId : String) (step : Nat) (priority : Int) (now : Time) :
      Inserts (.transaction (.resumeRunAfterEffect runId now priority))
        (runStepRequest runId (step + 1) priority now)

/-- What an operation does to the events: nothing, or it adds one at the end, leases the one that
is first in line, acknowledges one or releases one. -/
inductive EventsStep (op : Op) (events : List EventRow) : List EventRow → Prop where
  | keep : EventsStep op events events
  | insert {request : EventRequest} (eventId : String) (inserts : op.Inserts request)
      (fresh : ∀ row ∈ events, row.id ≠ eventId) :
      EventsStep op events (events ++ [request.row eventId])
  | claim {workerId : String} {now leaseSeconds : Time} {chosen : EventRow}
      (isClaim : op = .transaction (.claimEvent workerId now leaseSeconds))
      {tieBreak : List EventRow → Nat}
      (found : firstBy tieBreak EventRow.before (events.filter (EventRow.claimable now)) =
        some chosen) :
      EventsStep op events (events.map fun row => if row.id == chosen.id then
        row.claimedBy workerId (now + leaseSeconds) (chosen.attempts + 1) now else row)
  | ack {eventId workerId : String} {now : Time} (isAck : op = .sql (.ackEvent eventId workerId now)) :
      EventsStep op events
        (events.map fun row => if row.heldBy eventId workerId then row.acked now else row)
  | release {eventId workerId : String} {availableAt now : Time}
      (isRelease : op = .sql (.releaseEvent eventId workerId availableAt now)) :
      EventsStep op events (events.map fun row =>
        if row.heldBy eventId workerId then row.released availableAt now else row)

variable {host : Host} {world world' : World} {op : Op}

/-- An inserted event has an identifier that no event has. -/
theorem fresh_of_insertEvent {events events' : Table EventRow} {row : EventRow}
    (inserted : events.insert row = some events') : ∀ other ∈ events.rows, other.id ≠ row.id := by
  intro other stored same
  have apart := Table.fresh_of_insert inserted other stored
  simp [UniqueKeys.clash, UniqueKeys.key, same] at apart

theorem Enqueues.eventsStep {request : EventRequest} {eventId : String}
    (enqueues : Enqueues host request world eventId world') (inserts : op.Inserts request)
    {events : List EventRow} (same : world.db.events.rows = events) :
    EventsStep op events world'.db.events.rows := by
  cases enqueues with
  | reused row found bound => exact same ▸ .keep
  | fresh events absent inserted =>
      have apart := fresh_of_insertEvent inserted
      change EventsStep op _ events.rows
      rw [Table.rows_insert inserted, ← same]
      exact .insert _ inserts apart

/-- Every step treats the events in one of these ways. -/
theorem eventsStep (host : Host) (world : World) (answer : Answer) (issued : op.issued) :
    EventsStep op world.db.events.rows (op.answer host answer world).2.db.events.rows := by
  rcases op.answer_cases host answer world with
    same | ⟨stmt, rfl, same⟩ | ⟨block, rfl, ⟨drawn, same⟩ | ⟨result, transacts⟩⟩ | ⟨call, rfl, same⟩
  · rw [same]
    exact .keep
  · rw [same]
    cases stmt with
    | insertEvent row =>
        obtain ⟨request, eventId, rfl⟩ := issued
        simp only [Stmt.exec]
        split
        · rename_i events inserted
          have apart := fresh_of_insertEvent inserted
          change EventsStep _ _ events.rows
          rw [Table.rows_insert inserted]
          exact .insert eventId (.direct request eventId) apart
        · exact .keep
    | ackEvent eventId workerId now => exact .ack rfl
    | releaseEvent eventId workerId availableAt now => exact .release rfl
    | claimEvent => exact issued.elim
    | insertRun => exact issued.elim
    | insertReconciliation => exact issued.elim
    | insertDecision _ | insertMessage _ | insertMemory _ | insertEffect _ =>
        simp only [Stmt.exec]
        (repeat' split) <;> exact .keep
    | _ => exact .keep
  · rw [same]
    exact .keep
  · generalize (Op.answer host (.transaction block) answer world).2 = world' at transacts ⊢
    cases transacts with
    | claimNothing idle => exact .keep
    | claim row found => exact .claim rfl found
    | @createRun _ _ _ _ _ runId _ _ _ created enqueued =>
        refine enqueued.eventsStep (.create runId) ?_
        cases created <;> rfl
    | advance row found running stands enqueued =>
        exact enqueued.eventsStep (.advance _ _ _ _) rfl
    | resume row found blocked enqueued => exact enqueued.eventsStep (.resume _ _ _ _) rfl
    | @reconcile _ effectOccurred _ _ _ _ row found unresolved =>
        cases effectOccurred <;> exact .keep
  · rw [same]
    exact .keep

/-! ### What is never rewritten -/

/-- The event was for the time, and is so as long as no worker has had it. -/
structure EventRow.Timed (event : EventRow) (time : Time) : Prop where
  tried : event.status = .claimed → 0 < event.attempts
  time : event.attempts = 0 → event.availableAt = time

theorem EventRow.Timed.inserted (request : EventRequest) (eventId : String) :
    (request.row eventId).Timed (request.availableAt.getD request.now) where
  tried claimed := by cases claimed
  time _ := rfl

/-- Two versions of one event, in all that no statement writes again. -/
structure EventRow.Lasting (old new : EventRow) : Prop extends old.SameRequest new where
  createdAt : new.createdAt = old.createdAt
  timed : ∀ time, old.Timed time → new.Timed time

namespace EventRow.Lasting

theorem refl (row : EventRow) : row.Lasting row := ⟨.refl row, rfl, fun _ timed => timed⟩

theorem trans {a b c : EventRow} (first : a.Lasting b) (second : b.Lasting c) : a.Lasting c :=
  ⟨first.toSameRequest.trans second.toSameRequest, second.createdAt.trans first.createdAt,
    fun time timed => second.timed time (first.timed time timed)⟩

theorem claimedBy (row : EventRow) (workerId : String) (leaseUntil now : Time) (attempts : Nat) :
    row.Lasting (row.claimedBy workerId leaseUntil (attempts + 1) now) where
  toSameRequest := ⟨rfl, rfl, rfl, rfl, rfl⟩
  createdAt := rfl
  timed _ _ :=
    ⟨fun _ => Nat.succ_pos attempts, fun never => absurd never (Nat.succ_ne_zero attempts)⟩

theorem acked (row : EventRow) (now : Time) : row.Lasting (row.acked now) where
  toSameRequest := ⟨rfl, rfl, rfl, rfl, rfl⟩
  createdAt := rfl
  timed _ timed := ⟨nofun, timed.time⟩

/-- Only a worker that has an event puts it off. -/
theorem released {row : EventRow} {eventId workerId : String}
    (held : row.heldBy eventId workerId = true) (availableAt now : Time) :
    row.Lasting (row.released availableAt now) where
  toSameRequest := ⟨rfl, rfl, rfl, rfl, rfl⟩
  createdAt := rfl
  timed _ timed := by
    simp only [EventRow.heldBy, Bool.and_eq_true, beq_iff_eq] at held
    have tried := timed.tried held.1.2
    constructor
    · intro claimed
      cases claimed
    · intro never
      exact absurd never tried.ne'

end EventRow.Lasting

namespace EventsStep

variable {events events' : List EventRow}

/-- What an update makes of an event is a version of it. -/
theorem lasting_ite {condition : Bool} {row row' : EventRow}
    (lasting : condition = true → row.Lasting row') :
    row.Lasting (if condition then row' else row) := by
  cases condition with
  | false => exact .refl row
  | true => exact lasting rfl

/-- Every event stays. -/
theorem lasting (step : EventsStep op events events') {row : EventRow} (stored : row ∈ events) :
    ∃ row' ∈ events', row.Lasting row' := by
  cases step with
  | keep => exact ⟨row, stored, .refl row⟩
  | insert eventId inserts fresh => exact ⟨row, List.mem_append_left _ stored, .refl row⟩
  | claim isClaim found =>
      exact ⟨_, List.mem_map_of_mem stored, lasting_ite fun _ => .claimedBy row _ _ _ _⟩
  | ack isAck => exact ⟨_, List.mem_map_of_mem stored, lasting_ite fun _ => .acked row _⟩
  | release isRelease =>
      exact ⟨_, List.mem_map_of_mem stored, lasting_ite fun held => .released held _ _⟩

/-- Every event was there or has just been inserted. -/
theorem origin (step : EventsStep op events events') {row' : EventRow} (stored : row' ∈ events') :
    (∃ row ∈ events, row.Lasting row') ∨
      ∃ request eventId, op.Inserts request ∧ row' = request.row eventId := by
  cases step with
  | keep => exact .inl ⟨row', stored, .refl row'⟩
  | insert eventId inserts fresh =>
      rcases List.mem_append.1 stored with old | new
      · exact .inl ⟨row', old, .refl row'⟩
      · exact .inr ⟨_, eventId, inserts, List.mem_singleton.1 new⟩
  | claim isClaim found =>
      obtain ⟨row, member, rfl⟩ := List.mem_map.1 stored
      exact .inl ⟨row, member, lasting_ite fun _ => .claimedBy row _ _ _ _⟩
  | ack isAck =>
      obtain ⟨row, member, rfl⟩ := List.mem_map.1 stored
      exact .inl ⟨row, member, lasting_ite fun _ => .acked row _⟩
  | release isRelease =>
      obtain ⟨row, member, rfl⟩ := List.mem_map.1 stored
      exact .inl ⟨row, member, lasting_ite fun held => .released held _ _⟩

end EventsStep

end PreActive.Kernel
