/-
Module: PreActive.Kernel.Queue
Purpose: The event queue as a lease automaton: what every sequence of `enqueue_event`,
  `claim_event`, `ack_event` and `fail_event` calls keeps to.
Trusted boundary: human-reviewed spec
Main exports: QueueCall, QueueCall.exec, QueueRun, Lease, LeaseDiscipline, lease_discipline
-/
import Mathlib.Tactic.Linarith
import PreActive.Kernel.System
import PreActive.Kernel.Transactions

namespace PreActive.Kernel

open PreActive.Foundation PreActive.Python

/-! ### Calls -/

/-- The calls of workers and producers on the queue. -/
inductive QueueCall where
  | enqueueEvent (request : EventRequest)
  | claimEvent (workerId : String) (now leaseSeconds : Time)
  | ackEvent (eventId workerId : String) (now : Time)
  | failEvent (eventId workerId : String) (now : Time) (retryAt : Option Time)

/-- What a call of the queue answers. -/
inductive QueueAnswer where
  | enqueued (eventId : String)
  | claimed (claim : Option Claim)
  | acked
  | released
  | raised (exc : Exc)

def QueueAnswer.ofExcept {α : Type} (answer : α → QueueAnswer) : Except Exc α → QueueAnswer
  | .ok value => answer value
  | .error exc => .raised exc

/-- One call, with nothing in between its statements. -/
def QueueCall.exec (host : Host) : QueueCall → World → QueueAnswer × World
  | enqueueEvent request, world =>
      ((Kernel.enqueueEvent request).run host world).map (.ofExcept .enqueued) id
  | claimEvent workerId now leaseSeconds, world =>
      ((Transaction.claimEvent workerId now leaseSeconds).exec host world).map
        (.ofExcept .claimed) id
  | ackEvent eventId workerId now, world =>
      ((Kernel.ackEvent eventId workerId now).run host world).map (.ofExcept fun _ => .acked) id
  | failEvent eventId workerId now retryAt, world =>
      ((Kernel.failEvent eventId workerId now retryAt).run host world).map
        (.ofExcept fun _ => .released) id

/-- A lease is not negative. -/
def QueueCall.wellFormed : QueueCall → Prop
  | claimEvent _ _ leaseSeconds => 0 ≤ leaseSeconds
  | _ => True

/-- A call with its answer. -/
structure QueueEntry where
  call : QueueCall
  answer : QueueAnswer

/-- A sequence of calls on an empty queue, latest call first, and the world it leads to. -/
inductive QueueRun (host : Host) : List QueueEntry → World → Prop where
  | start (world : World) (empty : world.db.events = .empty) : QueueRun host [] world
  | call {history : List QueueEntry} {world : World} (before : QueueRun host history world)
      (call : QueueCall) (wellFormed : call.wellFormed) :
      QueueRun host (⟨call, (call.exec host world).1⟩ :: history) (call.exec host world).2

namespace QueueEntry

/-- The call returned the event to the worker, at that time and for that long. -/
def Claims (entry : QueueEntry) (eventId workerId : String) (now leaseSeconds : Time) : Prop :=
  ∃ claim, entry = ⟨.claimEvent workerId now leaseSeconds, .claimed (some claim)⟩ ∧
    claim.row.id = eventId

def Acks (entry : QueueEntry) (eventId : String) : Prop :=
  ∃ workerId now, entry = ⟨.ackEvent eventId workerId now, .acked⟩

def Releases (entry : QueueEntry) (eventId : String) : Prop :=
  ∃ workerId now retryAt, entry = ⟨.failEvent eventId workerId now retryAt, .released⟩

/-- The call returned the event to some worker. -/
def claims (eventId : String) : QueueEntry → Bool
  | ⟨.claimEvent .., .claimed (some claim)⟩ => claim.row.id == eventId
  | _ => false

end QueueEntry

/-- The history of some calls, latest call first, and the world they lead to. -/
def queueTrace (host : Host) : List QueueCall → World → List QueueEntry × World
  | [], world => ([], world)
  | call :: earlier, world =>
      let (history, world') := queueTrace host earlier world
      (⟨call, (call.exec host world').1⟩ :: history, (call.exec host world').2)

theorem queueTrace_run {host : Host} {calls : List QueueCall} {world : World}
    (empty : world.db.events = .empty) (wellFormed : ∀ call ∈ calls, call.wellFormed) :
    QueueRun host (queueTrace host calls world).1 (queueTrace host calls world).2 := by
  induction calls with
  | nil => exact .start world empty
  | cons call earlier ih =>
      exact (ih fun other member => wellFormed other (List.mem_cons_of_mem _ member)).call call
        (wellFormed call List.mem_cons_self)

/-! ### The automaton of one event -/

/-- Whether an event is leased, and to whom and until when. -/
inductive Lease where
  | free
  | held (workerId : String) (leaseUntil : Time)
  | closed

/-- What a call does to the lease of an event. -/
def Lease.after (eventId : String) : QueueEntry → Lease → Lease
  | ⟨.claimEvent workerId now leaseSeconds, .claimed (some claim)⟩, lease =>
      if claim.row.id = eventId then held workerId (now + leaseSeconds) else lease
  | ⟨.ackEvent target _ _, .acked⟩, lease => if target = eventId then closed else lease
  | ⟨.failEvent target _ _ _, .released⟩, lease => if target = eventId then free else lease
  | _, lease => lease

/-- The lease of an event after a history. -/
def leaseOf (history : List QueueEntry) (eventId : String) : Lease :=
  history.foldr (Lease.after eventId) .free

/-- The columns of the row hold the lease. -/
inductive EventRow.Shows (row : EventRow) : Lease → Prop where
  | free (pending : row.status = .pending) (owner : row.leaseOwner = none)
      (leaseUntil : row.leaseUntil = none) : Shows row .free
  | held {workerId : String} {leaseUntil : Time} (claimed : row.status = .claimed)
      (owner : row.leaseOwner = some workerId) (until' : row.leaseUntil = some leaseUntil) :
      Shows row (.held workerId leaseUntil)
  | closed (done : row.status = .done) (owner : row.leaseOwner = none)
      (leaseUntil : row.leaseUntil = none) : Shows row .closed

/-- Every row shows the lease and the number of claims of its event, and every event that a call
was about has a row. -/
structure Refines (history : List QueueEntry) (events : Table EventRow) : Prop where
  shows : ∀ row ∈ events.rows, row.Shows (leaseOf history row.id)
  attempts : ∀ row ∈ events.rows, row.attempts = history.countP (QueueEntry.claims row.id)
  stored : ∀ entry ∈ history, ∀ eventId,
    (entry.claims eventId = true ∨ entry.Acks eventId ∨ entry.Releases eventId) →
      ∃ row ∈ events.rows, row.id = eventId

/-! ### What a call does -/

variable {host : Host} {world world' : World} {history : List QueueEntry} {events : Table EventRow}

theorem EventRow.heldBy_eq_true {eventId workerId : String} {row : EventRow} :
    row.heldBy eventId workerId = true ↔
      row.id = eventId ∧ row.status = .claimed ∧ row.leaseOwner = some workerId := by
  simp [EventRow.heldBy, and_assoc]

/-- The `rowcount` of an update by the holder of a lease. -/
theorem count_heldBy (events : Table EventRow) (eventId workerId : String) :
    events.count (EventRow.heldBy eventId workerId) = 1 ↔
      ∃ row ∈ events.rows, row.id = eventId ∧ row.status = .claimed ∧
        row.leaseOwner = some workerId := by
  rw [Table.count_eq_one]
  · simp only [EventRow.heldBy_eq_true]
  · intro a b heldA heldB
    simp [UniqueKeys.clash, UniqueKeys.key, (EventRow.heldBy_eq_true.1 heldA).1,
      (EventRow.heldBy_eq_true.1 heldB).1]

/-- Without the holder's row the update changes nothing. -/
theorem updateEvents_heldBy_eq_self {eventId workerId : String} {f : EventRow → EventRow}
    {keeps : ∀ row, UniqueKeys.key (f row) = UniqueKeys.key row}
    (missed : world.db.events.count (EventRow.heldBy eventId workerId) ≠ 1) :
    updateEvents world (EventRow.heldBy eventId workerId) f keeps = world := by
  have same : world.db.events.update (EventRow.heldBy eventId workerId) f keeps =
      world.db.events := by
    refine Table.update_eq_self fun row stored => ?_
    rw [Bool.eq_false_iff]
    intro held
    exact missed ((count_heldBy _ _ _).2 ⟨row, stored, EventRow.heldBy_eq_true.1 held⟩)
  rw [updateEvents, same]

theorem run_ackEvent {eventId workerId : String} {now : Time} :
    (ackEvent eventId workerId now).run host world =
      if world.db.events.count (EventRow.heldBy eventId workerId) = 1 then
        (.ok (),
          let world' := updateEvents world (EventRow.heldBy eventId workerId) (EventRow.acked now)
            fun _ => rfl
          { world' with
            db := { world'.db with
              journal := world'.db.journal ++
                [⟨.eventAcked, some eventId, [("worker_id", .text workerId)], now⟩] } })
      else (.error (runtimeError "event acknowledgement lost lease ownership"), world) := by
  simp only [ackEvent, Stmt.perform, Program.perform, Program.bind_eq_bind, Program.call_bind,
    Sql.run_call, Stmt.exec, Program.ofExcept_ok, Program.done_bind]
  by_cases held : world.db.events.count (EventRow.heldBy eventId workerId) = 1
  · rw [if_neg (not_not.2 held), if_pos held]
    rfl
  · rw [if_pos held, if_neg held]
    exact congrArg (Prod.mk _) (updateEvents_heldBy_eq_self held)

theorem run_failEvent {eventId workerId : String} {now : Time} {retryAt : Option Time} :
    (failEvent eventId workerId now retryAt).run host world =
      if world.db.events.count (EventRow.heldBy eventId workerId) = 1 then
        (.ok (),
          let world' := updateEvents world (EventRow.heldBy eventId workerId)
            (EventRow.released (retryAt.getD now) now) fun _ => rfl
          { world' with
            db := { world'.db with
              journal := world'.db.journal ++
                [⟨.eventRetryScheduled, some eventId,
                  [("worker_id", .text workerId), ("retry_at", .time (retryAt.getD now))],
                  now⟩] } })
      else (.error (runtimeError "event failure update lost lease ownership"), world) := by
  simp only [failEvent, Stmt.perform, Program.perform, Program.bind_eq_bind, Program.call_bind,
    Sql.run_call, Stmt.exec, Program.ofExcept_ok, Program.done_bind]
  by_cases held : world.db.events.count (EventRow.heldBy eventId workerId) = 1
  · rw [if_neg (not_not.2 held), if_pos held]
    rfl
  · rw [if_pos held, if_neg held]
    exact congrArg (Prod.mk _) (updateEvents_heldBy_eq_self held)

/-- A call that is about no event. -/
def QueueEntry.idle (entry : QueueEntry) : Prop :=
  (∀ eventId, entry.claims eventId = false) ∧
    ∀ eventId lease, Lease.after eventId entry lease = lease

/-- What a call does to the events. -/
inductive QueueStep (world : World) : QueueEntry → Table EventRow → Prop where
  | keep {entry : QueueEntry} (idle : entry.idle) : QueueStep world entry world.db.events
  | enqueue {entry : QueueEntry} {events : Table EventRow} (idle : entry.idle) (row : EventRow)
      (fresh : row.Shows .free) (attempts : row.attempts = 0)
      (inserted : world.db.events.insert row = some events) : QueueStep world entry events
  | claim {workerId : String} {now leaseSeconds : Time} (row : EventRow)
      (stored : row ∈ world.db.events.rows) (claimable : row.claimable now = true) :
      QueueStep world
        ⟨.claimEvent workerId now leaseSeconds,
          .claimed (some ⟨row, row.attempts + 1, now + leaseSeconds⟩)⟩
        (world.db.events.update (fun other => other.id == row.id)
          (EventRow.claimedBy workerId (now + leaseSeconds) (row.attempts + 1) now) fun _ => rfl)
  | ack {workerId : String} {now : Time} (row : EventRow) (stored : row ∈ world.db.events.rows)
      (held : row.heldBy row.id workerId = true) :
      QueueStep world ⟨.ackEvent row.id workerId now, .acked⟩
        (world.db.events.update (EventRow.heldBy row.id workerId) (EventRow.acked now) fun _ => rfl)
  | release {workerId : String} {now : Time} {retryAt : Option Time} (row : EventRow)
      (stored : row ∈ world.db.events.rows) (held : row.heldBy row.id workerId = true) :
      QueueStep world ⟨.failEvent row.id workerId now retryAt, .released⟩
        (world.db.events.update (EventRow.heldBy row.id workerId)
          (EventRow.released (retryAt.getD now) now) fun _ => rfl)

theorem QueueCall.steps (host : Host) (call : QueueCall) (world : World) :
    QueueStep world ⟨call, (call.exec host world).1⟩ (call.exec host world).2.db.events := by
  cases call with
  | enqueueEvent request =>
      rcases ran : (Kernel.enqueueEvent request).run host world with ⟨exc | eventId, world'⟩
      · simp only [QueueCall.exec, ran, Prod.map, QueueAnswer.ofExcept, id]
        rw [enqueueEvent_error ran]
        exact .keep ⟨fun _ => rfl, fun _ _ => rfl⟩
      · simp only [QueueCall.exec, ran, Prod.map, QueueAnswer.ofExcept, id]
        cases enqueueEvent_ok ran with
        | reused row found same => exact .keep ⟨fun _ => rfl, fun _ _ => rfl⟩
        | fresh events absent inserted =>
            exact .enqueue ⟨fun _ => rfl, fun _ _ => rfl⟩ _ (.free rfl rfl rfl) rfl inserted
  | claimEvent workerId now leaseSeconds =>
      rcases ran : (Transaction.claimEvent workerId now leaseSeconds).exec host world with
        ⟨exc | claim, world'⟩
      · simp only [QueueCall.exec, ran, Prod.map, QueueAnswer.ofExcept, id]
        rw [Transaction.exec_error ran]
        exact .keep ⟨fun _ => rfl, fun _ _ => rfl⟩
      · simp only [QueueCall.exec, ran, Prod.map, QueueAnswer.ofExcept, id]
        cases Transaction.exec_ok ran with
        | claimNothing idle => exact .keep ⟨fun _ => rfl, fun _ _ => rfl⟩
        | claim row found =>
            obtain ⟨stored, claimable⟩ := List.mem_filter.1 (firstBy_mem found)
            exact .claim row stored claimable
  | ackEvent eventId workerId now =>
      simp only [QueueCall.exec, run_ackEvent]
      split
      · rename_i counted
        obtain ⟨row, stored, rfl, claimed, owner⟩ := (count_heldBy _ _ _).1 counted
        exact .ack row stored (EventRow.heldBy_eq_true.2 ⟨rfl, claimed, owner⟩)
      · exact .keep ⟨fun _ => rfl, fun _ _ => rfl⟩
  | failEvent eventId workerId now retryAt =>
      simp only [QueueCall.exec, run_failEvent]
      split
      · rename_i counted
        obtain ⟨row, stored, rfl, claimed, owner⟩ := (count_heldBy _ _ _).1 counted
        exact .release row stored (EventRow.heldBy_eq_true.2 ⟨rfl, claimed, owner⟩)
      · exact .keep ⟨fun _ => rfl, fun _ _ => rfl⟩

/-! ### The refinement -/

theorem leaseOf_of_idle {entry : QueueEntry} (idle : entry.idle) (eventId : String) :
    leaseOf (entry :: history) eventId = leaseOf history eventId :=
  idle.2 eventId _

theorem countP_of_idle {entry : QueueEntry} (idle : entry.idle) (eventId : String) :
    (entry :: history).countP (QueueEntry.claims eventId) =
      history.countP (QueueEntry.claims eventId) := by
  rw [List.countP_cons, idle.1 eventId]
  rfl

theorem QueueEntry.idle.unrelated {entry : QueueEntry} (idle : entry.idle) (eventId : String) :
    ¬ (entry.claims eventId = true ∨ entry.Acks eventId ∨ entry.Releases eventId) := by
  rintro (claims | ⟨workerId, now, rfl⟩ | ⟨workerId, now, retryAt, rfl⟩)
  · rw [idle.1 eventId] at claims
    cases claims
  · have kept := idle.2 eventId .free
    simp [Lease.after] at kept
  · have kept := idle.2 eventId .closed
    simp [Lease.after] at kept

/-- A call that neither claims, acknowledges nor releases an event leaves its lease. -/
theorem Lease.after_eq {entry : QueueEntry} {eventId : String} (lease : Lease)
    (claims : entry.claims eventId = false) (acks : ¬ entry.Acks eventId)
    (releases : ¬ entry.Releases eventId) : Lease.after eventId entry lease = lease := by
  unfold Lease.after
  split
  · rw [if_neg]
    simpa [QueueEntry.claims] using claims
  · rename_i target workerId now
    rw [if_neg]
    rintro rfl
    exact acks ⟨workerId, now, rfl⟩
  · rename_i target workerId now retryAt
    rw [if_neg]
    rintro rfl
    exact releases ⟨workerId, now, retryAt, rfl⟩
  · rfl

/-- An event that no call was about is free and was never claimed. -/
theorem leaseOf_unknown {eventId : String}
    (unknown : ∀ entry ∈ history, entry.claims eventId = false ∧ ¬ entry.Acks eventId ∧
      ¬ entry.Releases eventId) :
    leaseOf history eventId = .free ∧ history.countP (QueueEntry.claims eventId) = 0 := by
  induction history with
  | nil => exact ⟨rfl, rfl⟩
  | cons entry rest ih =>
      obtain ⟨claims, acks, releases⟩ := unknown entry List.mem_cons_self
      obtain ⟨free, none⟩ := ih fun other member => unknown other (List.mem_cons_of_mem _ member)
      constructor
      · exact (Lease.after_eq _ claims acks releases).trans free
      · rw [List.countP_cons, none, claims]
        rfl

/-- An update of one event keeps the rows of the others. -/
theorem Refines.update {entry : QueueEntry} {p : EventRow → Bool} {f : EventRow → EventRow}
    {keeps : ∀ row, UniqueKeys.key (f row) = UniqueKeys.key row} (refines : Refines history events)
    {row : EventRow} (stored : row ∈ events.rows) (matches' : ∀ other ∈ events.rows,
      p other = true ↔ other = row)
    (shows : (f row).Shows (Lease.after row.id entry (leaseOf history row.id)))
    (attempts : (f row).attempts = (entry :: history).countP (QueueEntry.claims row.id))
    (others : ∀ eventId, eventId ≠ row.id → entry.claims eventId = false ∧ ¬ entry.Acks eventId ∧
      ¬ entry.Releases eventId) :
    Refines (entry :: history) (events.update p f keeps) := by
  have sameId : ∀ other, (f other).id = other.id := fun other => congrArg Prod.fst (keeps other)
  have apart : ∀ other ∈ events.rows, p other = false → other.id ≠ row.id := by
    intro other member missed same
    have equal : other = row := Table.eq_of_clash member stored
      (by simp [UniqueKeys.clash, UniqueKeys.key, same])
      (by simp [UniqueKeys.clash, UniqueKeys.key, same])
    rw [(matches' other member).2 equal] at missed
    cases missed
  refine ⟨fun row' member => ?_, fun row' member => ?_, fun entry' member eventId about => ?_⟩
  · obtain ⟨other, inTable, rfl⟩ := List.mem_map.1 member
    by_cases matched : p other = true
    · obtain rfl := (matches' other inTable).1 matched
      rw [if_pos matched, sameId]
      exact shows
    · rw [if_neg matched]
      obtain ⟨claims, acks, releases⟩ :=
        others other.id (apart other inTable (by simpa using matched))
      have kept : leaseOf (entry :: history) other.id = leaseOf history other.id :=
        Lease.after_eq _ claims acks releases
      rw [kept]
      exact refines.shows other inTable
  · obtain ⟨other, inTable, rfl⟩ := List.mem_map.1 member
    by_cases matched : p other = true
    · obtain rfl := (matches' other inTable).1 matched
      rw [if_pos matched, sameId]
      exact attempts
    · rw [if_neg matched]
      obtain ⟨claims, _, _⟩ := others other.id (apart other inTable (by simpa using matched))
      rw [List.countP_cons, claims, refines.attempts other inTable]
      rfl
  · have known : ∃ old ∈ events.rows, old.id = eventId := by
      rcases List.mem_cons.1 member with rfl | old
      · by_cases isRow : eventId = row.id
        · exact ⟨row, stored, isRow.symm⟩
        · obtain ⟨claims, acks, releases⟩ := others eventId isRow
          rcases about with claimed | acked | released
          · rw [claims] at claimed
            cases claimed
          · exact absurd acked acks
          · exact absurd released releases
      · exact refines.stored entry' old eventId about
    obtain ⟨old, inTable, same⟩ := known
    refine ⟨_, List.mem_map_of_mem inTable, ?_⟩
    split
    · exact (sameId old).trans same
    · exact same

/-- A leased row and its holder. -/
theorem EventRow.Shows.held_of_claimed {row : EventRow} {lease : Lease} (shows : row.Shows lease)
    (claimed : row.status = .claimed) : ∃ workerId leaseUntil, lease = .held workerId leaseUntil ∧
      row.leaseOwner = some workerId ∧ row.leaseUntil = some leaseUntil := by
  cases shows with
  | free pending => rw [pending] at claimed; cases claimed
  | held _ owner until' => exact ⟨_, _, rfl, owner, until'⟩
  | closed done => rw [done] at claimed; cases claimed

theorem QueueEntry.not_acks_claim {call : QueueCall} {claim : Claim} (eventId : String) :
    ¬ QueueEntry.Acks ⟨call, .claimed (some claim)⟩ eventId := by
  rintro ⟨_, _, same⟩
  cases same

theorem QueueEntry.not_releases_claim {call : QueueCall} {claim : Claim} (eventId : String) :
    ¬ QueueEntry.Releases ⟨call, .claimed (some claim)⟩ eventId := by
  rintro ⟨_, _, _, same⟩
  cases same

theorem heldBy_iff {row : EventRow} {workerId : String} (stored : row ∈ events.rows)
    (held : row.heldBy row.id workerId = true) (other : EventRow) (member : other ∈ events.rows) :
    other.heldBy row.id workerId = true ↔ other = row := by
  constructor
  · intro heldToo
    have same := (EventRow.heldBy_eq_true.1 heldToo).1
    exact Table.eq_of_clash member stored (by simp [UniqueKeys.clash, UniqueKeys.key, same])
      (by simp [UniqueKeys.clash, UniqueKeys.key, same])
  · rintro rfl
    exact held

/-- Every call keeps the refinement. -/
theorem Refines.step {entry : QueueEntry} {events' : Table EventRow}
    (refines : Refines history world.db.events) (step : QueueStep world entry events') :
    Refines (entry :: history) events' := by
  cases step with
  | keep idle =>
      refine ⟨fun row stored => ?_, fun row stored => ?_, fun entry' member eventId about => ?_⟩
      · rw [leaseOf_of_idle idle]
        exact refines.shows row stored
      · rw [countP_of_idle idle]
        exact refines.attempts row stored
      · rcases List.mem_cons.1 member with rfl | old
        · exact absurd about (idle.unrelated eventId)
        · exact refines.stored entry' old eventId about
  | enqueue idle row fresh attempts inserted =>
      have rows := Table.rows_insert inserted
      have unknown : ∀ entry' ∈ history, entry'.claims row.id = false ∧ ¬ entry'.Acks row.id ∧
          ¬ entry'.Releases row.id := by
        intro entry' member
        have absent : ¬ (entry'.claims row.id = true ∨ entry'.Acks row.id ∨
            entry'.Releases row.id) := by
          intro about
          obtain ⟨old, stored, same⟩ := refines.stored entry' member row.id about
          have apart := Table.fresh_of_insert inserted old stored
          simp [UniqueKeys.clash, UniqueKeys.key, same] at apart
        simpa [not_or] using absent
      obtain ⟨free, never⟩ := leaseOf_unknown unknown
      refine ⟨fun row' stored => ?_, fun row' stored => ?_, fun entry' member eventId about => ?_⟩
      · rw [leaseOf_of_idle idle]
        rw [rows] at stored
        rcases List.mem_append.1 stored with old | new
        · exact refines.shows row' old
        · rw [List.mem_singleton.1 new, free]
          exact fresh
      · rw [countP_of_idle idle]
        rw [rows] at stored
        rcases List.mem_append.1 stored with old | new
        · exact refines.attempts row' old
        · rw [List.mem_singleton.1 new, never]
          exact attempts
      · rcases List.mem_cons.1 member with rfl | old
        · exact absurd about (idle.unrelated eventId)
        · obtain ⟨row', stored, same⟩ := refines.stored entry' old eventId about
          exact ⟨row', by rw [rows]; exact List.mem_append_left _ stored, same⟩
  | claim row stored claimable =>
      refine refines.update stored (fun other member => ?_) ?_ ?_ fun eventId apart => ?_
      · constructor
        · intro same
          exact Table.eq_of_clash member stored
            (by simp [UniqueKeys.clash, UniqueKeys.key, eq_of_beq same])
            (by simp [UniqueKeys.clash, UniqueKeys.key, eq_of_beq same])
        · rintro rfl
          simp
      · simp only [Lease.after, if_true]
        exact .held rfl rfl rfl
      · rw [List.countP_cons, ← refines.attempts row stored]
        simp [QueueEntry.claims, EventRow.claimedBy]
      · exact ⟨by simpa [QueueEntry.claims] using apart.symm, QueueEntry.not_acks_claim _,
          QueueEntry.not_releases_claim _⟩
  | @ack workerId now row stored held =>
      refine refines.update stored (heldBy_iff stored held) ?_ ?_ fun eventId apart => ?_
      · simp only [Lease.after, if_true]
        exact .closed rfl rfl rfl
      · rw [List.countP_cons, ← refines.attempts row stored]
        rfl
      · refine ⟨rfl, ?_, ?_⟩
        · rintro ⟨_, _, same⟩
          cases same
          exact apart rfl
        · rintro ⟨_, _, _, same⟩
          cases same
  | @release workerId now retryAt row stored held =>
      refine refines.update stored (heldBy_iff stored held) ?_ ?_ fun eventId apart => ?_
      · simp only [Lease.after, if_true]
        exact .free rfl rfl rfl
      · rw [List.countP_cons, ← refines.attempts row stored]
        rfl
      · refine ⟨rfl, ?_, ?_⟩
        · rintro ⟨_, _, same⟩
          cases same
        · rintro ⟨_, _, _, same⟩
          cases same
          exact apart rfl

/-- A run of the queue is a run of the automaton. -/
theorem QueueRun.refines (run : QueueRun host history world) :
    Refines history world.db.events := by
  induction run with
  | start world empty =>
      rw [empty]
      exact ⟨(fun _ stored => nomatch stored), (fun _ stored => nomatch stored),
        (fun _ member => nomatch member)⟩
  | @call history world before call wellFormed ih => exact ih.step (call.steps host world)

/-- What came before in a run is a run. -/
theorem QueueRun.suffix {newest oldest : List QueueEntry}
    (run : QueueRun host (newest ++ oldest) world) : ∃ world', QueueRun host oldest world' := by
  induction newest generalizing world with
  | nil => exact ⟨world, run⟩
  | cons entry rest ih =>
      cases run with
      | call before call wellFormed => exact ih before

/-! ### The clauses of the discipline -/

theorem QueueEntry.Claims.claims {entry : QueueEntry} {eventId workerId : String}
    {now leaseSeconds : Time} (claimed : entry.Claims eventId workerId now leaseSeconds) :
    entry.claims eventId = true := by
  obtain ⟨claim, rfl, same⟩ := claimed
  simp [QueueEntry.claims, same]

theorem QueueEntry.exists_claims (entry : QueueEntry) (eventId : String)
    (claims : entry.claims eventId = true) :
    ∃ workerId now leaseSeconds, entry.Claims eventId workerId now leaseSeconds := by
  unfold QueueEntry.claims at claims
  split at claims
  · exact ⟨_, _, _, _, rfl, eq_of_beq claims⟩
  · cases claims

/-- A claim finds the event free, or its lease expired. -/
theorem QueueStep.claimable {entry : QueueEntry} {eventId workerId : String}
    {now leaseSeconds : Time} (refines : Refines history world.db.events)
    (step : QueueStep world entry events)
    (claimed : entry.Claims eventId workerId now leaseSeconds) :
    leaseOf history eventId = .free ∨
      ∃ holder leaseUntil, leaseOf history eventId = .held holder leaseUntil ∧ leaseUntil ≤ now := by
  have claims := claimed.claims
  obtain ⟨claim, rfl, same⟩ := claimed
  generalize isEntry : (⟨.claimEvent workerId now leaseSeconds, .claimed (some claim)⟩ :
    QueueEntry) = entry at step
  cases step with
  | keep idle =>
      rw [isEntry, idle.1 eventId] at claims
      cases claims
  | enqueue idle row fresh attempts inserted =>
      rw [isEntry, idle.1 eventId] at claims
      cases claims
  | claim row stored claimable =>
      cases isEntry
      obtain rfl : row.id = eventId := same
      have shows := refines.shows row stored
      generalize leaseOf history row.id = lease at shows
      simp only [EventRow.claimable, Bool.and_eq_true, Bool.or_eq_true, decide_eq_true_eq] at claimable
      cases shows with
      | free => exact .inl rfl
      | @held holder leaseUntil claimed owner until' =>
          refine .inr ⟨holder, leaseUntil, rfl, ?_⟩
          rw [claimed, until'] at claimable
          simpa using claimable.2
      | closed done =>
          rw [done] at claimable
          simp at claimable
  | ack => cases isEntry
  | release => cases isEntry

/-- Only a leased event is acknowledged or released. -/
theorem QueueStep.settled {entry : QueueEntry} {eventId : String}
    (refines : Refines history world.db.events) (step : QueueStep world entry events)
    (settles : entry.Acks eventId ∨ entry.Releases eventId) :
    ∃ holder leaseUntil, leaseOf history eventId = .held holder leaseUntil := by
  cases step with
  | keep idle => exact absurd (.inr settles) (idle.unrelated eventId)
  | enqueue idle row fresh attempts inserted => exact absurd (.inr settles) (idle.unrelated eventId)
  | claim row stored claimable =>
      rcases settles with acks | releases
      · exact absurd acks (QueueEntry.not_acks_claim _)
      · exact absurd releases (QueueEntry.not_releases_claim _)
  | ack row stored held =>
      obtain ⟨holder, leaseUntil, leased, _⟩ :=
        (refines.shows row stored).held_of_claimed (EventRow.heldBy_eq_true.1 held).2.1
      rcases settles with ⟨worker, at', same⟩ | ⟨worker, at', retryAt, same⟩
      · cases same
        exact ⟨holder, leaseUntil, leased⟩
      · cases same
  | release row stored held =>
      obtain ⟨holder, leaseUntil, leased, _⟩ :=
        (refines.shows row stored).held_of_claimed (EventRow.heldBy_eq_true.1 held).2.1
      rcases settles with ⟨worker, at', same⟩ | ⟨worker, at', retryAt, same⟩
      · cases same
      · cases same
        exact ⟨holder, leaseUntil, leased⟩

/-- After a claim that was not released the event is acknowledged, or leased for at least as
long. -/
theorem QueueRun.leased {between oldest : List QueueEntry} {first : QueueEntry}
    {eventId workerId : String} {now leaseSeconds : Time}
    (run : QueueRun host (between ++ first :: oldest) world)
    (claimed : first.Claims eventId workerId now leaseSeconds)
    (kept : ∀ entry ∈ between, ¬ entry.Releases eventId) :
    leaseOf (between ++ first :: oldest) eventId = .closed ∨
      ∃ holder leaseUntil, leaseOf (between ++ first :: oldest) eventId = .held holder leaseUntil ∧
        now + leaseSeconds ≤ leaseUntil := by
  induction between generalizing world with
  | nil =>
      obtain ⟨claim, rfl, same⟩ := claimed
      refine .inr ⟨workerId, now + leaseSeconds, ?_, le_refl _⟩
      simp [leaseOf, Lease.after, same]
  | cons entry rest ih =>
      have keeps := kept entry List.mem_cons_self
      cases run with
      | @call _ world before call wellFormed =>
          have ih' := ih before fun other member => kept other (List.mem_cons_of_mem _ member)
          have step := call.steps host world
          have refines := before.refines
          generalize isEntry : (⟨call, (call.exec host world).1⟩ : QueueEntry) = entry at *
          rw [List.cons_append]
          change Lease.after eventId entry (leaseOf (rest ++ first :: oldest) eventId) = _ ∨
            ∃ holder leaseUntil, Lease.after eventId entry
              (leaseOf (rest ++ first :: oldest) eventId) = _ ∧ _
          by_cases claims : entry.claims eventId = true
          · obtain ⟨worker, again, duration, claimedAgain⟩ := QueueEntry.exists_claims _ _ claims
            have expired : leaseOf (rest ++ first :: oldest) eventId = .free ∨
                ∃ holder leaseUntil, leaseOf (rest ++ first :: oldest) eventId =
                  .held holder leaseUntil ∧ leaseUntil ≤ again :=
              step.claimable refines claimedAgain
            obtain ⟨claim, rfl, same⟩ := claimedAgain
            obtain rfl : call = .claimEvent worker again duration :=
              congrArg QueueEntry.call isEntry
            refine .inr ⟨worker, again + duration, ?_, ?_⟩
            · simp [Lease.after, same]
            · have lasts : 0 ≤ duration := wellFormed
              rcases ih' with closed | ⟨holder, leaseUntil, held, longer⟩
              · rw [closed] at expired
                simp at expired
              · rw [held] at expired
                simp only [reduceCtorEq, Lease.held.injEq, false_or] at expired
                obtain ⟨_, _, ⟨_, rfl⟩, ended⟩ := expired
                linarith
          · by_cases acks : entry.Acks eventId
            · obtain ⟨worker, at', rfl⟩ := acks
              left
              simp [Lease.after]
            · rw [Lease.after_eq _ (by simpa using claims) acks keeps]
              exact ih'

/-- An acknowledged event stays closed, and no call claims it. -/
theorem QueueRun.closed {newest oldest : List QueueEntry} {entry : QueueEntry} {eventId : String}
    (run : QueueRun host (newest ++ entry :: oldest) world) (acked : entry.Acks eventId) :
    leaseOf (newest ++ entry :: oldest) eventId = .closed ∧
      ∀ other ∈ newest, other.claims eventId = false := by
  induction newest generalizing world with
  | nil =>
      obtain ⟨worker, at', rfl⟩ := acked
      exact ⟨by simp [leaseOf, Lease.after], fun other member => nomatch member⟩
  | cons other rest ih =>
      cases run with
      | @call _ world before call wellFormed =>
          obtain ⟨closed, never⟩ := ih before
          have step := call.steps host world
          have refines := before.refines
          generalize isEntry : (⟨call, (call.exec host world).1⟩ : QueueEntry) = other at *
          have unclaimed : other.claims eventId = false := by
            rw [Bool.eq_false_iff]
            intro claims
            obtain ⟨worker, again, duration, claimed⟩ := QueueEntry.exists_claims _ _ claims
            have expired : leaseOf (rest ++ entry :: oldest) eventId = .free ∨
                ∃ holder leaseUntil, leaseOf (rest ++ entry :: oldest) eventId =
                  .held holder leaseUntil ∧ leaseUntil ≤ again :=
              step.claimable refines claimed
            rw [closed] at expired
            simp at expired
          constructor
          · change Lease.after eventId other (leaseOf (rest ++ entry :: oldest) eventId) = _
            rw [closed]
            by_cases acks : other.Acks eventId
            · obtain ⟨worker, at', rfl⟩ := acks
              simp [Lease.after]
            · by_cases releases : other.Releases eventId
              · -- only the holder of a lease can release
                obtain ⟨holder, leaseUntil, held⟩ := step.settled refines (.inr releases)
                exact absurd (closed.symm.trans held) (by simp)
              · exact Lease.after_eq _ unclaimed acks releases
          · intro other' member
            rcases List.mem_cons.1 member with rfl | old
            · exact unclaimed
            · exact never other' old

/-! ### The holder of a lease -/

/-- The worker made the latest claim of the event, and no later call ended it. -/
def LatestClaim (ends : QueueEntry → Prop) (history : List QueueEntry)
    (eventId workerId : String) : Prop :=
  ∃ later entry earlier now leaseSeconds, history = later ++ entry :: earlier ∧
    entry.Claims eventId workerId now leaseSeconds ∧
      ∀ other ∈ later, other.claims eventId = false ∧ ¬ ends other

/-- The latest claim is the worker's, and the event was neither acknowledged nor released since. -/
def Holds (history : List QueueEntry) (eventId workerId : String) : Prop :=
  LatestClaim (fun entry => entry.Acks eventId ∨ entry.Releases eventId) history eventId workerId

/-- The automaton is in the state that the holder of the lease sees. -/
theorem leaseOf_held {eventId workerId : String} :
    (∃ leaseUntil, leaseOf history eventId = .held workerId leaseUntil) ↔
      Holds history eventId workerId := by
  induction history with
  | nil =>
      constructor
      · rintro ⟨_, impossible⟩
        cases impossible
      · rintro ⟨later, entry, earlier, _, _, impossible, _⟩
        simp at impossible
  | cons entry rest ih =>
      change (∃ leaseUntil, Lease.after eventId entry (leaseOf rest eventId) = _) ↔ _
      by_cases claims : entry.claims eventId = true
      · obtain ⟨worker, now, leaseSeconds, claimed⟩ := QueueEntry.exists_claims _ _ claims
        have held : Lease.after eventId entry (leaseOf rest eventId) =
            .held worker (now + leaseSeconds) := by
          obtain ⟨claim, rfl, same⟩ := claimed
          simp [Lease.after, same]
        rw [held]
        constructor
        · rintro ⟨leaseUntil, same⟩
          cases same
          exact ⟨[], entry, rest, now, leaseSeconds, rfl, claimed, fun _ member => nomatch member⟩
        · rintro ⟨later, latest, earlier, now', leaseSeconds', split, claimed', apart⟩
          cases later with
          | nil =>
              obtain ⟨rfl, rfl⟩ := List.cons.inj split
              obtain ⟨claim, rfl, _⟩ := claimed
              obtain ⟨claim', same, _⟩ := claimed'
              cases same
              exact ⟨_, rfl⟩
          | cons first later =>
              obtain ⟨rfl, rfl⟩ := List.cons.inj split
              rw [(apart entry List.mem_cons_self).1] at claims
              cases claims
      · by_cases settles : entry.Acks eventId ∨ entry.Releases eventId
        · have ended : ∀ leaseUntil,
              Lease.after eventId entry (leaseOf rest eventId) ≠ .held workerId leaseUntil := by
            rintro leaseUntil same
            rcases settles with ⟨worker, at', rfl⟩ | ⟨worker, at', retryAt, rfl⟩
            · simp [Lease.after] at same
            · simp [Lease.after] at same
          constructor
          · rintro ⟨leaseUntil, same⟩
            exact absurd same (ended leaseUntil)
          · rintro ⟨later, latest, earlier, now, leaseSeconds, split, claimed, apart⟩
            cases later with
            | nil =>
                obtain ⟨rfl, rfl⟩ := List.cons.inj split
                exact absurd claimed.claims claims
            | cons first later =>
                obtain ⟨rfl, rfl⟩ := List.cons.inj split
                exact absurd settles (apart entry List.mem_cons_self).2
        · rw [not_or] at settles
          rw [Lease.after_eq _ (by simpa using claims) settles.1 settles.2, ih]
          constructor
          · rintro ⟨later, latest, earlier, now, leaseSeconds, rfl, claimed, apart⟩
            refine ⟨entry :: later, latest, earlier, now, leaseSeconds, rfl, claimed, ?_⟩
            intro other member
            rcases List.mem_cons.1 member with rfl | old
            · exact ⟨by simpa using claims, not_or.2 settles⟩
            · exact apart other old
          · rintro ⟨later, latest, earlier, now, leaseSeconds, split, claimed, apart⟩
            cases later with
            | nil =>
                obtain ⟨rfl, rfl⟩ := List.cons.inj split
                exact absurd claimed.claims claims
            | cons first later =>
                obtain ⟨rfl, rfl⟩ := List.cons.inj split
                exact ⟨later, latest, earlier, now, leaseSeconds, rfl, claimed,
                  fun other member => apart other (List.mem_cons_of_mem _ member)⟩

/-- The row of the holder is the one an acknowledgement or a release by it updates. -/
theorem Refines.count_heldBy (refines : Refines history events) (eventId workerId : String) :
    events.count (EventRow.heldBy eventId workerId) = 1 ↔ Holds history eventId workerId := by
  rw [Kernel.count_heldBy, ← leaseOf_held]
  constructor
  · rintro ⟨row, stored, rfl, claimed, owner⟩
    obtain ⟨holder, leaseUntil, held, owned, _⟩ :=
      (refines.shows row stored).held_of_claimed claimed
    rw [owner, Option.some.injEq] at owned
    exact ⟨leaseUntil, owned ▸ held⟩
  · rintro ⟨leaseUntil, held⟩
    obtain ⟨later, entry, earlier, now, leaseSeconds, rfl, claimed, _⟩ :=
      leaseOf_held.1 ⟨leaseUntil, held⟩
    obtain ⟨row, stored, rfl⟩ := refines.stored entry
      (List.mem_append_right _ List.mem_cons_self) eventId (.inl claimed.claims)
    have shows := refines.shows row stored
    rw [held] at shows
    cases shows with
    | held isClaimed owner until' => exact ⟨row, stored, rfl, isClaimed, owner⟩

/-! ### The discipline -/

def QueueAnswer.isRaised : QueueAnswer → Bool
  | raised _ => true
  | _ => false

/-- The call acknowledges or fails the event for the worker. -/
def QueueCall.Settles (eventId workerId : String) (call : QueueCall) : Prop :=
  ∃ now, call = .ackEvent eventId workerId now ∨
    ∃ retryAt, call = .failEvent eventId workerId now retryAt

/-- What holds after a sequence of calls: leases exclude each other unless released, an
acknowledged event is done and never claimed again, the columns of a lease go together, claims are
counted, and only the holder of the lease ends it. -/
structure LeaseDiscipline (host : Host) (history : List QueueEntry) (world : World) : Prop where
  exclusive : ∀ newest second between first oldest eventId worker worker' now now' leaseSeconds
    leaseSeconds', history = newest ++ second :: between ++ first :: oldest →
      first.Claims eventId worker now leaseSeconds →
        second.Claims eventId worker' now' leaseSeconds' →
          (∀ entry ∈ between, ¬ entry.Releases eventId) → now + leaseSeconds ≤ now'
  acked : ∀ newest entry oldest eventId, history = newest ++ entry :: oldest →
    entry.Acks eventId →
      (∃ row ∈ world.db.events.rows, row.id = eventId ∧ row.status = .done) ∧
        ∀ other ∈ newest, other.claims eventId = false
  claimed : ∀ row ∈ world.db.events.rows,
    row.status = .claimed ↔ (row.leaseOwner.isSome = true ∧ row.leaseUntil.isSome = true)
  attempts : ∀ row ∈ world.db.events.rows,
    row.attempts = history.countP (QueueEntry.claims row.id)
  settles : ∀ (call : QueueCall) eventId workerId, call.Settles eventId workerId →
    ((call.exec host world).1.isRaised = false ↔ Holds history eventId workerId) ∧
      ((call.exec host world).1.isRaised = true →
        (call.exec host world).2.db.events = world.db.events ∧
          (call.exec host world).2.db.journal = world.db.journal)

theorem Refines.settles (host : Host) (refines : Refines history world.db.events)
    {call : QueueCall} {eventId workerId : String} (settles : call.Settles eventId workerId) :
    ((call.exec host world).1.isRaised = false ↔ Holds history eventId workerId) ∧
      ((call.exec host world).1.isRaised = true →
        (call.exec host world).2.db.events = world.db.events ∧
          (call.exec host world).2.db.journal = world.db.journal) := by
  rw [← refines.count_heldBy]
  obtain ⟨now, rfl | ⟨retryAt, rfl⟩⟩ := settles
  · simp only [QueueCall.exec, run_ackEvent]
    split
    · rename_i counted
      exact ⟨⟨fun _ => counted, fun _ => rfl⟩, (fun impossible => by cases impossible)⟩
    · rename_i missed
      exact ⟨⟨(fun impossible => by cases impossible), fun counted => absurd counted missed⟩,
        fun _ => ⟨rfl, rfl⟩⟩
  · simp only [QueueCall.exec, run_failEvent]
    split
    · rename_i counted
      exact ⟨⟨fun _ => counted, fun _ => rfl⟩, (fun impossible => by cases impossible)⟩
    · rename_i missed
      exact ⟨⟨(fun impossible => by cases impossible), fun counted => absurd counted missed⟩,
        fun _ => ⟨rfl, rfl⟩⟩

/-- Every sequence of calls on an empty queue keeps the lease discipline. -/
theorem lease_discipline (host : Host) (history : List QueueEntry) (world : World)
    (run : QueueRun host history world) : LeaseDiscipline host history world where
  exclusive := by
    rintro newest second between first oldest eventId worker worker' now now' leaseSeconds
      leaseSeconds' rfl claimed claimed' kept
    rw [List.append_assoc] at run
    obtain ⟨_, suffix⟩ := run.suffix
    cases suffix with
    | @call _ before run' call wellFormed =>
        have step := call.steps host before
        have refines := run'.refines
        have expired : leaseOf (between ++ first :: oldest) eventId = .free ∨
            ∃ holder leaseUntil, leaseOf (between ++ first :: oldest) eventId =
              .held holder leaseUntil ∧ leaseUntil ≤ now' :=
          step.claimable refines claimed'
        rcases run'.leased claimed kept with closed | ⟨holder, leaseUntil, held, longer⟩
        · rw [closed] at expired
          simp at expired
        · rw [held] at expired
          simp only [reduceCtorEq, Lease.held.injEq, false_or] at expired
          obtain ⟨_, _, ⟨_, rfl⟩, ended⟩ := expired
          exact longer.trans ended
  acked := by
    rintro newest entry oldest eventId rfl acks
    obtain ⟨closed, never⟩ := run.closed acks
    obtain ⟨row, stored, rfl⟩ := run.refines.stored entry
      (List.mem_append_right _ List.mem_cons_self) eventId (.inr (.inl acks))
    have shows := run.refines.shows row stored
    rw [closed] at shows
    cases shows with
    | closed done => exact ⟨⟨row, stored, rfl, done⟩, never⟩
  claimed := by
    intro row stored
    have shows := run.refines.shows row stored
    generalize leaseOf history row.id = lease at shows
    cases shows with
    | free pending owner leaseUntil => simp [pending, owner]
    | held claimed owner until' => simp [claimed, owner, until']
    | closed done owner leaseUntil => simp [done, owner]
  attempts := run.refines.attempts
  settles := fun _ _ _ settles => run.refines.settles host settles

/-! ### An event that is acknowledged twice -/

def noticeRequest : EventRequest := ⟨"notice", .empty, 0, none, 0, none⟩

/-- A worker claims an event and acknowledges it; latest call first. -/
def acknowledgedNotice : List QueueCall :=
  [.ackEvent "id-0" "a" 1, .claimEvent "a" 0 10, .enqueueEvent noticeRequest]

theorem acknowledgedNotice_run :
    QueueRun plainHost (queueTrace plainHost acknowledgedNotice World.initial).1
      (queueTrace plainHost acknowledgedNotice World.initial).2 := by
  refine queueTrace_run rfl fun call member => ?_
  simp only [acknowledgedNotice, List.mem_cons, List.not_mem_nil, or_false] at member
  rcases member with rfl | rfl | rfl <;> simp [QueueCall.wellFormed]

/-- The worker of the latest claim of an event that was not released cannot acknowledge it, once
it has done so. -/
theorem acknowledged_twice :
    ∃ history world, QueueRun plainHost history world ∧
      LatestClaim (fun entry => entry.Releases "id-0") history "id-0" "a" ∧
        ((QueueCall.ackEvent "id-0" "a" 2).exec plainHost world).1.isRaised = true := by
  refine ⟨_, _, acknowledgedNotice_run, ⟨[_], _, _, 0, 10, rfl, ?_, ?_⟩, by decide +kernel⟩
  · obtain ⟨worker, now, leaseSeconds, claim, same, isEvent⟩ := QueueEntry.exists_claims
      ⟨.claimEvent "a" 0 10, ((QueueCall.claimEvent "a" 0 10).exec plainHost
        (queueTrace plainHost [.enqueueEvent noticeRequest] World.initial).2).1⟩
      "id-0" (by decide +kernel)
    obtain ⟨rfl, rfl, rfl⟩ := QueueCall.claimEvent.inj (congrArg QueueEntry.call same)
    exact ⟨claim, same, isEvent⟩
  · intro other member
    obtain rfl := List.mem_singleton.1 member
    refine ⟨rfl, ?_⟩
    rintro ⟨worker, now, retryAt, same⟩
    cases congrArg QueueEntry.call same

/-- The discipline of a queue with an acknowledged event. -/
theorem lease_discipline_acknowledged :
    LeaseDiscipline plainHost (queueTrace plainHost acknowledgedNotice World.initial).1
      (queueTrace plainHost acknowledgedNotice World.initial).2 :=
  lease_discipline plainHost _ _ acknowledgedNotice_run

end PreActive.Kernel
