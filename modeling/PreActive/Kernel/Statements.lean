/-
Module: PreActive.Kernel.Statements
Purpose: The SQL statements of store.py and tools.py, each as one atomic change of the world.
Trusted boundary: human-reviewed spec
Main exports: RunChange, Stmt, Stmt.Result, Stmt.exec, Sql, sqlMachine
-/
import PreActive.Foundation.Program
import PreActive.Kernel.State

namespace PreActive.Kernel

open PreActive.Foundation PreActive.Python

/-! ### Failures of a statement -/

def uniqueFailed (columns : String) : Exc :=
  ⟨.integrityError, "UNIQUE constraint failed: " ++ columns⟩

def foreignKeyFailed : Exc := ⟨.integrityError, "FOREIGN KEY constraint failed"⟩

/-! ### The statements -/

/-- The columns one `UPDATE runs` of `update_run` sets. -/
structure RunChange where
  now : Time
  status : Option RunStatus
  finalText : Option String
  lastError : Option String
  clearLastError : Bool
  incrementStep : Bool

def RunChange.apply (change : RunChange) (row : RunRow) : RunRow :=
  { row with
    updatedAt := change.now
    status := change.status.getD row.status
    finalText := change.finalText.or row.finalText
    lastError := if change.clearLastError then none else change.lastError.or row.lastError
    stepCount := if change.incrementStep then row.stepCount + 1 else row.stepCount }

inductive Stmt where
  /-- `uuid.uuid4()`, which draws from the host and not from the database. -/
  | uuid4
  | insertJournal (row : JournalRow)
  | selectEventByDedup (dedupKey : String)
  | insertEvent (row : EventRow)
  | ackEvent (eventId workerId : String) (now : Time)
  | releaseEvent (eventId workerId : String) (availableAt now : Time)
  | selectClaimable (now : Time)
  | claimEvent (eventId workerId : String) (leaseUntil : Time) (attempts : Nat) (now : Time)
  | selectRunBySource (sourceEventId : String)
  | insertRun (row : RunRow)
  | selectRun (runId : String)
  | updateRun (runId : String) (change : RunChange)
  | advanceRun (runId : String) (expectedStep : Nat) (now : Time)
  | blockRun (runId requestId error : String) (now : Time)
  | resumeRun (runId : String) (expectedStep : Nat) (now : Time)
  | insertDecision (row : DecisionRow)
  | selectDecision (runId : String) (step : Nat)
  | insertMessage (row : MessageRow)
  | selectMessageByKey (runId messageKey : String)
  | selectMessages (runId : String) (limit : Int)
  | insertMemory (row : MemoryRow)
  | selectMemories (limit : Int)
  | selectEffect (requestId : String)
  | insertEffect (row : EffectRow)
  | readmitEffect (requestId : String) (now : Time)
  | attemptUnknown (requestId : String) (now : Time)
  | commitEffect (requestId resultJson resultSha256 : String) (now : Time)
  | clearEffect (requestId : String) (now : Time)
  | insertReconciliation (row : ReconciliationRow)

/-- What a statement answers: a `lastrowid`, a `rowcount`, or the selected rows. -/
@[reducible] def Stmt.Result : Stmt → Type
  | uuid4 => String
  | insertJournal _ => Nat
  | selectEventByDedup _ => Option EventRow
  | ackEvent .. => Nat
  | releaseEvent .. => Nat
  | selectClaimable _ => Option EventRow
  | selectRunBySource _ => Option RunRow
  | selectRun _ => Option RunRow
  | advanceRun .. => Nat
  | blockRun .. => Nat
  | resumeRun .. => Nat
  | selectDecision .. => Option DecisionRow
  | selectMessageByKey .. => Option MessageRow
  | selectMessages .. => List MessageRow
  | selectMemories _ => List MemoryRow
  | selectEffect _ => Option EffectRow
  | _ => Unit

/-! ### Selections -/

/-- `ORDER BY priority DESC, created_at ASC` -/
def EventRow.before (a b : EventRow) : Bool :=
  decide (b.priority < a.priority) ||
    (decide (a.priority = b.priority) && decide (a.createdAt ≤ b.createdAt))

/-- `available_at <= now AND (status = 'PENDING' OR (status = 'CLAIMED' AND lease_until IS NOT
NULL AND lease_until <= now))` -/
def EventRow.claimable (now : Time) (row : EventRow) : Bool :=
  decide (row.availableAt ≤ now) &&
    (row.status = .pending ||
      (row.status = .claimed && row.leaseUntil.any fun leaseUntil => decide (leaseUntil ≤ now)))

/-- The elements that come first in an order. -/
def firsts {α : Type} (before : α → α → Bool) (items : List α) : List α :=
  items.filter fun item => items.all fun other => before item other

/-- `LIMIT 1` in an order, which does not say which one of equals it gives. -/
def firstBy {α : Type} (tieBreak : List α → Nat) (before : α → α → Bool) (items : List α) :
    Option α :=
  (firsts before items)[tieBreak (firsts before items) % (firsts before items).length]?

/-- `LIMIT limit`; a negative limit is no limit. -/
def sqlLimit {α : Type} (limit : Int) (rows : List α) : List α :=
  if limit < 0 then rows else rows.take limit.toNat

/-- `ORDER BY salience DESC, created_at DESC` -/
def MemoryRow.before (a b : MemoryRow) : Bool :=
  decide (b.salience < a.salience) ||
    (decide (a.salience = b.salience) && decide (b.createdAt ≤ a.createdAt))

/-! ### The `WHERE` and `SET` parts of the updates -/

/-- `WHERE id = ? AND status = 'CLAIMED' AND lease_owner = ?` -/
def EventRow.heldBy (eventId workerId : String) (row : EventRow) : Bool :=
  row.id == eventId && row.status == .claimed && row.leaseOwner == some workerId

/-- `WHERE id = ? AND status = 'RUNNING'` -/
def RunRow.isRunning (runId : String) (row : RunRow) : Bool :=
  row.id == runId && row.status == .running

/-- `WHERE id = ? AND status = ? AND step_count = ?` -/
def RunRow.standsAt (runId : String) (status : RunStatus) (step : Nat) (row : RunRow) : Bool :=
  row.id == runId && row.status == status && row.stepCount == step

def EventRow.acked (now : Time) (row : EventRow) : EventRow :=
  { row with status := .done, leaseOwner := none, leaseUntil := none, updatedAt := now }

def EventRow.released (availableAt now : Time) (row : EventRow) : EventRow :=
  { row with
    status := .pending, leaseOwner := none, leaseUntil := none
    availableAt := availableAt, updatedAt := now }

def EventRow.claimedBy (workerId : String) (leaseUntil : Time) (attempts : Nat) (now : Time)
    (row : EventRow) : EventRow :=
  { row with
    status := .claimed, leaseOwner := some workerId, leaseUntil := some leaseUntil
    attempts := attempts, updatedAt := now }

def RunRow.advanced (now : Time) (row : RunRow) : RunRow :=
  { row with stepCount := row.stepCount + 1, lastError := none, updatedAt := now }

def RunRow.blocked (requestId error : String) (now : Time) (row : RunRow) : RunRow :=
  { row with
    status := .blockedEffect, blockedRequestId := some requestId
    lastError := some error, updatedAt := now }

def RunRow.resumed (now : Time) (row : RunRow) : RunRow :=
  { row with
    status := .running, blockedRequestId := none, lastError := none
    stepCount := row.stepCount + 1, updatedAt := now }

def EffectRow.readmitted (now : Time) (row : EffectRow) : EffectRow :=
  { row with state := .executing, resultJson := none, resultSha256 := none, updatedAt := now }

def EffectRow.attempted (now : Time) (row : EffectRow) : EffectRow :=
  { row with state := .attemptedUnknown, updatedAt := now }

def EffectRow.committed (resultJson resultSha256 : String) (now : Time) (row : EffectRow) :
    EffectRow :=
  { row with
    state := .committed, resultJson := some resultJson, resultSha256 := some resultSha256
    updatedAt := now }

def EffectRow.cleared (now : Time) (row : EffectRow) : EffectRow :=
  { row with
    state := .reconciledNoEffect, resultJson := none, resultSha256 := none, updatedAt := now }

/-! ### Execution

A statement either changes one table or leaves the world as it is, and an exception leaves it as
it is. -/

section Execution

variable (host : Host)

def updateEvents (world : World) (p : EventRow → Bool) (f : EventRow → EventRow)
    (keeps : ∀ row, UniqueKeys.key (f row) = UniqueKeys.key row) : World :=
  { world with db := { world.db with events := world.db.events.update p f keeps } }

def updateRuns (world : World) (p : RunRow → Bool) (f : RunRow → RunRow)
    (keeps : ∀ row, UniqueKeys.key (f row) = UniqueKeys.key row) : World :=
  { world with db := { world.db with runs := world.db.runs.update p f keeps } }

def updateEffects (world : World) (requestId : String) (f : EffectRow → EffectRow)
    (keeps : ∀ row, UniqueKeys.key (f row) = UniqueKeys.key row) : World :=
  { world with
    db := { world.db with
      effects := world.db.effects.update (fun row => row.requestId == requestId) f keeps } }

def Stmt.exec : (stmt : Stmt) → World → Except Exc stmt.Result × World
  | uuid4, world => (.ok (host.uuid4 world.drawn), { world with drawn := world.drawn + 1 })
  | insertJournal row, world =>
      (.ok (world.db.journal.length + 1),
        { world with db := { world.db with journal := world.db.journal ++ [row] } })
  | selectEventByDedup dedupKey, world =>
      (.ok (world.db.eventByKey dedupKey), world)
  | insertEvent row, world =>
      match world.db.events.insert row with
      | some events => (.ok (), { world with db := { world.db with events := events } })
      | none => (.error (uniqueFailed "events.dedup_key"), world)
  | ackEvent eventId workerId now, world =>
      (.ok (world.db.events.count (EventRow.heldBy eventId workerId)),
        updateEvents world (EventRow.heldBy eventId workerId)
          (EventRow.acked now) fun _ => rfl)
  | releaseEvent eventId workerId availableAt now, world =>
      (.ok (world.db.events.count (EventRow.heldBy eventId workerId)),
        updateEvents world (EventRow.heldBy eventId workerId)
          (EventRow.released availableAt now) fun _ => rfl)
  | selectClaimable now, world =>
      (.ok (firstBy host.tieBreak EventRow.before
        (world.db.events.rows.filter (EventRow.claimable now))), world)
  | claimEvent eventId workerId leaseUntil attempts now, world =>
      (.ok (),
        updateEvents world (fun row => row.id == eventId)
          (EventRow.claimedBy workerId leaseUntil attempts now) fun _ => rfl)
  | selectRunBySource sourceEventId, world =>
      (.ok (world.db.runBySource sourceEventId), world)
  | insertRun row, world =>
      match world.db.runs.insert row with
      | some runs => (.ok (), { world with db := { world.db with runs := runs } })
      | none => (.error (uniqueFailed "runs.source_event_id"), world)
  | selectRun runId, world => (.ok (world.db.run runId), world)
  | updateRun runId change, world =>
      (.ok (), updateRuns world (fun row => row.id == runId) change.apply fun _ => rfl)
  | advanceRun runId expectedStep now, world =>
      (.ok (world.db.runs.count (RunRow.standsAt runId .running expectedStep)),
        updateRuns world (RunRow.standsAt runId .running expectedStep)
          (RunRow.advanced now) fun _ => rfl)
  | blockRun runId requestId error now, world =>
      (.ok (world.db.runs.count (RunRow.isRunning runId)),
        updateRuns world (RunRow.isRunning runId)
          (RunRow.blocked requestId error now) fun _ => rfl)
  | resumeRun runId expectedStep now, world =>
      (.ok (world.db.runs.count (RunRow.standsAt runId .blockedEffect expectedStep)),
        updateRuns world (RunRow.standsAt runId .blockedEffect expectedStep)
          (RunRow.resumed now) fun _ => rfl)
  | insertDecision row, world =>
      if world.db.runs.rows.any fun run => run.id == row.runId then
        match world.db.decisions.insert row with
        | some decisions => (.ok (), { world with db := { world.db with decisions := decisions } })
        | none => (.error (uniqueFailed "run_step_decisions.run_id, run_step_decisions.step"), world)
      else (.error foreignKeyFailed, world)
  | selectDecision runId step, world =>
      (.ok (world.db.decision runId step), world)
  | insertMessage row, world =>
      if world.db.runs.rows.any fun run => run.id == row.runId then
        match world.db.messages.insert row with
        | some messages => (.ok (), { world with db := { world.db with messages := messages } })
        | none => (.error (uniqueFailed "run_messages.run_id, run_messages.message_key"), world)
      else (.error foreignKeyFailed, world)
  | selectMessageByKey runId messageKey, world =>
      (.ok (world.db.message runId messageKey), world)
  | selectMessages runId limit, world =>
      (.ok (sqlLimit limit
        (world.db.messages.rows.filter fun row => row.runId == runId).reverse), world)
  | insertMemory row, world =>
      match world.db.memories.insert row with
      | some memories => (.ok (), { world with db := { world.db with memories := memories } })
      | none => (.error (uniqueFailed "memories.id"), world)
  | selectMemories limit, world =>
      (.ok (sqlLimit limit
        (world.db.memories.rows.insertionSort fun a b => MemoryRow.before a b = true)), world)
  | selectEffect requestId, world =>
      (.ok (world.db.effect requestId), world)
  | insertEffect row, world =>
      match world.db.effects.insert row with
      | some effects => (.ok (), { world with db := { world.db with effects := effects } })
      | none => (.error (uniqueFailed "tool_effects.request_id"), world)
  | readmitEffect requestId now, world =>
      (.ok (), updateEffects world requestId (EffectRow.readmitted now) fun _ => rfl)
  | attemptUnknown requestId now, world =>
      (.ok (), updateEffects world requestId (EffectRow.attempted now) fun _ => rfl)
  | commitEffect requestId resultJson resultSha256 now, world =>
      (.ok (),
        updateEffects world requestId (EffectRow.committed resultJson resultSha256 now)
          fun _ => rfl)
  | clearEffect requestId now, world =>
      (.ok (), updateEffects world requestId (EffectRow.cleared now) fun _ => rfl)
  | insertReconciliation row, world =>
      if world.db.effects.rows.any fun effect => effect.requestId == row.requestId then
        (.ok (),
          { world with
            db := { world.db with reconciliations := world.db.reconciliations ++ [row] } })
      else (.error foreignKeyFailed, world)

end Execution

/-! ### Statement programs -/

abbrev stmtSignature : Signature where
  Op := Stmt
  Result := Stmt.Result

/-- A sequence of statements with Python control flow between them. -/
abbrev Sql (α : Type) := Program stmtSignature Exc α

def sqlMachine (host : Host) : Machine stmtSignature Exc World Unit where
  answer stmt _ world := stmt.exec host world

/-- Run statements with nothing in between, as inside a transaction. -/
def Sql.run {α : Type} (host : Host) (sql : Sql α) (world : World) : Except Exc α × World :=
  sql.execute (sqlMachine host) (fun _ => ()) world

/-- One autocommitted statement. -/
def Stmt.perform (stmt : Stmt) : Sql stmt.Result := Program.perform (F := stmtSignature) stmt

end PreActive.Kernel
