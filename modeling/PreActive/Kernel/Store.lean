/-
Module: PreActive.Kernel.Store
Purpose: The methods of `Store` as programs over SQL statements, and the methods that run inside
  one `BEGIN IMMEDIATE .. COMMIT` block.
Trusted boundary: human-reviewed spec
Main exports:
  enqueueEvent, createRun, getRun, updateRun, blockRunOnEffect, recordRunStepDecision,
  getRunStepDecision, recordRunMessage, listRunMessages, addMemory, searchMemories, ackEvent,
  failEvent,
  Transaction, Transaction.body, Transaction.exec
-/
import Mathlib.Data.List.Infix
import PreActive.Kernel.Statements

namespace PreActive.Kernel

open PreActive.Foundation PreActive.Python

def runtimeError (text : String) : Exc := ⟨.runtimeError, text⟩

/-! ### Capabilities

A capability set is a list of strings of which only membership is ever used. -/

/-- `json.dumps(sorted(capabilities))` -/
def capabilitiesText (capabilities : List String) : String :=
  let items := (capabilities.dedup.insertionSort (· ≤ ·)).map PyVal.str
  (dumps defaultStyle (.list items)).toOption.getD ""

/-- `set(json.loads(row["capabilities_json"]))`, of a text that `create_run` wrote. -/
def RunRow.capabilities (row : RunRow) : List String :=
  match loads row.capabilitiesJson with
  | .ok (.list items) => items.filterMap PyVal.asStr?
  | _ => []

/-- Equality of two sets. -/
def sameCapabilities (a b : List String) : Bool :=
  a.all (fun item => b.contains item) && b.all (fun item => a.contains item)

/-! ### Journal and events -/

def appendJournal (eventType : JournalKind) (subjectId : Option String)
    (payload : List (String × JournalField)) (now : Time) : Sql Nat :=
  (Stmt.insertJournal ⟨eventType, subjectId, payload, now⟩).perform

/-- The arguments of `enqueue_event`. -/
structure EventRequest where
  kind : String
  payload : JsonObject
  priority : Int
  dedupKey : Option String
  now : Time
  availableAt : Option Time

namespace EventRequest

def payloadJson (request : EventRequest) : String := request.payload.text compactStyle

/-- The row a fresh event is stored as. -/
def row (request : EventRequest) (eventId : String) : EventRow where
  id := eventId
  kind := request.kind
  payloadJson := request.payloadJson
  priority := request.priority
  dedupKey := request.dedupKey
  status := .pending
  availableAt := request.availableAt.getD request.now
  leaseOwner := none
  leaseUntil := none
  attempts := 0
  createdAt := request.now
  updatedAt := request.now

/-- `same_request` -/
def sameAs (request : EventRequest) (row : EventRow) : Bool :=
  row.kind == request.kind && row.payloadJson == request.payloadJson &&
    row.priority == request.priority

end EventRequest

/-- An absent and an empty key are both looked up as nothing. -/
def existingForDedup (dedupKey : Option String) : Sql (Option EventRow) :=
  match dedupKey with
  | some key => if key = "" then .done none else (Stmt.selectEventByDedup key).perform
  | none => .done none

def reuseOrReject (request : EventRequest) (row : EventRow) : Sql String :=
  if request.sameAs row then .done row.id
  else
    .raise (runtimeError ("dedup_key is already bound to a different event request: " ++
      request.dedupKey.getD "None"))

def enqueueEvent (request : EventRequest) : Sql String := do
  match ← existingForDedup request.dedupKey with
  | some existing => reuseOrReject request existing
  | none => do
      let eventId ← Stmt.uuid4.perform
      match ← (Stmt.insertEvent (request.row eventId)).perform.attempt with
      | .ok () => do
          let _ ← appendJournal .eventEnqueued (some eventId)
            [("kind", .text request.kind), ("priority", .int request.priority),
              ("dedup_key", (request.dedupKey.map JournalField.text).getD .null)] request.now
          return eventId
      | .error exc =>
          if exc.isIntegrityError then do
            match ← existingForDedup request.dedupKey with
            | none => .raise exc
            | some raced => reuseOrReject request raced
          else .raise exc

/-! ### Runs -/

/-- What `create_run` does with a run it finds under the source event. -/
def reuseRun (task : String) (capabilities : List String) (existing : RunRow) : Sql String :=
  if existing.task ≠ task ∨ !sameCapabilities existing.capabilities capabilities then
    .raise (runtimeError "source event is already bound to a different run request")
  else .done existing.id

/-- The row a new run is stored as. -/
def newRunRow (task : String) (capabilities : List String) (now : Time)
    (sourceEventId : Option String) (runId : String) : RunRow where
  id := runId
  task := task
  status := .running
  capabilitiesJson := capabilitiesText capabilities
  stepCount := 0
  finalText := none
  lastError := none
  blockedRequestId := none
  sourceEventId := sourceEventId
  createdAt := now
  updatedAt := now

/-- The `INSERT` of `create_run` and its answer to a lost race. -/
def insertNewRun (task : String) (capabilities : List String) (now : Time)
    (sourceEventId : Option String) : Sql String := do
  let runId ← Stmt.uuid4.perform
  let row := newRunRow task capabilities now sourceEventId runId
  match ← (Stmt.insertRun row).perform.attempt with
  | .ok () => return runId
  | .error exc =>
      if exc.isIntegrityError then
        match sourceEventId with
        | none => .raise exc
        | some source => do
            match ← (Stmt.selectRunBySource source).perform with
            | none => .raise exc
            | some existing => reuseRun task capabilities existing
      else .raise exc

def createRun (task : String) (capabilities : List String) (now : Time)
    (sourceEventId : Option String) : Sql String :=
  match sourceEventId with
  | none => insertNewRun task capabilities now none
  | some source => do
      match ← (Stmt.selectRunBySource source).perform with
      | some existing => reuseRun task capabilities existing
      | none => insertNewRun task capabilities now (some source)

/-- `f"run-step:{run_id}:{step}"` -/
def runStepKey (runId : String) (step : Nat) : String :=
  "run-step:" ++ runId ++ ":" ++ toString step

/-- `{"run_id": run_id, "step": step}` -/
def runStepPayload (runId : String) (step : Nat) : JsonObject :=
  .ofFields [("run_id", .str runId), ("step", .int step)]
    (by change ["run_id", "step"].Pairwise (· < ·); decide)
    (by simp [isJson])

/-- The event that lets a worker take the given step. -/
def runStepRequest (runId : String) (step : Nat) (priority : Int) (now : Time) : EventRequest where
  kind := "run.step"
  payload := runStepPayload runId step
  priority := priority
  dedupKey := some (runStepKey runId step)
  now := now
  availableAt := none

def getRun (host : Host) (runId : String) : Sql RunRow := do
  match ← (Stmt.selectRun runId).perform with
  | none => .raise ⟨.keyError, host.repr (.str runId)⟩
  | some row => return row

def updateRun (runId : String) (change : RunChange) : Sql Unit :=
  if change.clearLastError ∧ change.lastError.isSome then
    .raise ⟨.valueError, "last_error and clear_last_error are mutually exclusive"⟩
  else (Stmt.updateRun runId change).perform

def blockRunOnEffect (runId requestId error : String) (now : Time) : Sql Unit := do
  let rowcount : Nat ← (Stmt.blockRun runId requestId error now).perform
  if rowcount ≠ 1 then .raise (runtimeError "run could not enter BLOCKED_EFFECT")
  else do
    let _ ← appendJournal .runBlockedEffect (some runId)
      [("request_id", .text requestId), ("error", .text error)] now
    return ()

/-! ### Decisions and transcript -/

def recordRunStepDecision (runId : String) (step : Nat) (decision : JsonObject) (now : Time) :
    Sql Unit := do
  let payload := decision.text compactStyle
  match ← (Stmt.insertDecision ⟨runId, step, payload, now⟩).perform.attempt with
  | .ok () => return ()
  | .error exc =>
      if exc.isIntegrityError then do
        match ← (Stmt.selectDecision runId step).perform with
        | some row =>
            if row.decisionJson = payload then return ()
            else .raise (runtimeError "run step decision changed after durable admission")
        | none => .raise (runtimeError "run step decision changed after durable admission")
      else .raise exc

def getRunStepDecision (runId : String) (step : Nat) : Sql (Option PyVal) := do
  match ← (Stmt.selectDecision runId step).perform with
  | none => return none
  | some row =>
      match loads row.decisionJson with
      | .error exc => .raise exc
      | .ok value =>
          if value.isDict then return some value
          else .raise (runtimeError "stored run step decision must be a JSON object")

def recordRunMessage (runId : String) (role : Role) (content : String) (now : Time)
    (messageKey : Option String) : Sql Unit := do
  match ← (Stmt.insertMessage ⟨runId, role, content, messageKey, now⟩).perform.attempt with
  | .ok () => return ()
  | .error exc =>
      if exc.isIntegrityError then
        match messageKey with
        | none => .raise exc
        | some key => do
            match ← (Stmt.selectMessageByKey runId key).perform with
            | none => .raise exc
            | some row =>
                if row.role ≠ role ∨ row.content ≠ content then
                  .raise (runtimeError "run message key changed after durable admission")
                else return ()
      else .raise exc

/-- `list_run_messages`: the latest messages, oldest first. -/
def listRunMessages (runId : String) (limit : Int) : Sql (List MessageRow) := do
  let rows ← (Stmt.selectMessages runId limit).perform
  return rows.reverse

/-! ### Memories -/

def addMemory (kind content : String) (salience : ℚ) (now : Time) : Sql String := do
  let memoryId ← Stmt.uuid4.perform
  (Stmt.insertMemory ⟨memoryId, kind, content, salience, now⟩).perform
  return memoryId

/-- `term in text` -/
def contains (text term : String) : Bool := decide (term.toList <:+: text.toList)

/-- `items[:stop]` -/
def pySliceTo {α : Type} (stop : Int) (items : List α) : List α :=
  if stop < 0 then items.take (items.length - stop.natAbs) else items.take stop.toNat

/-- The sort key of `search_memories`, compared downwards. -/
def scoredBefore (a b : Nat × MemoryRow) : Bool :=
  decide (b.1 < a.1) ||
    (decide (a.1 = b.1) &&
      (decide (b.2.salience < a.2.salience) ||
        (decide (a.2.salience = b.2.salience) && decide (b.2.createdAt ≤ a.2.createdAt))))

/-- The ranking of the selected rows by matching query terms, then salience, then age. -/
def rankMemories (host : Host) (query : String) (limit : Int) (rows : List MemoryRow) :
    List MemoryRow :=
  let terms := (pySplit query).map host.lower
  let scored := rows.map fun row =>
    ((terms.filter fun term => contains (host.lower row.content) term).length, row)
  pySliceTo limit ((scored.insertionSort fun a b => scoredBefore a b = true).map Prod.snd)

def searchMemories (host : Host) (query : String) (limit : Int) : Sql (List MemoryRow) := do
  let rows ← (Stmt.selectMemories (max (limit * 4) limit)).perform
  return rankMemories host query limit rows

/-! ### Leases -/

def ackEvent (eventId workerId : String) (now : Time) : Sql Unit := do
  let rowcount : Nat ← (Stmt.ackEvent eventId workerId now).perform
  if rowcount ≠ 1 then .raise (runtimeError "event acknowledgement lost lease ownership")
  else do
    let _ ← appendJournal .eventAcked (some eventId) [("worker_id", .text workerId)] now
    return ()

def failEvent (eventId workerId : String) (now : Time) (retryAt : Option Time) : Sql Unit := do
  let availableAt := retryAt.getD now
  let rowcount : Nat ← (Stmt.releaseEvent eventId workerId availableAt now).perform
  if rowcount ≠ 1 then .raise (runtimeError "event failure update lost lease ownership")
  else do
    let _ ← appendJournal .eventRetryScheduled (some eventId)
      [("worker_id", .text workerId), ("retry_at", .time availableAt)] now
    return ()

/-! ### Transactions -/

/-- The row `claim_event` selected, with the values its `UPDATE` sets. -/
structure Claim where
  row : EventRow
  attempts : Nat
  leaseUntil : Time

/-- The methods that hold `BEGIN IMMEDIATE` from their first statement to their last, with the
block of `reconcile` among them. -/
inductive Transaction where
  | claimEvent (workerId : String) (now leaseSeconds : Time)
  | createRunWithInitialStep (task : String) (capabilities : List String) (now : Time)
      (sourceEventId : Option String) (priority : Int)
  | advanceRunStep (runId : String) (expectedStep : Nat) (priority : Int) (now : Time)
  | resumeRunAfterEffect (runId : String) (now : Time) (priority : Int)
  | reconcile (requestId : String) (effectOccurred : Bool) (evidenceDigest : String)
      (resultJson resultDigest : Option String) (now : Time)

@[reducible] def Transaction.Result : Transaction → Type
  | claimEvent .. => Option Claim
  | createRunWithInitialStep .. => String
  | advanceRunStep .. => Nat
  | resumeRunAfterEffect .. => Nat
  | reconcile .. => Unit

section Bodies

variable (host : Host)

def claimEventBody (workerId : String) (now leaseSeconds : Time) : Sql (Option Claim) := do
  match ← (Stmt.selectClaimable now).perform with
  | none => return none
  | some row => do
      let attempts := row.attempts + 1
      let leaseUntil := now + leaseSeconds
      (Stmt.claimEvent row.id workerId leaseUntil attempts now).perform
      let _ ← appendJournal .eventClaimed (some row.id)
        [("worker_id", .text workerId), ("attempt", .int attempts),
          ("lease_until", .time leaseUntil)] now
      return some ⟨row, attempts, leaseUntil⟩

def createRunWithInitialStepBody (task : String) (capabilities : List String) (now : Time)
    (sourceEventId : Option String) (priority : Int) : Sql String := do
  let runId ← createRun task capabilities now sourceEventId
  let _ ← enqueueEvent (runStepRequest runId 0 priority now)
  return runId

def advanceRunStepBody (runId : String) (expectedStep : Nat) (priority : Int) (now : Time) :
    Sql Nat := do
  let nextStep := expectedStep + 1
  let rowcount : Nat ← (Stmt.advanceRun runId expectedStep now).perform
  if rowcount ≠ 1 then .raise (runtimeError "run step advance lost expected generation")
  else do
    let _ ← enqueueEvent (runStepRequest runId nextStep priority now)
    return nextStep

def resumeRunAfterEffectBody (runId : String) (now : Time) (priority : Int) : Sql Nat := do
  match ← (Stmt.selectRun runId).perform with
  | none => .raise ⟨.keyError, host.repr (.str runId)⟩
  | some row =>
      if row.status ≠ .blockedEffect then
        .raise (runtimeError "run is not blocked on an effect")
      else do
        let expectedStep := row.stepCount
        let nextStep := expectedStep + 1
        let rowcount : Nat ← (Stmt.resumeRun runId expectedStep now).perform
        if rowcount ≠ 1 then
          .raise (runtimeError "effect recovery lost expected run generation")
        else do
          let _ ← appendJournal .runEffectRecovered (some runId)
            [("next_step", .int nextStep)] now
          let _ ← enqueueEvent (runStepRequest runId nextStep priority now)
          return nextStep

/-- `state in {"EXECUTING", "ATTEMPTED_UNKNOWN"}` -/
def EffectState.unresolved (state : EffectState) : Bool :=
  state == .executing || state == .attemptedUnknown

/-- The block of `ToolRegistry.reconcile`; a confirmed effect always comes with a result. -/
def reconcileBody (requestId : String) (effectOccurred : Bool) (evidenceDigest : String)
    (resultJson resultDigest : Option String) (now : Time) : Sql Unit := do
  let changed : Exc := ⟨.toolError, "mutation state changed during reconciliation"⟩
  match ← (Stmt.selectEffect requestId).perform with
  | none => .raise changed
  | some current =>
      if !current.state.unresolved then .raise changed
      else do
        (Stmt.insertReconciliation
          ⟨requestId, effectOccurred, evidenceDigest, resultJson, now⟩).perform
        if effectOccurred then
          (Stmt.commitEffect requestId (resultJson.getD "") (resultDigest.getD "") now).perform
        else (Stmt.clearEffect requestId now).perform

end Bodies

def Transaction.body (host : Host) : (transaction : Transaction) → Sql transaction.Result
  | claimEvent workerId now leaseSeconds => claimEventBody workerId now leaseSeconds
  | createRunWithInitialStep task capabilities now sourceEventId priority =>
      createRunWithInitialStepBody task capabilities now sourceEventId priority
  | advanceRunStep runId expectedStep priority now =>
      advanceRunStepBody runId expectedStep priority now
  | resumeRunAfterEffect runId now priority => resumeRunAfterEffectBody host runId now priority
  | reconcile requestId effectOccurred evidenceDigest resultJson resultDigest now =>
      reconcileBody requestId effectOccurred evidenceDigest resultJson resultDigest now

/-- `BEGIN IMMEDIATE`, the body, then `COMMIT`, or `ROLLBACK` and the exception.  Identifiers
drawn by a body that is rolled back stay drawn. -/
def Transaction.exec (host : Host) (transaction : Transaction) (world : World) :
    Except Exc transaction.Result × World :=
  match (transaction.body host).run host world with
  | (.ok result, world') => (.ok result, world')
  | (.error exc, world') => (.error exc, { world with drawn := world'.drawn })

end PreActive.Kernel
