/-
Module: PreActive.Kernel.State
Purpose: The durable tables of the store, the records the kernel passes around, and the world
  that processes share.
Trusted boundary: human-reviewed spec
Main exports:
  EventRow, RunRow, MessageRow, DecisionRow, EffectRow, Db, ToolSpec, ToolCall, ModelResponse,
  HandlerCall, HandlerRun, World, Host
-/
import PreActive.Foundation.Table
import PreActive.Python.JsonRoundTrip

namespace PreActive.Kernel

open PreActive.Foundation PreActive.Python

/-- Clock values and durations, as exact numbers. -/
abbrev Time := ℚ

/-! ### Rows -/

inductive EventStatus where
  | pending
  | claimed
  | done
deriving DecidableEq, Repr

structure EventRow where
  id : String
  kind : String
  payloadJson : String
  priority : Int
  dedupKey : Option String
  status : EventStatus
  availableAt : Time
  leaseOwner : Option String
  leaseUntil : Option Time
  attempts : Nat
  createdAt : Time
  updatedAt : Time
deriving DecidableEq

/-- `id TEXT PRIMARY KEY`, `dedup_key TEXT UNIQUE`; NULL keys never clash. -/
instance : UniqueKeys EventRow where
  Key := String × Option String
  key row := (row.id, row.dedupKey)
  clash a b := a.1 == b.1 || (a.2.isSome && a.2 == b.2)

structure MemoryRow where
  id : String
  kind : String
  content : String
  salience : ℚ
  createdAt : Time
deriving DecidableEq

instance : UniqueKeys MemoryRow where
  Key := String
  key := MemoryRow.id
  clash a b := a == b

inductive RunStatus where
  | running
  | completed
  | failed
  | blockedEffect
deriving DecidableEq, Repr

structure RunRow where
  id : String
  task : String
  status : RunStatus
  capabilitiesJson : String
  stepCount : Nat
  finalText : Option String
  lastError : Option String
  blockedRequestId : Option String
  sourceEventId : Option String
  createdAt : Time
  updatedAt : Time
deriving DecidableEq

/-- `id TEXT PRIMARY KEY`, `source_event_id TEXT UNIQUE`. -/
instance : UniqueKeys RunRow where
  Key := String × Option String
  key row := (row.id, row.sourceEventId)
  clash a b := a.1 == b.1 || (a.2.isSome && a.2 == b.2)

inductive Role where
  | system
  | user
  | assistant
  | tool
deriving DecidableEq, Repr

def Role.text : Role → String
  | system => "system"
  | user => "user"
  | assistant => "assistant"
  | tool => "tool"

/-- A transcript entry; its `id` is its position. -/
structure MessageRow where
  runId : String
  role : Role
  content : String
  messageKey : Option String
  createdAt : Time
deriving DecidableEq

/-- `run_messages_key_idx`: unique `(run_id, message_key)` where the key is not NULL. -/
instance : UniqueKeys MessageRow where
  Key := String × Option String
  key row := (row.runId, row.messageKey)
  clash a b := a.1 == b.1 && a.2.isSome && a.2 == b.2

structure DecisionRow where
  runId : String
  step : Nat
  decisionJson : String
  createdAt : Time
deriving DecidableEq

instance : UniqueKeys DecisionRow where
  Key := String × Nat
  key row := (row.runId, row.step)
  clash a b := a == b

inductive JournalKind where
  | eventEnqueued
  | eventClaimed
  | eventAcked
  | eventRetryScheduled
  | eventRejected
  | runBlockedEffect
  | runEffectRecovered
deriving DecidableEq, Repr

/-- A value in a journal payload. -/
inductive JournalField where
  | text (value : String)
  | int (value : Int)
  | time (value : Time)
  | null
deriving DecidableEq

/-- A journal entry; its `seq` is its position.  The payload is kept by its fields. -/
structure JournalRow where
  eventType : JournalKind
  subjectId : Option String
  payload : List (String × JournalField)
  createdAt : Time
deriving DecidableEq

inductive EffectState where
  | executing
  | committed
  | attemptedUnknown
  | reconciledNoEffect
deriving DecidableEq, Repr

def EffectState.text : EffectState → String
  | executing => "EXECUTING"
  | committed => "COMMITTED"
  | attemptedUnknown => "ATTEMPTED_UNKNOWN"
  | reconciledNoEffect => "RECONCILED_NO_EFFECT"

/-- A ledger row.  `requestJson` is NULL in rows that predate the column. -/
structure EffectRow where
  requestId : String
  toolName : String
  requestSha256 : String
  requestJson : Option String
  state : EffectState
  resultJson : Option String
  resultSha256 : Option String
  createdAt : Time
  updatedAt : Time
deriving DecidableEq

instance : UniqueKeys EffectRow where
  Key := String
  key := EffectRow.requestId
  clash a b := a == b

structure ReconciliationRow where
  requestId : String
  effectOccurred : Bool
  evidenceDigest : String
  resultJson : Option String
  reconciledAt : Time
deriving DecidableEq

/-- The durable state. -/
structure Db where
  events : Table EventRow
  memories : Table MemoryRow
  runs : Table RunRow
  messages : Table MessageRow
  decisions : Table DecisionRow
  journal : List JournalRow
  effects : Table EffectRow
  reconciliations : List ReconciliationRow

def Db.empty : Db where
  events := .empty
  memories := .empty
  runs := .empty
  messages := .empty
  decisions := .empty
  journal := []
  effects := .empty
  reconciliations := []

namespace Db

def run (db : Db) (runId : String) : Option RunRow := db.runs.select fun row => row.id == runId

def effect (db : Db) (requestId : String) : Option EffectRow :=
  db.effects.select fun row => row.requestId == requestId

def decision (db : Db) (runId : String) (step : Nat) : Option DecisionRow :=
  db.decisions.select fun row => row.runId == runId && row.step == step

def message (db : Db) (runId messageKey : String) : Option MessageRow :=
  db.messages.select fun row => row.runId == runId && row.messageKey == some messageKey

def eventByKey (db : Db) (dedupKey : String) : Option EventRow :=
  db.events.select fun row => row.dedupKey == some dedupKey

def runBySource (db : Db) (sourceEventId : String) : Option RunRow :=
  db.runs.select fun row => row.sourceEventId == some sourceEventId

end Db

/-! ### Tools, decisions and the outside -/

structure ToolSpec where
  name : String
  description : String
  inputSchema : JsonObject
  capability : String
  mutation : Bool

structure ToolCall where
  requestId : String
  name : String
  arguments : JsonObject

/-- Exactly one of a final text and a tool call. -/
inductive ModelResponse where
  | finalText (text : String)
  | toolCall (call : ToolCall)

/-- What a handler is asked to do in the outside world. -/
structure HandlerCall where
  spec : ToolSpec
  arguments : JsonObject
  requestId : String

/-- An invocation of a handler together with how it ended. -/
structure HandlerRun where
  call : HandlerCall
  output : Except Exc PyVal

/-- The standard-library functions whose values the kernel only passes on or compares, and the
choices and limits of the database and the interpreter. -/
structure Host where
  sha256 : String → String
  /-- The identifiers drawn by `uuid.uuid4()`, in the order they are drawn. -/
  uuid4 : Nat → String
  lower : String → String
  reSearch : String → String → Bool
  /-- `str(value)` for values other than strings, and `repr(value)` for strings. -/
  repr : PyVal → String
  /-- Which of the events that an `ORDER BY` leaves tied the database returns. -/
  tieBreak : List EventRow → Nat
  /-- Whether the recursion limit leaves a frame for the call of `_validate_schema_value` that is
  nested under these keywords, innermost first, and for what that call does besides nesting
  further. -/
  room : List String → Bool

/-- `str(value)` -/
def Host.str (host : Host) : PyVal → String
  | .str text => text
  | value => host.repr value

/-- The durable state, the number of identifiers drawn, and every handler invocation, in order. -/
structure World where
  db : Db
  drawn : Nat
  calls : List HandlerRun

def World.initial : World := ⟨.empty, 0, []⟩

end PreActive.Kernel
