/-
Module: PreActive.Kernel.Scheduler
Purpose: The methods of `Scheduler` as programs over autocommitted statements, and any number of
  them interleaving on one database.
Trusted boundary: human-reviewed spec
Main exports: ScheduleRow, ScheduleOp, ScheduleWorld, scheduleKey, addInterval, tick, ScheduleCall,
  schedulers
-/
import PreActive.Foundation.System
import PreActive.Kernel.Operations
import PreActive.Python.Number

namespace PreActive.Kernel

open PreActive.Foundation PreActive.Python

/-! ### Schedules -/

/-- Occurrence times are exact numbers; a schedule without an interval fires once. -/
structure ScheduleRow where
  id : String
  kind : String
  payloadJson : String
  everySeconds : Option Time
  nextAt : Time
  enabled : Bool
  createdAt : Time
  updatedAt : Time
deriving DecidableEq

/-- `id TEXT PRIMARY KEY` -/
instance : UniqueKeys ScheduleRow where
  Key := String
  key := ScheduleRow.id
  clash a b := a == b

/-- The database with its schedules, and every schedule as it was added, in order. -/
structure ScheduleWorld where
  world : World
  schedules : Table ScheduleRow
  added : List ScheduleRow

def ScheduleWorld.initial : ScheduleWorld := ⟨.initial, .empty, []⟩

/-- The statements of scheduler.py, besides those of the store. -/
inductive ScheduleOp where
  | sql (stmt : Stmt)
  | insertSchedule (row : ScheduleRow)
  | selectDue (now : Time)
  | disable (scheduleId : String) (now : Time)
  | moveNext (scheduleId : String) (nextAt now : Time)

@[reducible] def ScheduleOp.Result : ScheduleOp → Type
  | sql stmt => stmt.Result
  | selectDue _ => List ScheduleRow
  | _ => Unit

abbrev scheduling : Signature where
  Op := ScheduleOp
  Result := ScheduleOp.Result

/-- A program of one scheduler. -/
abbrev Scheduling (α : Type) := Program scheduling Exc α

def ScheduleOp.perform (op : ScheduleOp) : Scheduling op.Result :=
  Program.perform (F := scheduling) op

/-- `enabled=1 AND next_at <= ?` -/
def ScheduleRow.due (now : Time) (row : ScheduleRow) : Bool :=
  row.enabled && decide (row.nextAt ≤ now)

def ScheduleRow.disabled (now : Time) (row : ScheduleRow) : ScheduleRow :=
  { row with enabled := false, updatedAt := now }

def ScheduleRow.movedTo (nextAt now : Time) (row : ScheduleRow) : ScheduleRow :=
  { row with nextAt := nextAt, updatedAt := now }

def updateSchedules (world : ScheduleWorld) (scheduleId : String) (f : ScheduleRow → ScheduleRow)
    (keeps : ∀ row, UniqueKeys.key (f row) = UniqueKeys.key row) : ScheduleWorld :=
  { world with
    schedules := world.schedules.update (fun row => row.id == scheduleId) f keeps }

/-- A faulty statement changes nothing. -/
def ScheduleOp.answer (host : Host) :
    (op : ScheduleOp) → Option Fault → ScheduleWorld → Except Exc op.Result × ScheduleWorld
  | _, some fault, world => (.error fault.exc, world)
  | sql stmt, none, world =>
      ((stmt.exec host world.world).1, { world with world := (stmt.exec host world.world).2 })
  | insertSchedule row, none, world =>
      match world.schedules.insert row with
      | some schedules =>
          (.ok (), { world with schedules := schedules, added := world.added ++ [row] })
      | none => (.error (uniqueFailed "schedules.id"), world)
  | selectDue now, none, world =>
      -- `ORDER BY next_at ASC`
      (.ok ((world.schedules.rows.filter (ScheduleRow.due now)).insertionSort
        fun a b => a.nextAt ≤ b.nextAt), world)
  | disable scheduleId now, none, world =>
      (.ok (), updateSchedules world scheduleId (ScheduleRow.disabled now) fun _ => rfl)
  | moveNext scheduleId nextAt now, none, world =>
      (.ok (), updateSchedules world scheduleId (ScheduleRow.movedTo nextAt now) fun _ => rfl)

/-- Statements of the store, autocommitted one by one. -/
def Sql.scheduled {α : Type} (sql : Sql α) : Scheduling α :=
  Program.lift (F := stmtSignature) (G := scheduling) ScheduleOp.sql (fun _ result => result) sql

/-! ### The methods -/

/-- The row a new schedule is stored as. -/
def newScheduleRow (kind : String) (payload : JsonObject) (everySeconds firstAt now : Time)
    (scheduleId : String) : ScheduleRow where
  id := scheduleId
  kind := kind
  payloadJson := payload.text compactStyle
  everySeconds := some everySeconds
  nextAt := firstAt
  enabled := true
  createdAt := now
  updatedAt := now

def addInterval (kind : String) (payload : JsonObject) (everySeconds firstAt now : Time) :
    Scheduling String :=
  if everySeconds ≤ 0 then .raise ⟨.valueError, "every_seconds must be > 0"⟩
  else do
    let scheduleId ← (ScheduleOp.sql .uuid4).perform
    (ScheduleOp.insertSchedule
      (newScheduleRow kind payload everySeconds firstAt now scheduleId)).perform
    return scheduleId

/-- `f"{value:.6f}"`, which rounds halfway cases to even. -/
def fixed6 (value : ℚ) : String :=
  let scaled := (roundHalfEven (|value| * 10 ^ 6)).toNat
  let fraction := toString (scaled % 10 ^ 6)
  (if value < 0 then "-" else "") ++ toString (scaled / 10 ^ 6) ++ "." ++
    String.ofList (List.replicate (6 - fraction.length) '0') ++ fraction

example : fixed6 100 = "100.000000" := by decide +kernel

/-- `f"schedule:{row['id']}:{occurrence:.6f}"` -/
def scheduleKey (scheduleId : String) (occurrence : Time) : String :=
  "schedule:" ++ scheduleId ++ ":" ++ fixed6 occurrence

/-- The occurrences of an interval that are due and for which there is room, and the time that
follows them. -/
def dueOccurrences (interval now : Time) : Nat → Time → List Time × Time
  | 0, nextAt => ([], nextAt)
  | room + 1, nextAt =>
      if nextAt ≤ now then
        let (later, last) := dueOccurrences interval now room (nextAt + interval)
        (nextAt :: later, last)
      else ([], nextAt)

/-- `json.loads(row["payload_json"])`; only dicts are ever stored there. -/
def ScheduleRow.payload (row : ScheduleRow) : Except Exc JsonObject :=
  match loads row.payloadJson with
  | .error exc => .error exc
  | .ok value =>
      match JsonObject.ofVal? value with
      | some payload => .ok payload
      | none => .error ⟨.typeError, "payload must be a dict"⟩

/-- The request for the event of an occurrence. -/
def occurrenceRequest (row : ScheduleRow) (payload : JsonObject) (occurrence now : Time) :
    EventRequest where
  kind := row.kind
  payload := payload
  priority := 0
  dedupKey := some (scheduleKey row.id occurrence)
  now := now
  availableAt := some occurrence

def emitOccurrences (row : ScheduleRow) (now : Time) : List Time → Scheduling Unit
  | [] => .done ()
  | occurrence :: rest =>
      match row.payload with
      | .error exc => .raise exc
      | .ok payload => do
          let _ ← (enqueueEvent (occurrenceRequest row payload occurrence now)).scheduled
          emitOccurrences row now rest

/-- The occurrences that `tick` emits for a row, and the next time it leaves it with. -/
def ScheduleRow.batch (row : ScheduleRow) (now : Time) (room : Nat) : List Time × Time :=
  match row.everySeconds with
  | none => ([row.nextAt], row.nextAt)
  | some interval => dueOccurrences interval now room row.nextAt

/-- The `UPDATE` after the occurrences of a row were emitted. -/
def ScheduleRow.close (row : ScheduleRow) (nextAt now : Time) : Scheduling Unit :=
  match row.everySeconds with
  | none => (ScheduleOp.disable row.id now).perform
  | some _ => (ScheduleOp.moveNext row.id nextAt now).perform

/-- The loop of `tick` over the rows it selected. -/
def tickRows (now : Time) (maxOccurrences : Int) : List ScheduleRow → Int → Scheduling Int
  | [], emitted => .done emitted
  | row :: rows, emitted => do
      let (occurrences, nextAt) := row.batch now (maxOccurrences - emitted).toNat
      emitOccurrences row now occurrences
      row.close nextAt now
      let emitted' := emitted + occurrences.length
      if maxOccurrences ≤ emitted' then .done emitted'
      else tickRows now maxOccurrences rows emitted'

def tick (now : Time) (maxOccurrences : Int) : Scheduling Int := do
  let rows ← (ScheduleOp.selectDue now).perform
  tickRows now maxOccurrences rows 0

/-! ### Interleavings -/

/-- The calls of schedulers. -/
inductive ScheduleCall where
  | addInterval (kind : String) (payload : JsonObject) (everySeconds firstAt now : Time)
  | tick (now : Time) (maxOccurrences : Int)

def ScheduleCall.program : ScheduleCall → Scheduling Unit
  | addInterval kind payload everySeconds firstAt now =>
      (Kernel.addInterval kind payload everySeconds firstAt now).bind fun _ => .done ()
  | tick now maxOccurrences => (Kernel.tick now maxOccurrences).bind fun _ => .done ()

/-- Any number of schedulers on one database; each statement may fail. -/
def schedulers (host : Host) :
    System scheduling Exc ScheduleWorld (Option Fault) ScheduleCall where
  answer := ScheduleOp.answer host
  program := ScheduleCall.program

abbrev ScheduleConfig := Config scheduling Exc ScheduleWorld ScheduleCall

/-- An empty store and nothing started. -/
def ScheduleConfig.initial : ScheduleConfig := ⟨.initial, []⟩

end PreActive.Kernel
