/-
Module: PreActive.Kernel.Daemon
Purpose: `Daemon`, the commands of the command line and the readers of the store: processes that
  make calls of the kernel one after another, with statements of their own in between.
Trusted boundary: human-reviewed spec
Main exports:
  HostOp, hosting, Hosting, pendingEventCount, listJournal, listEvents, cycle, runForever,
  RuntimeArgs, runtime, Command, Command.program, DaemonCall, daemons
-/
import PreActive.Foundation.Session
import PreActive.Kernel.Interrupts
import PreActive.Kernel.Scheduler
import PreActive.Kernel.System

namespace PreActive.Kernel

open PreActive.Foundation PreActive.Python

/-! ### Statements -/

/-- The statements of a whole process that are none of the kernel: those on the schedules, and
those that only read. -/
inductive HostOp where
  | schedule (op : ScheduleOp)
  | selectJournal (subjectId : Option String) (limit : Int)
  | selectEvents (kind : Option String)
  | countPending
  | countRuns

@[reducible] def HostOp.Result : HostOp → Type
  | schedule op => op.Result
  | selectJournal .. => List (Nat × JournalRow)
  | selectEvents _ => List EventRow
  | countPending => Nat
  | countRuns => List (RunStatus × Nat)

abbrev reading : Signature where
  Op := HostOp
  Result := HostOp.Result

/-- The operations of the kernel and those of its hosts. -/
abbrev hosting : Signature := kernel.extend reading

/-- A program of a whole process. -/
abbrev Hosting (α : Type) := Program hosting Exc α

/-- `ORDER BY created_at ASC, id ASC` -/
def EventRow.listedBefore (a b : EventRow) : Bool :=
  decide (a.createdAt < b.createdAt) || (decide (a.createdAt = b.createdAt) && decide (a.id ≤ b.id))

/-- `status IN ('PENDING', 'CLAIMED')` -/
def EventRow.unfinished (row : EventRow) : Bool := row.status == .pending || row.status == .claimed

/-- The texts of the statuses, in the order of `ORDER BY status`. -/
def RunStatus.listed : List RunStatus := [.blockedEffect, .completed, .failed, .running]

def HostOp.answer (host : Host) (op : HostOp) (fault : Option Fault) (world : ScheduleWorld) :
    Except Exc op.Result × ScheduleWorld :=
  match op, fault with
  | schedule op, fault => op.answer host fault world
  | _, some fault => (.error fault.exc, world)
  | selectJournal subjectId limit, none =>
      -- `seq` is the position in the journal
      let rows := world.world.db.journal.zipIdx.map fun (row, index) => (index + 1, row)
      (.ok (sqlLimit limit (rows.filter fun row =>
        subjectId.all fun subject => row.2.subjectId == some subject)), world)
  | selectEvents kind, none =>
      (.ok ((world.world.db.events.rows.filter fun row =>
        kind.all fun wanted => row.kind == wanted).insertionSort
          fun a b => EventRow.listedBefore a b = true), world)
  | countPending, none => (.ok (world.world.db.events.count EventRow.unfinished), world)
  | countRuns, none =>
      (.ok (RunStatus.listed.filterMap fun status =>
        let count := world.world.db.runs.count fun row => row.status == status
        if count = 0 then none else some (status, count)), world)

/-- A step of a process on a database with schedules. -/
def hostingAnswer (host : Host) :
    (op : hosting.Op) → Answer → ScheduleWorld → Except Exc (hosting.Result op) × ScheduleWorld
  | .inl op, answer, world =>
      ((op.answer host answer world.world).1,
        { world with world := (op.answer host answer world.world).2 })
  | .inr op, answer, world => op.answer host answer.fault world

def HostOp.perform (op : HostOp) : Hosting op.Result := Program.perform (F := hosting) (.inr op)

/-- A program of the kernel. -/
abbrev Proc.hosted {α : Type} (proc : Proc α) : Hosting α := Program.inside (E := reading) proc

/-- A statement of a scheduler: those of the store are operations of the kernel. -/
def ScheduleOp.hosted : ScheduleOp → hosting.Op
  | .sql stmt => .inl (.sql stmt)
  | op => .inr (.schedule op)

def ScheduleOp.hostedResult : (op : ScheduleOp) → hosting.Result op.hosted → op.Result
  | .sql _, result => result
  | .insertSchedule _, result => result
  | .selectDue _, result => result
  | .disable .., result => result
  | .moveNext .., result => result

/-- A program of a scheduler. -/
def Scheduling.hosted {α : Type} (program : Scheduling α) : Hosting α :=
  Program.lift (F := scheduling) (G := hosting) ScheduleOp.hosted ScheduleOp.hostedResult program

/-! ### Readers of the store -/

def pendingEventCount : Hosting Nat := HostOp.countPending.perform

/-- `list_journal`; the payload is kept by its fields. -/
def listJournal (subjectId : Option String) (limit : Int) : Hosting (List (Nat × JournalRow)) :=
  (HostOp.selectJournal subjectId limit).perform

/-- An entry of `list_events`. -/
structure ListedEvent where
  id : String
  kind : String
  payload : PyVal
  dedupKey : Option String
  status : EventStatus
  attempts : Nat

def EventRow.listed (row : EventRow) : Except Exc ListedEvent := do
  let payload ← loads row.payloadJson
  return ⟨row.id, row.kind, payload, row.dedupKey, row.status, row.attempts⟩

def listEvents (kind : Option String) : Hosting (List ListedEvent) := do
  let rows ← (HostOp.selectEvents kind).perform
  Program.ofExcept (rows.mapM EventRow.listed)

/-! ### The daemon -/

structure CycleResult where
  emittedEvents : Int
  runId : Option String

section Daemon

variable (host : Host) (engine : Engine)

/-- `Daemon.cycle` -/
def cycle (now : Time) : Hosting CycleResult := do
  let emitted ← Scheduling.hosted (tick now 100)
  let runId ← Proc.hosted (engine.runOnce host now)
  return ⟨emitted, runId⟩

/-- The loop of `run_forever`, for the readings of the clock it gets to see. -/
def poll : List Time → Hosting Unit
  | [] => .done ()
  | now :: clock => do
      match ← (cycle host engine now).attempt with
      | .ok _ => poll clock
      -- an `Exception` is printed
      | .error exc => if Exc.isException exc then poll clock else .raise exc

/-- `Daemon.run_forever` -/
def runForever (pollSeconds : ℚ) (clock : List Time) : Hosting Unit :=
  if pollSeconds ≤ 0 then .raise ⟨.valueError, "poll_seconds must be > 0"⟩
  else poll host engine clock

end Daemon

/-! ### The command line -/

/-- The options of `run-once` and `daemon`, and the variables of the environment behind them. -/
structure RuntimeArgs where
  baseUrl : Option String
  model : Option String
  environBaseUrl : Option String
  environModel : Option String
  contextChars : Int
  systemPrompt : String
  workerId : String
  leaseSeconds : Time
  maxSteps : Int

/-- `given or fallback` -/
def givenOr (given fallback : Option String) : Option String :=
  match given with
  | none | some "" => fallback
  | given => given

/-- A registry in which nothing is registered. -/
def ToolRegistry.empty : ToolRegistry := ⟨[], by simp, by simp⟩

/-- `_runtime`: the worker of the command line has no tools. -/
def runtime (args : RuntimeArgs) : Except Exc Engine :=
  let baseUrl := (givenOr args.baseUrl args.environBaseUrl).getD ""
  let model := (givenOr args.model args.environModel).getD ""
  if baseUrl = "" ∨ model = "" then
    .error ⟨.systemExit, "run-once/daemon require --base-url and --model " ++
      "(or PRE_ACTIVE_BASE_URL/PRE_ACTIVE_MODEL)"⟩
  else if pyStrip baseUrl = "" ∨ pyStrip model = "" then
    .error ⟨.valueError, "base_url and model are required"⟩
  else
    .ok
      { tools := .empty
        context := ⟨args.contextChars, 8⟩
        systemPrompt := args.systemPrompt
        workerId := args.workerId
        leaseSeconds := args.leaseSeconds
        maxSteps := args.maxSteps }

/-- The parsed command line. -/
inductive Command where
  | submit (task : String) (capability : List String)
  | schedule (task : String) (every : Time) (firstAt : Option Time) (capability : List String)
  | remember (content kind : String) (salience : ℚ)
  | status
  | runOnce (args : RuntimeArgs)
  | daemon (args : RuntimeArgs) (pollSeconds : ℚ)

/-- What a command prints. -/
inductive Printed where
  | run (runId : String)
  | schedule (scheduleId : String) (firstAt : Time)
  | memory (memoryId : String)
  | status (pendingEvents : Nat) (runs : List (RunStatus × Nat))
  | cycle (result : CycleResult)
  | nothing

/-- `{"task": task, "capabilities": sorted(set(capability))}` -/
def taskPayload (task : String) (capability : List String) : JsonObject :=
  .ofFields
    [("capabilities", .list ((capability.dedup.insertionSort (· ≤ ·)).map PyVal.str)),
      ("task", .str task)]
    (by change ["capabilities", "task"].Pairwise (· < ·); decide)
    (by
      have texts : ∀ items : List String, isJsonItems (items.map PyVal.str) = true := by
        intro items
        induction items with
        | nil => rfl
        | cons item rest ih => simp [isJsonItems, isJson, ih]
      simp [isJson, texts])

/-- `main`, on an open store; `run_forever` goes on to read the clock. -/
def Command.program (host : Host) (now : Time) (clock : List Time) : Command → Hosting Printed
  | submit task capability => do
      let runId ← Proc.hosted (submitTask task capability now none)
      return .run runId
  | schedule task every firstAt capability => do
      let firstAt := firstAt.getD (now + every)
      let scheduleId ← Scheduling.hosted
        (addInterval "task.requested" (taskPayload task capability) every firstAt now)
      return .schedule scheduleId firstAt
  | remember content kind salience => do
      let memoryId ← Proc.hosted (addMemory kind content salience now).proc
      return .memory memoryId
  | status => do
      let runs ← HostOp.countRuns.perform
      let pending ← pendingEventCount
      return .status pending runs
  | runOnce args => do
      let engine ← Program.ofExcept (runtime args)
      let result ← cycle host engine now
      return .cycle result
  | daemon args pollSeconds => do
      let engine ← Program.ofExcept (runtime args)
      runForever host engine pollSeconds clock
      return .nothing

/-! ### Interleavings -/

/-- What processes on one database do. -/
inductive DaemonCall where
  /-- A call that a host makes on its own. -/
  | direct (call : Call)
  | schedule (call : ScheduleCall)
  | cycle (engine : Engine) (now : Time)
  | runForever (engine : Engine) (pollSeconds : ℚ) (clock : List Time)
  | main (command : Command) (now : Time) (clock : List Time)

def DaemonCall.program (host : Host) : DaemonCall → Hosting Unit
  | direct call => Proc.hosted (call.program host)
  | schedule call => Scheduling.hosted call.program
  | cycle engine now => (Kernel.cycle host engine now).bind fun _ => .done ()
  | runForever engine pollSeconds clock => Kernel.runForever host engine pollSeconds clock
  | main command now clock => (command.program host now clock).bind fun _ => .done ()

/-- Daemons, command lines, schedulers and hosts on one database. -/
def daemons (host : Host) : System hosting Exc ScheduleWorld Answer DaemonCall where
  answer := hostingAnswer host
  program := DaemonCall.program host

abbrev DaemonConfig := Config hosting Exc ScheduleWorld DaemonCall

/-- An empty store and nothing started. -/
def DaemonConfig.initial : DaemonConfig := ⟨.initial, []⟩

end PreActive.Kernel
