/-
Module: PreActive.Kernel.Interrupts
Purpose: What becomes of a `KeyboardInterrupt` or `SystemExit` that strikes the parts of `run_once`,
  before an operation has had its effect or after it.
Trusted boundary: human-reviewed spec
Main exports:
  Exc.isException, Interruption, Connection, connectionMachine, Interruption.connection,
  Interruption.left, Unresolved, Op.executing, Tried, Swallows, LeavesLeased, Replaces, Spared,
  execute_struck
-/
import PreActive.Foundation.Strike
import PreActive.Kernel.Settlement
import PreActive.Kernel.System

namespace PreActive.Kernel

open PreActive.Foundation PreActive.Python
open Program (Ran Struck RunsTo Relays)
open Program.Obeys

/-! ### Interruptions -/

/-- `isinstance(exc, Exception)` -/
def Exc.isException (exc : Exc) : Bool :=
  exc.cls ≠ .keyboardInterrupt && exc.cls ≠ .systemExit

/-- When the interruption arrives in a statement: before it has done anything, or after it is
done. -/
inductive Arrival where
  | before
  | after
deriving DecidableEq

/-- In which statement of a transaction it arrives; a transaction has a ROLLBACK where its body
raises. -/
inductive Spot where
  | opening
  | body
  | commit
  | rollback
deriving DecidableEq

/-- A `KeyboardInterrupt` or `SystemExit`, and where in an operation it arrives. -/
structure Interruption where
  exc : Exc
  control : Exc.isException exc = false
  arrival : Arrival
  spot : Spot

/-- A place in the run of a process. -/
abbrev Place := Point kernel Exc World

/-- A process and its connection. -/
structure Connection where
  /-- What the process reads. -/
  view : World
  /-- What is in the file while the connection has a transaction open. -/
  held : Option Db

/-- What other processes read, and what is left when this one ends. -/
def Connection.durable (connection : Connection) : World :=
  { connection.view with db := connection.held.getD connection.view.db }

/-- Nothing is held back. -/
def Connection.of (world : World) : Connection := ⟨world, none⟩

/-- In an open transaction there is no other BEGIN, and the statements are not committed one by
one. -/
def Op.answerIn (host : Host) (op : Op) (answer : Answer) (connection : Connection) :
    Except Exc op.Result × Connection :=
  match op, connection.held with
  | .transaction _, some _ =>
      (.error ⟨.operationalError, "cannot start a transaction within a transaction"⟩, connection)
  | op, held =>
      ((op.answer host answer connection.view).1, ⟨(op.answer host answer connection.view).2, held⟩)

def connectionMachine (host : Host) : Machine kernel Exc Connection Answer where
  answer := Op.answerIn host

namespace Interruption

variable (host : Host) (strike : Interruption)

/-- What the process sees of a transaction in which it is interrupted.  The body and the COMMIT
stand in a `try` that rolls back and raises again; the BEGIN stands before it. -/
def transaction (block : Transaction) (world : World) : Except Exc block.Result × World :=
  match strike.spot, strike.arrival with
  | .commit, .after =>
      -- the ROLLBACK finds no transaction, and its exception takes the place of the interruption
      (.error ⟨.operationalError, "cannot rollback - no transaction is active"⟩,
        (block.exec host world).2)
  | .rollback, .before => (.error strike.exc, ((block.body host).run host world).2)
  | _, _ => (.error strike.exc, world)

/-- How an operation ends for the process that is interrupted in it; the model and a handler raise
the interruption. -/
def operation : (op : Op) → World → Except Exc op.Result × World
  | .sql stmt, world =>
      match strike.arrival with
      | .before => (.error strike.exc, world)
      | .after => (.error strike.exc, (stmt.exec host world).2)
  | .transaction block, world => strike.transaction host block world
  | .enterExecute .., world => (.ok (), world)
  | .respond .., world => (.error strike.exc, world)
  | .handler call, world =>
      (.error strike.exc, { world with calls := world.calls ++ [⟨call, .error strike.exc⟩] })

/-- A transaction is left open. -/
def opens : Op → Bool
  | .transaction _ =>
      strike.spot = .opening && strike.arrival = .after ||
        strike.spot = .rollback && strike.arrival = .before
  | _ => false

/-- The interruption of a process whose connection has no open transaction. -/
def connection (op : Op) (connection : Connection) : Except Exc op.Result × Connection :=
  ((strike.operation host op connection.view).1,
    ⟨(strike.operation host op connection.view).2,
      if strike.opens op then some connection.view.db else none⟩)

/-- The operation at the place has the statement in which the interruption arrives. -/
def arrives (place : Place) : Bool :=
  match place.op with
  | .enterExecute .. => false
  | .transaction block =>
      match strike.spot with
      | .commit => (block.exec host place.world).1.isOk
      | .rollback => !(block.exec host place.world).1.isOk
      | _ => true
  | _ => true

/-- What other processes read right after the interruption. -/
def left (place : Place) : World := (strike.connection host place.op (.of place.world)).2.durable

end Interruption

/-- The ledger row of the request is EXECUTING or ATTEMPTED_UNKNOWN. -/
def Unresolved (world : World) (requestId : String) : Bool :=
  (world.db.ledgerState requestId).any EffectState.unresolved

section Places

variable (host : Host) (registry : ToolRegistry) (strike : Interruption)

/-- The process has just entered `execute` with a call that goes to the ledger. -/
def EntersLedger : History → Bool
  | ⟨.enterExecute call allowed, .ok _⟩ :: _ => registry.admissible host call allowed
  | _ => false

/-- The request of an operation that `execute` performs. -/
def Op.executing (log : History) : Op → Option String
  | .handler call => some call.requestId
  | .sql (.selectEffect requestId) => if EntersLedger host registry log then some requestId else none
  | .sql (.insertEffect row) => some row.requestId
  | .sql (.readmitEffect requestId _) => some requestId
  | .sql (.attemptUnknown requestId _) => some requestId
  | .sql (.commitEffect requestId _ _ _) => some requestId
  | _ => none

/-- The `try` of `run_once` has been entered. -/
def Tried (log : History) : Bool :=
  log.any fun entry =>
    match entry.op with
    | .sql (.selectDecision _ _) => true
    | _ => false

/-- `execute` is interrupted, and the ledger row of its request is unresolved then. -/
def Swallows (place : Place) : Bool :=
  (place.op.executing host registry place.log).any (Unresolved (strike.left host place))

/-- `run_once` is interrupted before the event is acknowledged and outside of the `try`, or in its
last `except` before the event is released, or in a transaction that stays open. -/
def LeavesLeased (place : Place) : Bool :=
  match place.op with
  | .sql (.selectRun _) => true
  | .sql (.updateRun _ change) => change.status.isNone || !Tried place.log
  | .sql (.ackEvent _ _ _) => strike.arrival = .before && !Tried place.log
  | .sql (.releaseEvent _ _ _ _) => strike.arrival = .before
  | .transaction block => strike.opens (.transaction block)
  | _ => false

/-- The `try` is interrupted after the event was acknowledged, or after a COMMIT. -/
def Replaces (place : Place) : Bool :=
  match place.op with
  | .sql (.ackEvent _ _ _) => strike.arrival = .after && Tried place.log
  | .sql (.insertJournal row) => row.eventType = .eventAcked && Tried place.log
  | .transaction _ => strike.spot = .commit && strike.arrival = .after
  | _ => false

/-- The places at which an interruption does no harm. -/
def Spared (place : Place) : Bool :=
  !Swallows host registry strike place && !LeavesLeased strike place && !Replaces strike place

end Places

variable {host : Host} {engine : Engine} {event : Event} {now : Time} {strike : Interruption}
variable {answers : Op → Answer} {world world' mid : World} {log log' : History} {place : Place}
variable {runId : String} {run : RunRow} {call : ToolCall} {allowed : List String} {exc : Exc}
variable {α : Type}

/-- The run of one process that is interrupted at a place and leaves no transaction open. -/
abbrev StruckAt (host : Host) (answers : Op → Answer) (strike : Interruption) (log : History)
    (program : Proc α) (world : World) (place : Place) (outcome : Except Exc α)
    (world' : World) : Prop :=
  Struck (kernelMachine host) answers (strike.operation host) log program world place outcome world'

theorem Tried.later (tried : Tried log = true) (longer : log <:+ log') : Tried log' = true := by
  obtain ⟨entry, member, asks⟩ := List.any_eq_true.1 tried
  exact List.any_eq_true.2 ⟨entry, longer.subset member, asks⟩

theorem Interruption.operation_sql {stmt : Stmt} :
    strike.operation host (.sql stmt) world =
      (.error strike.exc,
        if strike.arrival = .before then world else (stmt.exec host world).2) := by
  cases arrival : strike.arrival <;> simp [Interruption.operation, arrival]

/-- The process goes on from what is left, unless a transaction stays open. -/
theorem Interruption.left_closed (closed : strike.opens place.op = false) :
    strike.left host place = (strike.operation host place.op place.world).2 := by
  simp only [left, connection, Connection.durable, Connection.of, closed, Bool.false_eq_true,
    if_false]
  rfl

/-- An interruption is neither an `IntegrityError` nor a `ToolError`. -/
theorem not_integrityError (control : Exc.isException exc = false) :
    exc.isIntegrityError = false := by
  simp only [Exc.isException, Exc.isIntegrityError, Bool.and_eq_false_iff, decide_eq_false_iff_not,
    not_not, ne_eq] at control ⊢
  rcases control with same | same <;> simp [same]

theorem not_toolError (control : Exc.isException exc = false) : exc.isToolError = false := by
  simp only [Exc.isException, Exc.isToolError, Bool.and_eq_false_iff, decide_eq_false_iff_not,
    not_not, ne_eq] at control ⊢
  rcases control with same | same <;> simp [same]

/-! ### Methods that pass an interruption on -/

/-- The exceptions that are no `Exception`. -/
def Control (exc : Exc) : Prop := Exc.isException exc = false

theorem Sql.proc_relays {sql : Sql α} (relays : sql.Relays Control) : sql.proc.Relays Control :=
  relays.lift

theorem perform_relays (stmt : Stmt) : stmt.perform.Relays Control :=
  .perform (F := stmtSignature) stmt

theorem recordRunMessage_relays {role : Role} {content : String} {messageKey : Option String} :
    (recordRunMessage runId role content now messageKey).Relays Control := by
  refine .afterAttempt (F := stmtSignature) _ (fun exc control => ?_) fun outcome => ?_
  · simp only [not_integrityError control, Bool.false_eq_true, if_false]
  · cases outcome with
    | ok _ => exact trivial
    | error exc =>
        simp only
        split
        · cases messageKey with
          | none => exact trivial
          | some key =>
              refine .bind (perform_relays _) fun found => ?_
              cases found with
              | none => exact trivial
              | some row =>
                  simp only
                  split <;> exact trivial
        · exact trivial

theorem recordRunStepDecision_relays {step : Nat} {decision : JsonObject} :
    (recordRunStepDecision runId step decision now).Relays Control := by
  refine .afterAttempt (F := stmtSignature) _ (fun exc control => ?_) fun outcome => ?_
  · simp only [not_integrityError control, Bool.false_eq_true, if_false]
  · cases outcome with
    | ok _ => exact trivial
    | error exc =>
        simp only
        split
        · refine .bind (perform_relays _) fun found => ?_
          cases found with
          | none => exact trivial
          | some row =>
              simp only
              split <;> exact trivial
        · exact trivial

theorem getRunStepDecision_relays {step : Nat} :
    (getRunStepDecision runId step).Relays Control := by
  refine .bind (perform_relays _) fun found => ?_
  cases found with
  | none => exact trivial
  | some row =>
      simp only
      split
      · exact trivial
      · split <;> exact trivial

theorem messagesForRun_relays : (engine.messagesForRun host run).Relays Control := by
  refine .bind (Sql.proc_relays (.bind (perform_relays _) fun _ => trivial)) fun transcript => ?_
  rw [ContextAssembler.build]
  simp only
  split
  · exact trivial
  · refine .bind (Sql.proc_relays (.bind (perform_relays _) fun _ => trivial)) fun memories => ?_
    split <;> exact trivial

theorem admittedResponse_relays :
    (engine.admittedResponse host runId run now).Relays Control := by
  refine .bind (Sql.proc_relays getRunStepDecision_relays) fun found => ?_
  cases found with
  | some decision => exact .ofExcept _
  | none =>
      refine .bind messagesForRun_relays fun messages => ?_
      refine .bind (.perform (F := kernel) _) fun response => ?_
      exact .bind (Sql.proc_relays recordRunStepDecision_relays) fun _ => trivial

/-! ### Operations that concern neither events nor runs -/

/-- The operation touches neither the events nor the runs. -/
def Op.quiet : Op → Bool
  | .sql (.insertEvent _) | .sql (.ackEvent ..) | .sql (.releaseEvent ..) => false
  | .sql (.claimEvent ..) | .sql (.insertRun _) | .sql (.updateRun ..) => false
  | .sql (.advanceRun ..) | .sql (.blockRun ..) | .sql (.resumeRun ..) => false
  | .transaction _ => false
  | _ => true

/-- The operations that look up or record the decision and the transcript of a step. -/
def Op.recording : Op → Bool
  | .sql (.selectDecision ..) | .sql (.insertDecision _) | .sql (.selectMessages ..) => true
  | .sql (.insertMessage _) | .sql (.selectMessageByKey ..) | .sql (.selectMemories _) => true
  | .respond .. => true
  | _ => false

def Quiet (_ : History) (op : Op) : Prop := op.quiet = true

def Recording (_ : History) (op : Op) : Prop := op.recording = true

/-- The events and the runs are those of another world. -/
structure SameQueue (world world' : World) : Prop where
  events : world'.db.events = world.db.events
  runs : world'.db.runs = world.db.runs

theorem SameQueue.refl : SameQueue world world := ⟨rfl, rfl⟩

theorem SameQueue.trans (first : SameQueue world mid) (second : SameQueue mid world') :
    SameQueue world world' :=
  ⟨second.events.trans first.events, second.runs.trans first.runs⟩

theorem quiet_answer (op : Op) (answer : Answer) (quiet : op.quiet = true) :
    SameQueue world (op.answer host answer world).2 := by
  rcases op.answer_cases host answer world with
    same | ⟨stmt, rfl, same⟩ | ⟨block, rfl, _⟩ | ⟨call, rfl, same⟩
  · rw [same]
    exact .refl
  · rw [same]
    cases stmt with
    | insertEvent | ackEvent | releaseEvent | claimEvent | insertRun | updateRun | advanceRun
    | blockRun | resumeRun => cases quiet
    | _ =>
        simp only [Stmt.exec]
        first
          | exact ⟨rfl, rfl⟩
          | split <;> first | exact ⟨rfl, rfl⟩ | (split <;> exact ⟨rfl, rfl⟩)
  · cases quiet
  · rw [same]
    exact ⟨rfl, rfl⟩

theorem quiet_exec (stmt : Stmt) (quiet : (Op.sql stmt).quiet = true) :
    SameQueue world (stmt.exec host world).2 :=
  quiet_answer (.sql stmt) .quiet quiet

theorem Recording.quiet {op : Op} (recording : Recording log op) : Quiet log op := by
  cases op with
  | sql stmt => cases stmt <;> first | exact rfl | cases recording
  | transaction block => cases recording
  | enterExecute call allowed => exact rfl
  | respond messages tools => exact rfl
  | handler handled => exact rfl

/-- What records a step is not struck harmfully. -/
theorem Recording.spared {registry : ToolRegistry} (recording : Recording place.log place.op) :
    Spared host registry strike place = true := by
  obtain ⟨log, op, world⟩ := place
  cases op with
  | sql stmt => cases stmt <;> first | exact rfl | cases recording
  | transaction block => cases recording
  | enterExecute call allowed => cases recording
  | respond messages tools => exact rfl
  | handler handled => cases recording

theorem Recording.raises {op : Op} (recording : Recording log op) :
    (strike.operation host op world).1 = .error strike.exc := by
  cases op with
  | sql stmt => rw [Interruption.operation_sql]
  | transaction block => cases recording
  | enterExecute call allowed => cases recording
  | respond messages tools => exact rfl
  | handler handled => cases recording

theorem quiet_operation {op : Op} (quiet : op.quiet = true) :
    SameQueue world (strike.operation host op world).2 := by
  cases op with
  | sql stmt =>
      rw [Interruption.operation_sql]
      split
      · exact .refl
      · exact quiet_exec stmt quiet
  | transaction block => cases quiet
  | enterExecute call allowed => exact .refl
  | respond messages tools => exact .refl
  | handler handled => exact ⟨rfl, rfl⟩

theorem getRunStepDecision_recording {step : Nat} :
    (getRunStepDecision runId step).proc.Obeys Recording (returns fun log' _ => Tried log' = true)
      log := by
  simp only [getRunStepDecision, Stmt.perform, Program.perform, Program.bind_eq_bind,
    Program.call_bind, Sql.proc_call, Sql.proc_bind, Sql.proc_ofExcept]
  apply afterCall rfl
  intro found
  cases found with
  | none => exact of_done rfl
  | some row =>
      simp only
      split
      · exact of_raise
      · split
        · exact of_done rfl
        · exact of_raise

theorem admittedResponse_recording :
    (engine.admittedResponse host runId run now).Obeys Recording
      (returns fun log' _ => Tried log' = true) log := by
  simp only [Engine.admittedResponse, Program.bind_eq_bind]
  refine getRunStepDecision_recording.seq fun log₁ found _ tried => ?_
  cases found with
  | some decision => exact of_ofExcept fun _ _ => tried
  | none =>
      refine (messagesForRun_obeys (fun _ _ => rfl) fun _ _ => rfl).seq fun log₂ _ longer₂ _ => ?_
      simp only [Op.perform, Program.perform, Program.call_bind]
      apply afterCall rfl
      intro response
      have recorded : ∀ log, (recordRunStepDecision runId run.stepCount
          (decisionFromResponse response) now).proc.Obeys Recording (returns fun log' _ =>
            DecisionSeen log' runId run.stepCount (decisionText response)) log :=
        fun _ => recordRunStepDecision_obeys rfl fun _ _ => rfl
      refine (recorded _).seq fun log₃ _ longer₃ _ => of_done ?_
      exact Tried.later tried (longer₂.trans ((List.suffix_cons _ _).trans longer₃))

theorem recordRunMessage_recording {role : Role} {content : String}
    {messageKey : Option String} :
    (recordRunMessage runId role content now messageKey).proc.Obeys Recording
      (returns fun log' _ => MessageKept log' ⟨runId, role, content, messageKey, now⟩) log :=
  recordRunMessage_obeys rfl fun _ _ => rfl

theorem execute_quiet {registry : ToolRegistry} :
    (registry.execute host call allowed now).Obeys Quiet
      (returns (ExecuteReturns host registry call allowed)) log := by
  have obeys : (registry.execute host call allowed now).Obeys
      (ToolRule host registry fun _ _ _ => True)
      (returns (ExecuteReturns host registry call allowed)) log := execute_obeys trivial
  refine obeys.mono (fun log op rule => ?_) fun _ _ ends => ends
  cases op with
  | sql stmt => cases stmt <;> first | exact rfl | exact rule.elim
  | transaction block => exact rule.elim
  | enterExecute call allowed => exact rfl
  | respond messages tools => exact rfl
  | handler handled => exact rfl

/-- A program of quiet operations leaves the events and the runs as they are. -/
theorem ran_quiet {program : Proc α} {outcome : Except Exc α}
    {post : History → Except Exc α → Prop}
    (ran : Ran (kernelMachine host) answers log program world log' outcome world')
    (obeys : program.Obeys Quiet post log) : SameQueue world world' :=
  ran.keeps (SameQueue world) (fun _ op answer _ quiet same =>
    same.trans (quiet_answer op answer quiet)) obeys .refl

theorem struck_quiet {program : Proc α} {outcome : Except Exc α}
    {post : History → Except Exc α → Prop}
    (struck : StruckAt host answers strike log program world place outcome world')
    (obeys : program.Obeys Quiet post log) : SameQueue world place.world :=
  struck.keeps (SameQueue world) (fun _ op answer _ quiet same =>
    same.trans (quiet_answer op answer quiet)) obeys .refl

/-- What records a step passes an interruption on, and is struck without harm. -/
theorem struck_recording {program : Proc α} {outcome : Except Exc α}
    {post : History → Except Exc α → Prop} (registry : ToolRegistry)
    (struck : StruckAt host answers strike log program world place outcome world')
    (relays : program.Relays Control) (obeys : program.Obeys Recording post log) :
    outcome = .error strike.exc ∧ world' = strike.left host place ∧ SameQueue world world' ∧
      Spared host registry strike place = true := by
  have recording := struck.allowed obeys
  obtain ⟨same, rfl⟩ := struck.relays relays recording.raises strike.control
  have quiet := obeys.mono (fun _ _ recording => recording.quiet) fun _ _ ends => ends
  refine ⟨same, ?_, (struck_quiet struck quiet).trans (quiet_operation recording.quiet),
    recording.spared⟩
  refine (Interruption.left_closed ?_).symm
  cases opened : place.op with
  | transaction block =>
      rw [opened] at recording
      cases recording
  | _ => rfl

/-! ### One operation -/

/-- A statement whose exceptions nobody handles is struck itself, or returns before the strike. -/
theorem struck_statement (faultless : Faultless answers) {stmt : Stmt}
    {next : stmt.Result → Proc α} {outcome : Except Exc α}
    (struck : StruckAt host answers strike log (.call (F := kernel) (.sql stmt) fun result =>
      (Program.ofExcept result).bind next) world place outcome world') :
    (place = ⟨log, .sql stmt, world⟩ ∧ outcome = .error strike.exc ∧
        world' = strike.left host place) ∨
      ∃ value, (stmt.exec host world).1 = .ok value ∧
        StruckAt host answers strike (⟨.sql stmt, .ok value⟩ :: log) (next value)
          (stmt.exec host world).2 place outcome world' := by
  cases struck with
  | here rest =>
      simp only [Interruption.operation_sql] at rest
      obtain ⟨same, rfl⟩ := rest.unique (.raise strike.exc)
      refine .inl ⟨rfl, same, ?_⟩
      rw [Interruption.left_closed rfl, Interruption.operation_sql]
  | later rest =>
      simp only [kernelMachine, Op.answer, faultless (.sql stmt)] at rest
      cases executed : (stmt.exec host world).1 with
      | error exc' =>
          rw [executed] at rest
          cases rest
      | ok value =>
          rw [executed] at rest
          exact .inr ⟨value, rfl, rest⟩

/-- What a statement leaves in which the process is interrupted. -/
theorem left_statement {stmt : Stmt} :
    strike.left host ⟨log, .sql stmt, world⟩ =
      if strike.arrival = .before then world else (stmt.exec host world).2 := by
  rw [Interruption.left_closed rfl, Interruption.operation_sql]

/-- A property that the statement keeps. -/
theorem left_keeps {stmt : Stmt} (I : World → Prop) (holds : I world)
    (kept : I (stmt.exec host world).2) : I (strike.left host ⟨log, .sql stmt, world⟩) := by
  rw [left_statement]
  split
  · exact holds
  · exact kept

/-- A transaction that is not left open is committed under the interruption, or rolled back. -/
theorem Interruption.transaction_closed {block : Transaction}
    (closed : strike.opens (.transaction block) = false) :
    Replaces strike ⟨log, .transaction block, world⟩ = true ∧
        (∃ text, strike.transaction host block world =
          (.error ⟨.operationalError, text⟩, (block.exec host world).2)) ∨
      Replaces strike ⟨log, .transaction block, world⟩ = false ∧
        strike.transaction host block world = (.error strike.exc, world) := by
  obtain ⟨exc, control, arrival, spot⟩ := strike
  cases spot with
  | opening => exact .inr ⟨rfl, rfl⟩
  | body => exact .inr ⟨rfl, rfl⟩
  | commit =>
      cases arrival with
      | before => exact .inr ⟨rfl, rfl⟩
      | after => exact .inl ⟨rfl, _, rfl⟩
  | rollback =>
      cases arrival with
      | before => cases closed
      | after => exact .inr ⟨rfl, rfl⟩

/-- A transaction is struck itself, or returns before the strike. -/
theorem struck_transaction (faultless : Faultless answers) {block : Transaction}
    {next : block.Result → Proc α} {outcome : Except Exc α}
    (struck : StruckAt host answers strike log (.call (F := kernel) (.transaction block)
      fun result => (Program.ofExcept result).bind next) world place outcome world')
    (closed : strike.opens place.op = false) :
    (place = ⟨log, .transaction block, world⟩ ∧ world' = strike.left host place ∧
        (Replaces strike place = true ∧
            (∃ text, outcome = .error ⟨.operationalError, text⟩) ∧
              world' = (block.exec host world).2 ∨
          Replaces strike place = false ∧ outcome = .error strike.exc ∧ world' = world)) ∨
      ∃ value, (block.exec host world).1 = .ok value ∧
        StruckAt host answers strike (⟨.transaction block, .ok value⟩ :: log) (next value)
          (block.exec host world).2 place outcome world' := by
  cases struck with
  | here rest =>
      refine .inl ⟨rfl, ?_⟩
      rw [Interruption.left_closed closed, Interruption.operation]
      rw [Interruption.operation] at rest
      rcases Interruption.transaction_closed closed with
        ⟨replaces, text, ends⟩ | ⟨kept, ends⟩
      · rw [ends] at rest ⊢
        obtain ⟨same, rfl⟩ := rest.unique (.raise _)
        exact ⟨rfl, .inl ⟨replaces, ⟨text, same⟩, rfl⟩⟩
      · rw [ends] at rest ⊢
        obtain ⟨same, rfl⟩ := rest.unique (.raise _)
        exact ⟨rfl, .inr ⟨kept, same, rfl⟩⟩
  | later rest =>
      simp only [kernelMachine, Op.answer, faultless (.transaction block)] at rest
      cases executed : (block.exec host world).1 with
      | error exc' =>
          rw [executed] at rest
          cases rest
      | ok value =>
          rw [executed] at rest
          exact .inr ⟨value, rfl, rest⟩

/-! ### `execute` -/

theorem unresolved_of_effect {requestId : String} {row : EffectRow}
    (stored : world.db.effect requestId = some row) :
    Unresolved world requestId = row.state.unresolved := by
  rw [Unresolved, Db.ledgerState, stored]
  rfl

/-- What becomes of a strike in `execute`. -/
structure ExecuteStruck (host : Host) (registry : ToolRegistry) (strike : Interruption)
    (requestId : String) (place : Place) (world : World) (outcome : Except Exc α)
    (world' : World) : Prop where
  raised : outcome = .error strike.exc
  same : SameQueue world world'
  left : SameQueue (strike.left host place) world'
  unresolved : Unresolved world' requestId = Swallows host registry strike place
  resolved : Swallows host registry strike place = false →
    world'.db.effects = (strike.left host place).db.effects
  elsewhere : LeavesLeased strike place = false ∧ Replaces strike place = false

/-- A strike that nothing in `execute` reacts to. -/
theorem ExecuteStruck.of_left {registry : ToolRegistry} {requestId : String}
    {outcome : Except Exc α} (raised : outcome = .error strike.exc)
    (same : SameQueue world (strike.left host place))
    (executing : place.op.executing host registry place.log = some requestId)
    (elsewhere : LeavesLeased strike place = false ∧ Replaces strike place = false) :
    ExecuteStruck host registry strike requestId place world outcome (strike.left host place) where
  raised := raised
  same := same
  left := .refl
  unresolved := by rw [Swallows, executing, Option.any_some]
  resolved _ := rfl
  elsewhere := elsewhere

/-- Quiet operations before the part that is struck. -/
theorem ExecuteStruck.after_quiet {registry : ToolRegistry} {requestId : String}
    {outcome : Except Exc α}
    (struck : ExecuteStruck host registry strike requestId place mid outcome world')
    (same : SameQueue world mid) :
    ExecuteStruck host registry strike requestId place world outcome world' :=
  { struck with same := same.trans struck.same }

section Execute

variable {registry : ToolRegistry} {spec : ToolSpec} {outcome : Except Exc ToolExecution}

/-- Pure code after an operation is not struck. -/
theorem not_struck_pure {β : Type} {result : Except Exc β} {next : β → Proc α} {P : Prop}
    {outcome : Except Exc α}
    (struck : StruckAt host answers strike log ((Program.ofExcept result).bind next) world place
      outcome world') (pure : ∀ value, ∃ last, next value = .ofExcept last) : P := by
  cases result with
  | error exc => cases struck
  | ok value =>
      obtain ⟨last, same⟩ := pure value
      rw [Program.ofExcept_ok, Program.done_bind, same] at struck
      exact absurd struck Struck.not_ofExcept

theorem executeReadOnly_struck
    (struck : StruckAt host answers strike log (executeReadOnly host spec call) world place outcome
      world') :
    ExecuteStruck host registry strike call.requestId place world outcome world' := by
  simp only [executeReadOnly, Op.perform, Program.perform, Program.bind_eq_bind,
    Program.call_bind] at struck
  cases struck with
  | here rest =>
      obtain ⟨same, rfl⟩ := rest.unique (.raise strike.exc)
      exact .of_left same ⟨rfl, rfl⟩ rfl ⟨rfl, rfl⟩
  | later rest =>
      rcases rest.of_bind with ⟨_, _, never, _⟩ | ⟨_, never, _⟩ | ⟨output, _, _, _, rest⟩
      · exact absurd never Struck.not_ofExcept
      · exact absurd never Struck.not_ofExcept
      · exact not_struck_pure rest fun _ => ⟨.ok _, rfl⟩

/-- A row whose state an update sets to an unresolved one is unresolved. -/
theorem unresolved_update {requestId : String} {f : EffectRow → EffectRow}
    {keeps : ∀ row, UniqueKeys.key (f row) = UniqueKeys.key row}
    (sets : ∀ row, (f row).state.unresolved = true)
    (stored : (world.db.effect requestId).isSome = true) :
    Unresolved (updateEffects world requestId f keeps) requestId = true := by
  obtain ⟨row, found⟩ := Option.isSome_iff_exists.1 stored
  rw [unresolved_of_effect (effect_updateEffects_self found keeps)]
  exact sets row

theorem unresolved_insert {value : Unit}
    (inserted : ((Stmt.insertEffect (freshEffect host call now)).exec host world).1 = .ok value) :
    Unresolved ((Stmt.insertEffect (freshEffect host call now)).exec host world).2
      call.requestId = true := by
  simp only [Stmt.exec] at inserted ⊢
  split at inserted
  · rename_i effects isInserted
    have stored : ({ world with db := { world.db with effects := effects } } : World).db.effect
        call.requestId = some (freshEffect host call now) := by
      refine Db.effect_eq_some.2 ⟨?_, rfl⟩
      change _ ∈ effects.rows
      rw [Table.rows_insert isInserted]
      exact List.mem_append_right _ (List.mem_singleton.2 rfl)
    exact unresolved_of_effect stored
  · cases inserted

theorem isSome_of_unresolved {requestId : String} (unresolved : Unresolved world requestId = true) :
    (world.db.effect requestId).isSome = true := by
  cases found : world.db.effect requestId with
  | some row => rfl
  | none =>
      rw [Unresolved, Db.ledgerState, found] at unresolved
      cases unresolved

/-- A quiet statement of `execute` is struck. -/
theorem ExecuteStruck.of_statement {stmt : Stmt} {requestId : String} {outcome : Except Exc α}
    (raised : outcome = .error strike.exc) (quiet : (Op.sql stmt).quiet = true)
    (executing : (Op.sql stmt).executing host registry log = some requestId)
    (elsewhere : LeavesLeased strike ⟨log, .sql stmt, world⟩ = false ∧
      Replaces strike ⟨log, .sql stmt, world⟩ = false) :
    ExecuteStruck host registry strike requestId ⟨log, .sql stmt, world⟩ world outcome
      (strike.left host ⟨log, .sql stmt, world⟩) :=
  .of_left raised (left_keeps (SameQueue world) .refl (quiet_exec stmt quiet)) executing elsewhere

/-- A mutation whose row is unresolved is struck. -/
theorem dispatchMutation_struck (faultless : Faultless answers)
    (unresolved : Unresolved world call.requestId = true)
    (struck : StruckAt host answers strike log (dispatchMutation host spec call now) world place
      outcome world') :
    ExecuteStruck host registry strike call.requestId place world outcome world' := by
  simp only [dispatchMutation, Op.perform, Program.perform, Program.bind_eq_bind,
    Program.call_attempt, Program.call_bind, Program.ofExcept_attempt, Program.done_bind] at struck
  cases struck with
  | here rest =>
      -- the handler is interrupted, and its row becomes ATTEMPTED_UNKNOWN
      unfold RunsTo at rest
      simp only [Interruption.operation, kernelMachine, Op.answer, Program.execute,
        faultless (.sql _), Stmt.exec, Program.ofExcept_ok, Program.done_bind,
        Prod.mk.injEq] at rest
      obtain ⟨rfl, rfl⟩ := rest
      have attempted := @unresolved_update _ _ (EffectRow.attempted now) (fun _ => rfl)
        (fun _ => rfl) (isSome_of_unresolved unresolved)
      exact ⟨rfl, ⟨rfl, rfl⟩, ⟨rfl, rfl⟩, attempted.trans unresolved.symm,
        fun spared => absurd (unresolved.symm.trans spared) (by decide), rfl, rfl⟩
  | later rest =>
      simp only [kernelMachine, Op.answer] at rest
      cases ended : (answers (.handler ⟨spec, call.arguments, call.requestId⟩)).output with
      | error exc' =>
          -- the note of a failed handler is interrupted
          rw [ended] at rest
          rcases struck_statement faultless rest with ⟨rfl, same, rfl⟩ | ⟨_, _, rest⟩
          · exact (ExecuteStruck.of_statement same rfl rfl ⟨rfl, rfl⟩).after_quiet ⟨rfl, rfl⟩
          · cases rest
      | ok output =>
          -- the write of the result is interrupted
          rw [ended] at rest
          simp only at rest
          cases printed : canonicalJson output with
          | error exc' =>
              rw [printed] at rest
              cases rest
          | ok resultJson =>
              rw [printed] at rest
              rcases struck_statement faultless rest with ⟨rfl, same, rfl⟩ | ⟨_, _, rest⟩
              · exact (ExecuteStruck.of_statement same rfl rfl ⟨rfl, rfl⟩).after_quiet ⟨rfl, rfl⟩
              · cases rest

/-- A mutation that was just entered. -/
theorem executeMutation_struck (faultless : Faultless answers)
    (enters : EntersLedger host registry log = true)
    (struck : StruckAt host answers strike log (executeMutation host spec call now) world place
      outcome world') :
    ExecuteStruck host registry strike call.requestId place world outcome world' := by
  simp only [executeMutation, Op.perform, Program.perform, Program.bind_eq_bind,
    Program.call_bind] at struck
  rcases struck_statement faultless struck with ⟨rfl, same, rfl⟩ | ⟨found, selected, rest⟩
  · exact .of_statement same rfl (by simp [Op.executing, enters]) ⟨rfl, rfl⟩
  · obtain rfl : world.db.effect call.requestId = found := Except.ok.inj selected
    simp only [Stmt.exec] at rest
    cases found : world.db.effect call.requestId with
    | none =>
        simp only [found] at rest
        rcases struck_statement faultless rest with ⟨rfl, same, rfl⟩ | ⟨_, inserted, rest⟩
        · exact .of_statement same rfl rfl ⟨rfl, rfl⟩
        · exact (dispatchMutation_struck faultless (unresolved_insert inserted) rest).after_quiet
            (quiet_exec _ rfl)
    | some row =>
        simp only [found] at rest
        split at rest
        · cases rest
        · split at rest
          · exact not_struck_pure rest fun _ => ⟨.ok _, rfl⟩
          · rcases struck_statement faultless rest with ⟨rfl, same, rfl⟩ | ⟨_, _, rest⟩
            · exact .of_statement same rfl rfl ⟨rfl, rfl⟩
            · refine (dispatchMutation_struck faultless ?_ rest).after_quiet (quiet_exec _ rfl)
              exact unresolved_update (fun _ => rfl) (by rw [found]; rfl)
          · cases rest

theorem execute_struck (faultless : Faultless answers)
    (struck : StruckAt host answers strike log (registry.execute host call allowed now) world place
      outcome world') (arrives : strike.arrives host place = true) :
    ExecuteStruck host registry strike call.requestId place world outcome world' := by
  rw [ToolRegistry.execute] at struck
  simp only [Op.perform, Program.perform, Program.bind_eq_bind, Program.call_bind] at struck
  cases struck with
  | here rest => cases arrives
  | later rest =>
      simp only [kernelMachine, Op.answer, Program.ofExcept_ok, Program.done_bind] at rest
      cases found : registry.find call.name with
      | none =>
          rw [found] at rest
          cases rest
      | some spec =>
          simp only [found] at rest
          split at rest
          · cases rest
          · rename_i granted
            cases valid : validateArguments host spec call.arguments with
            | error exc' =>
                rw [valid] at rest
                cases rest
            | ok _ =>
                simp only [valid] at rest
                split at rest
                · rename_i mutation
                  refine executeMutation_struck faultless ?_ rest
                  rw [Bool.not_eq_true, Bool.not_eq_false'] at granted
                  simp only [EntersLedger, ToolRegistry.admissible, found, Option.any_some, mutation,
                    granted, valid, decide_true, Bool.and_self]
                · exact executeReadOnly_struck rest

end Execute

end PreActive.Kernel
