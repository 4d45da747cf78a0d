/-
Module: PreActive.Kernel.WorkerPaths
Purpose: Which operations one `run_once` performs after which history.
Trusted boundary: none
Main exports:
  Holding, Working, Stepping, Decided, Left, Finished, StepMessage, WorkerRule, runOnce_obeys
-/
import PreActive.Foundation.System
import PreActive.Kernel.Changes
import PreActive.Kernel.StorePaths

namespace PreActive.Kernel

open PreActive.Foundation PreActive.Python
open Program.Obeys

/-! ### What a worker knows -/

/-- The event is the one the worker leased. -/
structure Holding (engine : Engine) (log : History) (claim : Claim) (event : Event) : Prop where
  claimed : ∃ now,
    Saw log (.transaction (.claimEvent engine.workerId now engine.leaseSeconds)) (some claim)
  id : event.id = claim.row.id
  kind : event.kind = claim.row.kind
  payload : loads claim.row.payloadJson = .ok event.payload

/-- The step a payload names. -/
def payloadStep (payload : PyVal) : Option Int := (payload.get? "step").bind PyVal.asInt?

/-- The worker has read the run that its event names. -/
structure Working (host : Host) (engine : Engine) (log : History) (claim : Claim) (event : Event)
    (runId : String) (run : RunRow) : Prop where
  holding : Holding engine log claim event
  kind : claim.row.kind = "run.step"
  asks : ∃ value, event.payload.get? "run_id" = some value ∧ host.str value = runId
  selected : Saw log (.sql (.selectRun runId)) (some run)

/-- The run was `RUNNING` at the step the event names. -/
structure Stepping (host : Host) (engine : Engine) (log : History) (claim : Claim) (event : Event)
    (runId : String) (run : RunRow) : Prop extends
    Working host engine log claim event runId run where
  step : payloadStep event.payload = some (run.stepCount : Int)
  running : run.status = .running

/-- The response is the decoded decision of the step. -/
def Decided (host : Host) (log : History) (runId : String) (step : Nat)
    (response : ModelResponse) : Prop :=
  ∃ decisionJson, DecisionSeen log runId step decisionJson ∧
    decodeDecision host decisionJson = .ok response

/-- The worker took the run out of the step, or saw it leave. -/
def Left (log : History) (runId : String) (step : Nat) : Prop :=
  (∃ change, Saw log (.sql (.updateRun runId change)) () ∧ change.status.isSome = true) ∨
  (∃ requestId error now,
    Saw log (.sql (.blockRun runId requestId error now)) (1 : Nat)) ∨
  ∃ priority now next, Saw log (.transaction (.advanceRunStep runId step priority now)) next

/-- Why a `run.step` event may be acknowledged. -/
def Finished (host : Host) (engine : Engine) (log : History) (claim : Claim) : Prop :=
  ∃ event runId run, Working host engine log claim event runId run ∧
    (payloadStep event.payload = some (run.stepCount : Int) → run.status = .running →
      Left log runId run.stepCount)

/-- The task and the capabilities that the payload of a `task.requested` event asks for, if it is
well formed. -/
def requestedTask (payload : PyVal) : Option (String × List String) :=
  match (payload.get? "task").bind PyVal.asStr? with
  | none => none
  | some task =>
      if pyStrip task = "" then none
      else (asStrings? ((payload.get? "capabilities").getD (.list []))).map fun capabilities =>
        (pyStrip task, capabilities)

/-- Why a `task.requested` event may be acknowledged: its run was created, or it was rejected. -/
def Answered (log : History) (claim : Claim) : Prop :=
  ∃ payload, loads claim.row.payloadJson = .ok payload ∧
    ((∃ task capabilities now runId, requestedTask payload = some (task, capabilities) ∧
        Saw log (.transaction (.createRunWithInitialStep task capabilities now
          (some claim.row.id) 0)) runId) ∨
      (requestedTask payload = none ∧ ∃ reason now seq, Saw log (.sql (.insertJournal
        ⟨.eventRejected, some claim.row.id, [("reason", .text reason)], now⟩)) seq))

/-- The three kinds of messages a worker adds to a transcript. -/
def StepMessage (host : Host) (engine : Engine) (log : History) (run : RunRow)
    (row : MessageRow) : Prop :=
  (∃ call, Decided host log row.runId run.stepCount (.toolCall call) ∧ row.role = .assistant ∧
    row.content = assistantContent call ∧
      row.messageKey = some (stepKey run.stepCount "assistant-decision")) ∨
  (∃ text, Decided host log row.runId run.stepCount (.finalText text) ∧ row.role = .assistant ∧
    row.content = text ∧ row.messageKey = some (stepKey run.stepCount "assistant-final")) ∨
  ∃ call result, Decided host log row.runId run.stepCount (.toolCall call) ∧ row.role = .tool ∧
    ExecuteReturns host engine.tools call run.capabilities log result ∧
      toolContent call.name result.output = .ok row.content ∧
        row.messageKey = some (stepKey run.stepCount "tool-result")

/-- The call a worker passes to `execute` is the decided one, under the capabilities of the run. -/
def EntersDecided (host : Host) (engine : Engine) (log : History) (call : ToolCall)
    (allowedCapabilities : List String) : Prop :=
  ∃ claim event runId run, Stepping host engine log claim event runId run ∧
    Decided host log runId run.stepCount (.toolCall call) ∧ allowedCapabilities = run.capabilities

/-- Why a worker updates the row of the run it works on. -/
inductive Updates (host : Host) (engine : Engine) (log : History) (runId : String) (run : RunRow) :
    RunChange → Prop where
  | complete (now : Time) (text : String)
      (decided : Decided host log runId run.stepCount (.finalText text)) :
      Updates host engine log runId run ⟨now, some .completed, some text, none, true, true⟩
  | exceed (now : Time) (full : engine.maxSteps ≤ (run.stepCount : Int)) :
      Updates host engine log runId run
        ⟨now, some .failed, none, some "max_steps exceeded", false, false⟩
  | refuse (now : Time) (exc : Exc) (call : ToolCall) (found : Option EffectRow) (older : History)
      (decided : Decided host older runId run.stepCount (.toolCall call))
      (raised : Raised host engine.tools call run.capabilities older)
      (read : log = ⟨.sql (.selectEffect call.requestId), .ok found⟩ :: older)
      (resolved : (found.map EffectRow.state).any EffectState.unresolved = false) :
      Updates host engine log runId run
        ⟨now, some .failed, none, some exc.render, false, false⟩
  | note (now : Time) (error : String) :
      Updates host engine log runId run ⟨now, none, none, some error, false, false⟩

/-- The operations of `run_once` and what comes before each. -/
def WorkerRule (host : Host) (engine : Engine) (log : History) : Op → Prop
  | .transaction (.claimEvent workerId _ leaseSeconds) =>
      workerId = engine.workerId ∧ leaseSeconds = engine.leaseSeconds ∧ log = []
  | .transaction (.createRunWithInitialStep task capabilities _ sourceEventId priority) =>
      ∃ claim event, Holding engine log claim event ∧ claim.row.kind = "task.requested" ∧
        requestedTask event.payload = some (task, capabilities) ∧
          sourceEventId = some claim.row.id ∧ priority = 0
  | .transaction (.advanceRunStep runId step _ _) => ∃ claim event run,
      Stepping host engine log claim event runId run ∧ step = run.stepCount ∧
        ∃ call, Decided host log runId run.stepCount (.toolCall call)
  | .respond _ _ => ∃ claim event runId run,
      Stepping host engine log claim event runId run ∧ (run.stepCount : Int) < engine.maxSteps
  | .sql (.insertJournal _) => True
  | .sql (.ackEvent eventId workerId _) => ∃ claim event,
      Holding engine log claim event ∧ eventId = claim.row.id ∧ workerId = engine.workerId ∧
        (claim.row.kind = "run.step" → Finished host engine log claim) ∧
          (claim.row.kind = "task.requested" → Answered log claim)
  | .sql (.releaseEvent eventId workerId _ _) => ∃ claim event,
      Holding engine log claim event ∧ eventId = claim.row.id ∧ workerId = engine.workerId
  | .sql (.selectRun _) => log.length = 1
  | .sql (.updateRun runId change) => ∃ claim event run,
      Stepping host engine log claim event runId run ∧ Updates host engine log runId run change
  | .sql (.blockRun runId requestId _ _) => ∃ claim event run call,
      Stepping host engine log claim event runId run ∧
        Decided host log runId run.stepCount (.toolCall call) ∧
          (∃ row, Saw log (.sql (.selectEffect call.requestId)) (some row)) ∧
            requestId = call.requestId
  | .sql (.insertDecision row) => ∃ claim event run response,
      Stepping host engine log claim event row.runId run ∧ row.step = run.stepCount ∧
        row.decisionJson = decisionText response ∧ (run.stepCount : Int) < engine.maxSteps
  | .sql (.selectDecision runId step) => ∃ claim event run,
      Stepping host engine log claim event runId run ∧ step = run.stepCount
  | .sql (.insertMessage row) => ∃ claim event run,
      Stepping host engine log claim event row.runId run ∧ StepMessage host engine log run row
  | .sql (.selectMessageByKey ..) | .sql (.selectMessages ..) | .sql (.selectMemories _) => True
  | op => ToolRule host engine.tools (EntersDecided host engine) log op

variable {host : Host} {engine : Engine} {log : History} {claim : Claim} {event : Event}
variable {runId : String} {run : RunRow} {call : ToolCall} {now : Time}

theorem Holding.later {log' : History} (holding : Holding engine log claim event)
    (longer : log <:+ log') : Holding engine log' claim event := by
  obtain ⟨⟨now, claimed⟩, id, kind, payload⟩ := holding
  exact ⟨⟨now, claimed.later longer⟩, id, kind, payload⟩

theorem Working.later {log' : History} (working : Working host engine log claim event runId run)
    (longer : log <:+ log') : Working host engine log' claim event runId run := by
  obtain ⟨holding, kind, asks, selected⟩ := working
  exact ⟨holding.later longer, kind, asks, selected.later longer⟩

theorem Stepping.later {log' : History}
    (stepping : Stepping host engine log claim event runId run) (longer : log <:+ log') :
    Stepping host engine log' claim event runId run := by
  obtain ⟨working, step, running⟩ := stepping
  exact ⟨working.later longer, step, running⟩

theorem Stepping.cons {entry : Entry kernel Exc}
    (stepping : Stepping host engine log claim event runId run) :
    Stepping host engine (entry :: log) claim event runId run :=
  stepping.later (List.suffix_cons _ _)

theorem Decided.later {log' : History} {step : Nat} {response : ModelResponse}
    (decided : Decided host log runId step response) (longer : log <:+ log') :
    Decided host log' runId step response := by
  obtain ⟨decisionJson, seen, decoded⟩ := decided
  exact ⟨decisionJson, seen.later longer, decoded⟩

theorem Updates.issued {change : RunChange} (updates : Updates host engine log runId run change) :
    change.Issued := by
  cases updates with
  | complete now text decided => exact .complete now text
  | exceed now full => exact .fail now _
  | refuse now exc call found older decided raised read resolved => exact .fail now _
  | note now error => exact .note now error

theorem worker_journal (log : History) (row : JournalRow) :
    WorkerRule host engine log (.sql (.insertJournal row)) := trivial

/-- The tool rule is the part of the worker rule that concerns `execute`. -/
theorem workerRule_of_toolRule (log : History) (op : Op)
    (allowed : ToolRule host engine.tools (EntersDecided host engine) log op) :
    WorkerRule host engine log op := by
  cases op with
  | sql stmt => cases stmt <;> first | exact allowed | exact allowed.elim
  | transaction block => exact allowed.elim
  | enterExecute call capabilities => exact allowed
  | respond messages tools => exact allowed.elim
  | handler handled => exact allowed

/-! ### The parts of `run_once` -/

theorem claimEvent_obeys :
    (claimEvent engine.workerId now engine.leaseSeconds).Obeys (WorkerRule host engine)
      (returns fun log' found => ∀ event, found = some event →
        log'.length = 1 ∧ ∃ claim, Holding engine log' claim event) [] := by
  simp only [claimEvent, Transaction.perform, Op.perform, Program.perform, Program.bind_eq_bind,
    Program.call_bind]
  apply afterCall
  · exact ⟨rfl, rfl, rfl⟩
  · intro found
    cases found with
    | none => exact of_done fun event impossible => by cases impossible
    | some claim =>
        apply seq (M := fun log' payload => log' = _ ∧ loads claim.row.payloadJson = .ok payload)
        · exact of_ofExcept fun payload read => ⟨rfl, read⟩
        · rintro log' payload longer ⟨rfl, read⟩
          refine of_done fun event same => ⟨rfl, claim, ⟨now, Saw.here⟩, ?_, ?_, ?_⟩
          all_goals rw [← Option.some.inj same]
          exact read

theorem ack_obeys (holding : Holding engine log claim event)
    (finished : claim.row.kind = "run.step" → Finished host engine log claim)
    (answered : claim.row.kind = "task.requested" → Answered log claim) :
    (engine.ack event now).Obeys (WorkerRule host engine) (returns fun _ _ => True) log :=
  ackEvent_obeys worker_journal ⟨claim, event, holding, holding.id, rfl, finished, answered⟩

/-- The acknowledgement of a step event. -/
theorem ackStep_obeys (working : Working host engine log claim event runId run)
    (leaves : payloadStep event.payload = some (run.stepCount : Int) → run.status = .running →
      Left log runId run.stepCount) :
    (engine.ack event now).Obeys (WorkerRule host engine) (returns fun _ _ => True) log := by
  refine ack_obeys working.holding (fun _ => ⟨event, runId, run, working, leaves⟩) fun kind => ?_
  rw [working.kind] at kind
  exact absurd kind (by decide)

section Requested

variable (holding : Holding engine log claim event) (requested : claim.row.kind = "task.requested")
include holding requested

/-- The acknowledgement of a task request. -/
theorem ackRequest_obeys (answered : Answered log claim) :
    (engine.ack event now).Obeys (WorkerRule host engine) (returns fun _ _ => True) log := by
  refine ack_obeys holding (fun kind => ?_) fun _ => answered
  rw [requested] at kind
  exact absurd kind (by decide)

theorem rejectEvent_obeys {reason : String} (malformed : requestedTask event.payload = none) :
    (engine.rejectEvent event reason now).Obeys (WorkerRule host engine)
      (returns fun _ _ => True) log := by
  simp only [Engine.rejectEvent, Program.bind_eq_bind]
  refine (appendJournal_obeys worker_journal).seq fun log' seq longer rejected => ?_
  rw [holding.id] at rejected
  refine (ackRequest_obeys (holding.later longer) requested ⟨event.payload, holding.payload,
    .inr ⟨malformed, reason, now, seq, rejected⟩⟩).seq fun _ _ _ _ => ?_
  exact of_done trivial

theorem runTaskRequested_obeys :
    (engine.runTaskRequested event now).Obeys (WorkerRule host engine)
      (returns fun _ _ => True) log := by
  simp only [Engine.runTaskRequested]
  split
  · rename_i noTask
    exact rejectEvent_obeys holding requested (by simp [requestedTask, noTask])
  · rename_i task isTask
    split
    · rename_i empty
      exact rejectEvent_obeys holding requested (by simp [requestedTask, isTask, empty])
    · rename_i nonempty
      split
      · rename_i noCapabilities
        exact rejectEvent_obeys holding requested
          (by simp [requestedTask, isTask, nonempty, noCapabilities])
      · rename_i capabilities areCapabilities
        have asked : requestedTask event.payload = some (pyStrip task, capabilities) := by
          simp [requestedTask, isTask, nonempty, areCapabilities]
        simp only [submitTask, Transaction.perform, Op.perform, Program.perform,
          Program.bind_eq_bind, Program.call_bind]
        apply afterCall
        · exact ⟨claim, event, holding, requested, asked, congrArg some holding.id, rfl⟩
        · intro newRun
          refine (ackRequest_obeys (holding.later (List.suffix_cons _ _)) requested
            ⟨event.payload, holding.payload,
              .inl ⟨_, _, now, newRun, asked, holding.id ▸ Saw.here⟩⟩).seq fun _ _ _ _ => ?_
          exact of_done trivial

end Requested

theorem build_obeys {R : History → Op → Prop} {context : ContextAssembler}
    {systemPrompt task query : String}
    (memories : ∀ log limit, R log (.sql (.selectMemories limit))) :
    (context.build host systemPrompt task query).Obeys R (returns fun _ _ => True) log := by
  simp only [ContextAssembler.build]
  split
  · exact of_done trivial
  · simp only [searchMemories, Stmt.perform, Program.perform, Program.bind_eq_bind,
      Program.call_bind, Sql.proc_call, Sql.proc_bind, Sql.proc_ofExcept, Program.bind_assoc]
    apply afterCall (memories _ _)
    intro rows
    simp only [Program.pure_eq_done, Sql.proc_done, Program.done_bind]
    split <;> exact of_done trivial

theorem messagesForRun_obeys {R : History → Op → Prop}
    (messages : ∀ log limit, R log (.sql (.selectMessages run.id limit)))
    (memories : ∀ log limit, R log (.sql (.selectMemories limit))) :
    (engine.messagesForRun host run).Obeys R (returns fun _ _ => True) log := by
  simp only [Engine.messagesForRun, listRunMessages, Stmt.perform, Program.perform,
    Program.bind_eq_bind, Program.call_bind, Sql.proc_call, Sql.proc_bind, Sql.proc_ofExcept,
    Program.bind_assoc]
  apply afterCall (messages _ _)
  intro rows
  exact build_obeys memories

/-- The response a worker acts on is the decoded decision of its step. -/
theorem admittedResponse_obeys (stepping : Stepping host engine log claim event runId run)
    (below : (run.stepCount : Int) < engine.maxSteps) :
    (engine.admittedResponse host runId run now).Obeys (WorkerRule host engine)
      (returns fun log' response => Decided host log' runId run.stepCount response) log := by
  simp only [Engine.admittedResponse, Program.bind_eq_bind]
  refine (getRunStepDecision_obeys host ⟨claim, event, run, stepping, rfl⟩).seq ?_
  intro log₁ stored longer₁ read
  cases stored with
  | some decision =>
      obtain ⟨decisionJson, seen, decoded⟩ := read decision rfl
      exact of_ofExcept fun response ok => ⟨decisionJson, seen, decoded.trans ok⟩
  | none =>
      refine (messagesForRun_obeys (fun _ _ => trivial) fun _ _ => trivial).seq
        fun log₂ messages longer₂ _ => ?_
      simp only [Op.perform, Program.perform, Program.call_bind]
      have stepping₂ := stepping.later (longer₁.trans longer₂)
      apply afterCall
      · exact ⟨claim, event, runId, run, stepping₂, below⟩
      · intro response
        refine (recordRunStepDecision_obeys
          ⟨claim, event, run, response, stepping₂.cons, rfl, rfl, below⟩
          fun log' longer => ⟨claim, event, run, stepping₂.cons.later longer, rfl⟩).seq ?_
        intro log' _ _ seen
        exact of_done ⟨decisionText response, seen, decodeDecision_text host response⟩

theorem classifyToolError_obeys {exc : Exc}
    (stepping : Stepping host engine log claim event runId run)
    (decided : Decided host log runId run.stepCount (.toolCall call))
    (raised : exc.isToolError = true → Raised host engine.tools call run.capabilities log) :
    (engine.classifyToolError event runId call exc now).Obeys (WorkerRule host engine)
      (returns fun _ _ => True) log := by
  simp only [Engine.classifyToolError, effectState, Op.perform, Program.perform,
    Program.bind_eq_bind, Program.call_bind, Program.bind_assoc]
  apply afterCall
  · trivial
  · intro row
    have stepping₁ : Stepping host engine (⟨.sql (.selectEffect call.requestId), .ok row⟩ :: log)
      claim event runId run := stepping.cons
    simp only [Program.pure_eq_done, Program.done_bind]
    have decided₁ := decided.later (List.suffix_cons ⟨.sql (.selectEffect call.requestId), .ok row⟩ _)
    split
    · rename_i unresolved
      have found : ∃ stored, row = some stored := by
        cases row with
        | none => simp at unresolved
        | some stored => exact ⟨stored, rfl⟩
      obtain ⟨stored, rfl⟩ := found
      refine (blockRunOnEffect_obeys worker_journal
        ⟨claim, event, run, call, stepping₁, decided₁, ⟨stored, Saw.here⟩, rfl⟩).seq ?_
      intro log₂ _ longer blocked
      exact ackStep_obeys (stepping₁.later longer).toWorking
        fun _ _ => .inr (.inl ⟨_, _, _, blocked⟩)
    · rename_i resolved
      split
      · rename_i isToolError
        refine (updateRun_obeys ⟨claim, event, run, stepping₁, .refuse _ _ call row log decided
          (raised isToolError) rfl (by simpa using resolved)⟩).seq ?_
        intro log₂ _ longer failed
        exact ackStep_obeys (stepping₁.later longer).toWorking
          fun _ _ => .inl ⟨_, failed, rfl⟩
      · exact of_raise

theorem toolStep_obeys (stepping : Stepping host engine log claim event runId run)
    (decided : Decided host log runId run.stepCount (.toolCall call)) :
    (engine.toolStep host event runId run call now).Obeys (WorkerRule host engine)
      (returns fun _ _ => True) log := by
  simp only [Engine.toolStep, Program.bind_eq_bind]
  refine (recordRunMessage_obeys
    ⟨claim, event, run, stepping, .inl ⟨call, decided, rfl, rfl, rfl⟩⟩
    fun _ _ => trivial).seq fun log₁ _ longer₁ _ => ?_
  have stepping₁ := stepping.later longer₁
  have decided₁ := decided.later longer₁
  have executed : (engine.tools.execute host call run.capabilities now).Obeys
      (ToolRule host engine.tools (EntersDecided host engine)) _ log₁ :=
    execute_obeys ⟨claim, event, runId, run, stepping₁, decided₁, rfl⟩
  have executed' := (executed.both execute_raises).mono
    (fun log op both => workerRule_of_toolRule log op both.1) fun _ _ ends => ends
  have captured : (engine.tools.execute host call run.capabilities now).attempt.Obeys
      (WorkerRule host engine) (returns fun log' outcome =>
        (∀ result, outcome = .ok result →
          ExecuteReturns host engine.tools call run.capabilities log' result) ∧
        ∀ exc, outcome = .error exc → exc.isToolError = true →
          Raised host engine.tools call run.capabilities log') log₁ := by
    refine Program.Obeys.attempt executed' fun log' outcome ends => ?_
    cases outcome with
    | ok result =>
        exact ⟨fun result' same => Except.ok.inj same ▸ ends.1,
          fun _ impossible => (nomatch impossible)⟩
    | error exc =>
        exact ⟨fun _ impossible => (nomatch impossible),
          fun exc' same => Except.error.inj same ▸ ends.2⟩
  refine captured.seq fun log₂ outcome longer₂ both => ?_
  obtain ⟨returned, raised⟩ := both
  have stepping₂ := stepping₁.later longer₂
  have decided₂ := decided₁.later longer₂
  cases outcome with
  | error exc => exact classifyToolError_obeys stepping₂ decided₂ (raised exc rfl)
  | ok result =>
      apply seq (M := fun log' content => toolContent call.name result.output = .ok content)
      · exact of_ofExcept fun content printed => printed
      · intro log₃ content longer₃ printed
        have stepping₃ := stepping₂.later longer₃
        refine (recordRunMessage_obeys ⟨claim, event, run, stepping₃, .inr (.inr
          ⟨call, result, decided₂.later longer₃, rfl, (returned result rfl).later longer₃, printed,
            rfl⟩)⟩ fun _ _ => trivial).seq fun log₄ _ longer₄ _ => ?_
        have stepping₄ := stepping₃.later longer₄
        simp only [Transaction.perform, Op.perform, Program.perform, Program.call_bind]
        apply afterCall
        · exact ⟨claim, event, run, stepping₄, rfl, call,
            (decided₂.later longer₃).later longer₄⟩
        · intro next
          exact ackStep_obeys stepping₄.cons.toWorking
            fun _ _ => .inr (.inr ⟨_, _, _, Saw.here⟩)

theorem finalStep_obeys {text : String}
    (stepping : Stepping host engine log claim event runId run)
    (decided : Decided host log runId run.stepCount (.finalText text)) :
    (engine.finalStep event runId run text now).Obeys (WorkerRule host engine)
      (returns fun _ _ => True) log := by
  simp only [Engine.finalStep, Program.bind_eq_bind]
  refine (recordRunMessage_obeys
    ⟨claim, event, run, stepping, .inr (.inl ⟨text, decided, rfl, rfl, rfl⟩)⟩
    fun _ _ => trivial).seq fun log₁ _ longer₁ _ => ?_
  have stepping₁ := stepping.later longer₁
  refine (updateRun_obeys ⟨claim, event, run, stepping₁,
    .complete _ _ (decided.later longer₁)⟩).seq ?_
  intro log₂ _ longer completed
  exact ackStep_obeys (stepping₁.later longer).toWorking fun _ _ => .inl ⟨_, completed, rfl⟩

theorem processStep_obeys (stepping : Stepping host engine log claim event runId run)
    (below : (run.stepCount : Int) < engine.maxSteps) :
    (engine.processStep host event runId run now).Obeys (WorkerRule host engine)
      (returns fun _ _ => True) log := by
  simp only [Engine.processStep, Program.bind_eq_bind]
  refine (admittedResponse_obeys stepping below).seq fun log' response longer decided => ?_
  cases response with
  | toolCall call => exact toolStep_obeys (stepping.later longer) decided
  | finalText text => exact finalStep_obeys (stepping.later longer) decided

theorem requeue_obeys {exc : Exc} (stepping : Stepping host engine log claim event runId run) :
    (engine.requeue event runId exc now).Obeys (WorkerRule host engine)
      (returns fun _ _ => True) log := by
  simp only [Engine.requeue, Program.bind_eq_bind]
  refine (updateRun_obeys ⟨claim, event, run, stepping, .note _ _⟩).seq fun log₁ _ longer _ => ?_
  have holding := (stepping.later longer).holding
  refine (failEvent_obeys worker_journal ⟨claim, event, holding, holding.id, rfl⟩).seq ?_
  intro _ _ _ _
  exact of_raise

theorem runStep_obeys (holding : Holding engine log claim event)
    (kind : claim.row.kind = "run.step") (first : log.length = 1) :
    (engine.runStep host event now).Obeys (WorkerRule host engine)
      (returns fun _ _ => True) log := by
  simp only [Engine.runStep]
  split
  · exact of_raise
  · rename_i value found
    simp only [Program.bind_eq_bind]
    refine (getRun_obeys first).seq ?_
    rintro log₁ run longer rfl
    have working : Working host engine _ claim event (host.str value) run :=
      ⟨holding.later longer, kind, ⟨value, found, rfl⟩, Saw.here⟩
    split
    · rename_i stale
      exact (ackStep_obeys working fun same => absurd same stale).seq
        fun _ _ _ _ => of_done trivial
    · rename_i step
      split
      · rename_i halted
        exact (ackStep_obeys working fun _ running => absurd running halted).seq
          fun _ _ _ _ => of_done trivial
      · rename_i running
        have stepping : Stepping host engine _ claim event (host.str value) run :=
          ⟨working, not_not.1 step, not_not.1 running⟩
        split
        · rename_i full
          refine (updateRun_obeys ⟨claim, event, run, stepping, .exceed _ full⟩).seq ?_
          intro log₂ _ longer failed
          exact (ackStep_obeys (working.later longer) fun _ _ => .inl ⟨_, failed, rfl⟩).seq
            fun _ _ _ _ => of_done trivial
        · rename_i below
          refine (processStep_obeys stepping (not_le.1 below)).captured.seq
            fun log₂ outcome longer _ => ?_
          cases outcome with
          | ok _ => exact of_done trivial
          | error exc =>
              refine (requeue_obeys (stepping.later longer)).seq fun _ _ _ _ => of_done trivial

/-- Every operation of `run_once` is one the worker rule allows. -/
theorem runOnce_obeys :
    (engine.runOnce host now).Obeys (WorkerRule host engine) (returns fun _ _ => True) [] := by
  simp only [Engine.runOnce, Program.bind_eq_bind]
  refine claimEvent_obeys.seq fun log' found _ held => ?_
  cases found with
  | none => exact of_done trivial
  | some event =>
      obtain ⟨first, claim, holding⟩ := held event rfl
      simp only
      split
      · rename_i requested
        exact runTaskRequested_obeys holding (holding.kind.symm.trans requested)
      · rename_i notRequested
        split
        · rename_i stepEvent
          exact runStep_obeys holding (holding.kind ▸ stepEvent) first
        · rename_i other
          refine (ack_obeys holding (fun kind => absurd (holding.kind.trans kind) other)
            fun kind => absurd (holding.kind.trans kind) notRequested).seq ?_
          intro _ _ _ _
          exact of_done trivial

/-! ### What a history tells about its process -/

/-- A process that may only read a run after a history of one length reads one run only. -/
theorem selects_once_of {rule : History → Op → Prop} {runId' : String} {run' : RunRow}
    (count : Nat) (lawful : System.Reachable.Lawful rule log)
    (first : ∀ older target, rule older (.sql (.selectRun target)) → older.length = count)
    (saw : Saw log (.sql (.selectRun runId)) (some run))
    (saw' : Saw log (.sql (.selectRun runId')) (some run')) : runId = runId' ∧ run = run' := by
  have same := lawful.eq_of_length count saw saw' (fun _ => first _ _) fun _ => first _ _
  obtain ⟨sameOp, answered⟩ := Entry.mk.inj same
  obtain rfl : runId = runId' := by simpa using sameOp
  rw [heq_eq_eq, Except.ok.injEq, Option.some.injEq] at answered
  exact ⟨rfl, answered⟩

/-- A worker reads one run only. -/
theorem selects_once {runId' : String} {run' : RunRow}
    (lawful : System.Reachable.Lawful (WorkerRule host engine) log)
    (saw : Saw log (.sql (.selectRun runId)) (some run))
    (saw' : Saw log (.sql (.selectRun runId')) (some run')) : runId = runId' ∧ run = run' :=
  selects_once_of 1 lawful (fun _ _ first => first) saw saw'

/-- The run that the step reads. -/
def readsRun : Entry kernel Exc → Option RunRow
  | ⟨.sql (.selectRun _), .ok found⟩ => found
  | _ => none

/-- The run that a process has read. -/
def readRun (log : History) : Option RunRow := log.findSome? readsRun

theorem readsRun_eq_some {entry : Entry kernel Exc} (reads : readsRun entry = some run) :
    ∃ runId, entry = ⟨.sql (.selectRun runId), .ok (some run)⟩ := by
  unfold readsRun at reads
  split at reads
  · exact ⟨_, by rw [reads]⟩
  · cases reads

/-- A process that reads one run only has read that one. -/
theorem readRun_eq_some
    (once : ∀ runId' run', Saw log (.sql (.selectRun runId')) (some run') → run = run')
    (saw : Saw log (.sql (.selectRun runId)) (some run)) : readRun log = some run := by
  cases found : readRun log with
  | none =>
      have nothing := List.findSome?_eq_none_iff.1 found _ saw
      cases nothing
  | some run' =>
      obtain ⟨entry, member, reads⟩ := List.exists_of_findSome?_eq_some found
      obtain ⟨runId', rfl⟩ := readsRun_eq_some reads
      rw [once runId' run' member]

end PreActive.Kernel
