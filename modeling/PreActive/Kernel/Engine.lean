/-
Module: PreActive.Kernel.Engine
Purpose: `Engine`: the admission of model decisions, one worker step and the recovery of a
  blocked run.
Trusted boundary: human-reviewed spec
Main exports:
  decisionFromResponse, responseFromDecision, Engine, Engine.runOnce, resumeBlockedEffect,
  submitTask
-/
import PreActive.Kernel.Context
import PreActive.Kernel.Tools

namespace PreActive.Kernel

open PreActive.Foundation PreActive.Python

/-! ### Decisions -/

/-- `_decision_from_response` -/
def decisionFromResponse : ModelResponse → JsonObject
  | .toolCall call =>
      .ofFields
        [("arguments", call.arguments.value), ("kind", .str "tool_call"), ("name", .str call.name),
          ("request_id", .str call.requestId)]
        (by change ["arguments", "kind", "name", "request_id"].Pairwise (· < ·); decide)
        (by simp [isJson, call.arguments.isJson])
  | .finalText text =>
      .ofFields [("final_text", .str text), ("kind", .str "final_text")]
        (by change ["final_text", "kind"].Pairwise (· < ·); decide)
        (by simp [isJson])

/-- `_response_from_decision` -/
def responseFromDecision (host : Host) (decision : PyVal) : Except Exc ModelResponse :=
  match decision.get? "kind" with
  | some (.str "tool_call") =>
      match (decision.get? "arguments").bind JsonObject.ofVal? with
      | none => .error (runtimeError "stored tool-call arguments must be an object")
      | some arguments =>
          match decision.get? "request_id", decision.get? "name" with
          | none, _ => .error ⟨.keyError, "'request_id'"⟩
          | _, none => .error ⟨.keyError, "'name'"⟩
          | some requestId, some name =>
              .ok (.toolCall ⟨host.str requestId, host.str name, arguments⟩)
  | some (.str "final_text") =>
      match decision.get? "final_text" with
      | some (.str text) => .ok (.finalText text)
      | _ => .error (runtimeError "stored final_text decision must be text")
  | _ => .error (runtimeError "stored run step decision has unknown kind")

/-! ### Transcript entries -/

/-- `json.dumps(value, sort_keys=True)` -/
def printed (value : PyVal) : Except Exc String := dumps defaultStyle value

def assistantContent (call : ToolCall) : String :=
  "tool_call id=" ++ call.requestId ++ " name=" ++ call.name ++ " arguments=" ++
    call.arguments.text defaultStyle

def toolContent (name : String) (output : PyVal) : Except Exc String :=
  (printed output).map fun text => name ++ " => " ++ text

def reconciledContent (name : String) (output : PyVal) : Except Exc String :=
  (printed output).map fun text => "reconciled " ++ name ++ " => " ++ text

/-- `f"step:{step}:{suffix}"` -/
def stepKey (step : Nat) (suffix : String) : String := "step:" ++ toString step ++ ":" ++ suffix

/-- `f"effect:{request_id}:reconciled-result"` -/
def reconciledKey (requestId : String) : String := "effect:" ++ requestId ++ ":reconciled-result"

/-! ### The worker -/

/-- The configuration of one worker. -/
structure Engine where
  tools : ToolRegistry
  context : ContextAssembler
  systemPrompt : String
  workerId : String
  leaseSeconds : Time
  maxSteps : Int

/-- `Event`, as a successful claim returns it. -/
structure Event where
  id : String
  kind : String
  payload : PyVal
  priority : Int
  attempts : Nat

/-- `Store.claim_event` -/
def claimEvent (workerId : String) (now leaseSeconds : Time) : Proc (Option Event) := do
  match ← (Transaction.claimEvent workerId now leaseSeconds).perform with
  | none => return none
  | some claim => do
      let payload ← Program.ofExcept (loads claim.row.payloadJson)
      return some ⟨claim.row.id, claim.row.kind, payload, claim.row.priority, claim.attempts⟩

/-- `Engine.submit_task` -/
def submitTask (task : String) (capabilities : List String) (now : Time)
    (sourceEventId : Option String) : Proc String :=
  (Transaction.createRunWithInitialStep task capabilities now sourceEventId 0).perform

/-- `Engine.resume_blocked_effect` -/
def resumeBlockedEffect (host : Host) (registry : ToolRegistry) (runId : String) (now : Time) :
    Proc Unit := do
  let run ← (getRun host runId).proc
  match run.status, run.blockedRequestId with
  | .blockedEffect, some requestId =>
      if requestId = "" then
        .raise (runtimeError "run is not blocked on an unresolved effect")
      else do
        let result ← registry.recoverReconciled host requestId run.capabilities now
        let content ← Program.ofExcept (reconciledContent result.toolName result.output)
        (recordRunMessage runId .tool content now (some (reconciledKey requestId))).proc
        let _ ← (Transaction.resumeRunAfterEffect runId now 0).perform
        return ()
  | _, _ => .raise (runtimeError "run is not blocked on an unresolved effect")

/-- The strings of a list value, when it is a list of strings. -/
def asStrings? : PyVal → Option (List String)
  | .list items => items.mapM PyVal.asStr?
  | _ => none

namespace Engine

variable (host : Host) (engine : Engine)

/-- The task text the model is shown for a run with a transcript. -/
def promptTask (task : String) (transcript : List MessageRow) : String :=
  if transcript = [] then task
  else
    task ++ "\n\nDurable run transcript:\n" ++
      pyJoin "\n" (transcript.map fun row => row.role.text ++ ": " ++ row.content)

/-- `_messages_for_run` -/
def messagesForRun (run : RunRow) : Proc (List Message) := do
  let transcript ← (listRunMessages run.id 32).proc
  engine.context.build host engine.systemPrompt (promptTask run.task transcript) run.task

/-- `ack_event` for an event this worker claimed. -/
def ack (event : Event) (now : Time) : Proc Unit := (ackEvent event.id engine.workerId now).proc

/-- The branches of `run_once` that reject a malformed `task.requested` event. -/
def rejectEvent (event : Event) (reason : String) (now : Time) : Proc (Option String) := do
  let _ ← (appendJournal .eventRejected (some event.id) [("reason", .text reason)] now).proc
  engine.ack event now
  return none

/-- A claimed `task.requested` event. -/
def runTaskRequested (event : Event) (now : Time) : Proc (Option String) := do
  let capabilities := (event.payload.get? "capabilities").getD (.list [])
  match (event.payload.get? "task").bind PyVal.asStr? with
  | none => engine.rejectEvent event "task.requested task must be a non-empty string" now
  | some task =>
      if pyStrip task = "" then
        engine.rejectEvent event "task.requested task must be a non-empty string" now
      else
        match asStrings? capabilities with
        | none =>
            engine.rejectEvent event "task.requested capabilities must be a list of strings" now
        | some capabilities => do
            let runId ← submitTask (pyStrip task) capabilities now (some event.id)
            engine.ack event now
            return some runId

/-- The stored decision of the step, or a fresh one that is stored before it is used. -/
def admittedResponse (runId : String) (run : RunRow) (now : Time) : Proc ModelResponse := do
  match ← (getRunStepDecision runId run.stepCount).proc with
  | some decision => Program.ofExcept (responseFromDecision host decision)
  | none => do
      let messages ← engine.messagesForRun host run
      let response : ModelResponse ←
        (Op.respond messages (engine.tools.specs run.capabilities)).perform
      (recordRunStepDecision runId run.stepCount (decisionFromResponse response) now).proc
      return response

/-- The `except BaseException` around `tools.execute`. -/
def classifyToolError (event : Event) (runId : String) (call : ToolCall) (exc : Exc)
    (now : Time) : Proc Unit := do
  let state ← effectState call.requestId
  if state.any EffectState.unresolved then do
    (blockRunOnEffect runId call.requestId exc.render now).proc
    engine.ack event now
  else if exc.isToolError then do
    (updateRun runId ⟨now, some .failed, none, some exc.render, false, false⟩).proc
    engine.ack event now
  else .raise exc

/-- A step whose decision is a tool call. -/
def toolStep (event : Event) (runId : String) (run : RunRow) (call : ToolCall) (now : Time) :
    Proc Unit := do
  (recordRunMessage runId .assistant (assistantContent call) now
    (some (stepKey run.stepCount "assistant-decision"))).proc
  match ← (engine.tools.execute host call run.capabilities now).attempt with
  | .error exc => engine.classifyToolError event runId call exc now
  | .ok result => do
      let content ← Program.ofExcept (toolContent call.name result.output)
      (recordRunMessage runId .tool content now
        (some (stepKey run.stepCount "tool-result"))).proc
      let _ ← (Transaction.advanceRunStep runId run.stepCount event.priority now).perform
      engine.ack event now

/-- A step whose decision is a final text. -/
def finalStep (event : Event) (runId : String) (run : RunRow) (text : String) (now : Time) :
    Proc Unit := do
  (recordRunMessage runId .assistant text now
    (some (stepKey run.stepCount "assistant-final"))).proc
  (updateRun runId ⟨now, some .completed, some text, none, true, true⟩).proc
  engine.ack event now

/-- The body of the `try` of `run_once`. -/
def processStep (event : Event) (runId : String) (run : RunRow) (now : Time) : Proc Unit := do
  match ← engine.admittedResponse host runId run now with
  | .toolCall call => engine.toolStep host event runId run call now
  | .finalText text => engine.finalStep event runId run text now

/-- `now + min(60.0, 2.0 ** min(event.attempts, 6))` -/
def retryAt (event : Event) (now : Time) : Time := now + min 60 (2 ^ min event.attempts 6)

/-- The last `except BaseException` of `run_once`. -/
def requeue (event : Event) (runId : String) (exc : Exc) (now : Time) : Proc Unit := do
  (updateRun runId ⟨now, none, none, some exc.render, false, false⟩).proc
  (failEvent event.id engine.workerId now (some (retryAt event now))).proc
  .raise exc

/-- A claimed `run.step` event. -/
def runStep (event : Event) (now : Time) : Proc (Option String) := do
  match event.payload.get? "run_id" with
  | none => .raise ⟨.keyError, "'run_id'"⟩
  | some runIdValue => do
      let runId := host.str runIdValue
      let run ← (getRun host runId).proc
      let eventStep := (event.payload.get? "step").bind PyVal.asInt?
      if eventStep ≠ some (run.stepCount : Int) then do
        engine.ack event now
        return some runId
      else if run.status ≠ .running then do
        engine.ack event now
        return some runId
      else if engine.maxSteps ≤ (run.stepCount : Int) then do
        (updateRun runId
          ⟨now, some .failed, none, some "max_steps exceeded", false, false⟩).proc
        engine.ack event now
        return some runId
      else
        match ← (engine.processStep host event runId run now).attempt with
        | .ok () => return some runId
        | .error exc => do
            engine.requeue event runId exc now
            return some runId

/-- `run_once` -/
def runOnce (now : Time) : Proc (Option String) := do
  match ← claimEvent engine.workerId now engine.leaseSeconds with
  | none => return none
  | some event =>
      if event.kind = "task.requested" then engine.runTaskRequested event now
      else if event.kind = "run.step" then engine.runStep host event now
      else do
        engine.ack event now
        return none

end Engine

end PreActive.Kernel
