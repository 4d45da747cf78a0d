/-
Module: PreActive.Kernel.Ideal
Purpose: What the store says about a task apart from clock values, and the machine that makes the
  durable changes of a task one after the other without ever being interrupted.
Trusted boundary: human-reviewed spec
Main exports: Environment, View, viewOf, Environment.next, Environment.Chain
-/
import Mathlib.Logic.Relation
import PreActive.Kernel.Decisions

namespace PreActive.Kernel

open PreActive.Foundation PreActive.Python

/-! ### The environment of a task -/

/-- A deterministic model, deterministic handlers, and the configuration of the workers. -/
structure Environment where
  host : Host
  tools : ToolRegistry
  context : ContextAssembler
  systemPrompt : String
  maxSteps : Int
  model : List Message → List ToolSpec → ModelResponse
  handler : ToolSpec → JsonObject → JsonObject
  memories : Table MemoryRow
  runId : String

/-- A worker of the environment. -/
def Environment.engine (env : Environment) (workerId : String) (leaseSeconds : Time) : Engine where
  tools := env.tools
  context := env.context
  systemPrompt := env.systemPrompt
  workerId := workerId
  leaseSeconds := leaseSeconds
  maxSteps := env.maxSteps

/-- The model and the handlers answer as the functions they are, and no step is faulty. -/
def Environment.answers (env : Environment) (op : Op) : Answer where
  fault := none
  response :=
    match op with
    | .respond messages tools => .ok (env.model messages tools)
    | _ => .error (runtimeError "no model")
  output :=
    match op with
    | .handler call => .ok (env.handler call.spec call.arguments).value
    | _ => .error (runtimeError "no handler")

/-! ### Without clock values -/

/-- A run without its clock values, and without `last_error`, which tells of earlier attempts. -/
def RunRow.timeless (row : RunRow) : RunRow :=
  { row with createdAt := 0, updatedAt := 0, lastError := none }

def DecisionRow.timeless (row : DecisionRow) : DecisionRow := { row with createdAt := 0 }

def MessageRow.timeless (row : MessageRow) : MessageRow := { row with createdAt := 0 }

def EffectRow.timeless (row : EffectRow) : EffectRow := { row with createdAt := 0, updatedAt := 0 }

/-- What the store and the outside world say about a task: its run, the decisions, the transcript,
the ledger and the mutations performed. -/
structure View where
  run : RunRow
  decisions : List DecisionRow
  messages : List MessageRow
  effects : List EffectRow
  mutations : List HandlerRun

def HandlerRun.isMutation (run : HandlerRun) : Bool := run.call.spec.mutation

/-- The view of a run on a world. -/
def viewOf (runId : String) (world : World) : Option View :=
  (world.db.run runId).map fun row =>
    { run := row.timeless
      decisions := world.db.decisions.rows.map DecisionRow.timeless
      messages := world.db.messages.rows.map MessageRow.timeless
      effects := world.db.effects.rows.map EffectRow.timeless
      mutations := world.calls.filter HandlerRun.isMutation }

namespace View

variable (view : View)

def decision : Option DecisionRow :=
  view.decisions.find? fun row => row.runId == view.run.id && row.step == view.run.stepCount

def message (messageKey : String) : Option MessageRow :=
  view.messages.find? fun row => row.runId == view.run.id && row.messageKey == some messageKey

def effect (requestId : String) : Option EffectRow :=
  view.effects.find? fun row => row.requestId == requestId

/-! ### Durable changes -/

def addDecision (response : ModelResponse) : View :=
  { view with
    decisions := view.decisions ++
      [⟨view.run.id, view.run.stepCount, (decisionFromResponse response).text compactStyle, 0⟩] }

def addMessage (role : Role) (content messageKey : String) : View :=
  { view with
    messages := view.messages ++ [⟨view.run.id, role, content, some messageKey, 0⟩] }

/-- A fresh mutation, from its admission to its result. -/
def addEffect (host : Host) (spec : ToolSpec) (call : ToolCall) (output : JsonObject) : View :=
  { view with
    effects := view.effects ++
      [(freshEffect host call 0).committed (output.text canonicalStyle)
        (host.sha256 (output.text canonicalStyle)) 0]
    mutations := view.mutations ++
      [⟨⟨spec, call.arguments, call.requestId⟩, .ok output.value⟩] }

def advanced : View := { view with run := { view.run with stepCount := view.run.stepCount + 1 } }

def failed : View := { view with run := { view.run with status := .failed } }

def completed (text : String) : View :=
  { view with
    run := { view.run with
      status := .completed, finalText := some text, stepCount := view.run.stepCount + 1 } }

end View

/-! ### The prompt -/

/-- What `ContextAssembler.build` makes of the stored memories. -/
def ContextAssembler.assembled (context : ContextAssembler) (host : Host)
    (systemPrompt task query : String) (memories : List MemoryRow) : List Message :=
  let messages : List Message := [⟨.system, pyStrip systemPrompt⟩, ⟨.user, pyStrip task⟩]
  let used := contentLength messages + 1
  let remaining := max 0 (context.maxChars - used - 1)
  if remaining ≤ 0 then context.trimRequired messages
  else
    let limit := context.memoryLimit
    let found := rankMemories host query limit
      (sqlLimit (max (limit * 4) limit)
        (memories.insertionSort fun a b => MemoryRow.before a b = true))
    let selected := selectLines found [] remaining
    if selected = [] then context.trimRequired messages
    else
      context.trimRequired (messages ++ [⟨.system, memoryHeading ++ pyJoin "\n" selected⟩])

/-- The latest messages of a run, oldest first. -/
def latestMessages (runId : String) (limit : Int) (messages : List MessageRow) :
    List MessageRow :=
  (sqlLimit limit (messages.filter fun row => row.runId == runId).reverse).reverse

namespace Environment

variable (env : Environment)

/-- What the model is shown for a run with these messages in the store. -/
def shown (run : RunRow) (messages : List MessageRow) : List Message :=
  env.context.assembled env.host env.systemPrompt
    (Engine.promptTask run.task (latestMessages run.id 32 messages)) run.task env.memories.rows

/-! ### The machine -/

/-- The gates of `execute` before the ledger. -/
def gate (call : ToolCall) (allowedCapabilities : List String) : Except Exc ToolSpec :=
  match env.tools.find call.name with
  | none => .error (toolError ("unknown tool: " ++ call.name))
  | some spec =>
      if !allowedCapabilities.contains spec.capability then
        .error ⟨.capabilityDenied, "capability not granted: " ++ spec.capability⟩
      else
        match validateArguments env.host spec call.arguments with
        | .error exc => .error exc
        | .ok () => .ok spec

/-- The change after the result of a call is there: its message, then the next step. -/
def nextResult (view : View) (call : ToolCall) (output : PyVal) : Option View :=
  let messageKey := stepKey view.run.stepCount "tool-result"
  match view.message messageKey, toolContent call.name output with
  | some _, _ => some view.advanced
  | none, .ok content => some (view.addMessage .tool content messageKey)
  | none, .error _ => none

/-- The change after a mutation was decided and passed the gates. -/
def nextMutation (view : View) (spec : ToolSpec) (call : ToolCall) : Option View :=
  match view.effect call.requestId with
  | none => some (view.addEffect env.host spec call (env.handler spec call.arguments))
  | some row =>
      if row.requestSha256 ≠ requestDigest env.host call.name call.arguments ∨
          row.toolName ≠ call.name then some view.failed
      else
        match loadsResult row.resultJson with
        | .ok output => nextResult view call output
        | .error _ => none

/-- The change after a call was decided. -/
def nextCall (view : View) (call : ToolCall) : Option View :=
  let messageKey := stepKey view.run.stepCount "assistant-decision"
  match view.message messageKey with
  | none => some (view.addMessage .assistant (assistantContent call) messageKey)
  | some _ =>
      match env.gate call view.run.capabilities with
      | .error exc => if exc.isToolError then some view.failed else none
      | .ok spec =>
          if spec.mutation then env.nextMutation view spec call
          else nextResult view call (env.handler spec call.arguments).value

/-- The change after a final text was decided. -/
def nextFinal (view : View) (text : String) : Option View :=
  let messageKey := stepKey view.run.stepCount "assistant-final"
  match view.message messageKey with
  | none => some (view.addMessage .assistant text messageKey)
  | some _ => some (view.completed text)

/-- The next durable change of a task; `none` when it is over or can only be tried again. -/
def next (view : View) : Option View :=
  if view.run.status ≠ .running then none
  else if env.maxSteps ≤ (view.run.stepCount : Int) then some view.failed
  else
    match view.decision with
    | none =>
        some (view.addDecision
          (env.model (env.shown view.run view.messages) (env.tools.specs view.run.capabilities)))
    | some row =>
        match decodeDecision env.host row.decisionJson with
        | .error _ => none
        | .ok (.toolCall call) => env.nextCall view call
        | .ok (.finalText text) => nextFinal view text

/-- The views an uninterrupted task goes through. -/
def Chain : View → View → Prop :=
  Relation.ReflTransGen fun view view' => env.next view = some view'

variable {env}

theorem Chain.next {start view view' : View} (chain : env.Chain start view)
    (step : env.next view = some view') : env.Chain start view' :=
  chain.tail step

/-- A task is over in one view only. -/
theorem Chain.end_unique {start view view' : View} (chain : env.Chain start view)
    (chain' : env.Chain start view') (ended : env.next view = none)
    (ended' : env.next view' = none) : view = view' := by
  have deterministic : Relator.RightUnique fun view view' => env.next view = some view' := by
    intro a b c stepB stepC
    exact Option.some.inj (stepB.symm.trans stepC)
  have stays : ∀ {a b : View}, env.next a = none → env.Chain a b → a = b := by
    intro a b stuck onward
    rcases Relation.ReflTransGen.cases_head onward with same | ⟨c, step, _⟩
    · exact same
    · rw [stuck] at step
      cases step
  rcases Relation.ReflTransGen.total_of_right_unique deterministic chain chain' with onward | back
  · exact stays ended onward
  · exact (stays ended' back).symm

end Environment

end PreActive.Kernel
