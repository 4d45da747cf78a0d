/-
Module: PreActive.Kernel.Tools
Purpose: `ToolRegistry`: the admission of a tool call, the effect ledger and reconciliation.
Trusted boundary: human-reviewed spec
Main exports:
  ToolRegistry, ToolExecution, requestPayload, requestDigest, ToolRegistry.execute, effectState,
  ToolRegistry.recoverReconciled, reconcile
-/
import PreActive.Kernel.Operations
import PreActive.Kernel.Schema

namespace PreActive.Kernel

open PreActive.Foundation PreActive.Python

def toolError (text : String) : Exc := ⟨.toolError, text⟩

/-- The registered tools, under distinct and non-empty names. -/
structure ToolRegistry where
  tools : List ToolSpec
  named : ∀ spec ∈ tools, spec.name ≠ ""
  distinct : (tools.map ToolSpec.name).Nodup

namespace ToolRegistry

/-- `self._specs.get(name)` -/
def find (registry : ToolRegistry) (name : String) : Option ToolSpec :=
  registry.tools.find? fun spec => spec.name == name

/-- `specs`: the granted tools by name. -/
def specs (registry : ToolRegistry) (allowedCapabilities : List String) : List ToolSpec :=
  (registry.tools.filter fun spec => allowedCapabilities.contains spec.capability).insertionSort
    fun a b => a.name ≤ b.name

end ToolRegistry

namespace ToolRegistry

theorem named_append {registry : ToolRegistry} {spec : ToolSpec} (named : spec.name ≠ "") :
    ∀ tool ∈ registry.tools ++ [spec], tool.name ≠ "" := by
  intro tool member
  rcases List.mem_append.1 member with old | new
  · exact registry.named tool old
  · rwa [List.mem_singleton.1 new]

theorem distinct_append {registry : ToolRegistry} {spec : ToolSpec}
    (fresh : registry.find spec.name = none) :
    ((registry.tools ++ [spec]).map ToolSpec.name).Nodup := by
  rw [List.map_append, List.nodup_append]
  refine ⟨registry.distinct, List.nodup_singleton _, ?_⟩
  intro name old name' new same
  obtain ⟨tool, member, rfl⟩ := List.mem_map.1 old
  rw [List.map_singleton, List.mem_singleton] at new
  have other := List.find?_eq_none.1 fresh tool member
  simp [same, new] at other

/-- `ToolRegistry.register` -/
def register (host : Host) (compileError : String → Option String) (registry : ToolRegistry)
    (spec : ToolSpec) : Except Exc ToolRegistry :=
  if admissible : spec.name ≠ "" ∧ registry.find spec.name = none then
    match checkSupportedSchema compileError (depth spec.inputSchema.value) spec.inputSchema.value
        "$schema" with
    | .ok () =>
        .ok ⟨registry.tools ++ [spec], named_append admissible.1, distinct_append admissible.2⟩
    | .error exc =>
        if exc.isValueError then
          valueError ("invalid input_schema for tool " ++ spec.name ++ ": " ++ exc.text)
        else .error exc
  else valueError ("duplicate or empty tool name: " ++ host.repr (.str spec.name))

end ToolRegistry

/-- The outcome of a tool call. -/
structure ToolExecution where
  requestId : String
  toolName : String
  output : PyVal
  replayed : Bool
  resultSha256 : String

/-- `{"tool": name, "arguments": arguments}` -/
def requestPayload (name : String) (arguments : JsonObject) : JsonObject :=
  .ofFields [("arguments", arguments.value), ("tool", .str name)]
    (by change ["arguments", "tool"].Pairwise (· < ·); decide)
    (by simp [isJson, arguments.isJson])

/-- `request_payload`, as text. -/
def requestText (name : String) (arguments : JsonObject) : String :=
  (requestPayload name arguments).text canonicalStyle

def requestDigest (host : Host) (name : String) (arguments : JsonObject) : String :=
  host.sha256 (requestText name arguments)

/-- `json.loads(row["result_json"])` -/
def loadsResult (resultJson : Option String) : Except Exc PyVal :=
  match resultJson with
  | some text => loads text
  | none => .error ⟨.typeError, "the JSON object must be str, bytes or bytearray, not NoneType"⟩

/-- `json.dumps(output)` in canonical form, where it exists. -/
def canonicalJson (value : PyVal) : Except Exc String := dumps canonicalStyle value

section Registry

variable (host : Host)

/-- The body of `_validate_arguments`. -/
def validateAgainst (inputSchema arguments : PyVal) : Except Exc Unit :=
  match validateSchemaValue host.reSearch host.room (depth inputSchema) [] inputSchema arguments
    "$arguments" with
  | .ok () => .ok ()
  | .error exc =>
      if exc.isValueError then
        .error (toolError ("arguments do not match input_schema: " ++ exc.text))
      else .error exc

/-- `_validate_arguments` -/
def validateArguments (spec : ToolSpec) (arguments : JsonObject) : Except Exc Unit :=
  validateAgainst host spec.inputSchema.value arguments.value

/-- The replay of a committed ledger row. -/
def replay (requestId toolName : String) (row : EffectRow) : Proc ToolExecution := do
  let output ← Program.ofExcept (loadsResult row.resultJson)
  return ⟨requestId, toolName, output, true, row.resultSha256.getD "None"⟩

/-- A call of a tool that mutates nothing. -/
def executeReadOnly (spec : ToolSpec) (call : ToolCall) : Proc ToolExecution := do
  let output ← (Op.handler ⟨spec, call.arguments, call.requestId⟩).perform
  let resultJson ← Program.ofExcept (canonicalJson output)
  return ⟨call.requestId, call.name, output, false, host.sha256 resultJson⟩

/-- The handler call of an admitted mutation and the write of its outcome. -/
def dispatchMutation (spec : ToolSpec) (call : ToolCall) (now : Time) : Proc ToolExecution := do
  match ← (Op.handler ⟨spec, call.arguments, call.requestId⟩).perform.attempt with
  | .error exc => do
      (Op.sql (.attemptUnknown call.requestId now)).perform
      .raise exc
  | .ok output => do
      let resultJson ← Program.ofExcept (canonicalJson output)
      let resultDigest := host.sha256 resultJson
      (Op.sql (.commitEffect call.requestId resultJson resultDigest now)).perform
      return ⟨call.requestId, call.name, output, false, resultDigest⟩

/-- The row a fresh mutation is admitted as. -/
def freshEffect (call : ToolCall) (now : Time) : EffectRow where
  requestId := call.requestId
  toolName := call.name
  requestSha256 := requestDigest host call.name call.arguments
  requestJson := some (requestText call.name call.arguments)
  state := .executing
  resultJson := none
  resultSha256 := none
  createdAt := now
  updatedAt := now

/-- The admission of a mutation: fresh, replayed, re-admitted or refused. -/
def executeMutation (spec : ToolSpec) (call : ToolCall) (now : Time) : Proc ToolExecution := do
  match ← (Op.sql (.selectEffect call.requestId)).perform with
  | some row =>
      if row.requestSha256 ≠ requestDigest host call.name call.arguments ∨
          row.toolName ≠ call.name then
        .raise ⟨.idempotencyConflict, "request_id was already used for different input"⟩
      else
        match row.state with
        | .committed => replay call.requestId call.name row
        | .reconciledNoEffect => do
            (Op.sql (.readmitEffect call.requestId now)).perform
            dispatchMutation host spec call now
        | state =>
            .raise ⟨.ambiguousEffect, "mutation request " ++ call.requestId ++
              " is in unresolved state " ++ state.text⟩
  | none => do
      (Op.sql (.insertEffect (freshEffect host call now))).perform
      dispatchMutation host spec call now

def ToolRegistry.execute (registry : ToolRegistry) (call : ToolCall)
    (allowedCapabilities : List String) (now : Time) : Proc ToolExecution := do
  (Op.enterExecute call allowedCapabilities).perform
  match registry.find call.name with
  | none => .raise (toolError ("unknown tool: " ++ call.name))
  | some spec =>
      if !allowedCapabilities.contains spec.capability then
        .raise ⟨.capabilityDenied, "capability not granted: " ++ spec.capability⟩
      else
        match validateArguments host spec call.arguments with
        | .error exc => .raise exc
        | .ok () =>
            if spec.mutation then executeMutation host spec call now
            else executeReadOnly host spec call

/-- `ToolRegistry.effect_state` -/
def effectState (requestId : String) : Proc (Option EffectState) := do
  let row : Option EffectRow ← (Op.sql (.selectEffect requestId)).perform
  return row.map EffectRow.state

/-- The call a ledger row was admitted for: `str(payload["tool"])`, `dict(payload["arguments"])`. -/
def storedCall (requestId : String) (payload : PyVal) : Except Exc ToolCall :=
  match payload.get? "tool", payload.get? "arguments" with
  | none, _ => .error ⟨.keyError, "'tool'"⟩
  | _, none => .error ⟨.keyError, "'arguments'"⟩
  | some tool, some arguments =>
      match JsonObject.ofVal? arguments with
      | none => .error ⟨.typeError, "the stored arguments are not a mapping"⟩
      | some arguments => .ok ⟨requestId, host.str tool, arguments⟩

def ToolRegistry.recoverReconciled (registry : ToolRegistry) (requestId : String)
    (allowedCapabilities : List String) (now : Time) : Proc ToolExecution := do
  match ← (Op.sql (.selectEffect requestId)).perform with
  | none => .raise (toolError ("unknown mutation request: " ++ requestId))
  | some row =>
      match row.state with
      | .committed => replay requestId row.toolName row
      | .reconciledNoEffect =>
          match row.requestJson with
          | none | some "" =>
              .raise (toolError "mutation request predates recoverable request payload storage")
          | some requestJson => do
              let payload ← Program.ofExcept (loads requestJson)
              let call ← Program.ofExcept (storedCall host requestId payload)
              registry.execute host call allowedCapabilities now
      | state =>
          .raise ⟨.ambiguousEffect, "mutation request " ++ requestId ++
            " remains unresolved in state " ++ state.text⟩

/-- `len(digest) == 64` and every character one of `0123456789abcdefABCDEF`. -/
def isEvidenceDigest (digest : String) : Bool :=
  digest.length == 64 &&
    digest.toList.all fun c => "0123456789abcdefABCDEF".toList.contains c

/-- `ToolRegistry.reconcile` -/
def reconcile (requestId : String) (effectOccurred : Bool) (evidenceDigest : String) (now : Time)
    (result : Option PyVal) : Proc Unit := do
  if !isEvidenceDigest evidenceDigest then
    .raise ⟨.valueError, "evidence_digest must be a 64-character SHA-256 hex digest"⟩
  else
    match ← (Op.sql (.selectEffect requestId)).perform with
    | none => .raise (toolError ("unknown mutation request: " ++ requestId))
    | some row =>
        if !row.state.unresolved then
          .raise (toolError ("mutation request " ++ requestId ++
            " cannot be reconciled from state " ++ row.state.text))
        else
          match effectOccurred, result with
          | true, none =>
              .raise ⟨.valueError, "result is required when reconciliation confirms the effect"⟩
          | false, some _ =>
              .raise ⟨.valueError, "result must be omitted when reconciliation confirms no effect"⟩
          | true, some result => do
              let resultJson ← Program.ofExcept (canonicalJson result)
              (Transaction.reconcile requestId true (host.lower evidenceDigest)
                (some resultJson) (some (host.sha256 resultJson)) now).perform
          | false, none =>
              (Transaction.reconcile requestId false (host.lower evidenceDigest) none none
                now).perform

end Registry

end PreActive.Kernel
