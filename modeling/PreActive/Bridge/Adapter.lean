/-
Module: PreActive.Bridge.Adapter
Purpose: `providers/openai_compatible.py` and the reply of `qwen_http.py`: the request with the
  offered tools, the reply around a message, and what the kernel takes from it.
Trusted boundary: human-reviewed spec
Main exports: buildPayload, offeredTools, completion, parseResponse, deliver
-/
import PreActive.Bridge.Protocol
import PreActive.Kernel.Schema
import PreActive.Kernel.State

namespace PreActive.Bridge

open PreActive.Python PreActive.Kernel

/-! ### The request -/

/-- The declaration of a tool. -/
def toolDeclaration (spec : ToolSpec) : PyVal :=
  .ofFields [("function", .ofFields [("description", .str spec.description),
    ("name", .str spec.name), ("parameters", spec.inputSchema.value)]), ("type", .str "function")]

/-- `build_payload` -/
def buildPayload (model : String) (messages : List PyVal) (tools : List ToolSpec) : PyVal :=
  .ofFields ([("messages", .list messages), ("model", .str model)] ++
    if tools = [] then []
    else [("parallel_tool_calls", .bool false), ("tool_choice", .str "auto"),
      ("tools", .list (tools.map toolDeclaration))])

/-- `request.get("tools") or []` -/
def offeredTools (request : PyVal) : List PyVal :=
  listItems (orDefault (request.get? "tools") (.list []))

/-! ### The reply -/

/-- The reply to a request. -/
def completion (model : String) (message : PyVal) (finishReason : String) : PyVal :=
  .ofFields [("choices", .list [.ofFields [("finish_reason", .str finishReason), ("index", .int 0),
    ("message", message)]]), ("id", .str "chatcmpl-local"), ("model", .str model),
    ("object", .str "chat.completion")]

/-- `value[0]`, for a key or an index that is there. -/
def firstItem : PyVal → Option PyVal
  | .list (item :: _) => some item
  | .str text => text.toList.head?.map fun c => .str (String.singleton c)
  | .dict fields => PyVal.lookup (.int 0) fields
  | _ => none

/-- `len(value)` -/
def pyLen : PyVal → Except Exc Nat
  | .list items => .ok items.length
  | .dict fields => .ok fields.length
  | .str text => .ok text.length
  | _ => .error ⟨.typeError, "object has no len()"⟩

section Response

variable (interpreter : Interpreter)

/-- `str(value)` -/
def pyStr : PyVal → String
  | .str text => text
  | value => interpreter.repr value

/-- The structured call that `parse_response` takes out of its `try` block. -/
def readToolCall (call : PyVal) : Except Exc ModelResponse :=
  let invalid : Except Exc ModelResponse :=
    valueError "provider returned an invalid structured tool call"
  match call.get? "id", call.get? "function" with
  | some requestId, some function =>
      match function.get? "name" with
      | none => invalid
      | some name =>
          match orDefault (function.get? "arguments") (.str "\x7b\x7d") with
          | .str text =>
              match interpreter.loads text with
              | .error exc => if isJsonDecodeError exc then invalid else .error exc
              | .ok arguments =>
                  match JsonObject.ofVal? arguments with
                  | none => valueError "tool call arguments must decode to an object"
                  | some object =>
                      .ok (.toolCall ⟨pyStr interpreter requestId, pyStr interpreter name, object⟩)
          | _ => invalid
  | _, _ => invalid

/-- `parse_response` -/
def parseResponse (payload : PyVal) : Except Exc ModelResponse :=
  match ((payload.get? "choices").bind firstItem).bind fun choice => choice.get? "message" with
  | none => valueError "provider response does not contain choices[0].message"
  | some message =>
      if !message.isDict then .error ⟨.other "AttributeError", "object has no attribute 'get'"⟩
      else
        let calls := orDefault (message.get? "tool_calls") (.list [])
        if truthy calls then do
          let count ← pyLen calls
          if count ≠ 1 then valueError "provider must return exactly one tool call per turn"
          else match firstItem calls with
            | none => .error ⟨.keyError, "0"⟩
            | some call => readToolCall interpreter call
        else match message.get? "content" with
          | some (.str content) => .ok (.finalText content)
          | _ => valueError "provider response contains neither a tool call nor text"

/-- A parsed model text on its way to the kernel: the message, the reply as JSON, and its reading. -/
def deliver (model : String) (parsed : PyVal) : Except Exc ModelResponse := do
  let (message, finishReason) ← toOpenaiMessage interpreter parsed
  let body ← dumps defaultStyle (completion model message finishReason)
  let payload ← interpreter.loads body
  if !payload.isDict then valueError "provider response must be a JSON object"
  else parseResponse interpreter payload

end Response

end PreActive.Bridge
