/-
Module: PreActive.Bridge.Protocol
Purpose: `tool_protocol.py`: the native tool-call markup of the local model, the conversion of its
  parameters, and the message it becomes.
Trusted boundary: human-reviewed spec
Main exports:
  Interpreter, toolCallRe, parameterRe, toolMarkers, coerceParameter, parseQwenResponse,
  toOpenaiMessage
-/
import PreActive.Foundation.Pattern
import PreActive.Python.JsonOrder

namespace PreActive.Bridge

open PreActive.Foundation PreActive.Python

/-! ### The interpreter -/

/-- What depends on the tables and the limits of the Python interpreter: its limits (on the digits
of an int, on the depth of a recursion) are in what it refuses.  Whatever `json.loads` returns is
made of the values of JSON. -/
structure Interpreter where
  /-- `\d` -/
  isDecimal : Char → Bool
  lower : String → String
  repr : PyVal → String
  int : String → Except Exc Int
  float : String → Except Exc PyFloat
  loads : String → Except Exc PyVal
  loads_isJson : ∀ {text value}, loads text = .ok value → isJson value = true
  decimal_digit : ∀ {c : Char}, c.isDigit = true → isDecimal c = true
  lower_lower : ∀ {text : String}, (∀ c ∈ text.toList, c.isLower = true) → lower text = text

/-- An interpreter that knows ASCII, ints of at most 4300 digits, floats spelled as a `repr`, and
JSON. -/
def plainInterpreter : Interpreter where
  isDecimal := Char.isDigit
  lower text := text.map Char.toLower
  repr
    | .str text => "'" ++ text ++ "'"
    | _ => "value"
  int text :=
    if 4300 < text.length then .error ⟨.valueError, "Exceeds the limit (4300 digits)"⟩
    else match readInt text.toList with
      | some value => .ok value
      | none => .error ⟨.valueError, "invalid literal for int()"⟩
  float text :=
    if spelled : isFloatRepr text.toList = true then .ok (.finite text spelled)
    else .error ⟨.valueError, "could not convert string to float"⟩
  loads text :=
    match Python.loads text with
    | .ok value => .ok value
    | .error exc => .error ⟨.other "JSONDecodeError", exc.text⟩
  loads_isJson read := by
    split at read
    · rename_i value isValue
      cases read
      exact isJson_of_loads isValue
    · cases read
  decimal_digit digit := digit
  lower_lower {text} lowered := by
    rw [← String.toList_inj, String.toList_map]
    refine (List.map_congr_left fun c member => ?_).trans (List.map_id _)
    have isLower : (decide (c.val ≥ 97) && decide (c.val ≤ 122)) = true := lowered c member
    rw [Bool.and_eq_true, decide_eq_true_eq] at isLower
    exact dif_neg fun upper => absurd (UInt32.le_trans isLower.1 upper.2) (by decide)

def toolProtocolError (text : String) : Exc := ⟨.other "ToolProtocolError", text⟩

/-- `isinstance(exc, ToolProtocolError)` -/
def isToolProtocolError (exc : Exc) : Bool := exc.cls = .other "ToolProtocolError"

/-- `isinstance(exc, json.JSONDecodeError)` -/
def isJsonDecodeError (exc : Exc) : Bool := exc.cls = .other "JSONDecodeError"

/-- `bool(value)` -/
def truthy : PyVal → Bool
  | .none => false
  | .bool value => value
  | .int value => value ≠ 0
  | .float value => value.toDouble ≠ .finite 0
  | .str text => text ≠ ""
  | .list items => !items.isEmpty
  | .dict fields => !fields.isEmpty
  | .object _ => true

/-- `value or default` for the value of a key that may be missing. -/
def orDefault (value : Option PyVal) (default : PyVal) : PyVal :=
  match value with
  | some value => if truthy value then value else default
  | none => default

/-! ### The markup -/

/-- `[^>\r\n]` -/
def isNameChar (c : Char) : Bool := c ≠ '>' && c ≠ '\r' && c ≠ '\n'

/-- `\s*` -/
def spaces : Piece Char := .run isPySpace 0 false false

/-- `([^>\r\n]+)` -/
def nameGroup : Piece Char := .run isNameChar 1 false true

/-- `(.*?)` with `re.DOTALL` -/
def lazyGroup : Piece Char := .run (fun _ => true) 0 true true

/-- `_TOOL_CALL_RE` -/
def toolCallRe : List (Piece Char) :=
  [.lit "<tool_call>".toList, spaces, .lit "<function=".toList, nameGroup, .lit ">".toList, spaces,
    lazyGroup, spaces, .lit "</function>".toList, spaces, .lit "</tool_call>".toList]

/-- `_PARAMETER_RE` -/
def parameterRe : List (Piece Char) :=
  [.lit "<parameter=".toList, nameGroup, .lit ">".toList, spaces, lazyGroup, spaces,
    .lit "</parameter>".toList]

/-- `_TOOL_MARKERS` -/
def toolMarkers : List String :=
  ["<tool_call", "</tool_call", "<function=", "</function", "<parameter=", "</parameter"]

/-- `any(marker in text for marker in _TOOL_MARKERS)` -/
def hasMarker (text : List Char) : Bool :=
  toolMarkers.any fun marker => decide (marker.toList <:+: text)

/-- `match.group(index)` -/
def group (found : Found Char) (index : Nat) : String :=
  String.ofList (found.groups.getD (index - 1) [])

/-! ### The offered tools -/

/-- `_function_specs`, from the specs collected so far. -/
def functionSpecs (specs : List (String × PyVal)) :
    List PyVal → Except Exc (List (String × PyVal))
  | [] => .ok specs
  | item :: rest =>
      match item.get? "type" with
      | some (.str "function") =>
          match item.get? "function" with
          | some (.dict function) =>
              match PyVal.lookup (.str "name") function with
              | some (.str name) =>
                  if pyStrip name = "" then
                    .error (toolProtocolError "tool function name must be non-empty text")
                  else if specs.any (fun spec => spec.1 == name) then
                    .error (toolProtocolError ("duplicate tool name: " ++ name))
                  else functionSpecs (specs ++ [(name, .dict function)]) rest
              | _ => .error (toolProtocolError "tool function name must be non-empty text")
          | _ => .error (toolProtocolError "tool function declaration must be an object")
      | _ => .error (toolProtocolError "tool declaration must be an OpenAI function tool")

/-! ### Parameters -/

section Conversion

variable (interpreter : Interpreter)

/-- `re.fullmatch(r"[+-]?\d+", text)` -/
def isIntegerText (text : List Char) : Bool :=
  let digits := match text with
    | '+' :: digits | '-' :: digits => digits
    | digits => digits
  digits ≠ [] && digits.all interpreter.isDecimal

/-- `json.loads(value)` for a declared object or array. -/
def coerceJson (name value declared : String) : Except Exc PyVal :=
  match interpreter.loads value with
  | .error exc =>
      if isJsonDecodeError exc then
        .error (toolProtocolError ("parameter " ++ interpreter.repr (.str name) ++
          " must contain valid JSON for type " ++ declared))
      else .error exc
  | .ok parsed =>
      match declared, parsed with
      | "object", .dict _ => .ok parsed
      | "array", .list _ => .ok parsed
      | "object", _ =>
          .error (toolProtocolError ("parameter " ++ interpreter.repr (.str name) ++
            " must be a JSON object"))
      | _, _ =>
          .error (toolProtocolError ("parameter " ++ interpreter.repr (.str name) ++
            " must be a JSON array"))

/-- `_coerce_parameter` for one declared type.  A dict is not hashable, so the test
`declared in {"object", "array"}` raises for it. -/
def coerceAs (name value : String) (declared : PyVal) : Except Exc PyVal :=
  let refuse (text : String) : Except Exc PyVal :=
    .error (toolProtocolError ("parameter " ++ interpreter.repr (.str name) ++ text))
  match declared with
  | .str "string" => .ok (.str value)
  | .str "integer" =>
      if isIntegerText interpreter value.toList then (interpreter.int value).map .int
      else refuse " must be an integer"
  | .str "number" =>
      match interpreter.float value with
      | .error exc => if exc.isValueError then refuse " must be a number" else .error exc
      | .ok parsed =>
          if parsed.toDouble.isFinite then .ok (.float parsed)
          else refuse " must be a finite number"
  | .str "boolean" =>
      if interpreter.lower value = "true" then .ok (.bool true)
      else if interpreter.lower value = "false" then .ok (.bool false)
      else refuse " must be boolean true/false"
  | .str "null" =>
      if interpreter.lower value = "null" then .ok .none else refuse " must be null"
  | .str "object" => coerceJson interpreter name value "object"
  | .str "array" => coerceJson interpreter name value "array"
  | .dict _ => .error ⟨.typeError, "unhashable type: 'dict'"⟩
  | declared =>
      .error (toolProtocolError ("unsupported parameter type for " ++
        interpreter.repr (.str name) ++ ": " ++ interpreter.repr declared))

mutual

/-- `_coerce_parameter` with the declared type of the schema. -/
def coerceDeclared (name raw : String) : PyVal → Except Exc PyVal
  | .list candidates => coerceCandidates name (pyStrip raw) [] candidates
  | declared => coerceAs interpreter name (pyStrip raw) declared

/-- The candidates of a list of types in their order, with the errors of those that failed. -/
def coerceCandidates (name value : String) (errors : List String) :
    List PyVal → Except Exc PyVal
  | [] =>
      .error (toolProtocolError ("parameter " ++ interpreter.repr (.str name) ++
        " does not match any declared type: " ++ pyJoin "; " errors))
  | candidate :: rest =>
      match coerceDeclared name value candidate with
      | .ok parsed => .ok parsed
      | .error exc =>
          if isToolProtocolError exc then coerceCandidates name value (errors ++ [exc.text]) rest
          else .error exc

end

/-- `_coerce_parameter` -/
def coerceParameter (name raw : String) (schema : PyVal) : Except Exc PyVal :=
  coerceDeclared interpreter name raw ((schema.get? "type").getD (.str "string"))

/-- The schema of one parameter. -/
def parameterSchema (parametersSchema properties : PyVal) (name : String) : Except Exc PyVal :=
  match properties.get? name with
  | none =>
      match parametersSchema.get? "additionalProperties" with
      | some (.bool false) => .error (toolProtocolError ("unknown parameter: " ++ name))
      | _ => .ok (.ofFields [("type", .str "string")])
  | some (.dict fields) => .ok (.dict fields)
  | some _ =>
      .error (toolProtocolError ("parameter schema for " ++ interpreter.repr (.str name) ++
        " must be an object"))

/-- The loop over the parameter elements. -/
def readParameters (parametersSchema properties : PyVal) :
    List (Found Char) → List (PyKey × PyVal) → Except Exc (List (PyKey × PyVal))
  | [], arguments => .ok arguments
  | found :: rest, arguments =>
      let name := pyStrip (group found 1)
      if (PyVal.lookup (.str name) arguments).isSome then
        .error (toolProtocolError ("duplicate parameter: " ++ name))
      else do
        let schema ← parameterSchema interpreter parametersSchema properties name
        let value ← coerceParameter interpreter name (group found 2) schema
        readParameters parametersSchema properties rest (insertField name value arguments)

/-- `function.get("parameters") or {"type": "object"}` -/
def declaredParameters (function : PyVal) : PyVal :=
  orDefault (function.get? "parameters") (.ofFields [("type", .str "object")])

/-- `parameters_schema.get("properties") or {}` -/
def declaredProperties (parametersSchema : PyVal) : PyVal :=
  orDefault (parametersSchema.get? "properties") (.dict [])

/-- The declared list of required parameters. -/
def requiredNames (name : String) (parametersSchema : PyVal) : Except Exc (List String) :=
  match orDefault (parametersSchema.get? "required") (.list []) with
  | .list items =>
      match items.mapM PyVal.asStr? with
      | some names => .ok names
      | none =>
          .error (toolProtocolError ("tool " ++ name ++
            " required declaration must be a string array"))
  | _ =>
      .error (toolProtocolError ("tool " ++ name ++ " required declaration must be a string array"))

/-- The arguments of a call, from the declaration of its function and the body of its element. -/
def readArguments (name : String) (function : PyVal) (body : List Char) :
    Except Exc (List (PyKey × PyVal)) := do
  let parametersSchema := declaredParameters function
  if !parametersSchema.isDict then
    .error (toolProtocolError ("tool " ++ name ++ " parameters schema must be an object"))
  else
    let properties := declaredProperties parametersSchema
    if !properties.isDict then
      .error (toolProtocolError ("tool " ++ name ++ " properties schema must be an object"))
    else if pyStrip (String.ofList (erase parameterRe body 0)) ≠ "" then
      .error (toolProtocolError "malformed content inside tool call")
    else do
      let arguments ←
        readParameters interpreter parametersSchema properties (finditer parameterRe body 0) []
      let required ← requiredNames name parametersSchema
      let missing := required.filter fun item => (PyVal.lookup (.str item) arguments).isNone
      if missing ≠ [] then
        .error (toolProtocolError ("required parameter(s) missing: " ++
          pyJoin ", " (missing.insertionSort (· ≤ ·))))
      else .ok arguments

/-- `parse_qwen_response`; `hex` is `uuid.uuid4().hex`, and the messages are not looked at. -/
def parseQwenResponse (hex text : String) (tools _messages : List PyVal) : Except Exc PyVal :=
  match finditer toolCallRe text.toList 0 with
  | [] =>
      if hasMarker text.toList then
        .error (toolProtocolError "malformed Qwen tool-call markup")
      else if pyStrip text = "" then .error (toolProtocolError "model returned empty text")
      else .ok (.ofFields [("content", .str (pyStrip text)), ("kind", .str "text")])
  | [found] =>
      let suffix := pyStrip (String.ofList found.rest)
      if suffix ≠ "" ∧ hasMarker suffix.toList then
        .error (toolProtocolError "tool call suffix contains additional tool markup")
      else do
        let name := pyStrip (group found 1)
        let specs ← functionSpecs [] tools
        match specs.find? fun spec => spec.1 == name with
        | none => .error (toolProtocolError ("model called unknown tool: " ++ name))
        | some (_, function) =>
            let arguments ← readArguments interpreter name function (group found 2).toList
            .ok (.ofFields [("arguments", .dict arguments), ("kind", .str "tool_call"),
              ("name", .str name), ("request_id", .str ("call_" ++ hex))])
  | _ => .error (toolProtocolError "exactly one tool call is permitted")

end Conversion

/-! ### The message -/

/-- `to_openai_message`: the message and the finish reason. -/
def toOpenaiMessage (interpreter : Interpreter) (parsed : PyVal) : Except Exc (PyVal × String) :=
  match parsed.get? "kind" with
  | some (.str "text") =>
      match parsed.get? "content" with
      | some (.str content) =>
          if content = "" then .error (toolProtocolError "text result requires non-empty content")
          else .ok (.ofFields [("content", .str content), ("role", .str "assistant")], "stop")
      | _ => .error (toolProtocolError "text result requires non-empty content")
  | some (.str "tool_call") =>
      match parsed.get? "request_id", parsed.get? "name", parsed.get? "arguments" with
      | some (.str requestId), some (.str name), some (.dict arguments) =>
          if requestId = "" then .error (toolProtocolError "tool result requires request_id")
          else if name = "" then .error (toolProtocolError "tool result requires name")
          else do
            let text ← dumps canonicalStyle (.dict arguments)
            .ok (.ofFields [("content", .none), ("role", .str "assistant"),
              ("tool_calls", .list [.ofFields
                [("function", .ofFields [("arguments", .str text), ("name", .str name)]),
                  ("id", .str requestId), ("type", .str "function")]])], "tool_calls")
      | some (.str requestId), some (.str name), _ =>
          if requestId = "" then .error (toolProtocolError "tool result requires request_id")
          else if name = "" then .error (toolProtocolError "tool result requires name")
          else .error (toolProtocolError "tool result arguments must be an object")
      | some (.str requestId), _, _ =>
          if requestId = "" then .error (toolProtocolError "tool result requires request_id")
          else .error (toolProtocolError "tool result requires name")
      | _, _, _ => .error (toolProtocolError "tool result requires request_id")
  | kind =>
      .error (toolProtocolError ("unknown parsed response kind: " ++
        interpreter.repr (kind.getD .none)))

end PreActive.Bridge
