/-
Module: PreActive.Bridge.EndToEnd
Purpose: What the bridge parses out of a model text arrives in the kernel, and its arguments have
  the types that the offered tool declares.
Trusted boundary: human-reviewed spec of well-typed arguments
Main exports: ReadsDumps, Typed, parse_ok, deliver_toolCall, parsed_arrives
-/
import PreActive.Bridge.Adapter
import PreActive.Bridge.FailClosed

namespace PreActive.Bridge

open PreActive.Foundation PreActive.Python PreActive.Kernel

variable {interpreter : Interpreter}

/-! ### Converted values -/

/-- The types that a schema declares: one, or those of a list. -/
def DeclaresTypes (declared : PyVal) (types : List String) : Prop :=
  (∃ type, declared = .str type ∧ types = [type]) ∨ declared = .list (types.map .str)

theorem coerceJson_ok {name text declared : String} {value : PyVal}
    (converted : coerceJson interpreter name text declared = .ok value) :
    isJson value = true ∧ jsonTypeMatches value declared = .ok true := by
  unfold coerceJson at converted
  split at converted
  · split at converted <;> cases converted
  · rename_i parsed isParsed
    have json := interpreter.loads_isJson isParsed
    split at converted
    · cases converted
      exact ⟨json, rfl⟩
    · cases converted
      exact ⟨json, rfl⟩
    · cases converted
    · cases converted

/-- A value of one declared type is a JSON value that the kernel accepts for that type. -/
theorem coerceAs_ok {name text : String} {declared value : PyVal}
    (converted : coerceAs interpreter name text declared = .ok value) :
    isJson value = true ∧
      ∀ type, declared = .str type → jsonTypeMatches value type = .ok true := by
  unfold coerceAs at converted
  split at converted
  · cases converted
    exact ⟨rfl, fun type same => by cases same; rfl⟩
  · split at converted
    · cases isInt : interpreter.int text with
      | error exc =>
          rw [isInt] at converted
          cases converted
      | ok number =>
          rw [isInt] at converted
          cases converted
          exact ⟨rfl, fun type same => by cases same; rfl⟩
    · cases converted
  · split at converted
    · split at converted <;> cases converted
    · rename_i number isFloat
      split at converted
      · rename_i finite
        cases converted
        refine ⟨rfl, fun type same => ?_⟩
        cases same
        exact congrArg Except.ok finite
      · cases converted
  · split at converted
    · cases converted
      exact ⟨rfl, fun type same => by cases same; rfl⟩
    · split at converted
      · cases converted
        exact ⟨rfl, fun type same => by cases same; rfl⟩
      · cases converted
  · split at converted
    · cases converted
      exact ⟨rfl, fun type same => by cases same; rfl⟩
    · cases converted
  · obtain ⟨json, isType⟩ := coerceJson_ok converted
    exact ⟨json, fun type same => by cases same; exact isType⟩
  · obtain ⟨json, isType⟩ := coerceJson_ok converted
    exact ⟨json, fun type same => by cases same; exact isType⟩
  · cases converted
  · cases converted

mutual

/-- A converted value is a JSON value that the kernel accepts for one of the declared types. -/
theorem coerceDeclared_ok {name raw : String} {value : PyVal} : ∀ declared,
    coerceDeclared interpreter name raw declared = .ok value →
      isJson value = true ∧ ∀ types, DeclaresTypes declared types →
        ∃ type ∈ types, jsonTypeMatches value type = .ok true
  | .list candidates, converted => by
      rw [coerceDeclared] at converted
      obtain ⟨json, matched⟩ := coerceCandidates_ok candidates converted
      refine ⟨json, ?_⟩
      rintro types (⟨_, ⟨⟩, _⟩ | same)
      cases same
      exact matched types rfl
  | .none, converted | .bool _, converted | .int _, converted | .float _, converted
  | .str _, converted | .dict _, converted | .object _, converted => by
      simp only [coerceDeclared] at converted
      obtain ⟨json, matched⟩ := coerceAs_ok converted
      refine ⟨json, ?_⟩
      rintro types (⟨type, same, rfl⟩ | same)
      · exact ⟨type, List.mem_singleton_self type, matched type same⟩
      · cases same

theorem coerceCandidates_ok {name text : String} {errors : List String} {value : PyVal} :
    ∀ candidates, coerceCandidates interpreter name text errors candidates = .ok value →
      isJson value = true ∧ ∀ types : List String, candidates = types.map .str →
        ∃ type ∈ types, jsonTypeMatches value type = .ok true
  | [], converted => by
      rw [coerceCandidates] at converted
      cases converted
  | candidate :: rest, converted => by
      rw [coerceCandidates] at converted
      split at converted
      · rename_i parsed isParsed
        cases converted
        obtain ⟨json, matched⟩ := coerceDeclared_ok candidate isParsed
        refine ⟨json, fun types same => ?_⟩
        cases types with
        | nil => cases same
        | cons type types =>
            obtain ⟨rfl, _⟩ := List.cons.inj same
            obtain ⟨found, member, isType⟩ := matched [type] (.inl ⟨type, rfl, rfl⟩)
            exact ⟨type, List.mem_cons_self, List.mem_singleton.1 member ▸ isType⟩
      · split at converted
        · obtain ⟨json, matched⟩ := coerceCandidates_ok rest converted
          refine ⟨json, fun types same => ?_⟩
          cases types with
          | nil => cases same
          | cons type types =>
              obtain ⟨_, others⟩ := List.cons.inj same
              obtain ⟨found, member, isType⟩ := matched types others
              exact ⟨found, List.mem_cons_of_mem _ member, isType⟩
        · cases converted

end

/-! ### Parsed texts -/

/-- The result for a text. -/
def textResult (content : String) : PyVal :=
  .ofFields [("content", .str content), ("kind", .str "text")]

/-- A parsed text is a text that is not empty or a call that was read. -/
theorem parse_ok {hex text : String} {tools messages : List PyVal} {result : PyVal}
    (parsed : parseQwenResponse interpreter hex text tools messages = .ok result) :
    (∃ content, content ≠ "" ∧ result = textResult content) ∨
      ∃ name function body values, Offered tools name function ∧
        Readable interpreter function body values ∧ result =
          callResult hex name (insertFields [] (argumentsOf (finditer parameterRe body 0) values)) := by
  match isFound : finditer toolCallRe text.toList 0 with
  | [] =>
      rw [parseQwenResponse, isFound] at parsed
      dsimp only at parsed
      split at parsed
      · cases parsed
      · split at parsed
        · cases parsed
        · rename_i nonempty
          cases parsed
          exact .inl ⟨pyStrip text, nonempty, rfl⟩
  | first :: second :: more =>
      rw [parseQwenResponse, isFound] at parsed
      cases parsed
  | [found] =>
      obtain ⟨before, here, only⟩ := finditer_eq_singleton.1 isFound
      by_cases refused : hasMarker found.rest = true ∨
          ∀ function, ¬ Offered tools (pyStrip (group found 1)) function
      · obtain ⟨exc, isError, _⟩ := @parse_not_offered interpreter hex text tools messages _ _ _ only
          refused
        cases parsed.symm.trans isError
      · rw [not_or, Bool.not_eq_true, not_forall_not] at refused
        obtain ⟨clean, function, offered⟩ := refused
        rw [parse_offered only clean offered] at parsed
        cases isRead : readArguments interpreter (pyStrip (group found 1)) function
            (group found 2).toList with
        | error exc =>
            rw [isRead] at parsed
            cases parsed
        | ok arguments =>
            rw [isRead] at parsed
            cases parsed
            obtain ⟨values, readable, rfl⟩ := readArguments_eq_ok.1 isRead
            exact .inr ⟨_, function, _, values, offered, readable, rfl⟩

/-! ### Offered tools -/

/-- The declaration of the function of a tool. -/
def functionOf (spec : ToolSpec) : PyVal :=
  .ofFields [("description", .str spec.description), ("name", .str spec.name),
    ("parameters", spec.inputSchema.value)]

theorem functionSpecs_declared {specs : List ToolSpec} {collected result : List (String × PyVal)}
    (accepted : functionSpecs collected (specs.map toolDeclaration) = .ok result) :
    result = collected ++ specs.map (fun spec => (spec.name, functionOf spec)) ∧
      ∀ spec ∈ specs, spec.name ≠ "" := by
  induction specs generalizing collected with
  | nil =>
      cases accepted
      simp
  | cons spec specs ih =>
      have kind : (toolDeclaration spec).get? "type" = some (.str "function") := rfl
      have function : (toolDeclaration spec).get? "function" = some (functionOf spec) := rfl
      have named : PyVal.lookup (.str "name") [(.str "description", .str spec.description),
        (.str "name", .str spec.name), (.str "parameters", spec.inputSchema.value)] =
          some (.str spec.name) := rfl
      rw [List.map_cons, functionSpecs, kind, function] at accepted
      simp only [functionOf, PyVal.ofFields, List.map_cons, List.map_nil, named] at accepted
      split at accepted
      · cases accepted
      · rename_i visible
        split at accepted
        · cases accepted
        · obtain ⟨rfl, others⟩ := ih accepted
          refine ⟨by simp [functionOf, PyVal.ofFields], List.forall_mem_cons.2 ⟨?_, others⟩⟩
          intro empty
          rw [empty] at visible
          exact visible rfl

/-- The offered tools are those of the request. -/
theorem offeredTools_buildPayload (model : String) (messages : List PyVal) (specs : List ToolSpec) :
    offeredTools (buildPayload model messages specs) = specs.map toolDeclaration := by
  cases specs with
  | nil => rfl
  | cons spec specs => rfl

theorem offered_spec {specs : List ToolSpec} {name : String} {function : PyVal}
    (offered : Offered (specs.map toolDeclaration) name function) :
    ∃ spec ∈ specs, spec.name = name ∧ spec.name ≠ "" ∧ function = functionOf spec := by
  obtain ⟨collected, accepted, found⟩ := offered
  obtain ⟨rfl, named⟩ := functionSpecs_declared accepted
  obtain ⟨spec, member, same⟩ := List.mem_map.1 (List.mem_of_find?_eq_some found)
  exact ⟨spec, member, congrArg Prod.fst same, named spec member, (congrArg Prod.snd same).symm⟩

/-! ### The arguments -/

/-- The arguments of a call as the schema of its tool describes them. -/
structure Typed (schema : PyVal) (arguments : List (PyKey × PyVal)) : Prop where
  required : ∀ names : List String, schema.get? "required" = some (.list (names.map .str)) →
    ∀ name ∈ names, (PyVal.lookup (.str name) arguments).isSome = true
  known : schema.get? "additionalProperties" = some (.bool false) →
    ∀ key value, PyVal.lookup key arguments = some value → ∃ name properties property,
      key = .str name ∧ schema.get? "properties" = some properties ∧
        properties.get? name = some property
  typed : ∀ properties name property declared types value,
    schema.get? "properties" = some properties → properties.get? name = some property →
      property.get? "type" = some declared → DeclaresTypes declared types →
        PyVal.lookup (.str name) arguments = some value →
          ∃ type ∈ types, jsonTypeMatches value type = .ok true

theorem mem_argumentsOf {schema properties : PyVal} {founds : List (Found Char)}
    {values : List PyVal} (converts : List.Forall₂ (Converts interpreter schema properties) founds
      values) {name : String} {value : PyVal} (member : (name, value) ∈ argumentsOf founds values) :
    ∃ found, name = parameterName found ∧ Converts interpreter schema properties found value := by
  induction converts with
  | nil => cases member
  | cons first _ ih =>
      rcases List.mem_cons.1 member with same | later
      · cases same
        exact ⟨_, rfl, first⟩
      · exact ih later

/-- A value that counts as false has no members. -/
theorem get_of_falsy {value : PyVal} (empty : ¬ truthy value = true) (key : String) :
    value.get? key = none := by
  cases value with
  | dict fields =>
      cases fields with
      | nil => rfl
      | cons field fields => exact absurd rfl empty
  | _ => rfl

/-- An empty schema declares as little as the one that stands in for it. -/
theorem declaredParameters_get (spec : ToolSpec) {key : String} (other : key ≠ "type") :
    (declaredParameters (functionOf spec)).get? key = spec.inputSchema.value.get? key := by
  have parameters : (functionOf spec).get? "parameters" = some spec.inputSchema.value := rfl
  rw [declaredParameters, parameters, orDefault]
  split
  · rfl
  · rename_i empty
    rw [get_of_falsy empty]
    simp [PyVal.ofFields, PyVal.get?, PyVal.lookup, other.symm]

/-- A property is declared by a dict of properties that is not empty. -/
theorem declaredProperties_get {schema : PyVal} {name : String} {property : PyVal} :
    (declaredProperties schema).get? name = some property ↔
      ∃ properties, schema.get? "properties" = some properties ∧
        properties.get? name = some property := by
  rw [declaredProperties]
  cases schema.get? "properties" with
  | none => simp [orDefault, PyVal.get?, PyVal.lookup]
  | some properties =>
      rw [orDefault]
      split
      · simp
      · rename_i empty
        have none := get_of_falsy empty name
        constructor
        · intro impossible
          cases impossible
        · rintro ⟨_, ⟨⟩, found⟩
          cases none.symm.trans found

section Reading

variable {spec : ToolSpec} {body : List Char} {values : List PyVal}

theorem distinct_members (readable : Readable interpreter (functionOf spec) body values) :
    ((argumentsOf (finditer parameterRe body 0) values).map Prod.fst).Nodup := by
  rw [argumentsOf_names readable.converts.length_eq]
  exact readable.distinct

/-- The arguments of a call that was read are JSON values. -/
theorem Readable.isJson (readable : Readable interpreter (functionOf spec) body values) :
    isJson (.dict (insertFields [] (argumentsOf (finditer parameterRe body 0) values))) = true := by
  refine isJson_ofMembers fun member inside => ?_
  obtain ⟨found, _, declared, _, converted⟩ := mem_argumentsOf readable.converts inside
  exact (coerceDeclared_ok _ converted).1

/-- The arguments of a call that was read are as the tool declares them. -/
theorem Readable.typed (readable : Readable interpreter (functionOf spec) body values) :
    Typed spec.inputSchema.value
      (insertFields [] (argumentsOf (finditer parameterRe body 0) values)) where
  required names isRequired name member := by
    obtain ⟨names', isNames, covered⟩ := readable.required
    rw [declaredParameters_get spec (by decide), isRequired] at isNames
    have same : names.map PyVal.str = names'.map .str := by
      rw [orDefault] at isNames
      split at isNames
      · exact PyVal.list.inj isNames
      · rename_i empty
        cases names with
        | nil => exact PyVal.list.inj isNames
        | cons first rest => exact absurd rfl empty
    obtain rfl := List.map_injective_iff.2 (fun _ _ => PyVal.str.inj) same
    have written := covered name member
    rw [← argumentsOf_names readable.converts.length_eq] at written
    obtain ⟨argument, inside, rfl⟩ := List.mem_map.1 written
    exact Option.isSome_iff_exists.2
      ⟨argument.2, (lookup_members (distinct_members readable)).2 ⟨_, rfl, inside⟩⟩
  known closed key value found := by
    obtain ⟨name, rfl, inside⟩ := (lookup_members (distinct_members readable)).1 found
    obtain ⟨element, rfl, declared, isSchema, _⟩ := mem_argumentsOf readable.converts inside
    cases isProperty : (declaredProperties (declaredParameters (functionOf spec))).get?
        (parameterName element) with
    | none =>
        rw [parameterSchema, isProperty, declaredParameters_get spec (by decide), closed] at isSchema
        cases isSchema
    | some property =>
        obtain ⟨properties, isProperties, listed⟩ := declaredProperties_get.1 isProperty
        rw [declaredParameters_get spec (by decide)] at isProperties
        exact ⟨_, properties, property, rfl, isProperties, listed⟩
  typed properties name property declared types value isProperties listed isDeclared declares
      found := by
    obtain ⟨_, same, inside⟩ := (lookup_members (distinct_members readable)).1 found
    cases same
    obtain ⟨element, rfl, schema, isSchema, converted⟩ := mem_argumentsOf readable.converts inside
    have isProperty : (declaredProperties (declaredParameters (functionOf spec))).get?
        (parameterName element) = some property := by
      refine declaredProperties_get.2 ⟨properties, ?_, listed⟩
      rw [declaredParameters_get spec (by decide), isProperties]
    rw [parameterSchema, isProperty] at isSchema
    cases property with
    | dict fields =>
        cases isSchema
        rw [coerceParameter, isDeclared, Option.getD_some] at converted
        exact (coerceDeclared_ok declared converted).2 types declares
    | _ => cases isDeclared

end Reading

/-! ### The way to the kernel -/

/-- `json.loads` reads what `json.dumps` writes. -/
def ReadsDumps (interpreter : Interpreter) : Prop :=
  ∀ {style : JsonStyle} {value : PyVal} {text : String}, isJson value = true →
    dumps style value = .ok text → interpreter.loads text = .ok value

theorem isJson_ofFields {fields : List (String × PyVal)} (names : List String)
    (named : fields.map Prod.fst = names) (ascending : names.Pairwise (· < ·))
    (json : ∀ field ∈ fields, isJson field.2 = true) : isJson (.ofFields fields) = true :=
  (JsonObject.ofFields fields (named ▸ ascending) json).isJson

theorem isJson_completion (model finishReason : String) {message : PyVal}
    (json : isJson message = true) : isJson (completion model message finishReason) = true := by
  have choice : isJson (.ofFields [("finish_reason", .str finishReason), ("index", .int 0),
      ("message", message)]) = true :=
    isJson_ofFields ["finish_reason", "index", "message"] rfl (by decide) (by simp [isJson, json])
  refine isJson_ofFields ["choices", "id", "model", "object"] rfl (by decide) ?_
  simp [isJson, isJsonItems, choice]

/-- A message arrives as `parse_response` reads it. -/
theorem deliver_message (reads : ReadsDumps interpreter) {model finishReason : String}
    {parsed message : PyVal}
    (isMessage : toOpenaiMessage interpreter parsed = .ok (message, finishReason))
    (json : isJson message = true) : deliver interpreter model parsed =
      parseResponse interpreter (completion model message finishReason) := by
  have whole := isJson_completion model finishReason json
  obtain ⟨body, written, _⟩ := loads_dumps defaultStyle whole
  have isDict : (completion model message finishReason).isDict = true := rfl
  simp only [deliver, isMessage, written, reads whole written, isDict, bind, Except.bind]
  rfl

theorem deliver_text (reads : ReadsDumps interpreter) (model : String) {content : String}
    (nonempty : content ≠ "") :
    deliver interpreter model (textResult content) = .ok (.finalText content) := by
  have kind : (textResult content).get? "kind" = some (.str "text") := rfl
  have text : (textResult content).get? "content" = some (.str content) := rfl
  have isMessage : toOpenaiMessage interpreter (textResult content) =
      .ok (.ofFields [("content", .str content), ("role", .str "assistant")], "stop") := by
    simp only [toOpenaiMessage, kind, text, if_neg nonempty]
  have json : isJson (.ofFields [("content", .str content), ("role", .str "assistant")]) = true :=
    isJson_ofFields ["content", "role"] rfl (by decide) (by simp [isJson])
  rw [deliver_message reads isMessage json]
  rfl

/-- The text of an object is not empty. -/
theorem text_ne_empty (style : JsonStyle) (object : JsonObject) : object.text style ≠ "" := by
  intro empty
  have read := object.loads_text style
  have refused : loads "" = .error ⟨.valueError, "Expecting value"⟩ := rfl
  rw [empty, refused] at read
  cases read

/-- The structured call of a message is read. -/
theorem readToolCall_ok {requestId name : String} {object : JsonObject}
    (read : interpreter.loads (object.text canonicalStyle) = .ok object.value) :
    readToolCall interpreter (.ofFields [("function", .ofFields
      [("arguments", .str (object.text canonicalStyle)), ("name", .str name)]),
      ("id", .str requestId), ("type", .str "function")]) =
        .ok (.toolCall ⟨requestId, name, object⟩) := by
  have shown : truthy (.str (object.text canonicalStyle)) = true := by
    simp [truthy, text_ne_empty]
  simp [readToolCall, PyVal.ofFields, PyVal.get?, PyVal.lookup, orDefault, shown, read, pyStr]

theorem deliver_toolCall (reads : ReadsDumps interpreter) (model hex : String) {name : String}
    (nonempty : name ≠ "") {fields : List (PyKey × PyVal)} (object : JsonObject)
    (same : object.value = .dict fields) :
    deliver interpreter model (callResult hex name fields) =
      .ok (.toolCall ⟨"call_" ++ hex, name, object⟩) := by
  have kind : (callResult hex name fields).get? "kind" = some (.str "tool_call") := rfl
  have requestId : (callResult hex name fields).get? "request_id" =
      some (.str ("call_" ++ hex)) := rfl
  have named : (callResult hex name fields).get? "name" = some (.str name) := rfl
  have arguments : (callResult hex name fields).get? "arguments" = some (.dict fields) := rfl
  have prefixed : "call_" ++ hex ≠ "" := by
    intro empty
    have letters := congrArg String.toList empty
    rw [String.toList_append] at letters
    cases letters
  have written := object.dumps_eq canonicalStyle
  rw [same] at written
  have isMessage : toOpenaiMessage interpreter (callResult hex name fields) =
      .ok (.ofFields [("content", .none), ("role", .str "assistant"),
        ("tool_calls", .list [.ofFields [("function", .ofFields
          [("arguments", .str (object.text canonicalStyle)), ("name", .str name)]),
          ("id", .str ("call_" ++ hex)), ("type", .str "function")]])], "tool_calls") := by
    simp only [toOpenaiMessage, kind, requestId, named, arguments, if_neg prefixed, if_neg nonempty,
      written]
    rfl
  have function : isJson (.ofFields [("arguments", .str (object.text canonicalStyle)),
      ("name", .str name)]) = true :=
    isJson_ofFields ["arguments", "name"] rfl (by decide) (by simp [isJson])
  have call : isJson (.ofFields [("function", .ofFields [("arguments", .str (object.text
      canonicalStyle)), ("name", .str name)]), ("id", .str ("call_" ++ hex)),
      ("type", .str "function")]) = true :=
    isJson_ofFields ["function", "id", "type"] rfl (by decide) (by simp [isJson, function])
  rw [deliver_message reads isMessage (isJson_ofFields ["content", "role", "tool_calls"] rfl
    (by decide) (by simp [isJson, isJsonItems, call]))]
  exact readToolCall_ok (reads object.isJson (object.dumps_eq canonicalStyle))

/-- What is parsed out of a model text, with the tools of a request offered, arrives in the kernel:
a text as the same text, a call as a call of an offered tool with the same id and the same,
well-typed arguments. -/
theorem parsed_arrives (reads : ReadsDumps interpreter) (model modelId hex text : String)
    (messages : List PyVal) (specs : List ToolSpec) {result : PyVal}
    (parsed : parseQwenResponse interpreter hex text
      (offeredTools (buildPayload model messages specs)) messages = .ok result) :
    (∃ content, content ≠ "" ∧ result = textResult content ∧
      deliver interpreter modelId result = .ok (.finalText content)) ∨
    ∃ spec ∈ specs, ∃ fields, ∃ arguments : JsonObject, arguments.value = .dict fields ∧
      result = callResult hex spec.name fields ∧
        deliver interpreter modelId result =
          .ok (.toolCall ⟨"call_" ++ hex, spec.name, arguments⟩) ∧
        Typed spec.inputSchema.value fields := by
  rcases parse_ok parsed with ⟨content, nonempty, rfl⟩ | ⟨name, function, body, values, offered,
    readable, rfl⟩
  · exact .inl ⟨content, nonempty, rfl, deliver_text reads modelId nonempty⟩
  · rw [offeredTools_buildPayload] at offered
    obtain ⟨spec, member, rfl, nonempty, rfl⟩ := offered_spec offered
    exact .inr ⟨spec, member, _, ⟨_, rfl, readable.isJson⟩, rfl, rfl,
      deliver_toolCall reads modelId hex nonempty _ rfl, readable.typed⟩

theorem plainInterpreter_readsDumps : ReadsDumps plainInterpreter := by
  intro style value text json written
  obtain ⟨text', written', read⟩ := loads_dumps style json
  obtain rfl := Except.ok.inj (written.symm.trans written')
  simp only [plainInterpreter, read]

/-- A tool with one integer parameter. -/
def doubleSpec : ToolSpec where
  name := "math.double"
  description := "Doubles an integer."
  inputSchema := .ofFields [("additionalProperties", .bool false),
    ("properties", .ofFields [("value", .ofFields [("type", .str "integer")])]),
    ("required", .list [.str "value"]), ("type", .str "object")] (by decide) (by decide)
  capability := "math"
  mutation := false

set_option maxRecDepth 10000 in
theorem parsed_arrives_double : ∃ result, parseQwenResponse plainInterpreter "0"
    "<tool_call><function=math.double><parameter=value>6</parameter></function></tool_call>"
    (offeredTools (buildPayload "local" [] [doubleSpec])) [] = .ok result ∧
      ((∃ content, content ≠ "" ∧ result = textResult content ∧
        deliver plainInterpreter "local" result = .ok (.finalText content)) ∨
      ∃ spec ∈ [doubleSpec], ∃ fields, ∃ arguments : JsonObject, arguments.value = .dict fields ∧
        result = callResult "0" spec.name fields ∧
          deliver plainInterpreter "local" result =
            .ok (.toolCall ⟨"call_" ++ "0", spec.name, arguments⟩) ∧
          Typed spec.inputSchema.value fields) := by
  have parses : (parseQwenResponse plainInterpreter "0"
      "<tool_call><function=math.double><parameter=value>6</parameter></function></tool_call>"
      (offeredTools (buildPayload "local" [] [doubleSpec])) []).isOk = true := by decide +kernel
  cases parsed : parseQwenResponse plainInterpreter "0"
      "<tool_call><function=math.double><parameter=value>6</parameter></function></tool_call>"
      (offeredTools (buildPayload "local" [] [doubleSpec])) [] with
  | error exc =>
      rw [parsed] at parses
      cases parses
  | ok result =>
      exact ⟨result, rfl, parsed_arrives plainInterpreter_readsDumps "local" "local" "0" _ []
        [doubleSpec] parsed⟩

end PreActive.Bridge
