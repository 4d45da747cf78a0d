/-
Module: PreActive.Bridge.Service
Purpose: `qwen_http.py` and `respond` of `providers/openai_compatible.py`: the model service, and
  the adapter that asks it over HTTP.
Trusted boundary: human-reviewed spec
Main exports:
  HttpReply, Service, Service.doGet, Service.doPost, Adapter, Adapter.respond, Arrives,
  respond_arrives, Faithful, respond_faithful
-/
import PreActive.Bridge.EndToEnd
import PreActive.Kernel.Interrupts

namespace PreActive.Bridge

open PreActive.Foundation PreActive.Python PreActive.Kernel

/-! ### The service -/

/-- The status and the body of a reply. -/
structure HttpReply where
  status : Nat
  body : String
deriving DecidableEq

/-- `send_json` -/
def sendJson (status : Nat) (payload : PyVal) : Except Exc HttpReply :=
  (dumps defaultStyle payload).map (HttpReply.mk status)

/-- `{"error": text}` -/
def errorPayload (text : String) : PyVal := .ofFields [("error", .str text)]

/-- `type(value).__name__` -/
def typeName : PyVal → String
  | .none => "NoneType"
  | .bool _ => "bool"
  | .int _ => "int"
  | .float _ => "float"
  | .str _ => "str"
  | .list _ => "list"
  | .dict _ => "dict"
  | .object className => className

/-- `isinstance(value, list) and all(isinstance(item, dict) for item in value)` -/
def objects? : PyVal → Option (List PyVal)
  | .list items => if items.all PyVal.isDict then some items else none
  | _ => none

/-- The model service: the name of its model, and `generate`. -/
structure Service where
  modelId : String
  generate : List PyVal → List PyVal → Except Exc String

/-- What a client gets when its connection is closed without a reply. -/
def remoteDisconnected : Exc :=
  ⟨.other "RemoteDisconnected", "Remote end closed connection without response"⟩

namespace Service

/-- `do_GET` -/
def doGet (service : Service) (path : String) : Except Exc HttpReply :=
  if path = "/v1/models" then
    sendJson 200 (.ofFields
      [("data", .list [.ofFields [("id", .str service.modelId), ("object", .str "model")]]),
        ("object", .str "list")])
  else sendJson 404 (errorPayload "not found")

variable (service : Service) (interpreter : Interpreter) (hex : String)

/-- The `try` block of `do_POST`, on the body or what reading it raises. -/
def chat (body : Except Exc String) : Except Exc HttpReply := do
  let text ← body
  let request ← interpreter.loads text
  if !request.isDict then
    .error ⟨.other "AttributeError", "'" ++ typeName request ++ "' object has no attribute 'get'"⟩
  else
    match objects? ((request.get? "messages").getD .none) with
    | none => valueError "messages must be an array of objects"
    | some messages =>
        match objects? (orDefault (request.get? "tools") (.list [])) with
        | none => valueError "tools must be an array of objects"
        | some tools => do
            let raw ← service.generate messages tools
            let parsed ← parseQwenResponse interpreter hex raw tools messages
            let (message, finishReason) ← toOpenaiMessage interpreter parsed
            sendJson 200 (completion service.modelId message finishReason)

/-- `do_POST`; what is no `Exception` leaves the handler. -/
def doPost (path : String) (body : Except Exc String) : Except Exc HttpReply :=
  if path ≠ "/v1/chat/completions" then sendJson 404 (errorPayload "not found")
  else
    match service.chat interpreter hex body with
    | .ok reply => .ok reply
    | .error exc =>
        if isToolProtocolError exc then
          sendJson 422 (errorPayload ("ToolProtocolError: " ++ exc.text))
        else if Exc.isException exc then sendJson 500 (errorPayload exc.render)
        else .error exc

/-- The other end of the connection: a handler that is left closes it without a reply. -/
def exchange (path body : String) : Except Exc HttpReply :=
  match service.doPost interpreter hex path (.ok body) with
  | .ok reply => .ok reply
  | .error _ => .error remoteDisconnected

end Service

/-! ### The adapter -/

/-- `text.rstrip("/")` -/
def rstripSlash (text : String) : String :=
  String.ofList ((text.toList.reverse.dropWhile (· == '/')).reverse)

/-- An `OpenAICompatibleAdapter`. -/
structure Adapter where
  baseUrl : String
  model : String

/-- `OpenAICompatibleAdapter.__init__` -/
def Adapter.init (baseUrl model : String) : Except Exc Adapter :=
  if pyStrip baseUrl = "" ∨ pyStrip model = "" then valueError "base_url and model are required"
  else .ok ⟨rstripSlash baseUrl, model⟩

section Client

-- `phrase` is the reason phrase of a status
variable (interpreter : Interpreter) (phrase : Nat → String)

/-- What `urlopen` raises for a status that is no success. -/
def httpError (status : Nat) : Exc :=
  ⟨.other "HTTPError", "HTTP Error " ++ toString status ++ ": " ++ phrase status⟩

/-- `urlopen(...).read()` -/
def readReply (reply : HttpReply) : Except Exc String :=
  if 200 ≤ reply.status ∧ reply.status < 300 then .ok reply.body
  else .error (httpError phrase reply.status)

/-- `respond`, over a network that posts a body to a url. -/
def Adapter.respond (adapter : Adapter) (post : String → String → Except Exc HttpReply)
    (messages : List PyVal) (tools : List ToolSpec) : Except Exc ModelResponse := do
  let body ← dumps defaultStyle (buildPayload adapter.model messages tools)
  let reply ← post (adapter.baseUrl ++ "/chat/completions") body
  let raw ← readReply phrase reply
  let parsed ← interpreter.loads raw
  if !parsed.isDict then valueError "provider response must be a JSON object"
  else parseResponse interpreter parsed

end Client

/-- A message of the kernel as the adapter gets it. -/
def messageValue (message : Message) : PyVal :=
  .ofFields [("content", .str message.content), ("role", .str message.role.text)]

/-! ### The request -/

variable {interpreter : Interpreter}

theorem isJson_messageValue (message : Message) : isJson (messageValue message) = true :=
  isJson_ofFields ["content", "role"] rfl (by decide) (by simp [isJson])

theorem isJson_toolDeclaration (spec : ToolSpec) : isJson (toolDeclaration spec) = true := by
  have function : isJson (functionOf spec) = true :=
    isJson_ofFields ["description", "name", "parameters"] rfl (by decide)
      (by simp [isJson, spec.inputSchema.isJson])
  refine isJson_ofFields ["function", "type"] rfl (by decide) ?_
  simpa [isJson, functionOf] using function

/-- The request of a worker is JSON. -/
theorem isJson_buildPayload (model : String) (messages : List Message) (specs : List ToolSpec) :
    isJson (buildPayload model (messages.map messageValue) specs) = true := by
  have shown : isJsonItems (messages.map messageValue) = true := by
    rw [isJsonItems_iff]
    intro item member
    obtain ⟨message, _, rfl⟩ := List.mem_map.1 member
    exact isJson_messageValue message
  have offered : isJsonItems (specs.map toolDeclaration) = true := by
    rw [isJsonItems_iff]
    intro item member
    obtain ⟨spec, _, rfl⟩ := List.mem_map.1 member
    exact isJson_toolDeclaration spec
  rw [buildPayload]
  split
  · exact isJson_ofFields ["messages", "model"] rfl (by decide) (by simp [isJson, shown])
  · exact isJson_ofFields ["messages", "model", "parallel_tool_calls", "tool_choice", "tools"] rfl
      (by decide) (by simp [isJson, shown, offered])

/-- The service takes the messages out of the request of a worker. -/
theorem objects_messages (model : String) (messages : List Message) (specs : List ToolSpec) :
    objects? (((buildPayload model (messages.map messageValue) specs).get? "messages").getD .none) =
      some (messages.map messageValue) := by
  have isMessages : (buildPayload model (messages.map messageValue) specs).get? "messages" =
      some (.list (messages.map messageValue)) := by
    cases specs <;> rfl
  have dicts : (messages.map messageValue).all PyVal.isDict = true := by
    rw [List.all_map, List.all_eq_true]
    exact fun _ _ => rfl
  rw [isMessages, Option.getD_some, objects?, if_pos dicts]

/-- The service takes the tools out of the request of a worker. -/
theorem objects_tools (model : String) (messages : List PyVal) (specs : List ToolSpec) :
    objects? (orDefault ((buildPayload model messages specs).get? "tools") (.list [])) =
      some (specs.map toolDeclaration) := by
  cases specs with
  | nil => rfl
  | cons spec specs =>
      have isTools : (buildPayload model messages (spec :: specs)).get? "tools" =
          some (.list ((spec :: specs).map toolDeclaration)) := rfl
      have dicts : ((spec :: specs).map toolDeclaration).all PyVal.isDict = true := by
        rw [List.all_map, List.all_eq_true]
        exact fun _ _ => rfl
      have shown : truthy (.list ((spec :: specs).map toolDeclaration)) = true := rfl
      rw [isTools, orDefault, if_pos shown, objects?, if_pos dicts]

/-! ### What arrives -/

section Asked

variable (interpreter : Interpreter) (phrase : Nat → String) (service : Service) (hex : String)

/-- The model is shown the messages and the tools, and its text is read. -/
def Service.outcome (messages tools : List PyVal) : Except Exc PyVal := do
  let raw ← service.generate messages tools
  parseQwenResponse interpreter hex raw tools messages

/-- What a worker gets for an error of the service: its status, or a lost connection. -/
def failureOf (exc : Exc) : Exc :=
  if isToolProtocolError exc then httpError phrase 422
  else if Exc.isException exc then httpError phrase 500
  else remoteDisconnected

/-- What a worker gets for the outcome: the text, the call of an offered tool with well-typed
arguments, or an error. -/
inductive Arrives (specs : List ToolSpec) :
    Except Exc PyVal → Except Exc ModelResponse → Prop where
  | text (content : String) (nonempty : content ≠ "") :
      Arrives specs (.ok (textResult content)) (.ok (.finalText content))
  | call (spec : ToolSpec) (fields : List (PyKey × PyVal)) (arguments : JsonObject)
      (offered : spec ∈ specs) (same : arguments.value = .dict fields)
      (typed : Typed spec.inputSchema.value fields) :
      Arrives specs (.ok (callResult hex spec.name fields))
        (.ok (.toolCall ⟨"call_" ++ hex, spec.name, arguments⟩))
  | raised (exc : Exc) : Arrives specs (.error exc) (.error (failureOf phrase exc))

/-- What a worker gets is what its model made of the request, and nothing else. -/
structure Faithful (specs : List ToolSpec) (outcome : Except Exc PyVal)
    (response : Except Exc ModelResponse) : Prop where
  texts : ∀ content, response = .ok (.finalText content) ↔ outcome = .ok (textResult content)
  calls : ∀ call : ToolCall, response = .ok (.toolCall call) ↔
    call.requestId = "call_" ++ hex ∧ ∃ fields, call.arguments.value = .dict fields ∧
      outcome = .ok (callResult hex call.name fields)
  errors : ∀ exc, response = .error exc ↔
    ∃ raised, outcome = .error raised ∧ exc = failureOf phrase raised
  nonempty : ∀ content, response = .ok (.finalText content) → content ≠ ""
  offered : ∀ call, response = .ok (.toolCall call) → ∃ spec ∈ specs, spec.name = call.name ∧
    ∃ fields, call.arguments.value = .dict fields ∧ Typed spec.inputSchema.value fields

end Asked

section Answered

variable (phrase : Nat → String) (service : Service) (hex : String)

/-- The url of an adapter has no slashes at its end. -/
theorem Adapter.init_baseUrl {base model : String} {adapter : Adapter} {slashes : Nat}
    (made : Adapter.init (base ++ "/v1" ++ String.ofList (List.replicate slashes '/')) model =
      .ok adapter) : adapter.baseUrl = base ++ "/v1" := by
  unfold Adapter.init at made
  split at made
  · cases made
  · cases made
    have slash : ∀ c ∈ List.replicate slashes '/', (c == '/') = true := by
      intro c member
      rw [List.eq_of_mem_replicate member]
      rfl
    have written : (base ++ "/v1" ++ String.ofList (List.replicate slashes '/')).toList.reverse =
        List.replicate slashes '/' ++ ('1' :: 'v' :: '/' :: base.toList.reverse) := by
      simp
    have digit : ('1' == '/') = false := by decide
    rw [rstripSlash, written, List.dropWhile_append_of_pos slash, List.dropWhile_cons, digit]
    simp

/-- The service answers the request of a worker with what its model makes of it. -/
theorem chat_request (model : String) (messages : List Message) (specs : List ToolSpec)
    {text : String} (read : interpreter.loads text =
      .ok (buildPayload model (messages.map messageValue) specs)) :
    service.chat interpreter hex (.ok text) =
      (service.outcome interpreter hex (messages.map messageValue)
        (specs.map toolDeclaration)).bind fun parsed =>
          (toOpenaiMessage interpreter parsed).bind fun message =>
            sendJson 200 (completion service.modelId message.1 message.2) := by
  have isDict : (buildPayload model (messages.map messageValue) specs).isDict = true := rfl
  simp only [Service.chat, Service.outcome, read, isDict, objects_messages, objects_tools, bind,
    Except.bind, Bool.not_true, Bool.false_eq_true, if_false]
  cases service.generate (messages.map messageValue) (specs.map toolDeclaration) with
  | error exc => rfl
  | ok raw => rfl

/-- An error of the service is JSON, and is read as an error. -/
theorem sendJson_error (status : Nat) (text : String) :
    ∃ body, sendJson status (errorPayload text) = .ok ⟨status, body⟩ := by
  have json : isJson (errorPayload text) = true :=
    isJson_ofFields ["error"] rfl (List.pairwise_singleton _ _) (by simp [isJson])
  obtain ⟨body, written, _⟩ := loads_dumps defaultStyle json
  exact ⟨body, by rw [sendJson, written]; rfl⟩

theorem readReply_error {status : Nat} (body : String) (failed : 300 ≤ status) :
    readReply phrase ⟨status, body⟩ = .error (httpError phrase status) := by
  have noSuccess : ¬ (200 ≤ status ∧ status < 300) := by omega
  rw [readReply, if_neg noSuccess]

/-- A reply that delivers is read so. -/
theorem reply_of_deliver {model : String} {parsed : PyVal} {response : ModelResponse}
    (delivers : deliver interpreter model parsed = .ok response) :
    ∃ reply, (toOpenaiMessage interpreter parsed).bind (fun message =>
        sendJson 200 (completion model message.1 message.2)) = .ok reply ∧
      ((readReply phrase reply).bind fun raw => (interpreter.loads raw).bind fun payload =>
        if !payload.isDict then valueError "provider response must be a JSON object"
        else parseResponse interpreter payload) = .ok response := by
  unfold deliver at delivers
  cases isMessage : toOpenaiMessage interpreter parsed with
  | error exc =>
      rw [isMessage] at delivers
      cases delivers
  | ok message =>
      rw [isMessage] at delivers
      cases written : dumps defaultStyle (completion model message.1 message.2) with
      | error exc =>
          simp only [bind, Except.bind, written] at delivers
          cases delivers
      | ok body =>
          simp only [bind, Except.bind, written] at delivers
          refine ⟨⟨200, body⟩, ?_, delivers⟩
          simp only [Except.bind, sendJson, written, Except.map]

theorem exchange_ok {body : String} {reply : HttpReply}
    (answers : service.chat interpreter hex (.ok body) = .ok reply) :
    service.exchange interpreter hex "/v1/chat/completions" body = .ok reply := by
  simp [Service.exchange, Service.doPost, answers]

/-- An error of the service is raised. -/
theorem exchange_error {body : String} {exc : Exc}
    (raises : service.chat interpreter hex (.ok body) = .error exc)
    (next : String → Except Exc ModelResponse) :
    ((service.exchange interpreter hex "/v1/chat/completions" body).bind fun reply =>
      (readReply phrase reply).bind next) = .error (failureOf phrase exc) := by
  cases protocol : isToolProtocolError exc with
  | true =>
      obtain ⟨text, sent⟩ := sendJson_error 422 ("ToolProtocolError: " ++ exc.text)
      have answered : service.exchange interpreter hex "/v1/chat/completions" body =
          .ok ⟨422, text⟩ := by
        simp [Service.exchange, Service.doPost, raises, protocol, sent]
      rw [answered, Except.bind, readReply_error phrase text (by decide), failureOf, if_pos protocol]
      rfl
  | false =>
      rw [failureOf, if_neg (Bool.not_eq_true _ ▸ protocol)]
      cases isException : Exc.isException exc with
      | true =>
          obtain ⟨text, sent⟩ := sendJson_error 500 exc.render
          have answered : service.exchange interpreter hex "/v1/chat/completions" body =
              .ok ⟨500, text⟩ := by
            simp [Service.exchange, Service.doPost, raises, protocol, isException, sent]
          rw [answered, Except.bind, readReply_error phrase text (by decide)]
          rfl
      | false =>
          have dropped : service.exchange interpreter hex "/v1/chat/completions" body =
              .error remoteDisconnected := by
            simp [Service.exchange, Service.doPost, raises, protocol, isException]
          rw [dropped]
          rfl

/-- What the model says is delivered. -/
theorem outcome_delivered (reads : ReadsDumps interpreter) {messages : List PyVal}
    {specs : List ToolSpec} {parsed : PyVal}
    (isOutcome : service.outcome interpreter hex messages (specs.map toolDeclaration) =
      .ok parsed) :
    ∃ response, deliver interpreter service.modelId parsed = .ok response ∧
      Arrives phrase hex specs (.ok parsed) (.ok response) := by
  cases generated : service.generate messages (specs.map toolDeclaration) with
  | error exc =>
      rw [Service.outcome, generated] at isOutcome
      cases isOutcome
  | ok raw =>
      rw [Service.outcome, generated] at isOutcome
      have isParsed : parseQwenResponse interpreter hex raw (specs.map toolDeclaration) messages =
          .ok parsed := isOutcome
      rcases parse_ok isParsed with ⟨content, nonempty, rfl⟩ | ⟨name, function, text, values,
        offered, readable, rfl⟩
      · exact ⟨_, deliver_text reads service.modelId nonempty, .text content nonempty⟩
      · obtain ⟨spec, member, rfl, nonempty, rfl⟩ := offered_spec offered
        exact ⟨_, deliver_toolCall reads service.modelId hex nonempty ⟨_, rfl, readable.isJson⟩ rfl,
          .call spec _ ⟨_, rfl, readable.isJson⟩ member rfl readable.typed⟩

/-- Over HTTP a worker gets what the model makes of its messages and of the tools it offers, and an
error where the model fails. -/
theorem respond_arrives (reads : ReadsDumps interpreter) {origin model : String} {slashes : Nat}
    {adapter : Adapter} {post : String → String → Except Exc HttpReply}
    (serves : ∀ path body, post (origin ++ path) body =
      service.exchange interpreter hex path body)
    (made : Adapter.init (origin ++ "/v1" ++ String.ofList (List.replicate slashes '/')) model =
      .ok adapter) (messages : List Message) (specs : List ToolSpec) :
    Arrives phrase hex specs
      (service.outcome interpreter hex (messages.map messageValue) (specs.map toolDeclaration))
      (adapter.respond interpreter phrase post (messages.map messageValue) specs) := by
  have json := isJson_buildPayload adapter.model messages specs
  obtain ⟨body, written, _⟩ := loads_dumps defaultStyle json
  have url : adapter.baseUrl ++ "/chat/completions" = origin ++ "/v1/chat/completions" := by
    rw [Adapter.init_baseUrl made, String.append_assoc]
    rfl
  have answered := chat_request service hex adapter.model messages specs (reads json written)
  have asks : adapter.respond interpreter phrase post (messages.map messageValue) specs =
      (service.exchange interpreter hex "/v1/chat/completions" body).bind fun reply =>
        (readReply phrase reply).bind fun raw => (interpreter.loads raw).bind fun payload =>
          if !payload.isDict then valueError "provider response must be a JSON object"
          else parseResponse interpreter payload := by
    simp only [Adapter.respond, written, url, serves, bind, Except.bind]
  rw [asks]
  cases isOutcome : service.outcome interpreter hex (messages.map messageValue)
      (specs.map toolDeclaration) with
  | error exc =>
      rw [isOutcome] at answered
      rw [exchange_error phrase service hex answered]
      exact .raised exc
  | ok parsed =>
      rw [isOutcome, Except.bind] at answered
      obtain ⟨response, delivers, arrives⟩ := outcome_delivered phrase service hex reads isOutcome
      obtain ⟨reply, sent, read⟩ := reply_of_deliver phrase delivers
      rw [exchange_ok service hex (answered.trans sent), Except.bind, read]
      exact arrives

/-! ### Both directions -/

theorem textResult_injective {content content' : String}
    (same : textResult content = textResult content') : content = content' := by
  have told : (textResult content).get? "content" = (textResult content').get? "content" := by
    rw [same]
  exact PyVal.str.inj (Option.some.inj told)

theorem textResult_ne_callResult (content name : String) (fields : List (PyKey × PyVal)) :
    textResult content ≠ callResult hex name fields := by
  intro same
  have kinds : (textResult content).get? "kind" = (callResult hex name fields).get? "kind" := by
    rw [same]
  have apart : "text" = "tool_call" := PyVal.str.inj (Option.some.inj kinds)
  exact absurd apart (by decide)

theorem callResult_injective {name name' : String} {fields fields' : List (PyKey × PyVal)}
    (same : callResult hex name fields = callResult hex name' fields') :
    name = name' ∧ fields = fields' := by
  have names : (callResult hex name fields).get? "name" =
      (callResult hex name' fields').get? "name" := by
    rw [same]
  have arguments : (callResult hex name fields).get? "arguments" =
      (callResult hex name' fields').get? "arguments" := by
    rw [same]
  exact ⟨PyVal.str.inj (Option.some.inj names), PyVal.dict.inj (Option.some.inj arguments)⟩

/-- What arrives is faithful to the outcome. -/
theorem Arrives.faithful {specs : List ToolSpec} {outcome : Except Exc PyVal}
    {response : Except Exc ModelResponse} (arrives : Arrives phrase hex specs outcome response) :
    Faithful phrase hex specs outcome response := by
  cases arrives with
  | text content nonempty =>
      constructor
      · intro content'
        simp only [Except.ok.injEq, ModelResponse.finalText.injEq]
        exact ⟨congrArg textResult, textResult_injective⟩
      · refine fun call => ⟨nofun, ?_⟩
        rintro ⟨_, fields, _, same⟩
        exact absurd (Except.ok.inj same) (textResult_ne_callResult hex _ _ _)
      · exact fun exc => by simp
      · intro content' same
        cases same
        exact nonempty
      · exact fun call impossible => nomatch impossible
  | call spec fields arguments offered same typed =>
      constructor
      · refine fun content => ⟨nofun, fun told => ?_⟩
        exact absurd (Except.ok.inj told).symm (textResult_ne_callResult hex _ _ _)
      · intro call
        constructor
        · intro same'
          cases same'
          exact ⟨rfl, fields, same, rfl⟩
        · rintro ⟨requestId, fields', same', told⟩
          obtain ⟨name, rfl⟩ := callResult_injective hex (Except.ok.inj told)
          obtain ⟨_, _, arguments'⟩ := call
          obtain rfl : arguments = arguments' := JsonObject.ext (same.trans same'.symm)
          obtain rfl : _ = "call_" ++ hex := requestId
          obtain rfl : spec.name = _ := name
          rfl
      · exact fun exc => by simp
      · exact fun content impossible => nomatch impossible
      · intro call same'
        cases same'
        exact ⟨spec, offered, rfl, fields, same, typed⟩
  | raised exc =>
      constructor
      · exact fun content => by simp
      · exact fun call => by simp
      · intro exc'
        constructor
        · intro same
          exact ⟨exc, rfl, (Except.error.inj same).symm⟩
        · rintro ⟨raised, same, rfl⟩
          rw [Except.error.inj same]
      · exact fun content impossible => nomatch impossible
      · exact fun call impossible => nomatch impossible

/-- Over HTTP a worker gets exactly what its model makes of the messages and the offered tools: the
same text, the same call, or an error for an error. -/
theorem respond_faithful (reads : ReadsDumps interpreter) {origin model : String} {slashes : Nat}
    {adapter : Adapter} {post : String → String → Except Exc HttpReply}
    (serves : ∀ path body, post (origin ++ path) body =
      service.exchange interpreter hex path body)
    (made : Adapter.init (origin ++ "/v1" ++ String.ofList (List.replicate slashes '/')) model =
      .ok adapter) (messages : List Message) (specs : List ToolSpec) :
    Faithful phrase hex specs
      (service.outcome interpreter hex (messages.map messageValue) (specs.map toolDeclaration))
      (adapter.respond interpreter phrase post (messages.map messageValue) specs) :=
  (respond_arrives phrase service hex reads serves made messages specs).faithful

end Answered

/-! ### A service at an origin -/

/-- A network with one service. -/
def networkOf (origin : String) (service : Service) (interpreter : Interpreter) (hex : String)
    (url body : String) : Except Exc HttpReply :=
  if origin.toList <+: url.toList then
    service.exchange interpreter hex (String.ofList (url.toList.drop origin.toList.length)) body
  else .error ⟨.other "URLError", "<urlopen error>"⟩

theorem networkOf_serves (origin : String) (service : Service) (hex path body : String) :
    networkOf origin service interpreter hex (origin ++ path) body =
      service.exchange interpreter hex path body := by
  rw [networkOf, String.toList_append, if_pos (List.prefix_append _ _), List.drop_left,
    String.ofList_toList]

/-- A model that wants `6` doubled. -/
def doublingService : Service where
  modelId := "local"
  generate _ _ :=
    .ok "<tool_call><function=math.double><parameter=value>6</parameter></function></tool_call>"

/-- A worker at that service. -/
def doublingAdapter : Adapter := ⟨"http://localhost/v1", "local"⟩

theorem doublingAdapter_made : Adapter.init ("http://localhost" ++ "/v1" ++
    String.ofList (List.replicate 1 '/')) "local" = .ok doublingAdapter := by
  rfl

set_option maxRecDepth 10000 in
/-- The worker gets the call. -/
theorem respond_faithful_double :
    ∃ response, doublingAdapter.respond plainInterpreter (fun _ => "")
        (networkOf "http://localhost" doublingService plainInterpreter "0")
        ([⟨.user, "Double 6."⟩].map messageValue) [doubleSpec] = .ok response ∧
      Faithful (fun _ => "") "0" [doubleSpec] (doublingService.outcome plainInterpreter "0"
        ([⟨.user, "Double 6."⟩].map messageValue) ([doubleSpec].map toolDeclaration))
        (.ok response) := by
  have reads : (doublingService.outcome plainInterpreter "0" ([⟨.user, "Double 6."⟩].map messageValue)
      ([doubleSpec].map toolDeclaration)).isOk = true := by
    decide +kernel
  have faithful := respond_faithful (fun _ => "") doublingService "0" plainInterpreter_readsDumps
    (networkOf_serves "http://localhost" doublingService "0") doublingAdapter_made
    [⟨.user, "Double 6."⟩] [doubleSpec]
  generalize doublingAdapter.respond plainInterpreter (fun _ => "")
    (networkOf "http://localhost" doublingService plainInterpreter "0")
    ([⟨.user, "Double 6."⟩].map messageValue) [doubleSpec] = result at faithful
  cases result with
  | error exc =>
      obtain ⟨raised, failed, _⟩ := (faithful.errors exc).1 rfl
      rw [failed] at reads
      cases reads
  | ok response => exact ⟨response, rfl, faithful⟩

end PreActive.Bridge
