/-
Module: PreActive.Bridge.Deciding
Purpose: What workers decide, and what their runs end with, when the model service answers them.
Trusted boundary: human-reviewed spec
Main exports: AnsweredOverHttp, ProperReply, ServiceDecides, service_decides
-/
import PreActive.Bridge.RoundTrip
import PreActive.Bridge.Service
import PreActive.Kernel.Ownership
import PreActive.Kernel.Prompting

namespace PreActive.Bridge

open PreActive.Foundation PreActive.Python PreActive.Kernel

variable {interpreter : Interpreter} {host : Host} {registry : ToolRegistry}

/-! ### Replies -/

/-- The model of every worker is a model service: what it answers comes over HTTP, from a service of
its own if need be, whatever the models generate. -/
def AnsweredOverHttp (interpreter : Interpreter) (config : KernelConfig)
    (label : Label Answer Call) : Prop :=
  ∀ messages tools answer, config.performing label = some (.respond messages tools, answer) →
    ∃ (phrase : Nat → String) (service : Service) (hex origin model : String) (slashes : Nat)
      (adapter : Adapter) (post : String → String → Except Exc HttpReply),
      (∀ path body, post (origin ++ path) body = service.exchange interpreter hex path body) ∧
        Adapter.init (origin ++ "/v1" ++ String.ofList (List.replicate slashes '/')) model =
          .ok adapter ∧
        answer.response = adapter.respond interpreter phrase post (messages.map messageValue) tools

/-- A text that is not empty, or a call of an offered tool with well-typed arguments. -/
inductive ProperReply (tools : List ToolSpec) : ModelResponse → Prop where
  | text (content : String) (nonempty : content ≠ "") : ProperReply tools (.finalText content)
  | call (requestId : String) (spec : ToolSpec) (fields : List (PyKey × PyVal))
      (arguments : JsonObject) (offered : spec ∈ tools) (same : arguments.value = .dict fields)
      (typed : Typed spec.inputSchema.value fields) :
      ProperReply tools (.toolCall ⟨requestId, spec.name, arguments⟩)

/-- A reply that arrives is proper. -/
theorem Arrives.proper {phrase : Nat → String} {hex : String} {specs : List ToolSpec}
    {outcome : Except Exc PyVal} {response : ModelResponse}
    (arrives : Arrives phrase hex specs outcome (.ok response)) : ProperReply specs response := by
  cases arrives with
  | text content nonempty => exact .text content nonempty
  | call spec fields arguments offered same typed =>
      exact .call _ spec fields arguments offered same typed

theorem AnsweredOverHttp.proper (reads : ReadsDumps interpreter) {config : KernelConfig}
    {pid : Nat} {answer : Answer} {messages : List Message} {tools : List ToolSpec}
    {response : ModelResponse}
    (served : AnsweredOverHttp interpreter config (.act pid answer))
    (asks : config.performing (.act pid answer) = some (.respond messages tools, answer))
    (replied : answer.response = .ok response) : ProperReply tools response := by
  obtain ⟨phrase, service, hex, origin, model, slashes, adapter, post, serves, made, same⟩ :=
    served messages tools answer asks
  have arrives := respond_arrives phrase service hex reads serves made messages tools
  rw [← same, replied] at arrives
  exact arrives.proper

/-! ### Decisions -/

/-- The tools that a run is offered are registered, and granted to it. -/
theorem offered_granted {capabilities : List String} {spec : ToolSpec}
    (offered : spec ∈ registry.specs capabilities) :
    registry.find spec.name = some spec ∧ spec.capability ∈ capabilities := by
  have listed := (List.mem_insertionSort _).1 offered
  obtain ⟨registered, granted⟩ := List.mem_filter.1 listed
  refine ⟨?_, List.contains_iff_mem.1 granted⟩
  cases found : registry.find spec.name with
  | none =>
      have absent := List.find?_eq_none.1 found spec registered
      exact absurd (beq_self_eq_true spec.name) absent
  | some other =>
      have same : other.name = spec.name :=
        beq_iff_eq.1 (List.find?_some (p := fun each : ToolSpec => each.name == spec.name) found)
      have member : other ∈ registry.tools := List.mem_of_find?_eq_some found
      rw [List.inj_on_of_nodup_map registry.distinct member registered same]

/-- What workers whose model is the service decide, and what their runs end with. -/
structure ServiceDecides (host : Host) (registry : ToolRegistry) (db : Db) : Prop where
  calls : ∀ runId step call, DecidedCall host db runId step call → ∃ run spec fields,
    db.run runId = some run ∧ registry.find call.name = some spec ∧
      spec.capability ∈ run.capabilities ∧ call.arguments.value = .dict fields ∧
        Typed spec.inputSchema.value fields
  texts : ∀ run ∈ db.runs.rows, run.status = .completed → ∃ text,
    run.finalText = some text ∧ text ≠ ""

section Reached

variable {allowed : KernelConfig → Label Answer Call → Prop} {config : KernelConfig}
variable (reads : ReadsDumps interpreter)
variable (workers : ∀ config engine now, allowed config (.spawn (.runOnce engine now)) →
  engine.tools = registry)
variable (answers : ∀ config label, allowed config label → AnsweredOverHttp interpreter config label)
variable (reached : (system host).Reachable allowed KernelConfig.initial config)
include reads workers answers reached

/-- A stored decision is a proper reply to the tools that the run is offered. -/
theorem decided_proper {runId : String} {step : Nat} {row : DecisionRow} {response : ModelResponse}
    (stored : config.world.db.decision runId step = some row)
    (decodes : decodeDecision host row.decisionJson = .ok response) :
    ∃ run, config.world.db.run runId = some run ∧
      ProperReply (registry.specs run.capabilities) response := by
  obtain ⟨member, named, _⟩ := Db.decision_eq_some.1 stored
  have replies : ∀ config pid answer messages tools response, allowed config (.act pid answer) →
      config.performing (.act pid answer) = some (.respond messages tools, answer) →
        answer.response = .ok response → ProperReply tools response :=
    fun config pid answer messages tools response admitted asks =>
      (answers config _ admitted).proper reads asks
  obtain ⟨engine, messages, tools, answered, isTools, asks, proper, text⟩ :=
    (stored_grounded (Q := fun _ => ProperReply) replies reached workers row member).answered
  rw [text, decodeDecision_text, Except.ok.injEq] at decodes
  obtain ⟨run, isRun, _, offers, _⟩ := asks.ofRun
  rw [named] at isRun
  refine ⟨run, isRun, ?_⟩
  rw [← isTools, ← offers, ← decodes]
  exact proper

/-- A decided call names a tool that the run may use, and keeps to its types. -/
theorem calls_served {runId : String} {step : Nat} {call : ToolCall}
    (decided : DecidedCall host config.world.db runId step call) :
    ∃ run spec fields, config.world.db.run runId = some run ∧
      registry.find call.name = some spec ∧ spec.capability ∈ run.capabilities ∧
        call.arguments.value = .dict fields ∧ Typed spec.inputSchema.value fields := by
  obtain ⟨row, stored, decodes⟩ := decided
  obtain ⟨run, isRun, proper⟩ := decided_proper reads workers answers reached stored decodes
  cases proper with
  | call requestId spec fields arguments offered same typed =>
      obtain ⟨found, granted⟩ := offered_granted offered
      exact ⟨run, spec, fields, isRun, found, granted, same, typed⟩

/-- A run that is completed ended with a text. -/
theorem texts_served : ∀ runId run, config.world.db.run runId = some run →
    run.status = .completed → ∃ text, run.finalText = some text ∧ text ≠ "" := by
  refine reached.invariant (I := fun config => ∀ runId run,
    config.world.db.run runId = some run → run.status = .completed →
      ∃ text, run.finalText = some text ∧ text ≠ "") (fun _ _ stored => by cases stored) ?_
  intro config label config' before held _ stepped runId run stored
  cases Steps.of_step stepped with
  | spawn call => exact held runId run stored
  | die found => exact held runId run stored
  | @act pid answer call op next log found =>
      have member := List.mem_of_getElem? found
      have rule := (reachable_rule before _ member).head
      have change := Kernel.runStep host config.world answer rule.issued runId
      change (op.answer host answer config.world).2.db.run runId = some run at stored
      rw [stored] at change
      generalize earlier : config.world.db.run runId = old at change
      cases change with
      | keep => exact held runId run earlier
      | create => exact fun completed => by cases completed
      | @update row change _ =>
          have kept := held runId row earlier
          cases call with
          | runOnce engine started =>
              obtain ⟨_, _, _, _, updates⟩ := rule
              cases updates with
              | complete now text decided =>
                  obtain ⟨decisionJson, seen, decodes⟩ := decided
                  obtain ⟨row, stored, rfl⟩ := seen.stored (reachable_known before _ member)
                  obtain ⟨_, _, proper⟩ :=
                    decided_proper reads workers answers before stored decodes
                  cases proper with
                  | text _ nonempty => exact fun _ => ⟨text, rfl, nonempty⟩
              | exceed now full => exact fun completed => by cases completed
              | refuse now exc call found older decided raised read resolved =>
                  exact fun completed => by cases completed
              | note now error => exact kept
          | _ => exact rule.elim
      | block running => exact fun completed => by cases completed
      | @advance row _ _ running => exact fun completed => by cases running.symm.trans completed
      | resume blocked => exact fun completed => by cases completed

end Reached

/-- Workers with one registry whose models answer over HTTP only decide on texts and on calls of
tools that the run may use, with well-typed arguments, and no run is completed without a text. -/
theorem service_decides (host : Host) (interpreter : Interpreter) (registry : ToolRegistry)
    (allowed : KernelConfig → Label Answer Call → Prop) (config : KernelConfig)
    (reads : ReadsDumps interpreter)
    (workers : ∀ config engine now, allowed config (.spawn (.runOnce engine now)) →
      engine.tools = registry)
    (answers : ∀ config label, allowed config label → AnsweredOverHttp interpreter config label)
    (reached : (system host).Reachable allowed KernelConfig.initial config) :
    ServiceDecides host registry config.world.db where
  calls _ _ _ decided := calls_served reads workers answers reached decided
  texts run stored :=
    texts_served reads workers answers reached run.id run (Db.run_eq_some.2 ⟨stored, rfl⟩)

/-! ### A service that wants a note added -/

/-- The tool that adds notes. -/
def noteSpec : ToolSpec where
  name := "notes.add"
  description := "Adds a note."
  inputSchema := .ofFields [("additionalProperties", .bool false),
    ("properties", .dict noteProperties), ("required", .list [.str "text"]),
    ("type", .str "object")] (by decide) (by decide)
  capability := "notes"
  mutation := true

def noteRegistry : ToolRegistry := ⟨[noteSpec], by decide, by decide⟩

/-- Runs with the capability are offered the tool, others nothing. -/
theorem specs_noteRegistry (capabilities : List String) :
    noteRegistry.specs capabilities = [] ∨ noteRegistry.specs capabilities = [noteSpec] := by
  have filtered : noteRegistry.tools.filter (fun spec => capabilities.contains spec.capability) =
      bif capabilities.contains "notes" then [noteSpec] else [] := List.filter_singleton
  unfold ToolRegistry.specs
  rw [filtered]
  cases capabilities.contains "notes" with
  | false => exact .inl rfl
  | true => exact .inr rfl

/-- A model that calls the tool, whatever it is asked. -/
def notingService : Service := ⟨"local", fun _ _ => .ok noteCall.text⟩

def noteArguments : JsonObject :=
  .ofFields [("text", noteText.value), ("times", noteTimes.value)] (by decide) (by decide)

theorem noting_outcome (messages : List PyVal) :
    notingService.outcome plainInterpreter "0" messages ([noteSpec].map toolDeclaration) =
      .ok (callResult "0" "notes.add"
        [(.str "text", noteText.value), (.str "times", noteTimes.value)]) := by
  have offered : Offered ([noteSpec].map toolDeclaration) noteCall.name (functionOf noteSpec) :=
    ⟨[("notes.add", functionOf noteSpec)], rfl, rfl⟩
  have declares : Declares (functionOf noteSpec) noteProperties ["text"] := ⟨rfl, rfl, rfl⟩
  have parsed := @parse_members _ _ _ _ "0" _ messages noteCall [noteText, noteTimes] rfl offered
    declares (by decide)
  have fields : insertFields [] ([noteText, noteTimes].map fun argument =>
      (argument.name, argument.value)) =
        [(.str "text", noteText.value), (.str "times", noteTimes.value)] := rfl
  rw [fields] at parsed
  simp only [Service.outcome, notingService, bind, Except.bind]
  exact parsed

/-- A model that says it is done, whatever it is asked. -/
def sayingService : Service := ⟨"local", fun _ _ => .ok "Done."⟩

theorem saying_outcome (messages tools : List PyVal) :
    sayingService.outcome plainInterpreter "0" messages tools = .ok (textResult "Done.") := by
  have noCall : finditer toolCallRe "Done.".toList 0 = [] := by decide +kernel
  have noMarker : hasMarker "Done.".toList = false := by decide +kernel
  have content : pyStrip "Done." = "Done." := by decide
  change parseQwenResponse plainInterpreter "0" "Done." tools messages = _
  rw [parseQwenResponse, noCall]
  dsimp only
  rw [noMarker, content]
  rfl

/-- What the worker gets of the first model. -/
def addsNote : Answer where
  fault := none
  response := .ok (.toolCall ⟨"call_0", "notes.add", noteArguments⟩)
  output := .ok (.dict [])

/-- What it gets of the second one. -/
def saysDone : Answer where
  fault := none
  response := .ok (.finalText "Done.")
  output := .ok (.dict [])

/-- The workers have that tool.  They get the note where it is what they offer, and otherwise hear
that it is done. -/
def NotesOnce (config : KernelConfig) : Label Answer Call → Prop
  | .spawn (.runOnce engine _) => engine.tools = noteRegistry
  | .act pid answer => answer = saysDone ∨ answer = addsNote ∧
      ∀ messages tools, config.performing (.act pid answer) = some (.respond messages tools, answer) →
        tools = [noteSpec]
  | _ => True

theorem NotesOnce.answered {config : KernelConfig} {label : Label Answer Call}
    (notes : NotesOnce config label) : AnsweredOverHttp plainInterpreter config label := by
  intro messages tools answer asks
  have serves (service : Service) :=
    @networkOf_serves plainInterpreter "http://localhost" service "0"
  have arrives (service : Service) := respond_arrives (fun _ => "") service "0"
    plainInterpreter_readsDumps (serves service) doublingAdapter_made messages tools
  cases label with
  | act pid answer' =>
      obtain ⟨_, _, same⟩ := Option.map_eq_some_iff.1 asks
      obtain rfl : answer' = answer := (Prod.mk.inj same).2
      rcases notes with rfl | ⟨rfl, offers⟩
      · have spoken := arrives sayingService
        rw [saying_outcome] at spoken
        exact ⟨_, sayingService, "0", _, "local", 1, doublingAdapter, _, serves sayingService,
          doublingAdapter_made, ((spoken.faithful.texts "Done.").2 rfl).symm⟩
      · obtain rfl := offers messages tools asks
        have adds := arrives notingService
        rw [noting_outcome] at adds
        exact ⟨_, notingService, "0", _, "local", 1, doublingAdapter, _, serves notingService,
          doublingAdapter_made, ((adds.faithful.calls ⟨"call_0", "notes.add", noteArguments⟩).2
            ⟨rfl, _, rfl, rfl⟩).symm⟩
  | _ => cases asks

/-- A worker with that tool. -/
def noteEngine : Engine := { payEngine "a" with tools := noteRegistry }

/-- One task, whose first step adds a note and whose second one ends it. -/
def noteAdded : List (Label Answer Call) :=
  [.spawn (.submitTask "Note that." ["notes"] 0 none), .act 0 saysDone,
    .spawn (.runOnce noteEngine 0)] ++ List.replicate 16 (.act 1 addsNote) ++
    [.spawn (.runOnce noteEngine 0)] ++ List.replicate 10 (.act 2 saysDone)

/-- Whoever asks its model offers the tool. -/
def offersNote (config : KernelConfig) (label : Label Answer Call) : Bool :=
  match config.performing label with
  | some (.respond _ tools, _) => tools.map ToolSpec.name == ["notes.add"]
  | _ => true

/-- The labels of that schedule. -/
def OfNotes : Label Answer Call → Prop
  | .spawn (.runOnce engine _) => engine.tools = noteRegistry
  | .act _ answer => answer = saysDone ∨ answer = addsNote
  | _ => True

/-- A worker that asks its model offers nothing but that tool. -/
theorem notesOnce_of_offers (config : KernelConfig) (label : Label Answer Call)
    (reached : (system plainHost).Reachable (fun config label => OfNotes label ∧
      offersNote config label = true) KernelConfig.initial config)
    (admitted : OfNotes label ∧ offersNote config label = true) : NotesOnce config label := by
  cases label with
  | spawn call =>
      cases call with
      | runOnce engine now => exact admitted.1
      | _ => trivial
  | die pid => trivial
  | act pid answer =>
      refine admitted.1.imp id fun adds => ⟨adds, fun messages tools asks => ?_⟩
      have named : tools.map ToolSpec.name = ["notes.add"] := by
        simpa [offersNote, asks] using admitted.2
      obtain ⟨op, next, same⟩ := Option.map_eq_some_iff.1 asks
      obtain ⟨rfl, -⟩ := Prod.mk.inj same
      obtain ⟨process, found, next⟩ := Option.bind_eq_some_iff.1 next
      obtain ⟨engine, now, runId, step, isWorker, isTools, asks⟩ := next_grounded
        (W := fun engine => engine.tools = noteRegistry) (Q := fun _ _ _ => True)
        (fun _ _ _ _ _ _ _ _ _ => trivial) reached (fun _ _ _ notes => notes.1) process
        (List.mem_of_getElem? found) messages tools next
      obtain ⟨run, _, _, offers, _⟩ := asks.ofRun
      rw [isTools] at offers
      rcases specs_noteRegistry run.capabilities with none | only
      · rw [offers, none] at named
        cases named
      · exact offers.trans only

set_option maxRecDepth 10000 in
/-- The call that adds the note is decided, and the run is completed. -/
theorem service_decides_note :
    ∃ config, (system plainHost).Reachable NotesOnce KernelConfig.initial config ∧
      config.world.db.decides plainHost "id-0" "notes.add" = true ∧
      config.world.db.runs.rows.map RunRow.finalText = [some "Done."] ∧
      ServiceDecides plainHost noteRegistry config.world.db := by
  have each : ∀ label ∈ noteAdded, OfNotes label := by
    intro label member
    simp only [noteAdded, List.cons_append, List.append_assoc, List.mem_append, List.mem_cons,
      List.nil_append, List.mem_replicate] at member
    rcases member with rfl | rfl | rfl | ⟨_, rfl⟩ | rfl | ⟨_, rfl⟩
    · trivial
    · exact .inl rfl
    · exact rfl
    · exact .inr rfl
    · exact rfl
    · exact .inl rfl
  have ran : ((system plainHost).run offersNote KernelConfig.initial noteAdded).any
      (fun config => config.world.db.decides plainHost "id-0" "notes.add" &&
        decide (config.world.db.runs.rows.map RunRow.finalText = [some "Done."])) = true := by
    decide +kernel
  obtain ⟨config, reached, ended⟩ := System.Reachable.exists_of_run_each _ each ran
  rw [Bool.and_eq_true, decide_eq_true_eq] at ended
  have byServices := reached.mono_reached notesOnce_of_offers
  refine ⟨config, byServices, ended.1, ended.2, service_decides plainHost plainInterpreter
    noteRegistry _ config plainInterpreter_readsDumps ?_ ?_ byServices⟩
  · exact fun _ _ _ notes => notes
  · exact fun _ _ notes => notes.answered

end PreActive.Bridge
