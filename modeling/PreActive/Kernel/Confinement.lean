/-
Module: PreActive.Kernel.Confinement
Purpose: The tools that act for a run, and the tools whose output its transcript carries, against
  the capabilities of the run.
Trusted boundary: human-reviewed spec
Main exports: resumesGranted, OutputOf, CapabilityConfinement, capability_confinement
-/
import PreActive.Kernel.Fence
import PreActive.Kernel.Provenance

namespace PreActive.Kernel

open PreActive.Foundation PreActive.Python

/-! ### The condition -/

/-- The tool is registered and its capability is among the granted ones. -/
def ToolRegistry.grants (registry : ToolRegistry) (allowedCapabilities : List String)
    (toolName : String) : Bool :=
  (registry.find toolName).any fun spec => allowedCapabilities.contains spec.capability

/-- The step of the process does not recover a committed request of a tool that is not granted to
the run it resumes. -/
def resumesGrantedAt (registry : ToolRegistry) (config : KernelConfig)
    (process : Process kernel Exc Call) (fault : Bool) : Op → Bool
  | .sql (.selectEffect requestId) =>
      !process.call.resumes || fault || (config.world.db.effect requestId).all fun row =>
        row.state != .committed ||
          (readRun process.log).any fun run => registry.grants run.capabilities row.toolName
  | _ => true

def resumesGranted (registry : ToolRegistry) (config : KernelConfig) :
    Label Answer Call → Bool
  | .act pid answer =>
      (config.procs[pid]?).all fun process =>
        process.nextOp.all (resumesGrantedAt registry config process answer.fault.isSome)
  | _ => true

/-- The label starts no call with another registry. -/
def FixedRegistry (host : Host) (registry : ToolRegistry) (label : Label Answer Call) : Prop :=
  ∀ call, label = .spawn call → call.Uses host registry

/-- The steps of a run with one registry, in which no host recovers a committed request of a tool
that the blocked run was not granted. -/
def Confines (host : Host) (registry : ToolRegistry) (config : KernelConfig)
    (label : Label Answer Call) : Prop :=
  FixedRegistry host registry label ∧ resumesGranted registry config label = true

/-! ### Confinement -/

/-- The calls that act for a run. -/
def Call.actsForRun : Call → Bool
  | .runOnce .. | .resumeBlockedEffect .. => true
  | _ => false

/-- The process acts for the run that it has read. -/
def OnBehalf (process : Process kernel Exc Call) (runId : String) : Prop :=
  ∃ run, Saw process.log (.sql (.selectRun runId)) (some run)

/-- The value is an output of the tool: a handler of it returned the value, or the value is read
back from a result recorded for a request of the tool. -/
inductive OutputOf (world : World) (spec : ToolSpec) (output : PyVal) : Prop where
  | returned (run : HandlerRun) (ran : run ∈ world.calls) (ofTool : run.call.spec = spec)
      (ok : run.output = .ok output)
  | recorded (requestId text : String) (row : EffectRow)
      (stored : world.db.effect requestId = some row) (ofTool : row.toolName = spec.name)
      (recorded : Recorded world spec.name requestId text) (read : loads text = .ok output)

/-- What a message of the tool role carries is granted to its run. -/
def MessageConfined (registry : ToolRegistry) (world : World) (message : MessageRow) : Prop :=
  ∃ run spec output, world.db.run message.runId = some run ∧ spec ∈ registry.tools ∧
    spec.capability ∈ run.capabilities ∧ OutputOf world spec output ∧
      (toolContent spec.name output = .ok message.content ∨
        reconciledContent spec.name output = .ok message.content)

/-- What acts for a run and what its transcript carries is granted to it. -/
structure CapabilityConfinement (host : Host) (registry : ToolRegistry) (config : KernelConfig) :
    Prop where
  handlers : ∀ process ∈ config.procs, process.call.actsForRun = true →
    ∀ handled, Dispatches process handled →
      ∃ runId run, (∀ runId', OnBehalf process runId' ↔ runId' = runId) ∧
        config.world.db.run runId = some run ∧ handled.spec ∈ registry.tools ∧
          handled.spec.capability ∈ run.capabilities ∧
            validateArguments host handled.spec handled.arguments = .ok ()
  messages : ∀ message ∈ config.world.db.messages.rows, message.role = .tool →
    MessageConfined registry config.world message

variable {host : Host} {registry : ToolRegistry} {world : World} {log : History}
variable {config config' : KernelConfig} {process : Process kernel Exc Call}

/-! ### Handlers -/

/-- A call that acts for a run reads one run only. -/
theorem readsOnce {call : Call} (acts : call.actsForRun = true)
    (lawful : System.Reachable.Lawful (CallRule host call) log) {runId runId' : String}
    {run run' : RunRow} (saw : Saw log (.sql (.selectRun runId)) (some run))
    (saw' : Saw log (.sql (.selectRun runId')) (some run')) : runId = runId' ∧ run = run' := by
  cases call with
  | runOnce engine now => exact selects_once lawful saw saw'
  | resumeBlockedEffect registry target now =>
      exact selects_once_of 0 lawful (fun _ _ both => by rw [both.2]; rfl) saw saw'
  | _ => cases acts

/-- A call that acts for a run enters `execute` with the capabilities of that run. -/
theorem entered_capabilities {call : Call} (acts : call.actsForRun = true)
    (lawful : System.Reachable.Lawful (CallRule host call) log) {entered : ToolCall}
    {allowed : List String} (saw : Saw log (.enterExecute entered allowed) ()) :
    ∃ runId run, Saw log (.sql (.selectRun runId)) (some run) ∧ allowed = run.capabilities := by
  obtain ⟨older, longer, rule⟩ := lawful.of_mem saw
  have inside := (List.suffix_cons _ _).trans longer
  cases call with
  | runOnce engine now =>
      obtain ⟨claim, event, runId, run, stepping, _, same⟩ := rule
      exact ⟨runId, run, stepping.selected.later inside, same⟩
  | resumeBlockedEffect registry target now =>
      obtain ⟨run, requestId, resuming, _, same⟩ := rule
      exact ⟨target, run, resuming.selected.later inside, same⟩
  | _ => cases acts

/-- Whoever invokes a handler, its tool passed the gates of `execute`. -/
theorem dispatches_granted {steps : KernelConfig → Label Answer Call → Prop}
    (reached : (system host).Reachable steps KernelConfig.initial config)
    (member : process ∈ config.procs) (uses : process.call.Uses host registry)
    {handled : HandlerCall} (dispatches : Dispatches process handled) :
    ∃ call allowed, Saw process.log (.enterExecute call allowed) () ∧
      Granted host registry call allowed handled.spec ∧ handled.arguments = call.arguments := by
  have rule : ∃ older, older <:+ process.log ∧
      CallRule host process.call older (.handler handled) := by
    rcases dispatches with next | ⟨output, ran⟩
    · have obeys := reachable_rule reached process member
      unfold Process.nextOp at next
      split at next
      · rename_i op continuation running rest
        rw [rest] at obeys
        obtain rfl := Option.some.inj next
        exact ⟨process.log, List.suffix_refl _, obeys.head⟩
      · cases next
    · obtain ⟨older, longer, rule⟩ := (reachable_lawful reached process member).of_mem ran
      exact ⟨older, (List.suffix_cons _ _).trans longer, rule⟩
  obtain ⟨older, longer, rule⟩ := rule
  obtain ⟨registry', enter, entering, call, allowed, spec, saw, granted, rfl, _⟩ := rule.tool rfl
  obtain rfl := uses registry' enter entering
  exact ⟨call, allowed, saw.later longer, granted, rfl⟩

theorem Granted.registered {call : ToolCall} {allowed : List String} {spec : ToolSpec}
    (granted : Granted host registry call allowed spec) : spec ∈ registry.tools :=
  List.mem_of_find?_eq_some granted.found

/-! ### Transcripts -/

theorem OutputOf.later {op : Op} {spec : ToolSpec} {output : PyVal}
    (outputOf : OutputOf world spec output) (host : Host) (answer : Answer)
    (issued : op.issued) : OutputOf (op.answer host answer world).2 spec output := by
  cases outputOf with
  | returned run ran ofTool ok => exact .returned run (calls_kept host answer op ran) ofTool ok
  | recorded requestId text row stored ofTool recorded read =>
      obtain ⟨row', stored', same⟩ := effect_sameRequest host answer issued stored
      exact .recorded requestId text row' stored' (same.toolName.trans ofTool)
        (recorded.later host answer issued) read

theorem MessageConfined.later {op : Op} {message : MessageRow}
    (confined : MessageConfined registry world message) (host : Host) (answer : Answer)
    (issued : op.issued) :
    MessageConfined registry (op.answer host answer world).2 message := by
  obtain ⟨run, spec, output, stored, registered, granted, outputOf, content⟩ := confined
  obtain ⟨run', stored', evolves⟩ := run_evolves host answer issued stored
  refine ⟨run', spec, output, stored', registered, ?_, outputOf.later host answer issued, content⟩
  rw [evolves.capabilities]
  exact granted

section Learned

variable (known : System.Reachable.Learned (fun _ entry world => Known entry world) world log)
variable (results :
  System.Reachable.Learned (fun _ entry world => ResultKnown entry world) world log)
include known results

/-- A committed row that a process has seen holds an output of its tool. -/
theorem replayed_outputOf {requestId : String} {row : EffectRow} {spec : ToolSpec}
    {output : PyVal} (saw : Saw log (.sql (.selectEffect requestId)) (some row))
    (committed : row.state = .committed) (ofTool : row.toolName = spec.name)
    (read : loadsResult row.resultJson = .ok output) : OutputOf world spec output := by
  obtain ⟨_, _, result⟩ := results.of_mem saw
  obtain ⟨text, same, recorded⟩ := result.selected requestId row rfl committed
  obtain ⟨row', stored, sameRequest⟩ := Saw.effect known saw
  rw [same] at read
  rw [ofTool] at recorded
  exact .recorded requestId text row' stored (sameRequest.toolName.trans ofTool) recorded read

/-- The result of an execution is an output of a registered tool that was granted. -/
theorem ExecuteReturns.outputOf {call : ToolCall} {allowed : List String}
    {result : ToolExecution} (returned : ExecuteReturns host registry call allowed log result) :
    ∃ spec, Granted host registry call allowed spec ∧ OutputOf world spec result.output := by
  obtain ⟨_, spec, granted, ⟨ran, _⟩ | ⟨_, row, saw, admits, committed, read⟩⟩ := returned
  · obtain ⟨_, _, result'⟩ := results.of_mem ran
    exact ⟨spec, granted, .returned _ (result'.ran _ _ rfl) rfl rfl⟩
  · exact ⟨spec, granted, replayed_outputOf known results saw committed
      (admits.2.trans granted.name.symm) read⟩

/-- A worker adds the results of granted tools only. -/
theorem StepMessage.confined {engine : Engine} {claim : Claim} {event : Event} {run : RunRow}
    {message : MessageRow} (stepping : Stepping host engine log claim event message.runId run)
    (added : StepMessage host engine log run message) (isTool : message.role = .tool) :
    MessageConfined engine.tools world message := by
  rcases added with ⟨_, _, assistant, _⟩ | ⟨_, _, assistant, _⟩ |
    ⟨call, result, _, _, returned, content, _⟩
  · cases assistant.symm.trans isTool
  · cases assistant.symm.trans isTool
  · obtain ⟨spec, granted, outputOf⟩ := returned.outputOf known results
    obtain ⟨row, stored, evolves⟩ := Saw.run known stepping.selected
    refine ⟨row, spec, result.output, stored, granted.registered, ?_, outputOf, .inl ?_⟩
    · rw [evolves.capabilities]
      exact granted.granted
    · rw [granted.name]
      exact content

/-- A host adds the result of a granted tool, if it did not recover another one. -/
theorem RecoverReturns.confined {run : RunRow} {requestId : String} {result : ToolExecution}
    {message : MessageRow}
    (returned : RecoverReturns host registry requestId run.capabilities log result)
    (selected : Saw log (.sql (.selectRun message.runId)) (some run))
    (recovers : ∀ row, Saw log (.sql (.selectEffect requestId)) (some row) →
      row.state = .committed → registry.grants run.capabilities row.toolName = true)
    (content : reconciledContent result.toolName result.output = .ok message.content) :
    MessageConfined registry world message := by
  obtain ⟨row, stored, evolves⟩ := Saw.run known selected
  rcases returned with ⟨effect, saw, committed, name, read⟩ | ⟨call, _, executed⟩
  · obtain ⟨spec, found, granted⟩ := (Option.any_eq_true _ _).1 (recovers effect saw committed)
    have named : spec.name = effect.toolName := by simpa using List.find?_some found
    refine ⟨row, spec, result.output, stored, List.mem_of_find?_eq_some found, ?_,
      replayed_outputOf known results saw committed named.symm read, .inr ?_⟩
    · rw [evolves.capabilities]
      exact List.contains_iff_mem.1 granted
    · rw [named, ← name]
      exact content
  · obtain ⟨spec, granted, outputOf⟩ := executed.outputOf known results
    refine ⟨row, spec, result.output, stored, granted.registered, ?_, outputOf, .inr ?_⟩
    · rw [evolves.capabilities]
      exact granted.granted
    · rw [granted.name, ← executed.name]
      exact content

end Learned

/-! ### Runs of the system -/

/-- What a host that resumes a run has seen of a committed request. -/
def RecoversGranted (registry : ToolRegistry) (call : Call) (older : History)
    (entry : Entry kernel Exc) (_ : World) : Prop :=
  ∀ requestId row, entry = ⟨.sql (.selectEffect requestId), .ok (some row)⟩ →
    call.resumes = true → row.state = .committed →
      (readRun older).any (fun run => registry.grants run.capabilities row.toolName) = true

theorem reachable_recoversGranted
    (reached : (system host).Reachable (Confines host registry) KernelConfig.initial config) :
    ∀ process ∈ config.procs,
      System.Reachable.Learned (RecoversGranted registry process.call) config.world
        process.log := by
  refine reached.learned (RecoversGranted registry) ?_ (fun _ _ _ _ _ _ _ _ _ _ _ _ _ held => held)
    rfl
  rintro config pid call op next log answer _ found ⟨_, granted⟩ _ requestId row same resumes
    committed
  obtain ⟨rfl, answered⟩ := Entry.mk.inj same
  rw [heq_eq_eq] at answered
  cases faulty : answer.fault with
  | some fault => simp [system, kernelMachine, Op.answer, faulty] at answered
  | none =>
      simp only [system, kernelMachine, Op.answer, faulty, Stmt.exec, Except.ok.injEq] at answered
      simpa [resumesGranted, found, Process.nextOp, resumesGrantedAt, resumes, faulty, answered,
        committed] using granted

/-- In a run that meets the condition, whoever adds a message of the tool role adds the result of
a granted tool. -/
theorem added_confined {call : Call} {message : MessageRow} {pid : Nat}
    {next : Except Exc Unit → Proc Unit}
    (reached : (system host).Reachable (Confines host registry) KernelConfig.initial config)
    (found : config.procs[pid]? =
      some ⟨call, .call (F := kernel) (.sql (.insertMessage message)) next, log, true⟩)
    (isTool : message.role = .tool) : MessageConfined registry config.world message := by
  have member := List.mem_of_getElem? found
  have rule := (reachable_rule reached _ member).head
  have known := reachable_known reached _ member
  have results := (reachable_results reached).2 _ member
  have uses := reached.calls (P := fun call => call.Uses host registry)
    (fun _ call admitted => admitted.1 call rfl) rfl _ member
  cases call with
  | runOnce engine now =>
      obtain ⟨claim, event, run, stepping, added⟩ := rule
      obtain rfl := uses _ _ rfl
      exact added.confined known results stepping isTool
  | resumeBlockedEffect registry' target now =>
      obtain ⟨same, run, requestId, result, resuming, returned, _, content, _⟩ := rule
      obtain rfl := uses _ _ rfl
      have selected := resuming.selected
      rw [← same] at selected
      refine returned.confined known results selected ?_ content
      intro row saw committed
      obtain ⟨older, longer, recovers⟩ := (reachable_recoversGranted reached _ member).of_mem saw
      obtain ⟨run', read, granted⟩ :=
        (Option.any_eq_true _ _).1 (recovers requestId row rfl rfl committed)
      -- the run it had read by then is the one it resumes
      obtain ⟨entry, before, reads⟩ := List.exists_of_findSome?_eq_some read
      obtain ⟨runId', rfl⟩ := readsRun_eq_some reads
      have saw' := ((List.suffix_cons _ _).trans longer).subset before
      obtain ⟨_, rfl⟩ := readsOnce rfl (reachable_lawful reached _ member) selected saw'
      exact granted
  | _ => exact rule.elim

theorem messages_confined
    (reached : (system host).Reachable (Confines host registry) KernelConfig.initial config) :
    ∀ message ∈ config.world.db.messages.rows, message.role = .tool →
      MessageConfined registry config.world message := by
  refine reached.invariant (I := fun config => ∀ message ∈ config.world.db.messages.rows,
    message.role = .tool → MessageConfined registry config.world message) ?_ ?_
  · intro message stored
    cases stored
  · intro config label config' before held _ stepped
    cases Steps.of_step stepped with
    | spawn call => exact held
    | die found => exact held
    | @act pid answer call op next log found =>
        have issued := (reachable_rule before _ (List.mem_of_getElem? found)).head.issued
        intro message stored isTool
        suffices confined : MessageConfined registry config.world message from
          confined.later host answer issued
        rcases messages_change host config.world answer op with same | ⟨added, rfl, inserted⟩
        · exact held message (same ▸ stored) isTool
        · have either : message ∈ config.world.db.messages.rows ++ [added] := by
            rw [← Table.rows_insert inserted]
            exact stored
          rcases List.mem_append.1 either with old | new
          · exact held message old isTool
          · rw [List.mem_singleton] at new
            subst new
            exact added_confined before found isTool

/-- With one registry, every handler that a worker or a resuming host invokes is that of a tool
granted to the run it acts for, with arguments that validate; and in every run in which no host
recovers a committed request of a tool that was not granted, so is the tool behind every message
of the tool role. -/
theorem capability_confinement (host : Host) (registry : ToolRegistry) (config : KernelConfig)
    (reached : (system host).Reachable (Confines host registry) KernelConfig.initial config) :
    CapabilityConfinement host registry config where
  handlers := by
    intro process member acts handled dispatches
    have lawful := reachable_lawful reached process member
    have uses := reached.calls (P := fun call => call.Uses host registry)
      (fun _ call admitted => admitted.1 call rfl) rfl process member
    obtain ⟨call, allowed, entered, granted, arguments⟩ :=
      dispatches_granted reached member uses dispatches
    obtain ⟨runId, run, saw, rfl⟩ := entered_capabilities acts lawful entered
    obtain ⟨row, stored, evolves⟩ := Saw.run (reachable_known reached process member) saw
    refine ⟨runId, row, fun runId' => ⟨?_, ?_⟩, stored, granted.registered, ?_, ?_⟩
    · rintro ⟨run', saw'⟩
      exact (readsOnce acts lawful saw' saw).1
    · rintro rfl
      exact ⟨run, saw⟩
    · rw [evolves.capabilities]
      exact granted.granted
    · rw [arguments]
      exact granted.valid
  messages := messages_confined reached

/-! ### A denied call under the request id of another run -/

/-- A run without capabilities decides the payment of another run, is denied and blocked on it,
and is resumed when the payment is confirmed. -/
def deniedPayment : List (Label Answer Call) :=
  [.spawn (.submitTask "other" [] 0 none), .act 2 .quiet,
    .spawn (.runOnce (payEngine "b") 0), .act 3 .quiet, .act 3 .quiet, .act 3 .quiet,
    .act 3 .quiet, .act 3 (.ofResponse (.toolCall (payCall "q"))), .act 3 .quiet, .act 3 .quiet,
    .act 3 .quiet, .act 3 .quiet, .act 3 .quiet,
    .spawn (.reconcile "q" true someEvidence 1 (some (.dict []))), .act 4 .quiet, .act 4 .quiet,
    .spawn (.resumeBlockedEffect payRegistry "id-2" 2), .act 5 .quiet, .act 5 .quiet,
    .act 5 .quiet]

/-- The transcript of the run has a message of the tool role. -/
def Db.hasToolMessage (db : Db) (runId : String) : Bool :=
  db.messages.rows.any fun row => row.runId == runId && row.role == .tool

/-- The run has no capabilities. -/
def Db.grantsNothing (db : Db) (runId : String) : Bool :=
  (db.run runId).all fun row => row.capabilities == []

theorem not_confined {runId : String} (carries : config.world.db.hasToolMessage runId = true)
    (nothing : config.world.db.grantsNothing runId = true) :
    ¬ CapabilityConfinement host registry config := by
  intro confined
  obtain ⟨message, stored, matched⟩ := List.any_eq_true.1 carries
  simp only [Bool.and_eq_true, beq_iff_eq] at matched
  obtain ⟨rfl, isTool⟩ := matched
  obtain ⟨run, spec, _, found, _, granted, _⟩ := confined.messages message stored isTool
  rw [Db.grantsNothing, found, Option.all_some, beq_iff_eq] at nothing
  rw [nothing] at granted
  cases granted

theorem unresolvedPayment_fixed :
    ∀ label ∈ unresolvedPayment, FixedRegistry plainHost payRegistry label := by
  simp [unresolvedPayment, FixedRegistry, Call.Uses, Call.entering, payEngine]

set_option maxRecDepth 10000 in
/-- Without the condition the result of a payment reaches the transcript of a run that has no
capabilities. -/
theorem ungranted_result :
    ∃ config, (system plainHost).Reachable
        (fun _ label => FixedRegistry plainHost payRegistry label) KernelConfig.initial config ∧
      config.world.db.hasToolMessage "id-2" = true ∧
        config.world.db.grantsNothing "id-2" = true ∧
          ¬ CapabilityConfinement plainHost payRegistry config := by
  have fixed : ∀ label ∈ unresolvedPayment ++ deniedPayment,
      FixedRegistry plainHost payRegistry label := by
    refine List.forall_mem_append.2 ⟨unresolvedPayment_fixed, ?_⟩
    simp [deniedPayment, FixedRegistry, Call.Uses, Call.entering, payEngine]
  have ran : ((system plainHost).run (fun _ _ => true) KernelConfig.initial
      (unresolvedPayment ++ deniedPayment)).any (fun config =>
        config.world.db.hasToolMessage "id-2" && config.world.db.grantsNothing "id-2") = true := by
    decide +kernel
  obtain ⟨config, reached, ended⟩ := System.Reachable.exists_of_run_each _ fixed ran
  rw [Bool.and_eq_true] at ended
  exact ⟨config, reached.mono fun _ _ both => both.1, ended.1, ended.2,
    not_confined ended.1 ended.2⟩

set_option maxRecDepth 10000 in
/-- A run that meets the condition and brings the result of a confirmed payment to the transcript
of the run that asked for it. -/
theorem capability_confinement_confirmed :
    ∃ config, (system plainHost).Reachable (Confines plainHost payRegistry) KernelConfig.initial
        config ∧
      config.world.db.hasToolMessage "id-0" = true ∧
        CapabilityConfinement plainHost payRegistry config := by
  have fixed : ∀ label ∈ confirmedPayment, FixedRegistry plainHost payRegistry label := by
    refine List.forall_mem_append.2 ⟨unresolvedPayment_fixed, ?_⟩
    simp [FixedRegistry, Call.Uses, Call.entering]
  have ran : ((system plainHost).run (resumesGranted payRegistry) KernelConfig.initial
      confirmedPayment).any (fun config => config.world.db.hasToolMessage "id-0") = true := by
    decide +kernel
  obtain ⟨config, reached, carries⟩ := System.Reachable.exists_of_run_each _ fixed ran
  exact ⟨config, reached, carries, capability_confinement plainHost payRegistry config reached⟩

end PreActive.Kernel
