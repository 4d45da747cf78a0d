/-
Module: PreActive.Kernel.ReadRetry
Purpose: When the retry of a step that calls a read-only tool takes the run on, whatever the
  attempts before it left behind.
Trusted boundary: human-reviewed spec
Main exports: MessageRow.OfDecision, reachable_messages, Decides, RepeatsResult, step_retry_iff
-/
import PreActive.Kernel.ProcessControl
import PreActive.Kernel.Recency
import PreActive.Kernel.StepRetry

namespace PreActive.Kernel

open PreActive.Foundation PreActive.Python

variable {host : Host} {answers : Op → Answer} {world world' : World} {engine : Engine}
variable {event : Event} {run : RunRow} {call : ToolCall} {now : Time} {output : PyVal}

/-! ### The keys of a step -/

/-- The key of a message names the step and what the message is. -/
theorem stepKey_inj {step step' : Nat} {suffix suffix' : String}
    (same : stepKey step suffix = stepKey step' suffix') : step = step' ∧ suffix = suffix' := by
  have letters := congrArg String.toList same
  simp only [stepKey, String.toList_append] at letters
  have rest : Nat.toDigits 10 step ++ ':' :: suffix.toList =
      Nat.toDigits 10 step' ++ ':' :: suffix'.toList := by
    simpa [Nat.repr] using letters
  obtain ⟨digits, ends⟩ := append_cons_inj (colon_notMem_digits step) (colon_notMem_digits step') rest
  exact ⟨digits_inj digits, String.toList_inj.1 ends⟩

theorem stepKey_ne_reconciledKey (step : Nat) (suffix requestId : String) :
    stepKey step suffix ≠ reconciledKey requestId := by
  intro same
  have letters := congrArg (fun key : String => key.toList.head?) same
  simp [stepKey, reconciledKey] at letters

/-! ### The transcript of a step -/

/-- A message under a key of a step was written for the decision of the step. -/
structure MessageRow.OfDecision (host : Host) (db : Db) (message : MessageRow) (step : Nat) :
    Prop where
  decision : message.messageKey = some (stepKey step "assistant-decision") →
    ∃ call, DecidedCall host db message.runId step call ∧ message.role = .assistant ∧
      message.content = assistantContent call
  result : message.messageKey = some (stepKey step "tool-result") →
    (∃ call, DecidedCall host db message.runId step call) ∧ message.role = .tool

theorem MessageRow.OfDecision.later {message : MessageRow} {step : Nat}
    (ofDecision : message.OfDecision host world.db step) (answer : Answer) (op : Op) :
    message.OfDecision host (op.answer host answer world).2.db step where
  decision keyed := by
    obtain ⟨call, decided, rest⟩ := ofDecision.decision keyed
    exact ⟨call, decided.later op answer, rest⟩
  result keyed := by
    obtain ⟨⟨call, decided⟩, rest⟩ := ofDecision.result keyed
    exact ⟨⟨call, decided.later op answer⟩, rest⟩

theorem Decided.decidedCall {step : Nat} {runId : String} {log : History}
    (learned : System.Reachable.Learned (fun _ entry world => Known entry world) world log)
    (decided : Decided host log runId step (.toolCall call)) :
    DecidedCall host world.db runId step call := by
  obtain ⟨decisionJson, seen, decoded⟩ := decided
  obtain ⟨row, stored, rfl⟩ := seen.stored learned
  exact ⟨row, stored, decoded⟩

/-- A worker writes messages for the decision it acts on. -/
theorem StepMessage.ofDecision {message : MessageRow} {log : History} {step : Nat}
    (learned : System.Reachable.Learned (fun _ entry world => Known entry world) world log)
    (added : StepMessage host engine log run message) :
    message.OfDecision host world.db step := by
  rcases added with ⟨call, decided, role, content, key⟩ | ⟨text, _, _, _, key⟩ |
    ⟨call, result, decided, role, _, _, key⟩
  · constructor
    · intro keyed
      obtain ⟨rfl, _⟩ := stepKey_inj (Option.some.inj (key.symm.trans keyed))
      exact ⟨call, decided.decidedCall learned, role, content⟩
    · intro keyed
      obtain ⟨_, impossible⟩ := stepKey_inj (Option.some.inj (key.symm.trans keyed))
      exact absurd impossible (by decide)
  · constructor
    · intro keyed
      obtain ⟨_, impossible⟩ := stepKey_inj (Option.some.inj (key.symm.trans keyed))
      exact absurd impossible (by decide)
    · intro keyed
      obtain ⟨_, impossible⟩ := stepKey_inj (Option.some.inj (key.symm.trans keyed))
      exact absurd impossible (by decide)
  · constructor
    · intro keyed
      obtain ⟨_, impossible⟩ := stepKey_inj (Option.some.inj (key.symm.trans keyed))
      exact absurd impossible (by decide)
    · intro keyed
      obtain ⟨rfl, _⟩ := stepKey_inj (Option.some.inj (key.symm.trans keyed))
      exact ⟨⟨call, decided.decidedCall learned⟩, role⟩

/-- Whoever adds a message under a key of a step adds it for the decision of the step. -/
theorem added_ofDecision {config : KernelConfig} {caller : Call} {message : MessageRow} {pid : Nat}
    {steps : KernelConfig → Label Answer Call → Prop} {log : History} {step : Nat}
    {next : Except Exc Unit → Proc Unit}
    (reached : (system host).Reachable steps KernelConfig.initial config)
    (found : config.procs[pid]? =
      some ⟨caller, .call (F := kernel) (.sql (.insertMessage message)) next, log, true⟩) :
    message.OfDecision host config.world.db step := by
  have member := List.mem_of_getElem? found
  have rule := (reachable_rule reached _ member).head
  cases caller with
  | runOnce engine now =>
      obtain ⟨claim, event, run, stepping, added⟩ := rule
      exact added.ofDecision (reachable_known reached _ member)
  | resumeBlockedEffect registry target now =>
      obtain ⟨_, run, requestId, result, _, _, _, _, key⟩ := rule
      constructor
      · intro keyed
        exact absurd (Option.some.inj (keyed.symm.trans key)) (stepKey_ne_reconciledKey _ _ _)
      · intro keyed
        exact absurd (Option.some.inj (keyed.symm.trans key)) (stepKey_ne_reconciledKey _ _ _)
  | _ => exact rule.elim

/-- In every reachable state the messages of a step were written for its decision. -/
theorem reachable_messages {steps : KernelConfig → Label Answer Call → Prop} {config : KernelConfig}
    (reached : (system host).Reachable steps KernelConfig.initial config) :
    ∀ message ∈ config.world.db.messages.rows, ∀ step,
      message.OfDecision host config.world.db step := by
  refine reached.invariant (I := fun config => ∀ message ∈ config.world.db.messages.rows,
    ∀ step, message.OfDecision host config.world.db step) ?_ ?_
  · intro message stored
    cases stored
  · intro config label config' before held _ stepped
    cases Steps.of_step stepped with
    | spawn call => exact held
    | die found => exact held
    | @act pid answer call op next log found =>
        intro message stored step
        suffices ofDecision : message.OfDecision host config.world.db step from
          ofDecision.later answer op
        rcases messages_change host config.world answer op with same | ⟨added, rfl, inserted⟩
        · exact held message (same ▸ stored) step
        · have either : message ∈ config.world.db.messages.rows ++ [added] := by
            rw [← Table.rows_insert inserted]
            exact stored
          rcases List.mem_append.1 either with old | new
          · exact held message old step
          · rw [List.mem_singleton] at new
            subst new
            exact added_ofDecision before found

/-! ### The prompt -/

/-- What the context assembler builds depends on the memories only. -/
theorem build_congr (faultless : Faultless answers) {context : ContextAssembler}
    {systemPrompt task query : String} {messages : List Message}
    (same : world'.db.memories = world.db.memories)
    (ran : Runs host answers (context.build host systemPrompt task query) world (.ok messages)
      world) :
    Runs host answers (context.build host systemPrompt task query) world' (.ok messages) world' := by
  have found := run_searchMemories host world query context.memoryLimit
  have found' := run_searchMemories host world' query context.memoryLimit
  have sameFound : memoriesFound host world' query context.memoryLimit =
      memoriesFound host world query context.memoryLimit := by
    simp only [memoriesFound, same]
  rw [sameFound] at found'
  simp only [ContextAssembler.build] at ran ⊢
  split at ran
  · rename_i full
    rw [if_pos full]
    cases ran
    exact .done _
  · rename_i left
    rw [if_neg left]
    have rest := (faultless.proc _ found).after ran
    refine .bind (faultless.proc _ found') ?_
    split at rest
    · rename_i none
      rw [if_pos none]
      cases rest
      exact .done _
    · rename_i some
      rw [if_neg some]
      cases rest
      exact .done _

/-- The prompt of a run depends on its transcript and the memories only. -/
theorem messagesForRun_congr (faultless : Faultless answers) {messages : List Message}
    (sameMessages : world'.db.messages = world.db.messages)
    (sameMemories : world'.db.memories = world.db.memories)
    (ran : Runs host answers (engine.messagesForRun host run) world (.ok messages) world) :
    Runs host answers (engine.messagesForRun host run) world' (.ok messages) world' := by
  have listed := run_listRunMessages host world run.id 32
  have listed' := run_listRunMessages host world' run.id 32
  rw [sameMessages] at listed'
  have rest := (faultless.proc _ listed).after ran
  exact .bind (faultless.proc _ listed') (build_congr faultless sameMemories rest)

/-! ### The step up to its result -/

/-- What the worker acts on: the stored decision of the step, or else what the model answers to the
prompt of the run. -/
def Decides (host : Host) (answers : Op → Answer) (engine : Engine) (world : World) (run : RunRow)
    (call : ToolCall) : Prop :=
  match world.db.decision run.id run.stepCount with
  | some row => decodeDecision host row.decisionJson = .ok (.toolCall call)
  | none => ∀ messages,
      Runs host answers (engine.messagesForRun host run) world (.ok messages) world →
        (answers (.respond messages (engine.tools.specs run.capabilities))).response =
          .ok (.toolCall call)

theorem Decides.congr (faultless : Faultless answers)
    (decides : Decides host answers engine world run call)
    (sameDecisions : world'.db.decisions = world.db.decisions)
    (sameMessages : world'.db.messages = world.db.messages)
    (sameMemories : world'.db.memories = world.db.memories) :
    Decides host answers engine world' run call := by
  have same : world'.db.decision run.id run.stepCount = world.db.decision run.id run.stepCount := by
    rw [Db.decision, Db.decision, sameDecisions]
  cases decided : world.db.decision run.id run.stepCount with
  | some row => simpa only [Decides, same, decided] using decides
  | none =>
      simp only [Decides, same, decided] at decides ⊢
      intro messages ran
      exact decides messages
        (messagesForRun_congr faultless sameMessages.symm sameMemories.symm ran)

/-- The stored message that notes the call of a step, if there is one, notes this call. -/
theorem Decides.agrees (decides : Decides host answers engine world run call)
    (ofDecision : ∀ message ∈ world.db.messages.rows, ∀ step,
      message.OfDecision host world.db step) :
    world.db.Agrees run.id (stepKey run.stepCount "assistant-decision") .assistant
      (assistantContent call) := by
  intro message taken
  obtain ⟨member, ofRun, keyed⟩ := Db.message_eq_some.1 taken
  obtain ⟨call', ⟨row, decided, decoded⟩, role, content⟩ :=
    (ofDecision message member run.stepCount).decision keyed
  rw [ofRun] at decided
  simp only [Decides, decided] at decides
  obtain rfl := ModelResponse.toolCall.inj (Except.ok.inj (decoded.symm.trans decides))
  exact ⟨role, content⟩

/-- A step that has got as far as the result of its tool has left the queue as it was. -/
structure ResultPending (run : RunRow) (world mid : World) : Prop extends SameQueue world mid where
  drawn : mid.drawn = world.drawn
  result : mid.db.message run.id (stepKey run.stepCount "tool-result") =
    world.db.message run.id (stepKey run.stepCount "tool-result")

theorem ResultPending.trans {first mid last : World} (before : ResultPending run first mid)
    (after : ResultPending run mid last) : ResultPending run first last where
  toSameQueue := before.toSameQueue.trans after.toSameQueue
  drawn := after.drawn.trans before.drawn
  result := after.result.trans before.result

/-- A decision that is not yet stored is stored. -/
theorem recordRunStepDecision_runs (faultless : Faultless answers)
    (stored : world.db.run run.id = some run)
    (absent : world.db.decision run.id run.stepCount = none) (decision : JsonObject) :
    ∃ decisions, Runs host answers
      (recordRunStepDecision run.id run.stepCount decision now).proc world (.ok ())
        { world with db := { world.db with decisions := decisions } } := by
  obtain ⟨decisions, inserted⟩ : ∃ decisions, world.db.decisions.insert
      ⟨run.id, run.stepCount, decision.text compactStyle, now⟩ = some decisions := by
    refine Table.insert_isSome _ fun old member => ?_
    have apart := Table.select_eq_none.1 absent old member
    rw [Bool.eq_false_iff]
    intro clashes
    simp only [UniqueKeys.clash, UniqueKeys.key, beq_iff_eq, Prod.mk.injEq] at clashes
    simp [clashes.1, clashes.2] at apart
  refine ⟨decisions, faultless.proc _ ?_⟩
  have known : (world.db.runs.rows.any fun other => other.id == run.id) = true :=
    List.any_eq_true.2 ⟨run, (Db.run_eq_some.1 stored).1, by simp⟩
  simp [recordRunStepDecision, Stmt.perform, Program.perform, Stmt.exec, known, inserted]

/-- The worker comes to act on the call. -/
theorem admittedResponse_runs (faultless : Faultless answers)
    (stored : world.db.run run.id = some run) (decides : Decides host answers engine world run call) :
    ∃ mid, Runs host answers (engine.admittedResponse host run.id run now) world
        (.ok (.toolCall call)) mid ∧
      ResultPending run world mid ∧ mid.db.messages = world.db.messages := by
  cases found : world.db.decision run.id run.stepCount with
  | some row =>
      simp only [Decides, found] at decides
      refine ⟨world, ?_, ⟨.refl, rfl, rfl⟩, rfl⟩
      rw [decodeDecision] at decides
      have read : ∃ value, loads row.decisionJson = .ok value ∧ value.isDict = true ∧
          responseFromDecision host value = .ok (.toolCall call) := by
        cases loaded : loads row.decisionJson with
        | error exc =>
            rw [loaded] at decides
            cases decides
        | ok value =>
            rw [loaded] at decides
            simp only at decides
            split at decides
            · rename_i isDict
              exact ⟨value, rfl, isDict, decides⟩
            · cases decides
      obtain ⟨value, loaded, isDict, decoded⟩ := read
      have looked : (getRunStepDecision run.id run.stepCount).run host world =
          (.ok (some value), world) := by
        simp [getRunStepDecision, Stmt.perform, Program.perform, Stmt.exec, found, loaded, isDict]
      refine .bind (faultless.proc _ looked) ?_
      simp only [decoded]
      exact .done _
  | none =>
      simp only [Decides, found] at decides
      have looked : (getRunStepDecision run.id run.stepCount).run host world =
          (.ok none, world) := by
        simp [getRunStepDecision, Stmt.perform, Program.perform, Stmt.exec, found]
      obtain ⟨messages, prompts, _⟩ := @messagesForRun_runs host answers faultless engine run world
      have answered := Op.runs host answers
        (.respond messages (engine.tools.specs run.capabilities)) world
      simp only [Op.answer, decides messages prompts] at answered
      obtain ⟨decisions, records⟩ := @recordRunStepDecision_runs host answers world run now faultless
        stored found (decisionFromResponse (.toolCall call))
      refine ⟨{ world with db := { world.db with decisions := decisions } },
        .bind (faultless.proc _ looked) ?_, ⟨⟨rfl, rfl⟩, rfl, rfl⟩, rfl⟩
      exact .bind prompts (.bind answered (.bind records (.done _)))

/-- The call is noted, or was noted before. -/
theorem recordCall_runs (faultless : Faultless answers) (stored : world.db.run run.id = some run)
    (agrees : world.db.Agrees run.id (stepKey run.stepCount "assistant-decision") .assistant
      (assistantContent call)) :
    ∃ mid, Runs host answers (recordRunMessage run.id .assistant (assistantContent call) now
        (some (stepKey run.stepCount "assistant-decision"))).proc world (.ok ()) mid ∧
      ResultPending run world mid := by
  cases taken : world.db.message run.id (stepKey run.stepCount "assistant-decision") with
  | none =>
      obtain ⟨messages, inserted, ran⟩ := @recordRunMessage_fresh host answers world run.id now run
        .assistant (assistantContent call) _ faultless stored taken
      refine ⟨_, ran, ⟨⟨rfl, rfl⟩, rfl, ?_⟩⟩
      have found := Table.select_insert (fun row : MessageRow => row.runId == run.id &&
        row.messageKey == some (stepKey run.stepCount "tool-result")) inserted
      have apart : stepKey run.stepCount "assistant-decision" ≠
          stepKey run.stepCount "tool-result" := fun same =>
        absurd (stepKey_inj same).2 (by decide)
      rw [if_neg (by simp [apart]), Option.or_none] at found
      exact found
  | some row =>
      obtain ⟨sameRole, sameContent⟩ := agrees row taken
      have ran := @recordRunMessage_again host answers world run.id now run .assistant
        (assistantContent call) _ faultless stored row taken
      rw [if_neg (by simp [sameRole, sameContent])] at ran
      exact ⟨world, ran, ⟨.refl, rfl, rfl⟩⟩

/-- A granted read-only tool is executed. -/
theorem executeRead_runs {spec : ToolSpec} {output : JsonObject}
    (gates : Granted host engine.tools call run.capabilities spec)
    (reads : spec.mutation = false)
    (returns : (answers (.handler ⟨spec, call.arguments, call.requestId⟩)).output =
      .ok output.value) :
    ∃ result mid, Runs host answers (engine.tools.execute host call run.capabilities now) world
        (.ok result) mid ∧
      result.output = output.value ∧ ResultPending run world mid := by
  let handled : HandlerCall := ⟨spec, call.arguments, call.requestId⟩
  let invoked : World := { world with calls := world.calls ++ [⟨handled, .ok output.value⟩] }
  have handles : Runs host answers (Op.handler handled).perform world (.ok output.value) invoked := by
    have ran := Op.runs host answers (.handler handled) world
    simp only [Op.answer, handled, returns] at ran
    exact ran
  have executes : Runs host answers (executeReadOnly host spec call) world (.ok ⟨call.requestId,
      call.name, output.value, false, host.sha256 (output.text canonicalStyle)⟩) invoked := by
    have isText : canonicalJson output.value = .ok (output.text canonicalStyle) :=
      output.dumps_eq canonicalStyle
    refine .bind handles ?_
    simp only [isText, Program.ofExcept_ok, Program.bind_eq_bind, Program.done_bind]
    exact .done _
  have reaches : Runs host answers (engine.tools.execute host call run.capabilities now) world
      (.ok ⟨call.requestId, call.name, output.value, false,
        host.sha256 (output.text canonicalStyle)⟩) invoked := by
    refine .bind (Op.runs host answers (.enterExecute call run.capabilities) world) ?_
    simp only [gates.found, List.contains_iff_mem.2 gates.granted, Bool.not_true,
      Bool.false_eq_true, if_false, gates.valid, reads]
    exact executes
  exact ⟨_, invoked, reaches, rfl, ⟨rfl, rfl⟩, rfl, rfl⟩

/-- The step goes on with what the tool returned, whatever comes of that. -/
theorem processStep_concludes (faultless : Faultless answers) {spec : ToolSpec}
    {output : JsonObject} (stored : world.db.run run.id = some run)
    (decides : Decides host answers engine world run call)
    (agrees : world.db.Agrees run.id (stepKey run.stepCount "assistant-decision") .assistant
      (assistantContent call))
    (gates : Granted host engine.tools call run.capabilities spec)
    (reads : spec.mutation = false)
    (returns : (answers (.handler ⟨spec, call.arguments, call.requestId⟩)).output =
      .ok output.value) :
    ∃ mid, ResultPending run world mid ∧ ∀ {outcome world'},
      Runs host answers (engine.concludeStep event run call output.value now) mid outcome world' →
        Runs host answers (engine.processStep host event run.id run now) world outcome world' := by
  obtain ⟨mid₁, admits, pending₁, sameMessages⟩ :=
    @admittedResponse_runs host answers world engine run call now faultless stored decides
  have stored₁ : mid₁.db.run run.id = some run := by rwa [Db.run, pending₁.runs]
  have agrees₁ : mid₁.db.Agrees run.id (stepKey run.stepCount "assistant-decision") .assistant
      (assistantContent call) := by
    intro row taken
    rw [Db.message, sameMessages] at taken
    exact agrees row taken
  obtain ⟨mid₂, notes, pending₂⟩ :=
    @recordCall_runs host answers mid₁ run call now faultless stored₁ agrees₁
  obtain ⟨result, mid₃, executes, same, pending₃⟩ :=
    @executeRead_runs host answers mid₂ engine run call now spec output gates reads returns
  refine ⟨mid₃, (pending₁.trans pending₂).trans pending₃, fun concludes => ?_⟩
  refine .bind admits (.bind notes (.bind executes.attempt ?_))
  simp only [same]
  exact concludes

/-! ### The end of the step -/

/-- A step that moved its run on agreed with the line that was stored, and its next event could be
enqueued. -/
theorem concludeStep_ok (faultless : Faultless answers) (stored : world.db.run run.id = some run)
    (running : run.status = .running) {content : String}
    (printed : toolContent call.name output = .ok content)
    (ran : Runs host answers (engine.concludeStep event run call output now) world (.ok ())
      world') :
    world.db.Agrees run.id (stepKey run.stepCount "tool-result") .tool content ∧
      TakesEvent host world world.drawn
        (runStepRequest run.id (run.stepCount + 1) event.priority now) := by
  obtain ⟨content', start, printing, ran⟩ := ran.of_bind
  obtain ⟨printed', rfl⟩ := printing.of_ofExcept
  obtain rfl := Except.ok.inj (printed.symm.trans printed')
  obtain ⟨_, mid, recording, ran⟩ := ran.of_bind
  obtain ⟨agrees, messages, rfl⟩ := recordRunMessage_ok faultless stored recording
  obtain ⟨next, moved, advancing, _⟩ := ran.of_bind
  refine ⟨agrees, ?_⟩
  let noted : World := { start with db := { start.db with messages := messages } }
  have keyed : (runStepRequest run.id (run.stepCount + 1) event.priority now).dedupKey ≠ some "" := by
    simp [runStepRequest, runStepKey]
  obtain ⟨same, _⟩ := advancing.unique (@Faultless.transaction host answers noted faultless
    (.advanceRunStep run.id run.stepCount event.priority now))
  have stored' : noted.db.run run.id = some run := stored
  rw [Transaction.exec, Transaction.body, exec_advanceRun stored' running, Sql.run_bind] at same
  rcases enqueued : (enqueueEvent (runStepRequest run.id (run.stepCount + 1) event.priority
    now)).run host (advancedWorld noted run.id run.stepCount now) with ⟨exc | eventId, last⟩
  · rw [enqueued] at same
    cases same
  · have takes : TakesEvent host (advancedWorld noted run.id run.stepCount now) start.drawn
        (runStepRequest run.id (run.stepCount + 1) event.priority now) :=
      (enqueueEvent_ok_iff keyed).1 ⟨eventId, last, enqueued⟩
    exact (TakesEvent.congr rfl).1 takes

/-! ### The whole attempt -/

/-- The last `except` raises. -/
theorem requeue_raises {failed : Exc} {outcome : Except Exc Unit}
    (ran : Runs host answers (engine.requeue event run.id failed now) world outcome world') :
    ∃ exc, outcome = .error exc := by
  cases outcome with
  | error exc => exact ⟨exc, rfl⟩
  | ok value =>
      obtain ⟨_, mid, _, ran⟩ := ran.of_bind
      obtain ⟨_, mid', _, ran⟩ := ran.of_bind
      cases ran

/-- The event as its claim hands it to the worker. -/
def stepEventOf (row : EventRow) (run : RunRow) : Event :=
  ⟨row.id, "run.step", (runStepPayload run.id run.stepCount).value, row.priority, row.attempts + 1⟩

/-- What a worker does when the step of the claimed event has returned or raised. -/
def Engine.afterStep (engine : Engine) (event : Event) (runId : String) (now : Time) :
    Except Exc Unit → Proc (Option String)
  | .ok () => .done (some runId)
  | .error exc => (engine.requeue event runId exc now).bind fun _ => .done (some runId)

/-- A worker that claims the event of a running step returns if the step does, and raises if the
step raises. -/
theorem runOnce_steps (faultless : Faultless answers) {row : EventRow}
    (stored : world.db.run run.id = some run) (running : run.status = .running)
    (below : (run.stepCount : Int) < engine.maxSteps)
    (found : firstBy host.tieBreak EventRow.before
      (world.db.events.rows.filter (EventRow.claimable now)) = some row)
    (carries : row.Carries run.id run.stepCount) {outcome : Except Exc Unit} {mid : World}
    (ran : Runs host answers (engine.processStep host (stepEventOf row run) run.id run now)
      (leased world engine.workerId now engine.leaseSeconds row) outcome mid) :
    ∃ outcome' world', Runs host answers (engine.runOnce host now) world outcome' world' ∧
      (outcome = .ok () → outcome' = .ok (some run.id) ∧ world' = mid) ∧
        ∀ exc, outcome = .error exc → ∃ exc', outcome' = .error exc' := by
  have storedMid : (leased world engine.workerId now engine.leaseSeconds row).db.run run.id =
      some run := stored
  have sameStep : ((runStepPayload run.id run.stepCount).value.get? "step").bind PyVal.asInt? =
      some (run.stepCount : Int) := payloadStep_runStepPayload run.id run.stepCount
  suffices handles : ∃ outcome' world', Runs host answers
      (engine.afterStep (stepEventOf row run) run.id now outcome) mid outcome' world' ∧
      (outcome = .ok () → outcome' = .ok (some run.id) ∧ world' = mid) ∧
        ∀ exc, outcome = .error exc → ∃ exc', outcome' = .error exc' by
    obtain ⟨outcome', world', ends, rest⟩ := handles
    refine ⟨outcome', world', ?_, rest⟩
    refine .bind (claimEvent_runs faultless found carries.2) ?_
    simp only [carries.1, Engine.runStep, runStepPayload_runId, Host.str]
    rw [if_neg (by decide), if_pos trivial]
    refine .bind (getRun_runs faultless storedMid) ?_
    simp only [sameStep, ne_eq, not_true_eq_false, if_false, running, if_neg (not_le.2 below)]
    refine .bind ran.attempt ?_
    cases outcome <;> exact ends
  cases outcome with
  | ok value =>
      refine ⟨_, mid, .done (some run.id), fun _ => ⟨rfl, rfl⟩, fun _ impossible => ?_⟩
      cases impossible
  | error exc =>
      rcases requeued : (engine.requeue (stepEventOf row run) run.id exc now).execute
        (kernelMachine host) answers mid with ⟨ended, last⟩
      have requeues : Runs host answers (engine.requeue (stepEventOf row run) run.id exc now) mid
        ended last := requeued
      obtain ⟨exc', rfl⟩ := requeue_raises requeues
      refine ⟨_, last, requeues.bindRaised, fun impossible => ?_, fun _ _ => ⟨exc', rfl⟩⟩
      cases impossible

/-- The result of the step is written once: no other line was stored for it by an attempt before,
and the key of the next step is free or bound to the event that this step enqueues. -/
structure RepeatsResult (db : Db) (run : RunRow) (priority : Int) (now : Time) (line : String) :
    Prop where
  result : ∀ message ∈ db.messages.rows, message.runId = run.id →
    message.messageKey = some (stepKey run.stepCount "tool-result") → message.content = line
  next : ∀ event ∈ db.events.rows,
    event.dedupKey = some (runStepKey run.id (run.stepCount + 1)) →
      (runStepRequest run.id (run.stepCount + 1) priority now).sameAs event = true

/-- Where identifiers are drawn and distinct, the event of the next step can be enqueued if its key
is free or its own. -/
theorem takesEvent_next_iff (distinct : Function.Injective host.uuid4)
    (drawn : EventsDrawn host world) {priority : Int} :
    TakesEvent host world world.drawn
        (runStepRequest run.id (run.stepCount + 1) priority now) ↔
      ∀ event ∈ world.db.events.rows,
        event.dedupKey = some (runStepKey run.id (run.stepCount + 1)) →
          (runStepRequest run.id (run.stepCount + 1) priority now).sameAs event = true := by
  have nonempty : runStepKey run.id (run.stepCount + 1) ≠ "" := by simp [runStepKey]
  have looked : world.db.existing (runStepRequest run.id (run.stepCount + 1) priority now).dedupKey =
      world.db.eventByKey (runStepKey run.id (run.stepCount + 1)) := by
    simp [Db.existing, runStepRequest, nonempty]
  rw [TakesEvent, looked]
  cases found : world.db.eventByKey (runStepKey run.id (run.stepCount + 1)) with
  | some row =>
      obtain ⟨stored, keyed⟩ := Db.eventByKey_eq_some.1 found
      constructor
      · intro same event member taken
        have isRow := Db.eventByKey_eq_some.2 ⟨member, taken⟩
        obtain rfl := Option.some.inj (found.symm.trans isRow)
        exact same
      · intro each
        exact each row stored keyed
  | none =>
      refine iff_of_true (fun row member same => ?_) fun event member taken => ?_
      · obtain ⟨index, below, named⟩ := drawn row member
        have := distinct (named.symm.trans same)
        omega
      · exact absurd taken (Db.eventByKey_eq_none.1 found event member)

/-- In every reachable state a retry of a step that calls a read-only tool moves the run on exactly
if the line of its result is new or the one that an attempt before stored. -/
theorem step_retry_iff (host : Host) (distinct : Function.Injective host.uuid4)
    (steps : KernelConfig → Label Answer Call → Prop) (config : KernelConfig)
    (reached : (system host).Reachable steps KernelConfig.initial config)
    (engine : Engine) (answers : Op → Answer) (faultless : Faultless answers) (now : Time)
    (run : RunRow) (stored : config.world.db.run run.id = some run)
    (running : run.status = .running) (below : (run.stepCount : Int) < engine.maxSteps)
    (row : EventRow)
    (found : firstBy host.tieBreak EventRow.before
      (config.world.db.events.rows.filter (EventRow.claimable now)) = some row)
    (carries : row.Carries run.id run.stepCount) (call : ToolCall)
    (decides : Decides host answers engine config.world run call) (spec : ToolSpec)
    (gates : Granted host engine.tools call run.capabilities spec)
    (reads : spec.mutation = false) (output : JsonObject)
    (returns : (answers (.handler ⟨spec, call.arguments, call.requestId⟩)).output =
      .ok output.value) :
    (∃ value world', Runs host answers (engine.runOnce host now) config.world (.ok value) world' ∧
        StepMoved (stepEventOf row run) run world') ↔
      RepeatsResult config.world.db run row.priority now
        (call.name ++ " => " ++ output.text defaultStyle) := by
  have printed : toolContent call.name output.value =
      .ok (call.name ++ " => " ++ output.text defaultStyle) := by
    rw [toolContent, Kernel.printed, output.dumps_eq defaultStyle]
    rfl
  let start := leased config.world engine.workerId now engine.leaseSeconds row
  have holds : HoldsLease engine (stepEventOf row run) start :=
    @HoldsLease.of_claim engine now config.world engine.leaseSeconds row .none
      (List.mem_of_mem_filter (firstBy_mem found))
  obtain ⟨mid, pending, concludes⟩ := @processStep_concludes host answers start engine
    (stepEventOf row run) run call now faultless spec output stored (decides.congr faultless rfl rfl rfl)
    (decides.agrees (reachable_messages reached)) gates reads returns
  have storedMid : mid.db.run run.id = some run := by
    rw [Db.run, pending.runs]
    exact stored
  have sameLine : mid.db.message run.id (stepKey run.stepCount "tool-result") =
      config.world.db.message run.id (stepKey run.stepCount "tool-result") := pending.result
  have takes_iff : TakesEvent host mid mid.drawn
      (runStepRequest run.id (run.stepCount + 1) row.priority now) ↔
        TakesEvent host config.world config.world.drawn
          (runStepRequest run.id (run.stepCount + 1) row.priority now) := by
    rw [pending.drawn, TakesEvent.congr pending.events]
    exact TakesEvent.leased_iff
  rw [takesEvent_next_iff distinct (reachable_drawn reached)] at takes_iff
  constructor
  · rintro ⟨value, world', ran, moved⟩
    rcases concluded : (engine.concludeStep (stepEventOf row run) run call output.value now).execute
      (kernelMachine host) answers mid with ⟨outcome, last⟩
    have ends : Runs host answers
        (engine.concludeStep (stepEventOf row run) run call output.value now) mid outcome last :=
      concluded
    obtain ⟨outcome', world'', ran', _, raises⟩ :=
      runOnce_steps faultless stored running below found carries (concludes ends)
    cases outcome with
    | error exc =>
        obtain ⟨exc', rfl⟩ := raises exc rfl
        cases (ran.unique ran').1
    | ok done =>
        obtain ⟨agrees, takes⟩ := concludeStep_ok faultless storedMid running printed ends
        refine ⟨fun message member ofRun keyed => ?_, takes_iff.1 takes⟩
        refine (agrees message ?_).2
        rw [sameLine]
        exact Db.message_eq_some.2 ⟨member, ofRun, keyed⟩
  · intro repeats
    have agrees : mid.db.Agrees run.id (stepKey run.stepCount "tool-result") .tool
        (call.name ++ " => " ++ output.text defaultStyle) := by
      intro message taken
      rw [sameLine] at taken
      obtain ⟨member, ofRun, keyed⟩ := Db.message_eq_some.1 taken
      exact ⟨((reachable_messages reached message member run.stepCount).result keyed).2,
        repeats.result message member ofRun keyed⟩
    have ready : StepReady host engine (stepEventOf row run) run now mid :=
      ⟨storedMid, running, holds.of_same pending.toSameQueue, takes_iff.2 repeats.next⟩
    obtain ⟨last, ends, moved⟩ := concludeStep_runs faultless ready printed agrees
    obtain ⟨outcome', world', ran, returns', _⟩ :=
      runOnce_steps faultless stored running below found carries (concludes ends)
    obtain ⟨rfl, rfl⟩ := returns' rfl
    exact ⟨_, _, ran, moved⟩

/-! ### A clock that is read twice -/

/-- A read-only tool without arguments. -/
def clockTool : ToolSpec where
  name := "clock"
  description := "Tell the time."
  inputSchema := .empty
  capability := "time"
  mutation := false

def clockRegistry : ToolRegistry := ⟨[clockTool], by decide, by decide⟩

def clockCall : ToolCall := ⟨"q", "clock", .empty⟩

def clockEngine (workerId : String) : Engine := { payEngine workerId with tools := clockRegistry }

/-- What the clock shows. -/
def clockShows (time : Int) : JsonObject :=
  .ofFields [("time", .int time)] (List.pairwise_singleton _ _) (by simp [isJson])

/-- A worker stores what the clock shows, and dies before the run moves on. -/
def clockRead : List (Label Answer Call) :=
  [.spawn (.submitTask "task" ["time"] 0 none), .act 0 .quiet,
    .spawn (.runOnce (clockEngine "a") 0), .act 1 .quiet, .act 1 .quiet, .act 1 .quiet,
    .act 1 .quiet, .act 1 (.ofResponse (.toolCall clockCall)), .act 1 .quiet, .act 1 .quiet,
    .act 1 .quiet, .act 1 (.ofOutput (.ok (clockShows 1).value)), .act 1 .quiet, .die 1]

/-- The clock shows this time when the step is retried. -/
def clockAnswers (time : Int) (_ : Op) : Answer := .ofOutput (.ok (clockShows time).value)

/-- The run waits for its first step, which decided to read the clock. -/
def clockRetries (config : KernelConfig) : Bool :=
  (config.world.db.run "id-0").any (fun run => run.status == .running && run.stepCount == 0 &&
    run.capabilities == ["time"]) &&
  (config.world.db.decision "id-0" 0).any (fun row =>
    row.decisionJson == decisionText (.toolCall clockCall)) &&
  (firstBy plainHost.tieBreak EventRow.before
    (config.world.db.events.rows.filter (EventRow.claimable 20))).any (fun row =>
      row.kind == "run.step" &&
        row.payloadJson == (runStepPayload "id-0" 0).text compactStyle)

/-- What the facts of `clockRetries` are for. -/
structure ClockRetry (world : World) (run : RunRow) (row : EventRow) : Prop where
  named : run.id = "id-0"
  stored : world.db.run run.id = some run
  running : run.status = .running
  atFirst : run.stepCount = 0
  found : firstBy plainHost.tieBreak EventRow.before
    (world.db.events.rows.filter (EventRow.claimable 20)) = some row
  carries : row.Carries run.id run.stepCount
  decides : ∀ answers, Decides plainHost answers (clockEngine "b") world run clockCall
  gates : Granted plainHost (clockEngine "b").tools clockCall run.capabilities clockTool

theorem clockRetry_of_retries {config : KernelConfig} (retries : clockRetries config = true) :
    ∃ run row, ClockRetry config.world run row := by
  simp only [clockRetries, Bool.and_eq_true, Option.any_eq_true, beq_iff_eq] at retries
  obtain ⟨⟨⟨run, stored, ⟨running, atFirst⟩, capabilities⟩, decision, decided, isCall⟩, row, found,
    kind, payload⟩ := retries
  have named := (Db.run_eq_some.1 stored).2
  refine ⟨run, row, named, named ▸ stored, running, atFirst, found, ⟨kind, ?_⟩, fun answers => ?_,
    ⟨rfl, ?_, rfl⟩⟩
  · rw [payload, named, atFirst]
    exact JsonObject.loads_text compactStyle (runStepPayload "id-0" 0)
  · simp only [Decides, named, atFirst, decided, isCall]
    exact decodeDecision_text plainHost (.toolCall clockCall)
  · rw [capabilities]
    exact List.mem_singleton.2 rfl

/-- The result of the first step is the line of this time, and there is no event of the second. -/
def clockStored (time : Int) (config : KernelConfig) : Bool :=
  config.world.db.messages.rows.all (fun message =>
    message.messageKey != some (stepKey 0 "tool-result") ||
      message.content == "clock => " ++ (clockShows time).text defaultStyle) &&
  config.world.db.events.rows.all fun event => event.dedupKey != some (runStepKey "id-0" 1)

set_option maxRecDepth 10000 in
/-- A retry at which the clock shows the same time moves the run on. -/
theorem step_retry_same :
    ∃ config run row, (system plainHost).Reachable (OneWorker 8) KernelConfig.initial config ∧
      ClockRetry config.world run row ∧
      ((∃ value world', Runs plainHost (clockAnswers 1) ((clockEngine "b").runOnce plainHost 20)
            config.world (.ok value) world' ∧ StepMoved (stepEventOf row run) run world') ↔
          RepeatsResult config.world.db run row.priority 20
            (clockCall.name ++ " => " ++ (clockShows 1).text defaultStyle)) ∧
      RepeatsResult config.world.db run row.priority 20
        (clockCall.name ++ " => " ++ (clockShows 1).text defaultStyle) := by
  have ran : ((system plainHost).run (oneWorker 8) KernelConfig.initial clockRead).any
      (fun config => clockRetries config && clockStored 1 config) = true := by decide +kernel
  obtain ⟨config, reached, facts⟩ := System.Reachable.exists_of_run clockRead ran
  rw [Bool.and_eq_true] at facts
  obtain ⟨run, row, retry⟩ := clockRetry_of_retries facts.1
  have same := facts.2
  simp only [clockStored, Bool.and_eq_true, List.all_eq_true, Bool.or_eq_true, bne_iff_ne,
    beq_iff_eq] at same
  refine ⟨config, run, row, reached, retry, ?_, ?_, ?_⟩
  · exact step_retry_iff plainHost plainHost_uuid4_injective (OneWorker 8) config reached (clockEngine "b")
      (clockAnswers 1) (fun _ => rfl) 20 run retry.stored retry.running
      (by rw [retry.atFirst]; decide) row retry.found retry.carries clockCall (retry.decides _)
      clockTool retry.gates rfl (clockShows 1) rfl
  · intro message member _ keyed
    rw [retry.atFirst] at keyed
    exact (same.1 message member).resolve_left (not_not.2 keyed)
  · intro event member taken
    rw [retry.named, retry.atFirst] at taken
    exact absurd taken (same.2 event member)

set_option maxRecDepth 10000 in
/-- A retry at which the clock shows another time raises, and leaves the event to the next retry and
the run where it was. -/
theorem step_retry_changed :
    ∃ config run row, (system plainHost).Reachable (OneWorker 8) KernelConfig.initial config ∧
      ClockRetry config.world run row ∧
      ∃ exc world', Runs plainHost (clockAnswers 2) ((clockEngine "b").runOnce plainHost 20)
          config.world (.error exc) world' ∧
        world'.db.events.rows.map EventRow.status = [.pending] ∧
        world'.db.runStanding "id-0" = some (.running, 0) := by
  have ran : ((system plainHost).run (oneWorker 8) KernelConfig.initial clockRead).any
      (fun config => clockRetries config &&
        let ended := ((clockEngine "b").runOnce plainHost 20).execute (kernelMachine plainHost)
          (clockAnswers 2) config.world
        !ended.1.isOk && decide (ended.2.db.events.rows.map EventRow.status = [.pending]) &&
          decide (ended.2.db.runStanding "id-0" = some (.running, 0))) = true := by
    decide +kernel
  obtain ⟨config, reached, facts⟩ := System.Reachable.exists_of_run clockRead ran
  simp only [Bool.and_eq_true, decide_eq_true_eq] at facts
  obtain ⟨retries, ⟨raised, events⟩, standing⟩ := facts
  obtain ⟨run, row, retry⟩ := clockRetry_of_retries retries
  rcases ended : ((clockEngine "b").runOnce plainHost 20).execute (kernelMachine plainHost)
    (clockAnswers 2) config.world with ⟨exc | value, world'⟩
  · rw [ended] at events standing
    exact ⟨config, run, row, reached, retry, exc, world', ended, events, standing⟩
  · rw [ended] at raised
    cases raised

end PreActive.Kernel
