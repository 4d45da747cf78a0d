/-
Module: PreActive.Kernel.StepRetry
Purpose: How a step whose tool has returned ends on a retry, and when the transcript line of a
  replayed mutation is the line of its first execution.
Trusted boundary: none
Main exports: Engine.concludeStep, StepReady, StepMoved, concludeStep_runs, ReplaysFirst,
  replayed_line_iff
-/
import PreActive.Python.JsonOrder
import PreActive.Kernel.Settlement

namespace PreActive.Kernel

open PreActive.Foundation PreActive.Python

variable {host : Host} {answers : Op → Answer} {world world' : World} {engine : Engine}
variable {event : Event} {run : RunRow} {call : ToolCall} {now : Time} {output : PyVal}

/-! ### The end of a step -/

/-- What `run_once` does with the output of a tool. -/
def Engine.concludeStep (engine : Engine) (event : Event) (run : RunRow) (call : ToolCall)
    (output : PyVal) (now : Time) : Proc Unit := do
  let content ← Program.ofExcept (toolContent call.name output)
  (recordRunMessage run.id .tool content now (some (stepKey run.stepCount "tool-result"))).proc
  let _ ← (Transaction.advanceRunStep run.id run.stepCount event.priority now).perform
  engine.ack event now

/-- The run stands at the step of the event, the worker holds the event, and the event of the next
step can be enqueued. -/
structure StepReady (host : Host) (engine : Engine) (event : Event) (run : RunRow) (now : Time)
    (world : World) : Prop where
  stored : world.db.run run.id = some run
  running : run.status = .running
  held : ∃ row ∈ world.db.events.rows, row.id = event.id ∧ row.status = .claimed ∧
    row.leaseOwner = some engine.workerId
  next : TakesEvent host world world.drawn
    (runStepRequest run.id (run.stepCount + 1) event.priority now)

/-- The run is at the next step and the event of this one is done. -/
structure StepMoved (event : Event) (run : RunRow) (world : World) : Prop where
  run : ∃ row, world.db.run run.id = some row ∧ row.status = .running ∧
    row.stepCount = run.stepCount + 1
  event : EventDone world event.id

theorem exec_advanceRun {priority : Int} (stored : world.db.run run.id = some run)
    (running : run.status = .running) :
    (advanceRunStepBody run.id run.stepCount priority now).run host world =
      Sql.run host ((enqueueEvent (runStepRequest run.id (run.stepCount + 1) priority now)).bind
        fun _ => .done (run.stepCount + 1)) (advancedWorld world run.id run.stepCount now) := by
  have counted : world.db.runs.count (RunRow.standsAt run.id .running run.stepCount) = 1 :=
    (count_standsAt _ _ _ _).2 ⟨run, stored, running, rfl⟩
  simp only [advanceRunStepBody, Stmt.perform, Program.perform, Program.bind_eq_bind,
    Program.call_bind, Sql.run_call, Stmt.exec, Program.ofExcept_ok, Program.done_bind, counted,
    ne_eq, not_true_eq_false, if_false]
  rfl

/-- A run that can take its next event moves on. -/
theorem advanceTransaction_runs (faultless : Faultless answers)
    (ready : StepReady host engine event run now world) :
    ∃ eventId world', Runs host answers
        (Transaction.advanceRunStep run.id run.stepCount event.priority now).perform world
        (.ok (run.stepCount + 1)) world' ∧
      Enqueues host (runStepRequest run.id (run.stepCount + 1) event.priority now)
        (advancedWorld world run.id run.stepCount now) eventId world' := by
  have keyed : (runStepRequest run.id (run.stepCount + 1) event.priority now).dedupKey ≠ some "" := by
    simp [runStepRequest, runStepKey]
  have next : TakesEvent host (advancedWorld world run.id run.stepCount now) world.drawn
      (runStepRequest run.id (run.stepCount + 1) event.priority now) :=
    (TakesEvent.congr rfl).2 ready.next
  obtain ⟨eventId, world', enqueued⟩ := (enqueueEvent_ok_iff keyed).2 next
  have ran := @Faultless.transaction host answers world faultless
    (.advanceRunStep run.id run.stepCount event.priority now)
  rw [Transaction.exec, Transaction.body, exec_advanceRun ready.stored ready.running, Sql.run_bind,
    enqueued] at ran
  exact ⟨eventId, world', ran, enqueueEvent_ok enqueued⟩

/-- A step whose line agrees with the one that is stored, if any, moves on. -/
theorem concludeStep_runs (faultless : Faultless answers)
    (ready : StepReady host engine event run now world) {content : String}
    (printed : toolContent call.name output = .ok content)
    (agrees : world.db.Agrees run.id (stepKey run.stepCount "tool-result") .tool content) :
    ∃ world', Runs host answers (engine.concludeStep event run call output now) world (.ok ())
      world' ∧ StepMoved event run world' := by
  obtain ⟨messages, recorded⟩ :=
    @recordRunMessage_runs host answers world run.id now run .tool content _ faultless ready.stored
      agrees
  let noted : World := { world with db := { world.db with messages := messages } }
  have ready' : StepReady host engine event run now noted :=
    ⟨ready.stored, ready.running, ready.held, (TakesEvent.congr rfl).2 ready.next⟩
  obtain ⟨eventId, middle, advanced, enqueued⟩ := advanceTransaction_runs faultless ready'
  obtain ⟨row, stored, named, claimed, owner⟩ := ready.held
  have acks := @ack_runs host answers middle faultless engine event now row
    (enqueued.keepsEvents row stored) named claimed owner
  have moved : middle.db.run run.id = some (run.advanced now) := by
    obtain ⟨events, journal, drawn, rfl⟩ := enqueued.touches
    exact (run_advancedWorld now ready'.stored ready.running rfl).1
  refine ⟨acknowledged middle event.id engine.workerId now, ?_,
    ⟨run.advanced now, moved, ready.running, rfl⟩, ack_done faultless acks⟩
  simp only [Engine.concludeStep, printed, Program.ofExcept_ok, Program.bind_eq_bind,
    Program.done_bind]
  exact .bind recorded (.bind advanced acks)

/-- A step whose line differs from the stored one raises, and leaves everything as it is. -/
theorem concludeStep_raises (faultless : Faultless answers)
    (ready : StepReady host engine event run now world) {content : String}
    (printed : toolContent call.name output = .ok content)
    (differs : ¬ world.db.Agrees run.id (stepKey run.stepCount "tool-result") .tool content) :
    Runs host answers (engine.concludeStep event run call output now) world
      (.error (runtimeError "run message key changed after durable admission")) world := by
  simp only [Db.Agrees, not_forall] at differs
  obtain ⟨row, taken, differs⟩ := differs
  have again := @recordRunMessage_again host answers world run.id now run .tool content _ faultless
    ready.stored row taken
  rw [if_pos (by tauto)] at again
  simp only [Engine.concludeStep, printed, Program.ofExcept_ok, Program.bind_eq_bind,
    Program.done_bind]
  exact again.bindRaised

/-! ### The first execution of a mutation and its replays -/

/-- The message is stored under its key. -/
def Db.Keeps (db : Db) (runId key : String) (role : Role) (content : String) : Prop :=
  ∃ row, db.message runId key = some row ∧ row.role = role ∧ row.content = content

variable {registry : ToolRegistry} {allowed : List String} {spec : ToolSpec} {json : String}
variable {row : EffectRow}

/-- The request is new, or it is known to have had no effect. -/
def Unexecuted (host : Host) (world : World) (call : ToolCall) : Prop :=
  ∀ row, world.db.effect call.requestId = some row →
    row.admits host call ∧ row.state = .reconciledNoEffect

/-- The ledger holds the text of an output for the request. -/
structure CommittedAs (host : Host) (world : World) (call : ToolCall) (json : String) : Prop where
  row : ∃ row, world.db.effect call.requestId = some row ∧ row.admits host call ∧
    row.state = .committed ∧ row.resultJson = some json

theorem dispatchMutation_commits (faultless : Faultless answers)
    (stored : world.db.effect call.requestId = some row) (admits : row.admits host call)
    (printed : canonicalJson output = .ok json)
    (returns : (answers (.handler ⟨spec, call.arguments, call.requestId⟩)).output = .ok output) :
    ∃ world', Runs host answers (dispatchMutation host spec call now) world
        (.ok ⟨call.requestId, call.name, output, false, host.sha256 json⟩) world' ∧
      CommittedAs host world' call json := by
  let handled : HandlerCall := ⟨spec, call.arguments, call.requestId⟩
  let invoked : World := { world with calls := world.calls ++ [⟨handled, .ok output⟩] }
  have handles : Runs host answers (Op.handler handled).perform world (.ok output) invoked := by
    have ran := Op.runs host answers (.handler handled) world
    simp only [Op.answer, handled, returns] at ran
    exact ran
  have kept : invoked.db.effect call.requestId = some row := stored
  refine ⟨(Stmt.exec host (.commitEffect call.requestId json (host.sha256 json) now) invoked).2,
    .bind handles.attempt ?_, ⟨_, effect_updateEffects_self kept _, admits, rfl, rfl⟩⟩
  simp only [printed, Program.bind_eq_bind, Program.ofExcept_ok, Program.done_bind]
  exact .bind (@Faultless.sql host answers invoked faultless _) (.done _)

/-- A granted mutation reaches the ledger. -/
theorem execute_reaches (gates : Granted host registry call allowed spec)
    (mutation : spec.mutation = true) {outcome : Except Exc ToolExecution}
    (ran : Runs host answers (executeMutation host spec call now) world outcome world') :
    Runs host answers (registry.execute host call allowed now) world outcome world' := by
  refine .bind (Op.runs host answers (.enterExecute call allowed) world) ?_
  simp only [gates.found, List.contains_iff_mem.2 gates.granted, Bool.not_true,
    Bool.false_eq_true, if_false, gates.valid, mutation, if_true]
  exact ran

/-- The first execution returns the output of the handler and commits its text. -/
theorem execute_first_runs (faultless : Faultless answers)
    (gates : Granted host registry call allowed spec) (mutation : spec.mutation = true)
    (unexecuted : Unexecuted host world call) (printed : canonicalJson output = .ok json)
    (returns : (answers (.handler ⟨spec, call.arguments, call.requestId⟩)).output = .ok output) :
    ∃ world', Runs host answers (registry.execute host call allowed now) world
        (.ok ⟨call.requestId, call.name, output, false, host.sha256 json⟩) world' ∧
      CommittedAs host world' call json := by
  cases stored : world.db.effect call.requestId with
  | some row =>
      obtain ⟨admits, cleared⟩ := unexecuted row stored
      let readmitted : World := (Stmt.exec host (.readmitEffect call.requestId now) world).2
      have kept : readmitted.db.effect call.requestId = some (row.readmitted now) :=
        effect_updateEffects_self stored _
      obtain ⟨world', dispatches, committed⟩ :=
        @dispatchMutation_commits host answers readmitted call now output spec json _ faultless kept
          admits printed returns
      refine ⟨world', execute_reaches gates mutation ?_, committed⟩
      refine .bind (selectEffect_runs faultless stored) ?_
      simp only [admits.1, admits.2, ne_eq, not_true_eq_false, or_self, if_false, cleared]
      exact .bind (@Faultless.sql host answers world faultless _) dispatches
  | none =>
      obtain ⟨effects, inserted⟩ : ∃ effects,
          world.db.effects.insert (freshEffect host call now) = some effects := by
        refine Table.insert_isSome _ fun old member => ?_
        have apart := Db.effect_eq_none.1 stored old member
        simpa [UniqueKeys.clash, UniqueKeys.key, freshEffect] using apart
      let entered : World := { world with db := { world.db with effects := effects } }
      have kept : entered.db.effect call.requestId = some (freshEffect host call now) := by
        rw [effect_insert inserted, stored, Option.none_or]
        exact if_pos rfl
      obtain ⟨world', dispatches, committed⟩ :=
        @dispatchMutation_commits host answers entered call now output spec json _ faultless kept
          ⟨rfl, rfl⟩ printed returns
      refine ⟨world', execute_reaches gates mutation ?_, committed⟩
      have selected := @Faultless.sql host answers world faultless (.selectEffect call.requestId)
      simp only [Stmt.exec, stored] at selected
      have inserts := @Faultless.sql host answers world faultless
        (.insertEffect (freshEffect host call now))
      simp only [Stmt.exec, inserted] at inserts
      exact .bind selected (.bind inserts dispatches)

/-- A replay returns what the committed text reads back as. -/
theorem execute_replays (faultless : Faultless answers)
    (gates : Granted host registry call allowed spec) (mutation : spec.mutation = true)
    (committed : CommittedAs host world call json) {value : PyVal} (read : loads json = .ok value) :
    ∃ digest, Runs host answers (registry.execute host call allowed now) world
      (.ok ⟨call.requestId, call.name, value, true, digest⟩) world := by
  obtain ⟨row, stored, admits, isCommitted, result⟩ := committed.row
  refine ⟨row.resultSha256.getD "None", execute_reaches gates mutation ?_⟩
  refine .bind (selectEffect_runs faultless stored) ?_
  simp only [admits.1, admits.2, ne_eq, not_true_eq_false, or_self, if_false, isCommitted, replay,
    loadsResult, result, read, Program.bind_eq_bind, Program.ofExcept_ok, Program.done_bind]
  exact .done _

/-- The first execution of a mutation renders a line, and its replays and the retry of the step that
stored it meet this line exactly if `alike` holds. -/
structure ReplaysFirst (host : Host) (engine : Engine) (run : RunRow) (call : ToolCall)
    (spec : ToolSpec) (output : PyVal) (json line : String) (alike : Prop) : Prop where
  first : ∀ {answers world} (now), Faultless answers → Unexecuted host world call →
    (answers (.handler ⟨spec, call.arguments, call.requestId⟩)).output = .ok output →
    ∃ first world', Runs host answers (engine.tools.execute host call run.capabilities now) world
        (.ok first) world' ∧
      first.replayed = false ∧ toolContent call.name first.output = .ok line ∧
        CommittedAs host world' call json
  replay : ∀ {answers world} (now), Faultless answers → CommittedAs host world call json →
    ∃ second, Runs host answers (engine.tools.execute host call run.capabilities now) world
        (.ok second) world ∧
      second.replayed = true ∧ (toolContent call.name second.output = .ok line ↔ alike)
  retry : ∀ {answers world event} (now), Faultless answers → CommittedAs host world call json →
    StepReady host engine event run now world →
    world.db.Keeps run.id (stepKey run.stepCount "assistant-decision") .assistant
      (assistantContent call) →
    world.db.Keeps run.id (stepKey run.stepCount "tool-result") .tool line →
    ∃ outcome world', Runs host answers (engine.toolStep host event run.id run call now) world
        outcome world' ∧
      (outcome = .ok () ∧ StepMoved event run world' ↔ alike) ∧
      (¬ alike →
        outcome = .error (runtimeError "run message key changed after durable admission"))

/-- A replay renders the line of the first execution exactly if in every dict of the output the
names of the members ascend in the order of the sorted keys; and exactly then a retry after the
line was stored moves the run on. -/
theorem replayed_line_iff (gates : Granted host engine.tools call run.capabilities spec)
    (mutation : spec.mutation = true) (printed : canonicalJson output = .ok json) :
    ∃ line, ReplaysFirst host engine run call spec output json line (namesAscend output = true) := by
  obtain ⟨text, isText⟩ := dumps_style defaultStyle printed
  have read := loads_of_dumps printed
  have alike := dumps_reread_iff isText
  obtain ⟨again, isAgain, _⟩ := loads_dumps defaultStyle (isJson_reread printed)
  have isLine : toolContent call.name output = .ok (call.name ++ " => " ++ text) := by
    rw [toolContent, Kernel.printed, isText]
    rfl
  have isSame : toolContent call.name (reread output) = .ok (call.name ++ " => " ++ text) ↔
      namesAscend output = true := by
    rw [← alike, toolContent, Kernel.printed, isAgain]
    simp [Except.map]
  refine ⟨call.name ++ " => " ++ text, ⟨?_, ?_, ?_⟩⟩
  · intro answers world now faultless unexecuted returns
    obtain ⟨world', ran, committed⟩ :=
      execute_first_runs faultless gates mutation unexecuted printed returns
    exact ⟨_, world', ran, rfl, isLine, committed⟩
  · intro answers world now faultless committed
    obtain ⟨digest, ran⟩ := execute_replays faultless gates mutation committed read
    exact ⟨_, ran, rfl, isSame⟩
  · intro answers world event now faultless committed ready decided stored
    obtain ⟨row, found, isAssistant, sameCall⟩ := decided
    have decides := @recordRunMessage_again host answers world run.id now run .assistant
      (assistantContent call) _ faultless ready.stored row found
    rw [if_neg (by simp [isAssistant, sameCall])] at decides
    obtain ⟨digest, ran⟩ := @execute_replays host answers world call now engine.tools run.capabilities
      spec json faultless gates mutation committed _ read
    have isContent : toolContent call.name (reread output) = .ok (call.name ++ " => " ++ again) := by
      rw [toolContent, Kernel.printed, isAgain]
      rfl
    have agrees : world.db.Agrees run.id (stepKey run.stepCount "tool-result") .tool
        (call.name ++ " => " ++ again) ↔ namesAscend output = true := by
      obtain ⟨row, found, isTool, sameLine⟩ := stored
      rw [← isSame, isContent, Except.ok.injEq]
      constructor
      · exact fun agrees => (agrees row found).2.symm.trans sameLine
      · intro same row' found'
        obtain rfl : row = row' := Option.some.inj (found.symm.trans found')
        exact ⟨isTool, sameLine.trans same.symm⟩
    by_cases ascends : namesAscend output = true
    · obtain ⟨world', concluded, moved⟩ :=
        concludeStep_runs faultless ready isContent (agrees.2 ascends)
      refine ⟨.ok (), world', ?_, iff_of_true ⟨rfl, moved⟩ ascends, fun not => absurd ascends not⟩
      exact .bind decides (.bind ran.attempt concluded)
    · have raised := concludeStep_raises faultless ready isContent fun same =>
        ascends (agrees.1 same)
      refine ⟨_, world, .bind decides (.bind ran.attempt raised), ?_, fun _ => rfl⟩
      exact iff_of_false (fun both => nomatch both.1) ascends

/-- The output of a handler that numbers its entries. -/
def numberedOutput : PyVal := .dict [(.int 2, .str "a"), (.int 10, .str "b")]

theorem numberedOutput_text :
    canonicalJson numberedOutput = .ok "\x7b\"2\":\"a\",\"10\":\"b\"\x7d" := by
  decide +kernel

theorem payCall_granted : Granted plainHost payRegistry (payCall "q") ["money"] payTool :=
  ⟨rfl, by decide, rfl⟩

theorem replayed_line_iff_numbered :
    ∃ line, ReplaysFirst plainHost (payEngine "a") (newRunRow "task" ["money"] 0 none "id-0")
      (payCall "q") payTool numberedOutput "\x7b\"2\":\"a\",\"10\":\"b\"\x7d" line
      (namesAscend numberedOutput = true) :=
  replayed_line_iff ⟨rfl, by decide +kernel, rfl⟩ rfl numberedOutput_text

/-- The numbers are sorted as numbers the first time and as strings on the replay. -/
theorem numbered_line_changes : ∃ first second world',
    Runs plainHost (fun _ => .ofOutput (.ok numberedOutput))
      (payRegistry.execute plainHost (payCall "q") ["money"] 0) .initial (.ok first) world' ∧
    Runs plainHost (fun _ => .quiet)
      (payRegistry.execute plainHost (payCall "q") ["money"] 20) world' (.ok second) world' ∧
    toolContent "pay" first.output = .ok "pay => \x7b\"2\": \"a\", \"10\": \"b\"\x7d" ∧
    toolContent "pay" second.output = .ok "pay => \x7b\"10\": \"b\", \"2\": \"a\"\x7d" := by
  obtain ⟨world', ran, committed⟩ :=
    @execute_first_runs plainHost (fun _ => .ofOutput (.ok numberedOutput)) .initial (payCall "q") 0
      numberedOutput payRegistry ["money"] payTool _ (fun _ => rfl) payCall_granted rfl
      (fun _ impossible => nomatch impossible) numberedOutput_text rfl
  obtain ⟨digest, again⟩ :=
    @execute_replays plainHost (fun _ => .quiet) world' (payCall "q") 20 payRegistry ["money"]
      payTool _ (fun _ => rfl) payCall_granted rfl committed _ (loads_of_dumps numberedOutput_text)
  refine ⟨_, _, world', ran, again, ?_, ?_⟩
  · decide +kernel
  · change toolContent "pay" (reread numberedOutput) = _
    decide +kernel

end PreActive.Kernel
