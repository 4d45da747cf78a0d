/-
Module: PreActive.Kernel.Attempts
Purpose: A whole `run_once` of a worker that runs alone keeps to the ideal machine.
Trusted boundary: none
Main exports: At.enqueues, advance_does, toolStep_does, finalStep_does, runStep_does, runOnce_does
-/
import PreActive.Kernel.Invocation
import PreActive.Kernel.Successors

namespace PreActive.Kernel

open PreActive.Foundation PreActive.Python

variable {env : Environment} {start view : View} {world : World} {now : Time}
variable {workerId : String} {leaseSeconds : Time} {event : Event} {run : RunRow}

/-! ### Transactions -/

theorem transaction_answer (env : Environment) (block : Transaction) (world : World) :
    (Op.transaction block).answer env.host (env.answers (.transaction block)) world =
      block.exec env.host world := rfl

/-- A block that keeps to the machine when it commits keeps to it when it is rolled back. -/
theorem transaction_does (block : Transaction) {R : block.Result → View → Prop}
    (commits : env.Chain start view → ∀ world result world', At env view world →
      Transacts env.host world block result world' →
        ∃ view', At env view' world' ∧ env.Chain start view' ∧ R result view') :
    Does env start R anyError block.perform view := by
  unfold Transaction.perform
  refine .op (.transaction block) fun chain world shows => ?_
  rw [transaction_answer]
  rcases ran : block.exec env.host world with ⟨exc | result, world'⟩
  · rw [Transaction.exec_error ran]
    exact ⟨view, shows.drawn _, chain, trivial⟩
  · exact commits chain world result world' shows (Transaction.exec_ok ran)

theorem EventRequest.row_asks (runId eventId : String) (step : Nat) (priority : Int) (now : Time) :
    ((runStepRequest runId step priority now).row eventId).Asks runId :=
  ⟨rfl, step, (runStepPayload runId step).loads_text compactStyle⟩

/-- The next step event is no part of the view. -/
theorem At.enqueues {step : Nat} {priority : Int} {eventId : String} {world' : World}
    (shows : At env view world)
    (enqueued : Enqueues env.host (runStepRequest env.runId step priority now) world eventId
      world') : At env view world' := by
  cases enqueued with
  | reused row found same => exact shows
  | fresh events absent inserted =>
      refine shows.congr rfl rfl rfl rfl rfl rfl fun row member open' => ?_
      rw [Table.rows_insert inserted] at member
      rcases List.mem_append.1 member with old | new
      · exact shows.events row old open'
      · rw [List.mem_singleton] at new
        rw [new]
        exact EventRequest.row_asks ..

theorem advance_does {step : Nat} {priority : Int} (moves : env.next view = some view.advanced) :
    Does env start (fun _ _ => True) anyError
      (Transaction.advanceRunStep env.runId step priority now).perform view := by
  refine transaction_does (.advanceRunStep env.runId step priority now)
    fun chain world result world' shows committed => ?_
  cases committed with
  | advance row found running stands' enqueued =>
      have matched : row.standsAt env.runId .running step = true :=
        standsAt_eq_true.2 ⟨(Db.run_eq_some.1 found).2, running, stands'⟩
      have shows' := shows.updateRuns (RunRow.standsAt env.runId .running step)
        (RunRow.advanced now) (fun _ => rfl) found matched
      obtain ⟨stored, found', same⟩ := shows.run
      rw [found, Option.some.injEq] at found'
      subst found'
      have advanced : { view with run := (row.advanced now).timeless } = view.advanced := by
        rw [View.advanced, ← same]
        rfl
      rw [advanced] at shows'
      exact ⟨view.advanced, shows'.enqueues enqueued, chain.next moves, trivial⟩

/-! ### The claim -/

/-- The event carries a step of the run. -/
def Event.Asks (runId : String) (event : Event) : Prop :=
  event.kind = "run.step" ∧ ∃ step, event.payload = (runStepPayload runId step).value

theorem EventRow.claimable_live {row : EventRow} (claimable : row.claimable now = true) :
    row.status ≠ .done := by
  intro isDone
  simp [EventRow.claimable, isDone] at claimable

theorem At.leased (workerId : String) (leaseSeconds : Time) {row : EventRow}
    {tieBreak : List EventRow → Nat} (shows : At env view world)
    (found : firstBy tieBreak EventRow.before
      (world.db.events.rows.filter (EventRow.claimable now)) = some row) :
    row.Asks env.runId ∧ At env view (leased world workerId now leaseSeconds row) := by
  obtain ⟨stored, claimable⟩ := List.mem_filter.1 (firstBy_mem found)
  constructor
  · exact shows.events row stored (EventRow.claimable_live claimable)
  · have updated := shows.updateEvents (fun other => other.id == row.id)
      (EventRow.claimedBy workerId (now + leaseSeconds) (row.attempts + 1) now) (fun _ => rfl)
      (fun _ => rfl) (fun _ => rfl) fun other member sameId => by
        have same : other = row := Table.eq_of_clash member stored
          (by simp [UniqueKeys.clash, UniqueKeys.key, eq_of_beq sameId])
          (by simp [UniqueKeys.clash, UniqueKeys.key, eq_of_beq sameId])
        rw [same]
        exact EventRow.claimable_live claimable
    exact updated.congr rfl rfl rfl rfl rfl rfl updated.events

theorem claimEvent_does :
    Does env start (fun found view' => view' = view ∧
        ∀ event, found = some event → event.Asks env.runId) anyError
      (claimEvent workerId now leaseSeconds) view := by
  simp only [claimEvent, Program.bind_eq_bind]
  have claims : Does env start (fun found view' => view' = view ∧
      ∀ claim, found = some claim → claim.row.Asks env.runId) anyError
      (Transaction.claimEvent workerId now leaseSeconds).perform view := by
    refine transaction_does (.claimEvent workerId now leaseSeconds)
      fun chain world result world' shows committed => ?_
    cases committed with
    | claimNothing idle =>
        exact ⟨view, shows, chain, rfl, fun claim impossible => by cases impossible⟩
    | claim row found =>
        obtain ⟨asks, shows'⟩ := shows.leased workerId leaseSeconds found
        refine ⟨view, shows', chain, rfl, fun claim same => ?_⟩
        rw [← Option.some.inj same]
        exact asks
  refine claims.seq ?_
  rintro (_ | claim) view' ⟨rfl, asks⟩
  · exact .done ⟨rfl, fun event impossible => by cases impossible⟩
  · obtain ⟨isStep, step, loaded⟩ := asks claim rfl
    simp only [loaded, Program.ofExcept_ok, Program.done_bind, Program.pure_eq_done]
    refine .done ⟨rfl, fun event same => ?_⟩
    rw [← Option.some.inj same]
    exact ⟨isStep, step, rfl⟩

/-! ### The end of a step -/

theorem ack_does :
    Does env start (fun _ view' => view' = view) anyError
      ((env.engine workerId leaseSeconds).ack event now) view :=
  ackEvent_does

/-- A change of the run by a worker, then the acknowledgement. -/
theorem updateRun_ack_does {change : RunChange} {after : View}
    (either : after = view ∨ env.next view = some after)
    (changes : ∀ row : RunRow, row.timeless = view.run →
      { view with run := (change.apply row).timeless } = after) :
    Does env start (fun _ _ => True) anyError
      ((updateRun env.runId change).proc.bind fun _ =>
        (env.engine workerId leaseSeconds).ack event now) view :=
  (updateRun_does either changes).seq fun _ _ _ =>
    ack_does.weaken (fun _ _ _ => trivial) fun _ _ _ => trivial

theorem View.failed_of_change (now : Time) (error : String) {row : RunRow}
    (same : row.timeless = view.run) :
    { view with
      run := ((⟨now, some .failed, none, some error, false, false⟩ : RunChange).apply row).timeless } =
        view.failed := by
  rw [View.failed, ← same]
  rfl

theorem View.completed_of_change (now : Time) (text : String) {row : RunRow}
    (same : row.timeless = view.run) :
    { view with
      run := ((⟨now, some .completed, some text, none, true, true⟩ : RunChange).apply row).timeless } =
        view.completed text := by
  rw [View.completed, ← same]
  rfl

theorem View.same_of_requeue (now : Time) (error : String) {row : RunRow}
    (same : row.timeless = view.run) :
    { view with
      run := ((⟨now, none, none, some error, false, false⟩ : RunChange).apply row).timeless } =
        view := by
  have unchanged : ((⟨now, none, none, some error, false, false⟩ : RunChange).apply row).timeless =
      row.timeless := rfl
  rw [unchanged, same]

theorem requeue_does {exc : Exc} :
    Does env start (fun _ _ => True) anyError
      ((env.engine workerId leaseSeconds).requeue event env.runId exc now) view := by
  simp only [Engine.requeue, Program.bind_eq_bind]
  refine (updateRun_does (.inl rfl) fun row same => View.same_of_requeue now exc.render same).seq
    fun _ view' _ => ?_
  exact failEvent_does.seq fun _ _ _ => .raise trivial

/-! ### A step -/

/-- With a settled ledger no run is ever blocked. -/
theorem classifyToolError_does {call : ToolCall} {exc : Exc} (settled : view.Settled)
    (working : view.Working env) (decided : view.Decided env view.run (.toolCall call))
    (fails : exc.isToolError = true → env.nextCall view call = some view.failed) :
    Does env start (fun _ _ => True) anyError
      ((env.engine workerId leaseSeconds).classifyToolError event env.runId call exc now) view := by
  simp only [Engine.classifyToolError, effectState, Program.bind_eq_bind, Program.bind_assoc]
  have reads : Does env start (fun found view' => view' = view ∧
      view.effect call.requestId = found.map EffectRow.timeless) anyError
      (Op.sql (.selectEffect call.requestId)).perform view :=
    .select (.selectEffect call.requestId) (fun world => world.db.effect call.requestId)
      (fun _ => rfl) fun world shows => ⟨rfl, shows.effect call.requestId⟩
  refine reads.seq ?_
  rintro found view' ⟨rfl, same⟩
  simp only [Program.pure_eq_done, Program.done_bind]
  have resolved : ((found.map EffectRow.state).any EffectState.unresolved) = false := by
    cases found with
    | none => rfl
    | some row =>
        have committed : row.state = .committed := (settled.effect same).1
        simp [committed, EffectState.unresolved]
  rw [if_neg (by simp [resolved])]
  split
  · rename_i isToolError
    refine updateRun_ack_does (.inr ?_) fun row sameRow =>
      View.failed_of_change now exc.render sameRow
    rw [working.next_call decided]
    exact fails isToolError
  · exact .raise trivial

theorem View.Working.of_run {view' : View} (working : view.Working env)
    (run : view'.run = view.run) : view'.Working env :=
  ⟨by rw [run]; exact working.running, by rw [run]; exact working.below⟩

theorem View.Decided.of_same {view' : View} {response : ModelResponse}
    (decided : view.Decided env view.run response) (run : view'.run = view.run)
    (decisions : view'.decisions = view.decisions) : view'.Decided env view'.run response := by
  obtain ⟨_, row, found, decoded⟩ := decided
  refine ⟨rfl, row, ?_, decoded⟩
  rw [View.decision, decisions, run]
  exact found

/-- The message of the result, then the next step. -/
theorem result_does {call : ToolCall} {output : PyVal} {step : Nat} (working : view.Working env)
    (decided : view.Decided env view.run (.toolCall call)) (announced : view.Announced)
    (yields : view.Yields env call output) :
    Does env start (fun _ _ => True) anyError
      ((Program.ofExcept (toolContent call.name output)).bind fun content =>
        (recordRunMessage env.runId .tool content now
          (some (stepKey view.run.stepCount "tool-result"))).proc.bind fun _ =>
        (Transaction.advanceRunStep env.runId step event.priority now).perform.bind
          fun _ => (env.engine workerId leaseSeconds).ack event now) view := by
  cases content : toolContent call.name output with
  | error exc => exact .raise trivial
  | ok text =>
      simp only [Program.ofExcept_ok, Program.done_bind]
      have recorded : Does env start _ anyError (recordRunMessage env.runId .tool text now
          (some (stepKey view.run.stepCount "tool-result"))).proc view :=
        recordRunMessage_does fun absent => by
          rw [working.next_call decided, yields.nextCall announced]
          simp only [Environment.nextResult, absent, content]
      refine recorded.seq ?_
      rintro _ view' ⟨continues, told⟩
      have moves : env.next view' = some view'.advanced := by
        have working' := working.of_run continues.run
        have decided' := decided.of_same continues.run continues.decisions
        have announced' : view'.Announced := by
          rw [View.Announced, continues.run]
          exact continues.messages _ announced
        have yields' := yields.of_same continues.run continues.effects
        obtain ⟨message, found⟩ := Option.isSome_iff_exists.1 told
        rw [working'.next_call decided', yields'.nextCall announced']
        simp only [Environment.nextResult, continues.run, found]
      refine (advance_does moves).seq fun _ _ _ => ?_
      exact ack_does.weaken (fun _ _ _ => trivial) fun _ _ _ => trivial

/-- A step whose decision is a tool call keeps to the machine. -/
theorem toolStep_does {call : ToolCall} (same : run.timeless = view.run) (settled : view.Settled)
    (working : view.Working env) (decided : view.Decided env view.run (.toolCall call)) :
    Does env start (fun _ _ => True) anyError
      ((env.engine workerId leaseSeconds).toolStep env.host event env.runId run call now) view := by
  have sameStep : run.stepCount = view.run.stepCount := by rw [← same]; rfl
  have sameCapabilities : run.capabilities = view.run.capabilities := by rw [← same]; rfl
  simp only [Engine.toolStep, sameStep, sameCapabilities, Program.bind_eq_bind]
  have recorded : Does env start _ anyError (recordRunMessage env.runId .assistant
      (assistantContent call) now (some (stepKey view.run.stepCount "assistant-decision"))).proc
        view :=
    recordRunMessage_does fun absent => by
      rw [working.next_call decided]
      simp only [Environment.nextCall, absent]
  refine recorded.seq ?_
  rintro _ view' ⟨continues, told⟩
  have settled' : view'.Settled := by
    rw [View.Settled, continues.effects]
    exact settled
  have working' := working.of_run continues.run
  have decided' := decided.of_same continues.run continues.decisions
  have announced' : view'.Announced := by
    rw [View.Announced, continues.run]
    exact told
  rw [← continues.run]
  refine (execute_does settled' working' decided' announced').attempt.seq ?_
  rintro (exc | result) view'' ⟨returned, refused⟩
  · obtain ⟨rfl, fails⟩ := refused exc rfl
    exact classifyToolError_does settled' working' decided' fails
  · have executed := returned result rfl
    have announced'' : view''.Announced := by
      rw [View.Announced, View.message, executed.run, executed.messages]
      exact announced'
    simp only
    rw [← executed.run]
    exact result_does (working'.of_run executed.run)
      (decided'.of_same executed.run executed.decisions) announced'' executed.yields

/-- A step whose decision is a final text keeps to the machine. -/
theorem finalStep_does {text : String} (same : run.timeless = view.run)
    (working : view.Working env) (decided : view.Decided env view.run (.finalText text)) :
    Does env start (fun _ _ => True) anyError
      ((env.engine workerId leaseSeconds).finalStep event env.runId run text now) view := by
  have sameStep : run.stepCount = view.run.stepCount := by rw [← same]; rfl
  simp only [Engine.finalStep, sameStep, Program.bind_eq_bind]
  have recorded : Does env start _ anyError (recordRunMessage env.runId .assistant text now
      (some (stepKey view.run.stepCount "assistant-final"))).proc view :=
    recordRunMessage_does fun absent => by
      rw [working.next_final decided]
      simp only [Environment.nextFinal, absent]
  refine recorded.seq ?_
  rintro _ view' ⟨continues, told⟩
  refine updateRun_ack_does (.inr ?_) fun row sameRow => View.completed_of_change now text sameRow
  have decided' := decided.of_same continues.run continues.decisions
  obtain ⟨message, found⟩ := Option.isSome_iff_exists.1 told
  rw [(working.of_run continues.run).next_final decided']
  simp only [Environment.nextFinal, continues.run, found]

theorem processStep_does (same : run.timeless = view.run) (settled : start.Settled)
    (working : view.Working env) :
    Does env start (fun _ _ => True) anyError
      ((env.engine workerId leaseSeconds).processStep env.host event env.runId run now) view := by
  simp only [Engine.processStep, Program.bind_eq_bind]
  refine (admittedResponse_does same working).seq ?_
  rintro response view' decided
  obtain ⟨sameRun, row, found, decoded⟩ := decided
  have working' := working.of_run sameRun
  have decided' : view'.Decided env view'.run response := ⟨rfl, row, found, decoded⟩
  rw [← sameRun] at same
  refine .ofChain fun chain => ?_
  cases response with
  | toolCall call => exact toolStep_does same (chain.settled settled) working' decided'
  | finalText text => exact finalStep_does same working' decided'

/-! ### A whole attempt -/

theorem ack_return_does {value : Option String} :
    Does env start (fun _ _ => True) anyError
      (((env.engine workerId leaseSeconds).ack event now).bind fun _ => .done value) view :=
  ack_does.seq fun _ _ _ => .done trivial

/-- A claimed step event. -/
theorem runStep_does (asks : event.Asks env.runId) (settled : start.Settled) :
    Does env start (fun _ _ => True) anyError
      ((env.engine workerId leaseSeconds).runStep env.host event now) view := by
  obtain ⟨_, step, payload⟩ := asks
  simp only [Engine.runStep, payload, runStepPayload_runId, Host.str, Program.bind_eq_bind,
    Program.pure_eq_done]
  refine getRun_does.seq ?_
  rintro run view' ⟨rfl, same⟩
  have sameStep : run.stepCount = view'.run.stepCount := by rw [← same]; rfl
  have sameStatus : run.status = view'.run.status := by rw [← same]; rfl
  split
  · exact ack_return_does
  · split
    · exact ack_return_does
    · rename_i running
      simp only [sameStatus, ne_eq, not_not] at running
      split
      · rename_i exhausted
        refine (updateRun_does (.inr ?_) fun row sameRow =>
          View.failed_of_change now "max_steps exceeded" sameRow).seq fun _ _ _ => ack_return_does
        rw [Environment.next, if_neg (by simp [running]), if_pos (by rw [← sameStep]; exact exhausted)]
      · rename_i below
        have working : view'.Working env := ⟨running, by rw [← sameStep]; exact below⟩
        refine (processStep_does same settled working).attempt.seq ?_
        rintro (exc | _) view'' _
        · exact requeue_does.seq fun _ _ _ => .done trivial
        · exact .done trivial

/-- Whatever a worker that runs alone does, and wherever it is killed, it keeps to the machine. -/
theorem runOnce_does (workerId : String) (leaseSeconds now : Time) (settled : start.Settled) :
    Does env start (fun _ _ => True) anyError
      ((env.engine workerId leaseSeconds).runOnce env.host now) view := by
  simp only [Engine.runOnce, Program.bind_eq_bind]
  have claims : Does env start _ anyError
      (claimEvent (env.engine workerId leaseSeconds).workerId now
        (env.engine workerId leaseSeconds).leaseSeconds) view := claimEvent_does
  refine claims.seq ?_
  rintro (_ | event) view' ⟨rfl, asks⟩
  · exact .done trivial
  · have asked := asks event rfl
    simp only
    rw [if_neg (by rw [asked.1]; decide), if_pos asked.1]
    exact runStep_does asked settled

end PreActive.Kernel
