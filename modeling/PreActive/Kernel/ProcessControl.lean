/-
Module: PreActive.Kernel.ProcessControl
Purpose: Where a `KeyboardInterrupt` or `SystemExit` may strike `run_once` so that it is raised
  again and the event settled, and where it is lost.
Trusted boundary: human-reviewed spec
Main exports:
  runForeverTurn, Survives, interruption_survives_iff
-/
import PreActive.Kernel.Interrupts

namespace PreActive.Kernel

open PreActive.Foundation PreActive.Python
open Program (Ran Struck RunsTo Relays Embeds)
open Program.Obeys

variable {host : Host} {engine : Engine} {event : Event} {now : Time} {strike : Interruption}
variable {answers : Op → Answer} {world world' mid : World} {log log' : History} {place : Place}
variable {runId : String} {run : RunRow} {call : ToolCall} {allowed : List String} {exc : Exc}

/-! ### The lease -/

/-- The worker holds the lease of the event. -/
def HoldsLease (engine : Engine) (event : Event) (world : World) : Prop :=
  ∃ row ∈ world.db.events.rows, row.id = event.id ∧ row.status = .claimed ∧
    row.leaseOwner = some engine.workerId

theorem HoldsLease.of_events (holds : HoldsLease engine event world)
    (more : ∀ row ∈ world.db.events.rows, row ∈ world'.db.events.rows) :
    HoldsLease engine event world' := by
  obtain ⟨row, stored, rest⟩ := holds
  exact ⟨row, more row stored, rest⟩

theorem HoldsLease.of_same (holds : HoldsLease engine event world) (same : SameQueue world world') :
    HoldsLease engine event world' :=
  holds.of_events fun row stored => by rwa [same.events]

theorem HoldsLease.counted (holds : HoldsLease engine event world) :
    world.db.events.count (EventRow.heldBy event.id engine.workerId) = 1 :=
  (count_heldBy _ _ _).2 holds

/-- An acknowledgement is struck before it does anything, or when the event is done. -/
theorem ack_struck (faultless : Faultless answers) (holds : HoldsLease engine event world)
    {outcome : Except Exc Unit}
    (struck : StruckAt host answers strike log (engine.ack event now) world place outcome world') :
    outcome = .error strike.exc ∧ world' = strike.left host place ∧ Tried place.log = Tried log ∧
      ((place.op = .sql (.ackEvent event.id engine.workerId now) ∧ strike.arrival = .before ∧
          world' = world) ∨
        ((place.op = .sql (.ackEvent event.id engine.workerId now) ∧ strike.arrival = .after ∨
            ∃ row, place.op = .sql (.insertJournal row) ∧ row.eventType = .eventAcked) ∧
          EventDone world' event.id ∧ world'.db.runs = world.db.runs)) := by
  have acked : EventDone (Stmt.exec host (.ackEvent event.id engine.workerId now) world).2
      event.id := by
    obtain ⟨row, stored, named, claimed, owner⟩ := holds
    have mapped := List.mem_map_of_mem (f := fun row : EventRow =>
      if row.heldBy event.id engine.workerId = true then row.acked now else row) stored
    rw [if_pos (EventRow.heldBy_eq_true.2 ⟨named, claimed, owner⟩)] at mapped
    exact ⟨row.acked now, mapped, named, rfl⟩
  simp only [Engine.ack, ackEvent, Stmt.perform, Program.perform, Program.bind_eq_bind,
    Program.call_bind, Sql.proc_call, Sql.proc_bind, Sql.proc_ofExcept] at struck
  rcases struck_statement faultless struck with ⟨rfl, same, rfl⟩ | ⟨rowcount, counted, rest⟩
  · refine ⟨same, rfl, rfl, ?_⟩
    rw [left_statement]
    cases arrival : strike.arrival with
    | before => exact .inl ⟨rfl, rfl, rfl⟩
    | after => exact .inr ⟨.inl ⟨rfl, rfl⟩, acked, rfl⟩
  · obtain rfl : _ = rowcount := Except.ok.inj counted
    rw [if_neg (not_not.2 holds.counted)] at rest
    simp only [appendJournal, Stmt.perform, Program.perform, Program.call_bind, Sql.proc_call,
      Sql.proc_bind, Sql.proc_ofExcept] at rest
    rcases struck_statement faultless rest with ⟨rfl, same, rfl⟩ | ⟨_, _, rest⟩
    · refine ⟨same, rfl, rfl, .inr ⟨.inr ⟨_, rfl, rfl⟩, ?_⟩⟩
      exact left_keeps (fun left => EventDone left event.id ∧ left.db.runs = world.db.runs)
        ⟨acked, rfl⟩ ⟨acked, rfl⟩
    · cases rest

/-- An acknowledgement that is not struck does not fail. -/
theorem ack_ran (faultless : Faultless answers) (holds : HoldsLease engine event world)
    {outcome : Except Exc Unit}
    (ran : Ran (kernelMachine host) answers log (engine.ack event now) world log' outcome world') :
    outcome = .ok () := by
  obtain ⟨row, stored, named, claimed, owner⟩ := holds
  exact (ran.runsTo.unique (ack_runs faultless stored named claimed owner)).1

/-! ### The `except` around `execute` -/

/-- After `execute` the process is no longer about to look at the ledger for its call. -/
theorem leaves_of_rule {α : Type} {registry : ToolRegistry} {program : Proc α}
    {post : History → Except Exc α → Prop}
    (obeys : program.Obeys (ToolRule host registry fun _ _ _ => False) post log)
    (left : EntersLedger host registry log = false) :
    program.Obeys (fun _ _ => True) (fun log' _ => EntersLedger host registry log' = false) log := by
  refine (obeys.carry (P := fun log => EntersLedger host registry log = false)
    (Q := fun _ _ => True) (fun _ _ _ _ => trivial) (fun log op result rule _ => ?_) left).weaken
      fun _ _ ends => ends.2
  cases op with
  | enterExecute call allowed => exact rule.elim
  | _ => rfl

theorem execute_leaves {registry : ToolRegistry} :
    (registry.execute host call allowed now).Obeys (fun _ _ => True)
      (fun log' _ => EntersLedger host registry log' = false) log := by
  rw [ToolRegistry.execute]
  simp only [Op.perform, Program.perform, Program.bind_eq_bind, Program.call_bind]
  refine ⟨trivial, fun result => ?_⟩
  cases result with
  | error exc => exact rfl
  | ok _ =>
      -- a call that may not be admitted does not go to the ledger
      have refused : registry.admissible host call allowed = false →
          EntersLedger host registry (⟨.enterExecute call allowed, .ok ()⟩ :: log) = false :=
        fun inadmissible => inadmissible
      simp only [Program.ofExcept_ok, Program.done_bind]
      cases found : registry.find call.name with
      | none => exact refused (by simp [ToolRegistry.admissible, found])
      | some spec =>
          simp only
          split
          · rename_i denied
            rw [Bool.not_eq_true'] at denied
            exact refused (by
              rw [ToolRegistry.admissible, found, Option.any_some, denied]
              simp)
          · rename_i granted
            cases valid : validateArguments host spec call.arguments with
            | error exc => exact refused (by simp [ToolRegistry.admissible, found, valid])
            | ok _ =>
                have gates : Granted host registry call allowed spec :=
                  ⟨found, by simpa using granted, valid⟩
                simp only
                split
                · rename_i mutation
                  have obeys : (executeMutation host spec call now).Obeys
                      (ToolRule host registry fun _ _ _ => False)
                      (returns (ExecuteReturns host registry call allowed))
                      (⟨.enterExecute call allowed, .ok ()⟩ :: log) :=
                    executeMutation_obeys Saw.here gates mutation
                  simp only [executeMutation, Op.perform, Program.perform, Program.bind_eq_bind,
                    Program.call_bind] at obeys ⊢
                  exact ⟨trivial, fun found => leaves_of_rule (obeys.tail found) rfl⟩
                · simp only [executeReadOnly, Op.perform, Program.perform, Program.bind_eq_bind,
                    Program.call_bind]
                  refine ⟨trivial, fun result => ?_⟩
                  cases result with
                  | error exc => exact rfl
                  | ok output =>
                      simp only [Program.ofExcept_ok, Program.done_bind]
                      cases canonicalJson output <;> exact rfl

/-- How the `try` ends when it is struck. -/
inductive StepStruck (host : Host) (engine : Engine) (event : Event) (strike : Interruption)
    (place : Place) : Except Exc Unit → World → Prop where
  /-- The interruption comes out of the `try`, and the event is still leased. -/
  | relayed {world' : World} (spared : Spared host engine.tools strike place = true)
      (holds : HoldsLease engine event world')
      (runs : world'.db.runs = (strike.left host place).db.runs)
      (effects : world'.db.effects = (strike.left host place).db.effects) :
      StepStruck host engine event strike place (.error strike.exc) world'
  /-- It comes out of the `try`, but the event is done. -/
  | acknowledged {world' : World} (lost : Spared host engine.tools strike place = false)
      (done : EventDone world' event.id) :
      StepStruck host engine event strike place (.error strike.exc) world'
  /-- Another exception comes out of the `try`. -/
  | replaced {world' : World} {text : String}
      (lost : Spared host engine.tools strike place = false)
      (holds : HoldsLease engine event world') :
      StepStruck host engine event strike place (.error ⟨.operationalError, text⟩) world'
  /-- It does not come out of the `try`. -/
  | swallowed {world' : World} (lost : Spared host engine.tools strike place = false) :
      StepStruck host engine event strike place (.ok ()) world'

variable {outcome : Except Exc Unit}

/-- A strike in the `try` that nothing reacts to. -/
theorem StepStruck.of_left (raised : outcome = .error strike.exc)
    (spared : Spared host engine.tools strike place = true)
    (holds : HoldsLease engine event (strike.left host place)) :
    StepStruck host engine event strike place outcome (strike.left host place) := by
  subst raised
  exact .relayed spared holds rfl rfl

/-- A statement that keeps the events is struck in the `try`. -/
theorem StepStruck.of_statement {stmt : Stmt} (raised : outcome = .error strike.exc)
    (spared : Spared host engine.tools strike ⟨log, .sql stmt, world⟩ = true)
    (keeps : (Op.sql stmt).keepsEvents = true) (holds : HoldsLease engine event world) :
    StepStruck host engine event strike ⟨log, .sql stmt, world⟩ outcome
      (strike.left host ⟨log, .sql stmt, world⟩) := by
  refine .of_left raised spared (left_keeps (HoldsLease engine event) holds ?_)
  exact holds.of_events (keepsEvents_answer (.sql stmt) .quiet keeps)

/-- The acknowledgement at the end of the `try`. -/
theorem StepStruck.of_ack (faultless : Faultless answers) (tried : Tried log = true)
    (holds : HoldsLease engine event world)
    (struck : StruckAt host answers strike log (engine.ack event now) world place outcome world') :
    StepStruck host engine event strike place outcome world' := by
  obtain ⟨rfl, rfl, sameTry, ⟨isAck, early, same⟩ | ⟨isDone, done, _⟩⟩ :=
    ack_struck faultless holds struck
  all_goals rw [tried] at sameTry
  · refine .of_left rfl ?_ (same ▸ holds)
    simp [Spared, Swallows, LeavesLeased, Replaces, Op.executing, isAck, sameTry, early]
  · refine .acknowledged ?_ done
    rcases isDone with ⟨isAck, late⟩ | ⟨row, isJournal, acked⟩
    · simp [Spared, Replaces, isAck, sameTry, late]
    · simp [Spared, Replaces, isJournal, acked, sameTry]

/-- A part of the `try` that records the step, and what comes after it. -/
theorem StepStruck.seq {α : Type} {program : Proc α} {next : α → Proc Unit}
    {post : History → Except Exc α → Prop} (holds : HoldsLease engine event world)
    (struck : StruckAt host answers strike log (program.bind next) world place outcome world')
    (relays : program.Relays Control) (obeys : program.Obeys Recording post log)
    (rest : ∀ value log₁ mid, post log₁ (.ok value) → log <:+ log₁ → SameQueue world mid →
      StruckAt host answers strike log₁ (next value) mid place outcome world' →
        StepStruck host engine event strike place outcome world') :
    StepStruck host engine event strike place outcome world' := by
  rcases struck.of_bind with ⟨_, _, inside, _⟩ | ⟨_, inside, rfl⟩ | ⟨value, log₁, mid, ran, later⟩
  · obtain ⟨impossible, _⟩ := struck_recording engine.tools inside relays obeys
    cases impossible
  · obtain ⟨same, rfl, queue, spared⟩ := struck_recording engine.tools inside relays obeys
    exact .of_left (congrArg Except.error (Except.error.inj same)) spared (holds.of_same queue)
  · have quiet := obeys.mono (fun _ _ recording => recording.quiet) fun _ _ ends => ends
    exact rest value log₁ mid (ran.ends obeys) ran.longer (ran_quiet ran quiet) later

/-- A failed `execute` is classified, and that is struck. -/
theorem classifyToolError_struck (faultless : Faultless answers) (tried : Tried log = true)
    (left : EntersLedger host engine.tools log = false) (holds : HoldsLease engine event world)
    {failed : Exc}
    (struck : StruckAt host answers strike log
      (engine.classifyToolError event runId call failed now) world place outcome world') :
    StepStruck host engine event strike place outcome world' := by
  simp only [Engine.classifyToolError, effectState, Op.perform, Program.perform,
    Program.bind_eq_bind, Program.call_bind, Program.bind_assoc, Program.pure_eq_done,
    Program.done_bind] at struck
  rcases struck_statement faultless struck with ⟨rfl, rfl, rfl⟩ | ⟨found, _, rest⟩
  · refine .of_statement rfl ?_ rfl holds
    simp [Spared, Swallows, LeavesLeased, Replaces, Op.executing, left]
  · have tried : Tried (⟨.sql (.selectEffect call.requestId), .ok found⟩ :: log) = true :=
      Tried.later tried (List.suffix_cons _ _)
    split at rest
    · -- the run is being blocked on its effect
      simp only [blockRunOnEffect, Stmt.perform, Program.perform, Program.bind_eq_bind,
        Program.call_bind, Sql.proc_call, Sql.proc_bind, Sql.proc_ofExcept,
        Program.bind_assoc] at rest
      rcases struck_statement faultless rest with ⟨rfl, rfl, rfl⟩ | ⟨rowcount, _, rest⟩
      · exact .of_statement rfl rfl rfl holds
      · split at rest
        · cases rest
        · simp only [appendJournal, Stmt.perform, Program.perform, Program.call_bind,
            Sql.proc_call, Sql.proc_bind, Sql.proc_ofExcept, Program.bind_assoc,
            Program.pure_eq_done, Sql.proc_done, Program.done_bind] at rest
          rcases struck_statement faultless rest with ⟨rfl, rfl, rfl⟩ | ⟨_, _, rest⟩
          · exact .of_statement rfl rfl rfl holds
          · refine .of_ack faultless ?_ ?_ rest
            · exact Tried.later tried ((List.suffix_cons _ _).trans (List.suffix_cons _ _))
            · exact holds
    · split at rest
      · -- the run is being failed
        simp only [updateRun, Bool.false_eq_true, false_and, if_false, Stmt.perform,
          Program.perform, Program.call_bind, Sql.proc_call, Sql.proc_ofExcept] at rest
        rcases struck_statement faultless rest with ⟨rfl, rfl, rfl⟩ | ⟨_, _, rest⟩
        · refine .of_statement rfl ?_ rfl holds
          simp [Spared, Swallows, LeavesLeased, Replaces, Op.executing, tried]
        · refine .of_ack faultless ?_ ?_ rest
          · exact Tried.later tried (List.suffix_cons _ _)
          · exact holds
      · cases rest

theorem effectState_runs (faultless : Faultless answers) (requestId : String) :
    Runs host answers (effectState requestId) world (.ok (world.db.ledgerState requestId)) world :=
  .bind (faultless.sql (.selectEffect requestId)) (.done _)

/-- A running run is blocked on its effect. -/
theorem blockRunOnEffect_run {requestId error : String}
    (running : world.db.runs.count (RunRow.isRunning runId) = 1) :
    ∃ blocked : World, (blockRunOnEffect runId requestId error now).run host world =
        (.ok (), blocked) ∧
      blocked.db.events = world.db.events ∧
      blocked.db.runs = world.db.runs.update (RunRow.isRunning runId)
        (RunRow.blocked requestId error now) fun _ => rfl := by
  refine ⟨{ world with db := { world.db with
    runs := world.db.runs.update (RunRow.isRunning runId) (RunRow.blocked requestId error now)
      fun _ => rfl
    journal := world.db.journal ++ [⟨.runBlockedEffect, some runId,
      [("request_id", .text requestId), ("error", .text error)], now⟩] } }, ?_, rfl, rfl⟩
  simp only [blockRunOnEffect, Stmt.perform, Program.perform, Program.bind_eq_bind,
    Program.call_bind, Sql.run_call, Stmt.exec, Program.ofExcept_ok, Program.done_bind, running,
    ne_eq, not_true_eq_false, if_false, appendJournal, Program.pure_eq_done, Sql.run_done]
  rfl

/-- An exception of `execute` that leaves its row unresolved blocks the run and ends the step. -/
theorem classifyToolError_blocks (faultless : Faultless answers)
    (unresolved : Unresolved world call.requestId = true) (holds : HoldsLease engine event world)
    (running : world.db.runs.count (RunRow.isRunning runId) = 1) :
    ∃ world', Runs host answers (engine.classifyToolError event runId call exc now) world (.ok ())
        world' ∧
      world'.db.runs = world.db.runs.update (RunRow.isRunning runId)
        (RunRow.blocked call.requestId exc.render now) fun _ => rfl := by
  obtain ⟨blocked, blocks, sameEvents, runs⟩ :=
    @blockRunOnEffect_run host now world runId call.requestId exc.render running
  obtain ⟨row, stored, named, claimed, owner⟩ := holds
  have acks := @ack_runs host answers blocked faultless engine event now row (sameEvents ▸ stored)
    named claimed owner
  refine ⟨acknowledged blocked event.id engine.workerId now,
    .bind (effectState_runs faultless call.requestId) ?_, runs⟩
  rw [Unresolved] at unresolved
  rw [if_pos unresolved]
  exact .bind (faultless.proc _ blocks) acks

theorem classifyToolError_swallows (faultless : Faultless answers)
    (unresolved : Unresolved world call.requestId = true) (holds : HoldsLease engine event world)
    (running : world.db.runs.count (RunRow.isRunning runId) = 1)
    (runs : Runs host answers (engine.classifyToolError event runId call exc now) world outcome
      world') : outcome = .ok () := by
  obtain ⟨_, blocks, _⟩ :=
    @classifyToolError_blocks host engine event now answers world runId call exc faultless
      unresolved holds running
  exact (runs.unique blocks).1

/-- An interruption of `execute` that leaves its row resolved comes out of the step. -/
theorem classifyToolError_relays (faultless : Faultless answers)
    (resolved : Unresolved world call.requestId = false) (control : Exc.isException exc = false)
    (runs : Runs host answers (engine.classifyToolError event runId call exc now) world outcome
      world') : outcome = .error exc ∧ world' = world := by
  have rest := (effectState_runs faultless call.requestId).after runs
  rw [Unresolved] at resolved
  rw [if_neg (Bool.eq_false_iff.1 resolved), if_neg (by simp [not_toolError control])] at rest
  obtain ⟨same, rfl⟩ := rest.unique (.raise exc)
  exact ⟨same, rfl⟩

theorem toolStep_struck (faultless : Faultless answers) (tried : Tried log = true)
    (holds : HoldsLease engine event world)
    (running : world.db.runs.count (RunRow.isRunning runId) = 1)
    (struck : StruckAt host answers strike log (engine.toolStep host event runId run call now) world
      place outcome world')
    (arrives : strike.arrives host place = true) (closed : strike.opens place.op = false) :
    StepStruck host engine event strike place outcome world' := by
  simp only [Engine.toolStep, Program.bind_eq_bind] at struck
  refine .seq holds struck (Sql.proc_relays recordRunMessage_relays)
    recordRunMessage_recording fun _ log₁ mid₁ _ longer₁ same₁ struck => ?_
  have tried₁ := Tried.later tried longer₁
  have holds₁ := holds.of_same same₁
  rcases struck.of_bind with
    ⟨ended, mid₂, inside, runs⟩ | ⟨_, inside, _⟩ | ⟨ended, log₂, mid₂, ran, struck⟩
  · -- `execute` is struck, and what comes after it is not
    obtain ⟨inner, same, inside⟩ := inside.of_attempt
    obtain rfl := Except.ok.inj same
    have executed := execute_struck faultless inside arrives
    obtain rfl := executed.raised
    cases swallows : Swallows host engine.tools strike place with
    | true =>
        have unresolved := executed.unresolved.trans swallows
        have running₂ : mid₂.db.runs.count (RunRow.isRunning runId) = 1 := by
          rw [executed.same.runs, same₁.runs]
          exact running
        obtain rfl := classifyToolError_swallows faultless unresolved
          (holds₁.of_same executed.same) running₂ runs
        exact .swallowed (by simp [Spared, swallows])
    | false =>
        have resolved := executed.unresolved.trans swallows
        obtain ⟨rfl, rfl⟩ := classifyToolError_relays faultless resolved strike.control runs
        refine .relayed ?_ (holds₁.of_same executed.same) executed.left.runs
          (executed.resolved swallows)
        simp [Spared, swallows, executed.elsewhere]
  · obtain ⟨_, impossible, _⟩ := inside.of_attempt
    cases impossible
  · obtain ⟨inner, same, ran⟩ := ran.of_attempt
    obtain rfl := Except.ok.inj same
    have same₂ := ran_quiet ran execute_quiet
    have tried₂ := Tried.later tried₁ ran.longer
    have holds₂ := holds₁.of_same same₂
    cases ended with
    | error failed =>
        exact classifyToolError_struck faultless tried₂ (ran.ends execute_leaves) holds₂ struck
    | ok result =>
        simp only at struck
        cases shown : toolContent call.name result.output with
        | error failed =>
            rw [shown] at struck
            cases struck
        | ok content =>
            rw [shown, Program.ofExcept_ok, Program.done_bind] at struck
            refine .seq holds₂ struck (Sql.proc_relays recordRunMessage_relays)
              recordRunMessage_recording fun _ log₃ mid₃ _ longer₃ same₃ struck => ?_
            have tried₃ := Tried.later tried₂ longer₃
            have holds₃ := holds₂.of_same same₃
            have advanced : HoldsLease engine event ((Transaction.advanceRunStep runId
                run.stepCount event.priority now).exec host mid₃).2 :=
              holds₃.of_events (keepsEvents_answer (.transaction _) .quiet rfl)
            simp only [Transaction.perform, Op.perform, Program.perform, Program.call_bind] at struck
            rcases struck_transaction faultless struck closed with
              ⟨rfl, rfl, ⟨replaces, ⟨text, rfl⟩, same⟩ | ⟨keeps, rfl, same⟩⟩ | ⟨next, _, struck⟩
            · -- the step is advanced, but the exception is the one of the ROLLBACK
              exact .replaced (by simp [Spared, replaces]) (same ▸ advanced)
            · refine .of_left rfl ?_ (by rwa [same])
              simp [Spared, Swallows, Op.executing, LeavesLeased, closed, keeps]
            · refine .of_ack faultless ?_ advanced struck
              exact Tried.later tried₃ (List.suffix_cons _ _)

theorem finalStep_struck (faultless : Faultless answers) (tried : Tried log = true)
    (holds : HoldsLease engine event world) {text : String}
    (struck : StruckAt host answers strike log (engine.finalStep event runId run text now) world
      place outcome world') :
    StepStruck host engine event strike place outcome world' := by
  simp only [Engine.finalStep, Program.bind_eq_bind] at struck
  refine .seq holds struck (Sql.proc_relays recordRunMessage_relays)
    recordRunMessage_recording fun _ log₁ mid₁ _ longer₁ same₁ struck => ?_
  have tried₁ := Tried.later tried longer₁
  have holds₁ := holds.of_same same₁
  simp only [updateRun, Option.isSome_none, Bool.false_eq_true, and_false, if_false, Stmt.perform,
    Program.perform, Program.call_bind, Sql.proc_call, Sql.proc_ofExcept] at struck
  rcases struck_statement faultless struck with ⟨rfl, rfl, rfl⟩ | ⟨_, _, struck⟩
  · refine .of_statement rfl ?_ rfl holds₁
    simp [Spared, Swallows, LeavesLeased, Replaces, Op.executing, tried₁]
  · refine .of_ack faultless ?_ ?_ struck
    · exact Tried.later tried₁ (List.suffix_cons _ _)
    · exact holds₁

/-- Every strike in the `try`. -/
theorem processStep_struck (faultless : Faultless answers) (holds : HoldsLease engine event world)
    (running : world.db.runs.count (RunRow.isRunning runId) = 1)
    (struck : StruckAt host answers strike log (engine.processStep host event runId run now) world
      place outcome world')
    (arrives : strike.arrives host place = true) (closed : strike.opens place.op = false) :
    StepStruck host engine event strike place outcome world' := by
  simp only [Engine.processStep, Program.bind_eq_bind] at struck
  refine .seq holds struck admittedResponse_relays admittedResponse_recording
    fun response log₁ mid₁ tried longer₁ same₁ struck => ?_
  have holds₁ := holds.of_same same₁
  cases response with
  | toolCall call =>
      refine toolStep_struck faultless tried holds₁ ?_ struck arrives closed
      rw [same₁.runs]
      exact running
  | finalText text => exact finalStep_struck faultless tried holds₁ struck

/-! ### A `try` that fails for another reason -/

/-- The program only fails while the event is still leased. -/
def FailsHeld (host : Host) (answers : Op → Answer) (engine : Engine) (event : Event) {α : Type}
    (program : Proc α) : Prop :=
  ∀ (log log' : History) (world world' : World) (failed : Exc),
    HoldsLease engine event world →
      Ran (kernelMachine host) answers log program world log' (.error failed) world' →
        HoldsLease engine event world'

/-- The operations that change no event that is there. -/
def KeepsEvents (_ : History) (op : Op) : Prop := op.keepsEvents = true

theorem ran_keepsEvents {α : Type} {program : Proc α} {ended : Except Exc α}
    {post : History → Except Exc α → Prop} (holds : HoldsLease engine event world)
    (ran : Ran (kernelMachine host) answers log program world log' ended world')
    (obeys : program.Obeys KeepsEvents post log) : HoldsLease engine event world' :=
  ran.keeps (HoldsLease engine event) (fun _ op answer _ keeps holds =>
    holds.of_events (keepsEvents_answer op answer keeps)) obeys holds

/-- Operations that keep the events, before a program that fails only while the event is leased. -/
theorem FailsHeld.bind {α β : Type} {first : Proc α} {next : α → Proc β}
    {post : History → Except Exc α → Prop} (obeys : ∀ log, first.Obeys KeepsEvents post log)
    (rest : ∀ value, FailsHeld host answers engine event (next value)) :
    FailsHeld host answers engine event (first.bind next) := by
  intro log log' world world' failed holds ran
  rcases ran.of_bind with ⟨value, log₁, mid, before, after⟩ | ⟨error, before, _⟩
  · exact rest value _ _ _ _ _ (ran_keepsEvents holds before (obeys log)) after
  · exact ran_keepsEvents holds before (obeys log)

theorem FailsHeld.ack (faultless : Faultless answers) :
    FailsHeld host answers engine event (engine.ack event now) := by
  intro log log' world world' failed holds ran
  cases ack_ran faultless holds ran

theorem keepsEvents_of_quiet {α : Type} {program : Proc α} {post : History → Except Exc α → Prop}
    (obeys : program.Obeys Quiet post log) : program.Obeys KeepsEvents post log := by
  refine obeys.mono (fun log op quiet => ?_) fun _ _ ends => ends
  cases op with
  | sql stmt => cases stmt <;> first | exact rfl | cases quiet
  | transaction block => cases quiet
  | enterExecute call allowed => exact rfl
  | respond messages tools => exact rfl
  | handler handled => exact rfl

theorem keepsEvents_of_recording {α : Type} {program : Proc α}
    {post : History → Except Exc α → Prop} (obeys : program.Obeys Recording post log) :
    program.Obeys KeepsEvents post log :=
  keepsEvents_of_quiet (obeys.mono (fun _ _ recording => recording.quiet) fun _ _ ends => ends)

theorem classifyToolError_failsHeld (faultless : Faultless answers) {failed : Exc} :
    FailsHeld host answers engine event
      (engine.classifyToolError event runId call failed now) := by
  have looks : ∀ log, (effectState call.requestId).Obeys KeepsEvents (returns fun _ _ => True) log :=
    fun log => afterCall rfl fun _ => of_done trivial
  refine .bind looks fun state => ?_
  split
  · exact .bind (fun _ => blockRunOnEffect_obeys (fun _ _ => rfl) rfl) fun _ => .ack faultless
  · split
    · exact .bind (fun _ => updateRun_obeys rfl) fun _ => .ack faultless
    · intro log log' world world' failed holds ran
      cases ran
      exact holds

theorem processStep_failsHeld (faultless : Faultless answers) :
    FailsHeld host answers engine event (engine.processStep host event runId run now) := by
  refine .bind (fun _ => keepsEvents_of_recording admittedResponse_recording) fun response => ?_
  cases response with
  | finalText text =>
      refine .bind (fun _ => keepsEvents_of_recording recordRunMessage_recording) fun _ => ?_
      exact .bind (fun _ => updateRun_obeys rfl) fun _ => .ack faultless
  | toolCall call =>
      refine .bind (fun _ => keepsEvents_of_recording recordRunMessage_recording) fun _ => ?_
      refine .bind (fun _ => (keepsEvents_of_quiet execute_quiet).captured) fun outcome => ?_
      cases outcome with
      | error failed => exact classifyToolError_failsHeld faultless
      | ok result =>
          have shows : ∀ log, (Program.ofExcept (toolContent call.name result.output) :
              Proc String).Obeys KeepsEvents (returns fun _ _ => True) log :=
            fun _ => of_ofExcept fun _ _ => trivial
          have advances : ∀ log, (Transaction.advanceRunStep runId run.stepCount event.priority
              now).perform.Obeys KeepsEvents (fun _ _ => True) log :=
            fun _ => ⟨rfl, fun result => by cases result <;> exact trivial⟩
          refine .bind shows fun content => ?_
          refine .bind (fun _ => keepsEvents_of_recording recordRunMessage_recording) fun _ => ?_
          exact .bind advances fun _ => .ack faultless

/-! ### What is left of the process -/

/-- One iteration of `run_forever`: an `Exception` of the cycle is reported and polling goes on. -/
def runForeverTurn {α : Type} : Except Exc α → Except Exc Unit
  | .ok _ => .ok ()
  | .error exc => if Exc.isException exc then .ok () else .error exc

/-- The event waits in the queue. -/
def EventPending (world : World) (eventId : String) : Prop :=
  ∃ row ∈ world.db.events.rows, row.id = eventId ∧ row.status = .pending

/-- A run of one world is in the same state and at the same step in another. -/
def SameStanding (world world' : World) (runId : String) : Prop :=
  ∀ row, world.db.run runId = some row → ∃ row', world'.db.run runId = some row' ∧
    row'.status = row.status ∧ row'.stepCount = row.stepCount

/-- The process is interrupted with this left in the database, and another one can take up what it
leaves behind in the end. -/
structure Survives (host : Host) (eventId : String) (payload : PyVal) (exc : Exc) (left : World)
    (outcome : Except Exc (Option String)) (world' : World) : Prop where
  /-- `run_once` raises an exception of the same kind. -/
  raised : ∃ exc', outcome = .error exc' ∧ exc'.cls = exc.cls
  stops : ∃ exc', runForeverTurn outcome = .error exc'
  settled : EventDone world' eventId ∨ EventPending world' eventId
  /-- What was unresolved in the ledger stays unresolved. -/
  ledger : ∀ requestId, Unresolved left requestId = true → Unresolved world' requestId = true
  /-- The run is blocked, or stands where it stood and can be retried if it is RUNNING. -/
  run : ∀ value row, payload.get? "run_id" = some value →
    world'.db.run (host.str value) = some row → row.status = .blockedEffect ∨
      SameStanding left world' (host.str value) ∧
        (row.status = .running → (payload.get? "step").bind PyVal.asInt? = some (row.stepCount : Int) →
          EventPending world' eventId)

/-! ### The last `except` -/

theorem SameStanding.refl : SameStanding world world runId :=
  fun row stored => ⟨row, stored, rfl, rfl⟩

theorem SameStanding.of_runs (same : world'.db.runs = world.db.runs) :
    SameStanding world world' runId := by
  intro row stored
  refine ⟨row, ?_, rfl, rfl⟩
  rw [Db.run, same]
  exact stored

theorem SameStanding.trans (first : SameStanding world mid runId)
    (second : SameStanding mid world' runId) : SameStanding world world' runId := by
  intro row stored
  obtain ⟨row₁, stored₁, status₁, step₁⟩ := first row stored
  obtain ⟨row₂, stored₂, status₂, step₂⟩ := second row₁ stored₁
  exact ⟨row₂, stored₂, status₂.trans status₁, step₂.trans step₁⟩

/-- The note of an exception leaves every run where it stands. -/
theorem SameStanding.of_note {updated error : String} :
    SameStanding world ((Stmt.updateRun updated ⟨now, none, none, some error, false, false⟩).exec
      host world).2 runId := by
  intro row stored
  have mapped := run_updateRuns world (fun row => row.id == updated)
    (RunChange.apply ⟨now, none, none, some error, false, false⟩) (fun _ => rfl) runId
  rw [stored, Option.map_some] at mapped
  refine ⟨_, mapped, ?_⟩
  split <;> exact ⟨rfl, rfl⟩

/-- The lease of an event that fails is given back. -/
theorem HoldsLease.released (holds : HoldsLease engine event world) (availableAt : Time) :
    EventPending (updateEvents world (EventRow.heldBy event.id engine.workerId)
      (EventRow.released availableAt now) fun _ => rfl) event.id := by
  obtain ⟨row, stored, named, claimed, owner⟩ := holds
  have mapped := List.mem_map_of_mem (f := fun row : EventRow =>
    if row.heldBy event.id engine.workerId = true then row.released availableAt now else row) stored
  rw [if_pos (EventRow.heldBy_eq_true.2 ⟨named, claimed, owner⟩)] at mapped
  exact ⟨_, mapped, named, rfl⟩

/-- The last `except` of a worker that holds the lease. -/
theorem requeue_holding (faultless : Faultless answers) (holds : HoldsLease engine event world)
    {failed : Exc} {outcome : Except Exc Unit}
    (runs : Runs host answers (engine.requeue event runId failed now) world outcome world') :
    outcome = .error failed ∧ EventPending world' event.id ∧
      world'.db.effects = world.db.effects ∧ ∀ otherId, SameStanding world world' otherId := by
  have notes := @updateRun_runs host answers world faultless runId
    ⟨now, none, none, some failed.render, false, false⟩ (.note now _)
  have stands := fun otherId => @SameStanding.of_note host now world otherId runId failed.render
  generalize isNoted : (Stmt.exec host (.updateRun runId
    ⟨now, none, none, some failed.render, false, false⟩) world).2 = noted at notes stands
  have sameEvents : noted.db.events = world.db.events := by
    rw [← isNoted]
    rfl
  have sameEffects : noted.db.effects = world.db.effects := by
    rw [← isNoted]
    rfl
  have holds' : HoldsLease engine event noted := holds.of_events fun row stored => by
    rwa [sameEvents]
  have released := @run_failEvent host noted event.id engine.workerId now
    (some (Engine.retryAt event now))
  rw [if_pos holds'.counted] at released
  obtain ⟨same, rfl⟩ := runs.unique (.bind notes (.bind (faultless.proc _ released) (.raise failed)))
  exact ⟨same, holds'.released _, sameEffects, fun otherId =>
    (stands otherId).trans (.of_runs rfl)⟩

/-- The last `except` of a worker whose event is done. -/
theorem requeue_done (faultless : Faultless answers) (done : EventDone world event.id)
    {failed : Exc} {outcome : Except Exc Unit}
    (runs : Runs host answers (engine.requeue event runId failed now) world outcome world') :
    outcome = .error (runtimeError "event failure update lost lease ownership") := by
  have notes := @updateRun_runs host answers world faultless runId
    ⟨now, none, none, some failed.render, false, false⟩ (.note now _)
  have missed : world.db.events.count (EventRow.heldBy event.id engine.workerId) ≠ 1 := by
    intro counted
    obtain ⟨row, stored, named, claimed, _⟩ := (count_heldBy _ _ _).1 counted
    rw [← named] at done
    exact not_settled_of_claimed stored claimed (done.settled 0)
  have lost := (@run_failEvent host
    (Stmt.exec host (.updateRun runId ⟨now, none, none, some failed.render, false, false⟩) world).2
    event.id engine.workerId now (some (Engine.retryAt event now))).trans (if_neg missed)
  exact (runs.unique (.bind notes (.bindRaised (faultless.proc _ lost)))).1

/-- The last `except` is struck: before the event is released, or after it. -/
theorem requeue_struck (faultless : Faultless answers) (holds : HoldsLease engine event world)
    {failed : Exc} {outcome : Except Exc Unit}
    (struck : StruckAt host answers strike log (engine.requeue event runId failed now) world place
      outcome world') :
    outcome = .error strike.exc ∧ world' = strike.left host place ∧
      (Spared host engine.tools strike place = false ∧ HoldsLease engine event world' ∨
        Spared host engine.tools strike place = true ∧ EventPending world' event.id) := by
  simp only [Engine.requeue, updateRun, Bool.false_eq_true, false_and, if_false, failEvent,
    Stmt.perform, Program.perform, Program.bind_eq_bind, Program.call_bind, Sql.proc_call,
    Sql.proc_bind, Sql.proc_ofExcept, Program.bind_assoc] at struck
  rcases struck_statement faultless struck with ⟨rfl, same, rfl⟩ | ⟨_, _, rest⟩
  · refine ⟨same, rfl, .inl ⟨by simp [Spared, LeavesLeased], ?_⟩⟩
    exact left_keeps (HoldsLease engine event) holds holds
  · have holds' : HoldsLease engine event (Stmt.exec host (.updateRun runId
        ⟨now, none, none, some failed.render, false, false⟩) world).2 := holds
    rcases struck_statement faultless rest with ⟨rfl, same, rfl⟩ | ⟨rowcount, counted, rest⟩
    · refine ⟨same, rfl, ?_⟩
      rw [left_statement]
      cases arrival : strike.arrival with
      | before => exact .inl ⟨by simp [Spared, LeavesLeased, arrival], holds'⟩
      | after =>
          refine .inr ⟨?_, holds'.released _⟩
          simp [Spared, Swallows, Op.executing, LeavesLeased, Replaces, arrival]
    · obtain rfl : _ = rowcount := Except.ok.inj counted
      rw [if_neg (not_not.2 holds'.counted)] at rest
      simp only [appendJournal, Stmt.perform, Program.perform, Program.call_bind, Sql.proc_call,
        Sql.proc_bind, Sql.proc_ofExcept, Program.bind_assoc, Program.pure_eq_done, Sql.proc_done,
        Program.done_bind] at rest
      rcases struck_statement faultless rest with ⟨rfl, same, rfl⟩ | ⟨_, _, rest⟩
      · refine ⟨same, rfl, .inr ⟨rfl, ?_⟩⟩
        exact left_keeps (fun left => EventPending left event.id) (holds'.released _)
          (holds'.released _)
      · cases rest

/-! ### Every strike -/

section Strike

variable {outcome : Except Exc (Option String)} {left : World}

theorem not_survives_held {payload : PyVal} (holds : HoldsLease engine event world') :
    ¬ Survives host event.id payload exc left outcome world' := by
  intro survives
  obtain ⟨row, stored, named, claimed, _⟩ := holds
  have settled : EventDone world' row.id ∨ EventPending world' row.id := named ▸ survives.settled
  have unsettled : ¬ EventSettled world' row.id 0 := not_settled_of_claimed stored claimed
  rcases settled with done | ⟨other, stored', named', waits⟩
  · exact unsettled (done.settled 0)
  · have same : other = row := Table.eq_of_clash stored' stored
      (by simp [UniqueKeys.clash, UniqueKeys.key, named'])
      (by simp [UniqueKeys.clash, UniqueKeys.key, named'])
    rw [same, claimed] at waits
    cases waits

theorem not_survives_returned {eventId : String} {payload : PyVal} {value : Option String}
    (returned : outcome = .ok value) :
    ¬ Survives host eventId payload exc left outcome world' := by
  intro survives
  obtain ⟨exc', isError, _⟩ := survives.raised
  cases returned.symm.trans isError

/-- An `Exception` is another exception than the interruption. -/
theorem not_survives_replaced {eventId : String} {payload : PyVal} {exc' : Exc}
    (control : Exc.isException exc = false) (other : Exc.isException exc' = true)
    (replaced : outcome = .error exc') :
    ¬ Survives host eventId payload exc left outcome world' := by
  intro survives
  obtain ⟨raised, isError, sameClass⟩ := survives.raised
  obtain rfl := Except.error.inj (replaced.symm.trans isError)
  have same : Exc.isException exc' = Exc.isException exc := by
    rw [Exc.isException, Exc.isException, sameClass]
  cases (other.symm.trans same).trans control

theorem stops_of_control (control : Exc.isException exc = false) (same : outcome = .error exc) :
    ∃ exc', runForeverTurn outcome = .error exc' := by
  refine ⟨exc, ?_⟩
  rw [same, runForeverTurn, control]
  rfl

/-- The interruption is raised again and its event is to be retried. -/
theorem Survives.of_pending {eventId : String} {payload : PyVal}
    (control : Exc.isException exc = false) (same : outcome = .error exc)
    (waits : EventPending world' eventId) (effects : world'.db.effects = left.db.effects)
    (stands : ∀ otherId, SameStanding left world' otherId) :
    Survives host eventId payload exc left outcome world' where
  raised := ⟨exc, same, rfl⟩
  stops := stops_of_control control same
  settled := .inr waits
  ledger requestId unresolved := by rwa [Unresolved, Db.ledgerState, Db.effect, effects]
  run _ _ _ _ := .inr ⟨stands _, fun _ _ => waits⟩

/-- The interruption is raised again and its event has nothing left to do. -/
theorem Survives.of_done {eventId : String} {payload : PyVal}
    (control : Exc.isException exc = false) (same : outcome = .error exc)
    (done : EventDone world' eventId) (unchanged : world' = left)
    (stale : ∀ value row, payload.get? "run_id" = some value →
      world'.db.run (host.str value) = some row → row.status = .running →
        (payload.get? "step").bind PyVal.asInt? ≠ some (row.stepCount : Int)) :
    Survives host eventId payload exc left outcome world' where
  raised := ⟨exc, same, rfl⟩
  stops := stops_of_control control same
  settled := .inl done
  ledger _ unresolved := unchanged ▸ unresolved
  run value row named stored := .inr ⟨unchanged ▸ .refl, fun running current =>
    absurd current (stale value row named stored running)⟩

/-- The acknowledgement of an event that has nothing left to do is struck. -/
theorem ack_survives_iff (faultless : Faultless answers) (holds : HoldsLease engine event world)
    (early : Tried log = false) {next : Unit → Proc (Option String)} {value : Option String}
    (ends : next () = .done value)
    (stale : ∀ value row, event.payload.get? "run_id" = some value →
      world.db.run (host.str value) = some row → row.status = .running →
        (event.payload.get? "step").bind PyVal.asInt? ≠ some (row.stepCount : Int))
    (struck : StruckAt host answers strike log ((engine.ack event now).bind next) world place
      outcome world') :
    Survives host event.id event.payload strike.exc (strike.left host place) outcome world' ↔
      Spared host engine.tools strike place = true := by
  rcases struck.of_bind with ⟨_, _, inside, _⟩ | ⟨_, inside, rfl⟩ | ⟨_, _, _, _, later⟩
  · obtain ⟨impossible, _⟩ := ack_struck faultless holds inside
    cases impossible
  · obtain ⟨same, unchanged, sameTry, ⟨isAck, arrival, before⟩ | ⟨isDone, done, runs⟩⟩ :=
      ack_struck faultless holds inside
    all_goals rw [early] at sameTry
    · have holds' : HoldsLease engine event world' := before ▸ holds
      exact iff_of_false (not_survives_held holds')
        (by simp [Spared, LeavesLeased, isAck, sameTry, arrival])
    · obtain rfl := Except.error.inj same
      refine iff_of_true
        (.of_done strike.control rfl done unchanged fun value row named stored => ?_) ?_
      · rw [Db.run, runs] at stored
        exact stale value row named stored
      · rcases isDone with ⟨isAck, late⟩ | ⟨row, isJournal, _⟩
        · simp [Spared, Swallows, LeavesLeased, Replaces, Op.executing, isAck, sameTry, late]
        · simp [Spared, Swallows, LeavesLeased, Replaces, Op.executing, isJournal, sameTry]
  · rw [ends] at later
    cases later

/-- The `try` is struck, and the last `except` is not. -/
theorem requeue_survives_iff (faultless : Faultless answers) {ended : Except Exc Unit}
    (step : StepStruck host engine event strike place ended mid)
    (runs : Runs host answers (match ended with
      | .ok () => .done (some runId)
      | .error failed => (engine.requeue event runId failed now).bind fun _ => .done (some runId))
      mid outcome world') :
    Survives host event.id event.payload strike.exc (strike.left host place) outcome world' ↔
      Spared host engine.tools strike place = true := by
  cases step with
  | relayed spared holds sameRuns sameEffects =>
      rcases requeued : (engine.requeue event runId strike.exc now).execute (kernelMachine host)
        answers mid with ⟨ended, last⟩
      have requeues : Runs host answers (engine.requeue event runId strike.exc now) mid ended
        last := requeued
      obtain ⟨rfl, waits, effects, stands⟩ := requeue_holding faultless holds requeues
      obtain ⟨same, rfl⟩ := runs.unique requeues.bindRaised
      refine iff_of_true
        (.of_pending strike.control same waits (effects.trans sameEffects) ?_) spared
      exact fun otherId => (SameStanding.of_runs sameRuns).trans (stands otherId)
  | acknowledged lost done =>
      rcases requeued : (engine.requeue event runId strike.exc now).execute (kernelMachine host)
        answers mid with ⟨ended, last⟩
      have requeues : Runs host answers (engine.requeue event runId strike.exc now) mid ended
        last := requeued
      obtain rfl := requeue_done faultless done requeues
      obtain ⟨same, rfl⟩ := runs.unique requeues.bindRaised
      exact iff_of_false (not_survives_replaced strike.control rfl same) (by simp [lost])
  | @replaced _ text lost holds =>
      rcases requeued : (engine.requeue event runId ⟨.operationalError, text⟩ now).execute
        (kernelMachine host) answers mid with ⟨ended, last⟩
      have requeues : Runs host answers (engine.requeue event runId ⟨.operationalError, text⟩ now)
          mid ended last := requeued
      obtain ⟨rfl, _⟩ := requeue_holding faultless holds requeues
      obtain ⟨same, rfl⟩ := runs.unique requeues.bindRaised
      exact iff_of_false (not_survives_replaced strike.control rfl same) (by simp [lost])
  | swallowed lost =>
      obtain ⟨same, rfl⟩ := runs.unique (.done _)
      exact iff_of_false (not_survives_returned same) (by simp [lost])

/-- Every strike after the event was claimed that leaves no transaction open. -/
theorem runStep_survives_iff (faultless : Faultless answers)
    (holds : HoldsLease engine event world) (early : Tried log = false)
    (struck : StruckAt host answers strike log (engine.runStep host event now) world place outcome
      world')
    (arrives : strike.arrives host place = true) (closed : strike.opens place.op = false) :
    Survives host event.id event.payload strike.exc (strike.left host place) outcome world' ↔
      Spared host engine.tools strike place = true := by
  unfold Engine.runStep at struck
  split at struck
  · cases struck
  · rename_i value named
    simp only [getRun, Stmt.perform, Program.perform, Program.bind_eq_bind, Program.call_bind,
      Sql.proc_call, Sql.proc_bind, Sql.proc_ofExcept, Program.bind_assoc] at struck
    rcases struck_statement faultless struck with ⟨rfl, same, rfl⟩ | ⟨found, selected, struck⟩
    · exact iff_of_false
        (not_survives_held (left_keeps (HoldsLease engine event) holds holds))
        (by simp [Spared, LeavesLeased])
    · obtain rfl : world.db.run (host.str value) = found := Except.ok.inj selected
      have early : Tried (⟨.sql (.selectRun (host.str value)), .ok (world.db.run (host.str value))⟩ ::
        log) = false := early
      simp only [Stmt.exec] at struck
      cases stored : world.db.run (host.str value) with
      | none =>
          rw [stored] at struck
          cases struck
      | some run =>
          rw [stored] at struck early
          simp only [Program.pure_eq_done, Sql.proc_done, Program.done_bind] at struck
          -- the run of the event is the one that was read
          have sameRun : ∀ other row, event.payload.get? "run_id" = some other →
              world.db.run (host.str other) = some row → row = run := by
            intro other row named' stored'
            obtain rfl := Option.some.inj (named.symm.trans named')
            exact Option.some.inj (stored'.symm.trans stored)
          split at struck
          · rename_i stale
            refine ack_survives_iff faultless holds early rfl ?_ struck
            intro other row named' stored' _
            rw [sameRun other row named' stored']
            exact stale
          · split at struck
            · rename_i halted
              refine ack_survives_iff faultless holds early rfl ?_ struck
              intro other row named' stored' running
              rw [sameRun other row named' stored'] at running
              exact absurd running halted
            · rename_i current running
              split at struck
              · simp only [updateRun, Bool.false_eq_true, false_and, if_false, Stmt.perform,
                  Program.perform, Program.call_bind, Sql.proc_call, Sql.proc_ofExcept] at struck
                rcases struck_statement faultless struck with ⟨rfl, same, rfl⟩ | ⟨_, _, struck⟩
                · exact iff_of_false
                    (not_survives_held (left_keeps (HoldsLease engine event) holds holds))
                    (by simp [Spared, LeavesLeased, early])
                · refine ack_survives_iff faultless ?_ ?_ rfl ?_ struck
                  · exact holds
                  · exact early
                  · intro other row named' stored' running'
                    obtain rfl := Option.some.inj (named.symm.trans named')
                    have mapped := run_updateRuns world (fun row => row.id == host.str value)
                      (RunChange.apply ⟨now, some .failed, none, some "max_steps exceeded", false,
                        false⟩) (fun _ => rfl) (host.str value)
                    rw [stored, Option.map_some, if_pos (by simp [(Db.run_eq_some.1 stored).2])]
                      at mapped
                    obtain rfl := Option.some.inj (mapped.symm.trans stored')
                    cases running'
              · rcases struck.of_bind with ⟨ended, mid, inside, runs⟩ | ⟨_, inside, _⟩ |
                  ⟨ended, log₁, mid, ran, later⟩
                · obtain ⟨inner, same, inside⟩ := inside.of_attempt
                  obtain rfl := Except.ok.inj same
                  have counted : world.db.runs.count (RunRow.isRunning (host.str value)) = 1 :=
                    (count_isRunning _ _).2 ⟨run, stored, not_not.1 running⟩
                  have step := processStep_struck faultless holds counted inside arrives closed
                  exact requeue_survives_iff faultless step runs
                · obtain ⟨_, impossible, _⟩ := inside.of_attempt
                  cases impossible
                · obtain ⟨inner, same, ran⟩ := ran.of_attempt
                  obtain rfl := Except.ok.inj same
                  cases ended with
                  | ok _ => cases later
                  | error failed =>
                      have holds' := processStep_failsHeld faultless _ _ _ _ _ holds ran
                      rcases Struck.of_bind later with ⟨_, _, inside, _⟩ | ⟨_, inside, rfl⟩ |
                        ⟨_, _, _, _, done⟩
                      · obtain ⟨impossible, _⟩ := requeue_struck faultless holds' inside
                        cases impossible
                      · obtain ⟨same, unchanged, ⟨lost, holds₁⟩ | ⟨spared, waits⟩⟩ :=
                          requeue_struck faultless holds' inside
                        · exact iff_of_false (not_survives_held holds₁) (by simp [lost])
                        · obtain rfl := Except.error.inj same
                          refine iff_of_true
                            (.of_pending strike.control rfl waits ?_ fun _ => ?_) spared
                          · rw [unchanged]
                          · rw [unchanged]
                            exact .refl
                      · cases done

end Strike

/-! ### A transaction that stays open -/

/-- Outside of a transaction the process and its connection are the kernel. -/
theorem connection_embeds : Embeds (kernelMachine host) (connectionMachine host) Connection.of := by
  intro op answer world
  cases op <;> rfl

/-- Nothing is committed while a transaction stays open. -/
theorem connection_held {db : Db} (op : Op) (answer : Answer) (connection : Connection)
    (held : connection.held = some db) :
    ((connectionMachine host).answer op answer connection).2.held = some db := by
  cases op with
  | transaction block =>
      simp only [connectionMachine, Op.answerIn, held]
  | _ => exact held

def Op.isTransaction : Op → Bool
  | .transaction _ => true
  | _ => false

theorem Interruption.opens_transaction (opened : strike.opens place.op = true) :
    place.op.isTransaction = true ∧ LeavesLeased strike place = true := by
  obtain ⟨log, op, world⟩ := place
  cases op with
  | transaction block => exact ⟨rfl, opened⟩
  | _ => cases opened

/-- The operations that are no transactions. -/
def Single (_ : History) (op : Op) : Prop := op.isTransaction = false

/-- The program is interrupted in a transaction only while the event is leased. -/
def TransactsHeld (host : Host) (answers : Op → Answer) (strike : Interruption) (engine : Engine)
    (event : Event) {α : Type} (program : Proc α) : Prop :=
  ∀ (log : History) (world world' : World) (place : Place) (outcome : Except Exc α),
    HoldsLease engine event world →
      StruckAt host answers strike log program world place outcome world' →
        place.op.isTransaction = true → HoldsLease engine event place.world

section Transactions

variable {β : Type}

theorem TransactsHeld.of_single {program : Proc α}
    (obeys : ∀ log, program.Obeys Single (returns fun _ _ => True) log) :
    TransactsHeld host answers strike engine event program := by
  intro log world world' place outcome _ struck isTransaction
  have single : place.op.isTransaction = false := struck.allowed (obeys log)
  cases single.symm.trans isTransaction

theorem TransactsHeld.bind {first : Proc α} {next : α → Proc β}
    {post : History → Except Exc α → Prop}
    (transacts : TransactsHeld host answers strike engine event first)
    (obeys : ∀ log, first.Obeys KeepsEvents post log)
    (rest : ∀ value, TransactsHeld host answers strike engine event (next value)) :
    TransactsHeld host answers strike engine event (first.bind next) := by
  intro log world world' place outcome holds struck isTransaction
  rcases struck.of_bind with ⟨_, _, inside, _⟩ | ⟨_, inside, _⟩ | ⟨value, log₁, mid, ran, later⟩
  · exact transacts _ _ _ _ _ holds inside isTransaction
  · exact transacts _ _ _ _ _ holds inside isTransaction
  · exact rest value _ _ _ _ _ (ran_keepsEvents holds ran (obeys log)) later isTransaction

theorem Sql.proc_single (sql : Sql α) :
    sql.proc.Obeys Single (returns fun _ _ => True) log := by
  induction sql generalizing log with
  | done value => exact of_done trivial
  | raise exc => exact of_raise
  | call stmt next ih =>
      rw [Sql.proc_call]
      exact ⟨rfl, fun result => ih result⟩

/-- A method of autocommitted statements, and what comes after it. -/
theorem TransactsHeld.after_sql {sql : Sql α} {next : α → Proc β}
    {post : History → Except Exc α → Prop} (obeys : ∀ log, sql.proc.Obeys KeepsEvents post log)
    (rest : ∀ value, TransactsHeld host answers strike engine event (next value)) :
    TransactsHeld host answers strike engine event (sql.proc.bind next) :=
  .bind (.of_single fun _ => Sql.proc_single sql) obeys rest

/-- The acknowledgement at the end. -/
theorem TransactsHeld.ack {next : Unit → Proc β} {value : β} (ends : next () = .done value) :
    TransactsHeld host answers strike engine event ((engine.ack event now).bind next) := by
  refine .of_single fun log => (Sql.proc_single _).seq fun _ _ _ _ => ?_
  rw [ends]
  exact of_done trivial

theorem single_of_quiet {program : Proc α} {post : History → Except Exc α → Prop}
    (obeys : program.Obeys Quiet post log) :
    program.Obeys Single (returns fun _ _ => True) log := by
  refine obeys.mono (fun log op quiet => ?_) fun _ outcome _ => ?_
  · cases op with
    | transaction block => cases quiet
    | _ => rfl
  · cases outcome <;> trivial

theorem classifyToolError_transactsHeld {failed : Exc} :
    TransactsHeld host answers strike engine event
      (engine.classifyToolError event runId call failed now) := by
  have looks : ∀ log, (effectState call.requestId).Obeys Single (returns fun _ _ => True) log :=
    fun log => afterCall rfl fun _ => of_done trivial
  refine .of_single fun log => (looks log).seq fun _ state _ _ => ?_
  split
  · exact (Sql.proc_single _).seq fun _ _ _ _ => Sql.proc_single _
  · split
    · exact (Sql.proc_single _).seq fun _ _ _ _ => Sql.proc_single _
    · exact of_raise

theorem processStep_transactsHeld :
    TransactsHeld host answers strike engine event
      (engine.processStep host event runId run now) := by
  have admits : ∀ log, (engine.admittedResponse host runId run now).Obeys Quiet
      (returns fun log' _ => Tried log' = true) log := fun _ =>
    admittedResponse_recording.mono (fun _ _ recording => recording.quiet) fun _ _ ends => ends
  refine .bind (.of_single fun log => single_of_quiet (admits log))
    (fun log => keepsEvents_of_quiet (admits log)) fun response => ?_
  cases response with
  | finalText text =>
      exact .of_single fun _ => (Sql.proc_single _).seq fun _ _ _ _ =>
        (Sql.proc_single _).seq fun _ _ _ _ => Sql.proc_single _
  | toolCall call =>
      refine .after_sql (fun _ => keepsEvents_of_recording recordRunMessage_recording) fun _ => ?_
      refine .bind (.of_single fun _ => ((single_of_quiet execute_quiet).captured).returning
        fun _ _ _ _ => trivial) (fun _ => (keepsEvents_of_quiet execute_quiet).captured)
        fun outcome => ?_
      cases outcome with
      | error failed => exact classifyToolError_transactsHeld
      | ok result =>
          intro log world world' place outcome holds struck isTransaction
          simp only at struck
          cases shown : toolContent call.name result.output with
          | error failed =>
              rw [shown] at struck
              cases struck
          | ok content =>
              rw [shown, Program.ofExcept_ok] at struck
              have transacts : TransactsHeld host answers strike engine event
                  ((recordRunMessage runId .tool content now
                    (some (stepKey run.stepCount "tool-result"))).proc.bind fun _ =>
                      (Transaction.advanceRunStep runId run.stepCount event.priority
                        now).perform.bind fun _ => engine.ack event now) := by
                refine .after_sql (fun _ => keepsEvents_of_recording recordRunMessage_recording)
                  fun _ => ?_
                intro log world world' place outcome holds struck isTransaction
                simp only [Transaction.perform, Op.perform, Program.perform,
                  Program.call_bind] at struck
                cases struck with
                | here rest => exact holds
                | later rest =>
                    rcases rest.of_bind with ⟨_, _, never, _⟩ | ⟨_, never, _⟩ | ⟨_, _, _, _, acks⟩
                    · exact absurd never Struck.not_ofExcept
                    · exact absurd never Struck.not_ofExcept
                    · have single : place.op.isTransaction = false :=
                        acks.allowed (Sql.proc_single _)
                      cases single.symm.trans isTransaction
              exact transacts _ _ _ _ _ holds struck isTransaction

theorem requeue_single {failed : Exc} :
    (engine.requeue event runId failed now).Obeys Single (returns fun _ _ => True) log :=
  (Sql.proc_single _).seq fun _ _ _ _ => (Sql.proc_single _).seq fun _ _ _ _ => of_raise

theorem runStep_transactsHeld :
    TransactsHeld host answers strike engine event (engine.runStep host event now) := by
  unfold Engine.runStep
  split
  · exact .of_single fun _ => of_raise
  · rename_i value _
    have reads : ∀ log, (getRun host (host.str value)).proc.Obeys KeepsEvents
        (returns fun _ _ => True) log :=
      fun _ => (getRun_obeys rfl).returning fun _ _ _ _ => trivial
    refine .after_sql reads fun run => ?_
    simp only
    split
    · exact .ack rfl
    · split
      · exact .ack rfl
      · split
        · exact .after_sql (fun _ => updateRun_obeys rfl) fun _ => .ack rfl
        · intro log world world' place outcome holds struck isTransaction
          rcases struck.of_bind with ⟨_, _, inside, _⟩ | ⟨_, inside, _⟩ | ⟨ended, _, _, _, later⟩
          · obtain ⟨_, _, inside⟩ := inside.of_attempt
            exact processStep_transactsHeld _ _ _ _ _ holds inside isTransaction
          · obtain ⟨_, _, inside⟩ := inside.of_attempt
            exact processStep_transactsHeld _ _ _ _ _ holds inside isTransaction
          · have single : place.op.isTransaction = false := by
              cases ended with
              | ok _ => cases later
              | error failed =>
                  exact later.allowed (requeue_single.seq fun _ _ _ _ =>
                    (of_done trivial : Program.Obeys Single (returns fun _ _ => True) _ _))
            cases single.symm.trans isTransaction

end Transactions

/-- A claim is one transaction. -/
theorem claimEvent_single {workerId : String} {leaseSeconds : Time} :
    (claimEvent workerId now leaseSeconds).Obeys (fun log _ => log = [])
      (fun log' _ => Tried log' = false) [] := by
  simp only [claimEvent, Transaction.perform, Op.perform, Program.perform, Program.bind_eq_bind,
    Program.call_bind]
  refine ⟨rfl, fun result => ?_⟩
  cases result with
  | error exc => exact rfl
  | ok claimed =>
      cases claimed with
      | none => exact rfl
      | some claim =>
          simp only [Program.ofExcept_ok, Program.done_bind]
          cases loads claim.row.payloadJson <;> exact rfl

theorem HoldsLease.of_claim {leaseSeconds : Time} {row : EventRow} {payload : PyVal}
    (stored : row ∈ world.db.events.rows) :
    HoldsLease engine ⟨row.id, row.kind, payload, row.priority, row.attempts + 1⟩
      (leased world engine.workerId now leaseSeconds row) := by
  have mapped := List.mem_map_of_mem (f := fun other : EventRow =>
    if (other.id == row.id) = true then other.claimedBy engine.workerId (now + leaseSeconds)
      (row.attempts + 1) now else other) stored
  rw [if_pos (beq_self_eq_true _)] at mapped
  exact ⟨_, mapped, rfl, rfl, rfl⟩

/-- A worker that is interrupted after it claimed a step event raises the interruption again, and
leaves the event, the run and the ledger so that the step can be taken up, exactly if it is
interrupted at a place that is spared. -/
theorem interruption_survives_iff (host : Host) (engine : Engine) (answers : Op → Answer)
    (faultless : Faultless answers) (strike : Interruption) (world : World) (now : Time)
    (row : EventRow)
    (found : firstBy host.tieBreak EventRow.before
      (world.db.events.rows.filter (EventRow.claimable now)) = some row)
    (kind : row.kind = "run.step") (payload : JsonObject)
    (read : loads row.payloadJson = .ok payload.value) (count : Nat) (place : Place)
    (there : (engine.runOnce host now).pointAt (kernelMachine host) answers count [] world =
      some place)
    (claimed : place.log ≠ []) (arrives : strike.arrives host place = true)
    (outcome : Except Exc (Option String)) (last : Connection)
    (ran : (engine.runOnce host now).executeStruck (connectionMachine host) answers
      (strike.connection host) count (.of world) = (outcome, last)) :
    Survives host row.id payload.value strike.exc (strike.left host place) outcome last.durable ↔
      Spared host engine.tools strike place = true := by
  -- what is struck comes after the claim, and the event is leased then
  have afterClaim : ∀ {outcome world'}, StruckAt host answers strike [] (engine.runOnce host now)
      world place outcome world' → ∃ log mid,
        HoldsLease engine ⟨row.id, row.kind, payload.value, row.priority, row.attempts + 1⟩ mid ∧
          Tried log = false ∧ StruckAt host answers strike log (engine.runStep host
            ⟨row.id, row.kind, payload.value, row.priority, row.attempts + 1⟩ now) mid place outcome
              world' := by
    intro outcome world' struck
    simp only [Engine.runOnce, Program.bind_eq_bind] at struck
    rcases struck.of_bind with
      ⟨_, _, inside, _⟩ | ⟨_, inside, _⟩ | ⟨event, log, mid, claims, struck⟩
    · exact absurd (inside.allowed claimEvent_single) claimed
    · exact absurd (inside.allowed claimEvent_single) claimed
    · obtain ⟨same, rfl⟩ := claims.runsTo.unique (claimEvent_runs faultless found read)
      obtain rfl := Except.ok.inj same
      have early : Tried log = false := claims.ends claimEvent_single
      have holds := @HoldsLease.of_claim engine now world engine.leaseSeconds row payload.value
        (List.mem_of_mem_filter (firstBy_mem found))
      simp only [kind, String.reduceEq, if_false, if_true] at struck
      rw [← kind] at struck
      exact ⟨log, _, holds, early, struck⟩
  cases closed : strike.opens place.op with
  | false =>
      -- the connection is the kernel's to the end
      have same : strike.connection host place.op (.of place.world) =
          ((strike.operation host place.op place.world).1,
            .of (strike.operation host place.op place.world).2) := by
        simp only [Interruption.connection, closed]
        rfl
      obtain ⟨world', rfl, struck⟩ := Program.struck_of_embedded connection_embeds there same ran
      obtain ⟨log, mid, holds, early, struck⟩ := afterClaim struck
      exact runStep_survives_iff faultless holds early struck arrives closed
  | true =>
      -- nothing is committed any more, and the event stays as it was at the place
      have held : last.held = some place.world.db := by
        refine Program.executeStruck_keeps connection_embeds
          (fun connection => connection.held = some place.world.db) connection_held there ?_ ran
        simp only [Interruption.connection, closed]
        rfl
      obtain ⟨_, _, struck⟩ : ∃ outcome world', StruckAt host answers strike []
          (engine.runOnce host now) world place outcome world' := Program.exists_struck there
      obtain ⟨log, mid, holds, _, struck⟩ := afterClaim struck
      obtain ⟨isTransaction, lost⟩ := Interruption.opens_transaction closed
      have leased := runStep_transactsHeld _ _ _ _ _ holds struck isTransaction
      refine iff_of_false (not_survives_held (leased.of_events fun stored inside => ?_))
        (by simp [Spared, lost])
      simp only [Connection.durable, held]
      exact inside

/-! ### Two interruptions of one step -/

/-- The first step of a run that may move money. -/
def payStepEvent : EventRow :=
  ⟨"e", "run.step", (runStepPayload "id-0" 0).text compactStyle, 0, none, .pending, 0, none, none, 0,
    0, 0⟩

/-- A store with this run and its step. -/
def payStepWorld : World :=
  { World.initial with
    db := { Db.empty with
      events := ⟨[payStepEvent], List.pairwise_singleton _ _⟩
      runs := ⟨[newRunRow "task" ["money"] 0 none "id-0"], List.pairwise_singleton _ _⟩ } }

/-- `KeyboardInterrupt`, when a statement is done; in a transaction, in its COMMIT. -/
def controlC : Interruption := ⟨⟨.keyboardInterrupt, ""⟩, rfl, .after, .commit⟩

/-- The model asks for the payment, and nothing fails. -/
def payStepAnswers (_ : Op) : Answer := ⟨none, .ok (.toolCall (payCall "q")), .ok (.dict [])⟩

/-- The operation goes to a handler. -/
def Op.callsHandler : Op → Bool
  | .handler _ => true
  | _ => false

/-- The operation stores the result of an effect. -/
def Op.commitsEffect : Op → Bool
  | .sql (.commitEffect ..) => true
  | _ => false

/-- Where the worker is after a number of operations. -/
def payStepPlace (count : Nat) : Option Place :=
  ((payEngine "a").runOnce plainHost 0).pointAt (kernelMachine plainHost) payStepAnswers count []
    payStepWorld

/-- How the worker ends that is interrupted there. -/
def payStepStruck (count : Nat) : Except Exc (Option String) × Connection :=
  ((payEngine "a").runOnce plainHost 0).executeStruck (connectionMachine plainHost) payStepAnswers
    (controlC.connection plainHost) count (.of payStepWorld)

set_option maxRecDepth 10000 in
/-- An interruption that arrives when the result of the payment is stored is raised again. -/
theorem interrupted_commit_survives :
    ∃ place, payStepPlace 11 = some place ∧
      (Survives plainHost "e" (runStepPayload "id-0" 0).value controlC.exc
          (controlC.left plainHost place) (payStepStruck 11).1 (payStepStruck 11).2.durable ↔
        Spared plainHost payRegistry controlC place = true) ∧
      Survives plainHost "e" (runStepPayload "id-0" 0).value controlC.exc
        (controlC.left plainHost place) (payStepStruck 11).1 (payStepStruck 11).2.durable := by
  have facts : (payStepPlace 11).any (fun place => !place.log.isEmpty &&
      Spared plainHost payRegistry controlC place && place.op.commitsEffect &&
        controlC.arrives plainHost place) = true := by decide +kernel
  rcases there : payStepPlace 11 with _ | place
  · rw [there] at facts
    cases facts
  · simp only [there, Option.any_some, Bool.and_eq_true] at facts
    obtain ⟨⟨⟨claimed, spared⟩, -⟩, arrives⟩ := facts
    have survives := interruption_survives_iff plainHost (payEngine "a") payStepAnswers
      (fun _ => rfl) controlC payStepWorld 0 payStepEvent (by decide +kernel) rfl
      (runStepPayload "id-0" 0) (JsonObject.loads_text compactStyle (runStepPayload "id-0" 0)) 11
      place there (by simpa using claimed) arrives (payStepStruck 11).1 (payStepStruck 11).2
      (Prod.mk.eta (p := payStepStruck 11)).symm
    exact ⟨_, rfl, survives, survives.2 spared⟩

set_option maxRecDepth 10000 in
/-- An interruption of a mutating handler is lost: `run_once` returns the run, which is blocked, the
event is done, and the loop of the daemon goes on. -/
theorem interrupted_payment_swallowed :
    (∃ place call, payStepPlace 10 = some place ∧ place.op = .handler call) ∧
      (payStepStruck 10).1 = .ok (some "id-0") ∧
      runForeverTurn (payStepStruck 10).1 = .ok () ∧
      (payStepStruck 10).2.durable.db.runs.rows.map RunRow.status = [.blockedEffect] ∧
      (payStepStruck 10).2.durable.db.events.rows.map EventRow.status = [.done] ∧
      ∀ left, ¬ Survives plainHost "e" (runStepPayload "id-0" 0).value controlC.exc left
        (payStepStruck 10).1 (payStepStruck 10).2.durable := by
  have facts : (payStepPlace 10).any (fun place => place.op.callsHandler) = true := by
    decide +kernel
  have same : (payStepStruck 10).1 = .ok (some "id-0") := by decide +kernel
  refine ⟨?_, same, by rw [same]; rfl, by decide +kernel, by decide +kernel,
    fun left => not_survives_returned same⟩
  rcases there : payStepPlace 10 with _ | ⟨log, op, world⟩
  · rw [there] at facts
    cases facts
  · rw [there] at facts
    cases op with
    | handler call => exact ⟨_, call, rfl, rfl⟩
    | _ => cases facts

/-- An interruption that arrives when the step is advanced is replaced by the exception of the
ROLLBACK, and the loop of the daemon goes on. -/
example : (payStepStruck 13).1 =
      .error ⟨.operationalError, "cannot rollback - no transaction is active"⟩ ∧
    runForeverTurn (payStepStruck 13).1 = .ok () ∧
    (payStepStruck 13).2.durable.db.runs.rows.map RunRow.stepCount = [1] := by decide +kernel

end PreActive.Kernel
