/-
Module: PreActive.Kernel.Moves
Purpose: A worker moves its run at most once, and while it is the only worker the run stands
  still until then.
Trusted boundary: none
Main exports:
  Op.moves, Unmoved, MovesOnce, runOnce_movesOnce, Call.isWorker, AloneWorker, StandsStill,
  stands_still
-/
import PreActive.Kernel.Fence

namespace PreActive.Kernel

open PreActive.Foundation PreActive.Python
open Program.Obeys

/-! ### Moves -/

/-- The operation takes a run to another status or another step. -/
def Op.moves : Op → Bool
  | .sql (.updateRun _ change) => change.status.isSome
  | .sql (.blockRun ..) => true
  | .transaction (.advanceRunStep ..) => true
  | _ => false

/-- Nothing in the history moved a run. -/
def Unmoved (log : History) : Prop := ∀ entry ∈ log, entry.op.moves = false

/-- The operation records a decision. -/
def Op.decides : Op → Bool
  | .sql (.insertDecision _) => true
  | _ => false

/-- Runs are moved, and decisions recorded, only by a process that has moved none before. -/
def MovesOnce (log : History) (op : Op) : Prop :=
  op.moves = true ∨ op.decides = true → Unmoved log

/-- The operations that neither move a run nor record a decision. -/
def Still (_ : History) (op : Op) : Prop := op.moves = false ∧ op.decides = false

variable {host : Host} {engine : Engine} {log : History} {event : Event}
variable {runId : String} {run : RunRow} {call : ToolCall} {now : Time}

theorem Unmoved.cons {entry : Entry kernel Exc} (unmoved : Unmoved log)
    (still : entry.op.moves = false) : Unmoved (entry :: log) := by
  intro older member
  rcases List.mem_cons.1 member with rfl | earlier
  · exact still
  · exact unmoved older earlier

theorem Unmoved.of_suffix {log' : History} (unmoved : Unmoved log') (longer : log <:+ log') :
    Unmoved log :=
  fun entry member => unmoved entry (longer.subset member)

theorem MovesOnce.of_still (log : History) {op : Op} (still : Still log op) :
    MovesOnce log op := by
  rintro (moves | decides)
  · rw [still.1] at moves
    cases moves
  · rw [still.2] at decides
    cases decides

/-- A part that stays still moves nothing, and may be followed by a move. -/
theorem still_obeys {α : Type} {M : History → α → Prop} {part : Proc α}
    (obeys : part.Obeys Still (returns M) log) (unmoved : Unmoved log) :
    part.Obeys MovesOnce (returns fun log' _ => Unmoved log') log := by
  refine (obeys.carry (Q := MovesOnce) (P := Unmoved) ?_ ?_ unmoved).weaken ?_
  · exact fun log op still _ => MovesOnce.of_still log still
  · exact fun log op result still unmoved => unmoved.cons still.1
  · intro log' outcome ends
    cases outcome with
    | ok value => exact ends.2
    | error exc => trivial

/-- As `still_obeys`, when the part may raise. -/
theorem still_captured {α : Type} {M : History → α → Prop} {part : Proc α}
    (obeys : part.Obeys Still (returns M) log) (unmoved : Unmoved log) :
    part.attempt.Obeys MovesOnce (returns fun log' _ => Unmoved log') log := by
  refine Program.Obeys.attempt (obeys.carry (Q := MovesOnce) (P := Unmoved) ?_ ?_ unmoved)
    fun log' outcome ends => ends.2
  · exact fun log op still _ => MovesOnce.of_still log still
  · exact fun log op result still unmoved => unmoved.cons still.1

/-- A part that stays still ends a worker's call as well as any. -/
theorem still_ends {α : Type} {M : History → α → Prop} {part : Proc α}
    (obeys : part.Obeys Still (returns M) log) :
    part.Obeys MovesOnce (returns fun _ _ => True) log :=
  obeys.mono (fun log _ still => MovesOnce.of_still log still) fun _ outcome _ => by
    cases outcome <;> trivial

/-! ### The parts of `run_once` -/

theorem ToolRule.still {registry : ToolRegistry} {enter : History → ToolCall → List String → Prop}
    {op : Op} (rule : ToolRule host registry enter log op) : Still log op := by
  cases op with
  | sql stmt => cases stmt <;> first | exact rule.elim | exact ⟨rfl, rfl⟩
  | transaction block => exact rule.elim
  | enterExecute call allowed => exact ⟨rfl, rfl⟩
  | respond messages tools => exact rule.elim
  | handler handled => exact ⟨rfl, rfl⟩

theorem ack_still : (engine.ack event now).Obeys Still (returns fun _ _ => True) log :=
  ackEvent_obeys (fun _ _ => ⟨rfl, rfl⟩) ⟨rfl, rfl⟩

theorem recordRunMessage_still {role : Role} {content : String} {messageKey : Option String} :
    (recordRunMessage runId role content now messageKey).proc.Obeys Still
      (returns fun log' _ => MessageKept log' ⟨runId, role, content, messageKey, now⟩) log :=
  recordRunMessage_obeys ⟨rfl, rfl⟩ fun _ _ => ⟨rfl, rfl⟩

theorem execute_still {registry : ToolRegistry} {allowed : List String} :
    (registry.execute host call allowed now).Obeys Still
      (returns (ExecuteReturns host registry call allowed)) log := by
  have obeys : (registry.execute host call allowed now).Obeys
      (ToolRule host registry fun _ _ _ => True)
      (returns (ExecuteReturns host registry call allowed)) log := execute_obeys trivial
  exact obeys.mono (fun _ _ rule => rule.still) fun _ _ ends => ends

theorem runTaskRequested_still :
    (engine.runTaskRequested event now).Obeys Still (returns fun _ _ => True) log := by
  have rejected : ∀ reason log, (engine.rejectEvent event reason now).Obeys Still
      (returns fun _ _ => True) log := by
    intro reason log
    simp only [Engine.rejectEvent, Program.bind_eq_bind]
    refine (appendJournal_obeys fun _ _ => ⟨rfl, rfl⟩).seq fun _ _ _ _ => ?_
    exact ack_still.seq fun _ _ _ _ => of_done trivial
  simp only [Engine.runTaskRequested]
  split
  · exact rejected _ _
  · split
    · exact rejected _ _
    · split
      · exact rejected _ _
      · simp only [submitTask, Transaction.perform, Op.perform, Program.perform,
          Program.bind_eq_bind, Program.call_bind]
        apply afterCall
        · exact ⟨rfl, rfl⟩
        · intro newRun
          exact ack_still.seq fun _ _ _ _ => of_done trivial

theorem requeue_still {exc : Exc} :
    (engine.requeue event runId exc now).Obeys Still (returns fun _ _ => True) log := by
  simp only [Engine.requeue, Program.bind_eq_bind]
  refine (updateRun_obeys ⟨rfl, rfl⟩).seq fun _ _ _ _ => ?_
  refine (failEvent_obeys (fun _ _ => ⟨rfl, rfl⟩) ⟨rfl, rfl⟩).seq fun _ _ _ _ => ?_
  exact of_raise

theorem admittedResponse_movesOnce (unmoved : Unmoved log) :
    (engine.admittedResponse host runId run now).Obeys MovesOnce
      (returns fun log' _ => Unmoved log') log := by
  simp only [Engine.admittedResponse, Program.bind_eq_bind]
  refine (still_obeys (getRunStepDecision_obeys host ⟨rfl, rfl⟩) unmoved).seq ?_
  intro log₁ stored _ unmoved₁
  cases stored with
  | some decision => exact of_ofExcept fun _ _ => unmoved₁
  | none =>
      refine (still_obeys (messagesForRun_obeys (fun _ _ => ⟨rfl, rfl⟩) fun _ _ => ⟨rfl, rfl⟩)
        unmoved₁).seq fun log₂ messages _ unmoved₂ => ?_
      simp only [Op.perform, Program.perform, Program.call_bind]
      apply afterCall
      · exact MovesOnce.of_still _ ⟨rfl, rfl⟩
      · intro response
        -- recording the decision is no move, but comes before any
        have recorded : (recordRunStepDecision runId run.stepCount (decisionFromResponse response)
            now).proc.Obeys (fun _ (op : Op) => op.moves = false)
            (returns fun log' _ => DecisionSeen log' runId run.stepCount (decisionText response))
            (⟨.respond messages (engine.tools.specs run.capabilities), .ok response⟩ :: log₂) :=
          recordRunStepDecision_obeys rfl fun _ _ => rfl
        refine Program.Obeys.seq (M := fun log' _ => Unmoved log') ?_ fun log' _ _ unmoved' =>
          of_done unmoved'
        refine (recorded.carry (Q := MovesOnce) (P := Unmoved) ?_ ?_
          (unmoved₂.cons rfl)).weaken ?_
        · exact fun log op _ unmoved _ => unmoved
        · exact fun log op result still unmoved => unmoved.cons still
        · intro log' outcome ends
          cases outcome with
          | ok value => exact ends.2
          | error exc => trivial

theorem classifyToolError_movesOnce {exc : Exc} (unmoved : Unmoved log) :
    (engine.classifyToolError event runId call exc now).Obeys MovesOnce
      (returns fun _ _ => True) log := by
  simp only [Engine.classifyToolError, effectState, Op.perform, Program.perform,
    Program.bind_eq_bind, Program.call_bind, Program.bind_assoc]
  apply afterCall
  · exact MovesOnce.of_still _ ⟨rfl, rfl⟩
  · intro row
    have unmoved₁ : Unmoved (⟨.sql (.selectEffect call.requestId), .ok row⟩ :: log) :=
      unmoved.cons rfl
    simp only [Program.pure_eq_done, Program.done_bind]
    split
    · refine (blockRunOnEffect_obeys (fun log _ => MovesOnce.of_still log ⟨rfl, rfl⟩)
        fun _ => unmoved₁).seq fun _ _ _ _ => ?_
      exact still_ends ack_still
    · split
      · refine (updateRun_obeys fun _ => unmoved₁).seq fun _ _ _ _ => ?_
        exact still_ends ack_still
      · exact of_raise

theorem toolStep_movesOnce (unmoved : Unmoved log) :
    (engine.toolStep host event runId run call now).Obeys MovesOnce
      (returns fun _ _ => True) log := by
  simp only [Engine.toolStep, Program.bind_eq_bind]
  refine (still_obeys recordRunMessage_still unmoved).seq fun log₁ _ _ unmoved₁ => ?_
  refine (still_captured execute_still unmoved₁).seq fun log₂ outcome _ unmoved₂ => ?_
  cases outcome with
  | error exc => exact classifyToolError_movesOnce unmoved₂
  | ok result =>
      apply seq (M := fun log' _ => Unmoved log')
      · exact of_ofExcept fun _ _ => unmoved₂
      · intro log₃ content _ unmoved₃
        refine (still_obeys recordRunMessage_still unmoved₃).seq fun log₄ _ _ unmoved₄ => ?_
        simp only [Transaction.perform, Op.perform, Program.perform, Program.call_bind]
        apply afterCall
        · exact fun _ => unmoved₄
        · intro next
          exact still_ends ack_still

theorem finalStep_movesOnce {text : String} (unmoved : Unmoved log) :
    (engine.finalStep event runId run text now).Obeys MovesOnce
      (returns fun _ _ => True) log := by
  simp only [Engine.finalStep, Program.bind_eq_bind]
  refine (still_obeys recordRunMessage_still unmoved).seq fun log₁ _ _ unmoved₁ => ?_
  refine (updateRun_obeys fun _ => unmoved₁).seq fun _ _ _ _ => ?_
  exact still_ends ack_still

theorem runStep_movesOnce (unmoved : Unmoved log) :
    (engine.runStep host event now).Obeys MovesOnce (returns fun _ _ => True) log := by
  simp only [Engine.runStep]
  split
  · exact of_raise
  · simp only [Program.bind_eq_bind]
    refine (still_obeys (getRun_obeys ⟨rfl, rfl⟩) unmoved).seq fun log₁ run _ unmoved₁ => ?_
    split
    · exact (still_ends ack_still).seq fun _ _ _ _ => of_done trivial
    · split
      · exact (still_ends ack_still).seq fun _ _ _ _ => of_done trivial
      · split
        · refine (updateRun_obeys fun _ => unmoved₁).seq fun _ _ _ _ => ?_
          exact (still_ends ack_still).seq fun _ _ _ _ => of_done trivial
        · have processed : ∀ runId, (engine.processStep host event runId run now).Obeys MovesOnce
              (returns fun _ _ => True) log₁ := by
            intro runId
            simp only [Engine.processStep, Program.bind_eq_bind]
            refine (admittedResponse_movesOnce unmoved₁).seq fun log₂ response _ unmoved₂ => ?_
            cases response with
            | toolCall call => exact toolStep_movesOnce unmoved₂
            | finalText text => exact finalStep_movesOnce unmoved₂
          refine (processed _).captured.seq fun log₂ outcome _ _ => ?_
          cases outcome with
          | ok _ => exact of_done trivial
          | error exc =>
              exact (still_ends requeue_still).seq fun _ _ _ _ => of_done trivial

/-- A worker moves its run at most once, and decides its step before that. -/
theorem runOnce_movesOnce :
    (engine.runOnce host now).Obeys MovesOnce (returns fun _ _ => True) [] := by
  simp only [Engine.runOnce, claimEvent, Transaction.perform, Op.perform, Program.perform,
    Program.bind_eq_bind, Program.call_bind, Program.bind_assoc]
  apply afterCall
  · exact MovesOnce.of_still _ ⟨rfl, rfl⟩
  · intro found
    have unmoved : ∀ log : History, log = [⟨.transaction (.claimEvent engine.workerId now
        engine.leaseSeconds), .ok found⟩] → Unmoved log := by
      rintro log rfl entry member
      rw [List.mem_singleton.1 member]
      rfl
    cases found with
    | none => exact of_done trivial
    | some claim =>
        simp only [Program.bind_assoc]
        apply seq (M := fun log' _ => Unmoved log')
        · exact of_ofExcept fun _ _ => unmoved _ rfl
        · intro log' payload _ unmoved'
          simp only [Program.pure_eq_done, Program.done_bind]
          split
          · exact still_ends runTaskRequested_still
          · split
            · exact runStep_movesOnce unmoved'
            · exact (still_ends ack_still).seq fun _ _ _ _ => of_done trivial

/-! ### One worker at a time -/

def Call.isWorker : Call → Bool
  | .runOnce .. => true
  | _ => false

theorem program_movesOnce (host : Host) (call : Call) :
    (call.program host).Obeys (fun log op => call.isWorker = true → MovesOnce log op)
      Program.anyOutcome [] := by
  by_cases worker : call.isWorker = true
  · cases call with
    | runOnce engine now =>
        have kept : ((Call.runOnce engine now).program host).Obeys MovesOnce
            (returns fun _ _ => True) [] := discard_obeys runOnce_movesOnce
        exact kept.mono (fun _ _ once _ => once) fun _ _ _ => trivial
    | _ => cases worker
  · exact (program_obeys host call).mono (fun _ _ _ isWorker => absurd isWorker worker)
      fun _ _ ends => ends

/-- In every reachable state, the next operation of a worker is its first move, or none. -/
theorem next_movesOnce {steps : KernelConfig → Label Answer Call → Prop} {config : KernelConfig}
    {call : Call} {op : Op} {next : Except Exc op.Result → Proc Unit}
    (reached : (system host).Reachable steps KernelConfig.initial config)
    (member : ⟨call, .call (F := kernel) op next, log, true⟩ ∈ config.procs)
    (worker : call.isWorker = true) : MovesOnce log op :=
  (reached.obeys (program_movesOnce host) rfl _ member).head worker

/-- The process is a worker that has not finished. -/
abbrev AtWork (process : Process kernel Exc Call) : Prop :=
  System.Reachable.Busy (fun call => call.isWorker = true) process

/-- A worker is only started while none is at work. -/
def AloneWorker (config : KernelConfig) (label : Label Answer Call) : Prop :=
  ∀ call, label = .spawn call → call.isWorker = true → ∀ process ∈ config.procs, ¬ AtWork process

variable {config : KernelConfig} {steps : KernelConfig → Label Answer Call → Prop}

/-- No two workers are at work. -/
theorem worker_alone (alone : ∀ config label, steps config label → AloneWorker config label)
    (reached : (system host).Reachable steps KernelConfig.initial config) :
    ∀ (i j : Nat) (one other : Process kernel Exc Call), config.procs[i]? = some one →
      config.procs[j]? = some other → AtWork one → AtWork other → i = j :=
  reached.alone (fun config call admitted isWorker => alone config _ admitted call rfl isWorker) rfl

/-- A running run that is not moved stays where it is. -/
theorem RunStep.stays {op : Op} {row : RunRow} {after : Option RunRow}
    (change : RunStep runId op (some row) after) (running : row.status = .running)
    (still : op.moves = false) :
    ∃ row', after = some row' ∧ row'.status = .running ∧ row'.stepCount = row.stepCount := by
  cases change with
  | keep => exact ⟨row, rfl, running, rfl⟩
  | update issued =>
      cases issued with
      | complete now text => cases still
      | fail now error => cases still
      | note now error => exact ⟨_, rfl, running, rfl⟩
  | block _ => cases still
  | advance _ => cases still
  | resume blocked =>
      rw [running] at blocked
      cases blocked

/-- Runs are moved by workers, and by hosts that resume them. -/
theorem CallRule.mover {call : Call} {op : Op} (rule : CallRule host call log op)
    (moves : op.moves = true) : call.isWorker = true := by
  cases call with
  | runOnce engine now => rfl
  | submitTask task capabilities now source =>
      cases op with
      | transaction block => cases block <;> first | exact rule.elim | cases moves
      | _ => exact rule.elim
  | resumeBlockedEffect registry runId now =>
      cases op with
      | sql stmt => cases stmt <;> first | exact rule.elim | cases moves
      | transaction block => cases block <;> first | exact rule.elim | cases moves
      | _ => cases moves
  | execute registry call allowed now =>
      simp only [CallRule] at rule
      rw [rule.still.1] at moves
      cases moves
  | recoverReconciled registry requestId allowed now =>
      simp only [CallRule] at rule
      rw [rule.still.1] at moves
      cases moves
  | reconcile requestId occurred digest now result =>
      cases op with
      | sql stmt => cases stmt <;> first | exact rule.elim | cases moves
      | transaction block => cases block <;> first | exact rule.elim | cases moves
      | _ => exact rule.elim
  | enqueueEvent request =>
      cases op with
      | sql stmt => cases stmt <;> first | exact rule.elim | cases moves
      | _ => exact rule.elim
  | addMemory kind content salience now =>
      cases op with
      | sql stmt => cases stmt <;> first | exact rule.elim | cases moves
      | _ => exact rule.elim

/-- The runs that a process has found running stand where it found them. -/
def StandsStill (db : Db) (log : History) : Prop :=
  ∀ runId run, Saw log (.sql (.selectRun runId)) (some run) → run.status = .running →
    ∃ row, db.run runId = some row ∧ row.status = .running ∧ row.stepCount = run.stepCount

/-- A step that moves no running run keeps what is known of them. -/
theorem StandsStill.later {world : World} {op : Op} (stands : StandsStill world.db log)
    (answer : Answer) (issued : op.issued) (still : op.moves = false) :
    StandsStill (op.answer host answer world).2.db log := by
  intro runId run saw running
  obtain ⟨row, stored, isRunning, step⟩ := stands runId run saw running
  have change := Kernel.runStep host world answer issued runId
  rw [stored] at change
  obtain ⟨row', stored', isRunning', step'⟩ := change.stays isRunning still
  exact ⟨row', stored', isRunning', step'.trans step⟩

/-- While one worker at a time is at work, the run it has found running stands still until the
worker moves it. -/
theorem stands_still (alone : ∀ config label, steps config label → AloneWorker config label)
    (reached : (system host).Reachable steps KernelConfig.initial config) :
    ∀ (pid : Nat) (process : Process kernel Exc Call), config.procs[pid]? = some process →
      AtWork process → Unmoved process.log → StandsStill config.world.db process.log := by
  refine reached.invariant (I := fun config => ∀ (pid : Nat) (process : Process kernel Exc Call),
    config.procs[pid]? = some process → AtWork process → Unmoved process.log →
      StandsStill config.world.db process.log) ?_ ?_
  · intro pid process found
    cases found
  · intro config label config' before held admitted stepped
    cases Steps.of_step stepped with
    | spawn call =>
        intro pid process found work unmoved
        rcases Nat.lt_or_ge pid config.procs.length with inside | outside
        · rw [List.getElem?_append_left inside] at found
          exact held pid process found work unmoved
        · rw [List.getElem?_append_right outside, List.getElem?_singleton] at found
          split at found
          · cases found
            intro runId run saw
            cases saw
          · cases found
    | @die pid victim found =>
        intro other process there work unmoved
        rw [List.getElem?_set] at there
        split at there
        · split at there
          · cases there
            have dead := work.2
            simp at dead
          · cases there
        · exact held other process there work unmoved
    | @act pid answer call op next log found =>
        intro other process there work unmoved
        have rule := (reachable_rule before _ (List.mem_of_getElem? found)).head
        rw [List.getElem?_set] at there
        split at there
        · split at there
          · cases there
            -- the worker's own step
            have still : op.moves = false := unmoved _ List.mem_cons_self
            have stood := held pid _ found ⟨work.1, rfl⟩ fun entry member =>
              unmoved entry (List.mem_cons_of_mem _ member)
            have later := @StandsStill.later host _ _ _ stood answer rule.issued still
            intro runId run saw running
            rcases List.mem_cons.1 saw with here | earlier
            · obtain ⟨isOp, answered⟩ := Entry.mk.inj here
              subst isOp
              rw [heq_eq_eq] at answered
              cases faulty : answer.fault with
              | some fault => simp [Op.answer, faulty] at answered
              | none =>
                  simp only [Op.answer, faulty, Stmt.exec, Except.ok.injEq] at answered ⊢
                  exact ⟨run, answered.symm, running, rfl⟩
            · exact later runId run earlier running
          · cases there
        · rename_i apart
          -- another process acts: it is no worker, and a resume moves no running run
          have still : op.moves = false := by
            cases moves : op.moves with
            | false => rfl
            | true =>
                have acting : AtWork ⟨call, .call (F := kernel) op next, log, true⟩ :=
                  ⟨rule.mover moves, rfl⟩
                exact absurd (worker_alone alone before pid other _ _ found there acting work) apart
          exact (held other process there work unmoved).later answer rule.issued still

end PreActive.Kernel
