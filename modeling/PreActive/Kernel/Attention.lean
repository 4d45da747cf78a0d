/-
Module: PreActive.Kernel.Attention
Purpose: With one worker or resuming host at a time, no effect in doubt is forgotten: a run waits
  for it.
Trusted boundary: human-reviewed spec
Main exports: OneEngine, Resolved, MindsEffects, Db.Attends, EffectsAttended, effects_attended
-/
import PreActive.Foundation.Exclusive
import PreActive.Kernel.Daemon
import PreActive.Kernel.Origins
import PreActive.Kernel.Pace

namespace PreActive.Kernel

open PreActive.Foundation PreActive.Python
open Program.Obeys

variable {host : Host} {engine : Engine} {registry : ToolRegistry} {log : History} {event : Event}
variable {runId requestId : String} {run : RunRow} {call : ToolCall} {now : Time} {world : World}

/-! ### The runs of the system -/

/-- Workers, and hosts that resume a run. -/
def Call.isEngine : Call → Bool
  | .runOnce .. | .resumeBlockedEffect .. => true
  | _ => false

def KernelConfig.idle (config : KernelConfig) : Bool :=
  config.procs.all fun process => !(process.call.isEngine && process.nextOp.isSome)

/-- A worker has the given bound and tools are only executed for runs; a worker or a resuming host
is started while none is at work, and only the store enqueues step events. -/
def oneEngine (maxSteps : Int) (config : KernelConfig) : Label Answer Call → Bool
  | .spawn call =>
      call.leavesStepsToStore &&
        match call with
        | .runOnce engine _ => engine.maxSteps == maxSteps && config.idle
        | .resumeBlockedEffect .. => config.idle
        | .execute .. | .recoverReconciled .. => false
        | _ => true
  | _ => true

/-- The steps of a run with one registry and one bound, in which one worker or resuming host at a
time is at work. -/
def OneEngine (host : Host) (registry : ToolRegistry) (maxSteps : Int) (config : KernelConfig)
    (label : Label Answer Call) : Prop :=
  FixedRegistry host registry label ∧ oneEngine maxSteps config label = true

/-! ### What an engine has seen of the ledger -/

/-- The operation may bring a ledger row into doubt. -/
def Op.doubts : Op → Bool
  | .sql (.insertEffect _) | .sql (.readmitEffect ..) | .sql (.attemptUnknown ..) => true
  | _ => false

/-- The operation takes a run to another status or another step. -/
def Op.takes : Op → Bool
  | .transaction (.resumeRunAfterEffect ..) => true
  | op => op.moves

/-- The step shows that the ledger row of the request is not in doubt. -/
inductive ShowsResolved (requestId : String) : Entry kernel Exc → Prop where
  | read {found : Option EffectRow}
      (resolved : (found.map EffectRow.state).any EffectState.unresolved = false) :
      ShowsResolved requestId ⟨.sql (.selectEffect requestId), .ok found⟩
  | commit (resultJson resultSha256 : String) (now : Time) :
      ShowsResolved requestId ⟨.sql (.commitEffect requestId resultJson resultSha256 now), .ok ()⟩

/-- The process has seen that the request is not in doubt, and has not brought it there since. -/
def SeenResolved (requestId : String) : History → Prop
  | [] => False
  | entry :: older => ShowsResolved requestId entry ∨ (entry.op.doubts = false ∧ SeenResolved requestId older)

/-- The process has taken no run on. -/
def Untaken (log : History) : Prop := ∀ entry ∈ log, entry.op.takes = false

/-- A worker or a resuming host deals with tools first and takes its run on then, when it has
seen that no effect of the run is left in doubt. -/
def MindsEffects (registry : ToolRegistry) (log : History) (op : Op) : Prop :=
  (op.isTool = true ∨ op.takes = true → Untaken log) ∧
    match op with
    | .transaction (.advanceRunStep ..) => ∃ call allowed spec,
        Saw log (.enterExecute call allowed) () ∧ registry.find call.name = some spec ∧
          (spec.mutation = true → SeenResolved call.requestId log)
    | .transaction (.resumeRunAfterEffect runId _ _) => ∃ run requestId,
        Resuming log runId run requestId ∧ SeenResolved requestId log
    | _ => True

/-- The operations that take no run on. -/
def Untaking (_ : History) (op : Op) : Prop := op.takes = false

/-- The operations that neither take a run on nor deal with tools. -/
def Calm (_ : History) (op : Op) : Prop := op.takes = false ∧ op.isTool = false

theorem Untaken.nil : Untaken [] := fun _ member => absurd member List.not_mem_nil

theorem Untaken.cons {entry : Entry kernel Exc} (untaken : Untaken log)
    (still : entry.op.takes = false) : Untaken (entry :: log) := by
  intro older member
  rcases List.mem_cons.1 member with rfl | earlier
  · exact still
  · exact untaken older earlier

theorem Untaking.minds {op : Op} (untaken : Untaken log) (still : op.takes = false) :
    MindsEffects registry log op := by
  refine ⟨fun _ => untaken, ?_⟩
  cases op with
  | transaction block => cases block <;> trivial
  | _ => trivial

theorem Calm.minds {op : Op} (calm : Calm log op) : MindsEffects registry log op := by
  refine ⟨?_, ?_⟩
  · rintro (tool | takes)
    · exact absurd calm.2 (by simp [tool])
    · exact absurd calm.1 (by simp [takes])
  · cases op with
    | transaction block => cases block <;> first | trivial | exact absurd calm.1 nofun
    | _ => trivial

/-- A calm step keeps what was settled. -/
theorem SeenResolved.cons {entry : Entry kernel Exc} (settled : SeenResolved requestId log)
    (calm : entry.op.doubts = false) : SeenResolved requestId (entry :: log) :=
  .inr ⟨calm, settled⟩

theorem Calm.doubts {op : Op} (calm : Calm log op) : op.doubts = false := by
  cases op with
  | sql stmt => cases stmt <;> first | rfl | exact absurd calm.2 nofun
  | _ => rfl

/-- A part that takes no run on may come before anything. -/
theorem untaking_minds {α : Type} {M : History → α → Prop} {part : Proc α}
    (obeys : part.Obeys Untaking (returns M) log) (untaken : Untaken log) :
    part.Obeys (MindsEffects registry) (returns fun log' value => Untaken log' ∧ M log' value)
      log := by
  refine (obeys.carry (Q := MindsEffects registry) (P := Untaken) ?_ ?_ untaken).weaken ?_
  · exact fun log op still untaken => Untaking.minds untaken still
  · exact fun log op result still untaken => untaken.cons still
  · intro log' outcome ends
    cases outcome with
    | ok value => exact ⟨ends.2, ends.1⟩
    | error exc => trivial

/-- As `untaking_minds`, when the part may raise. -/
theorem untaking_captured {α : Type} {M : History → α → Prop} {part : Proc α}
    (obeys : part.Obeys Untaking (returns M) log) (untaken : Untaken log) :
    part.attempt.Obeys (MindsEffects registry)
      (returns fun log' outcome => Untaken log' ∧ ∀ value, outcome = .ok value → M log' value)
      log := by
  refine Program.Obeys.attempt
    (obeys.carry (Q := MindsEffects registry) (P := Untaken) ?_ ?_ untaken) ?_
  · exact fun log op still untaken => Untaking.minds untaken still
  · exact fun log op result still untaken => untaken.cons still
  · rintro log' outcome ⟨ends, untaken'⟩
    refine ⟨untaken', ?_⟩
    rintro value rfl
    exact ends

/-- A calm part may come anywhere. -/
theorem calm_minds {α : Type} {M : History → α → Prop} {part : Proc α}
    (obeys : part.Obeys Calm (returns M) log) :
    part.Obeys (MindsEffects registry) (returns fun _ _ => True) log :=
  obeys.mono (fun _ _ calm => calm.minds) fun _ outcome _ => by cases outcome <;> trivial

/-- A calm part keeps what was seen. -/
theorem calm_keeps {α : Type} {M : History → α → Prop} {part : Proc α}
    (obeys : part.Obeys Calm (returns M) log) (untaken : Untaken log)
    {resolved : Prop} (seen : resolved → SeenResolved requestId log) :
    part.Obeys (MindsEffects registry)
      (returns fun log' _ => Untaken log' ∧ (resolved → SeenResolved requestId log')) log := by
  refine (obeys.carry (Q := MindsEffects registry)
    (P := fun log' => Untaken log' ∧ (resolved → SeenResolved requestId log')) ?_ ?_
    ⟨untaken, seen⟩).weaken ?_
  · exact fun log op calm _ => calm.minds
  · intro log op result calm kept
    exact ⟨kept.1.cons calm.1, fun isResolved => (kept.2 isResolved).cons calm.doubts⟩
  · intro log' outcome ends
    cases outcome with
    | ok value => exact ends.2
    | error exc => trivial

/-! ### Tools -/

variable {spec : ToolSpec} {allowed : List String}

theorem dispatchMutation_sees :
    (dispatchMutation host spec call now).Obeys Untaking
      (returns fun log' _ => SeenResolved call.requestId log') log := by
  apply afterAttempt rfl
  intro result
  cases result with
  | error exc => exact afterCall rfl fun _ => of_raise
  | ok output =>
      refine Program.Obeys.seq (M := fun _ _ => True) (of_ofExcept fun _ _ => trivial) ?_
      intro log' json _ _
      apply afterCall rfl
      intro _
      exact of_done (.inl (.commit _ _ _))

theorem executeMutation_sees :
    (executeMutation host spec call now).Obeys Untaking
      (returns fun log' _ => SeenResolved call.requestId log') log := by
  apply afterCall rfl
  intro found
  cases found with
  | none => exact afterCall rfl fun _ => dispatchMutation_sees
  | some row =>
      simp only
      split
      · exact of_raise
      · cases state : row.state with
        | committed =>
            refine Program.Obeys.seq (M := fun log' _ => log' = _) (of_ofExcept fun _ _ => rfl) ?_
            rintro log' output _ rfl
            exact of_done (.inl (.read (by simp [state, EffectState.unresolved])))
        | reconciledNoEffect => exact afterCall rfl fun _ => dispatchMutation_sees
        | executing => exact of_raise
        | attemptedUnknown => exact of_raise

/-- An execution that returns entered its call, and has seen the request of a mutation resolved. -/
theorem execute_sees :
    (registry.execute host call allowed now).Obeys Untaking
      (returns fun log' _ => Saw log' (.enterExecute call allowed) () ∧
        ∃ spec, registry.find call.name = some spec ∧
          (spec.mutation = true ∨ SeenResolved call.requestId log →
            SeenResolved call.requestId log')) log := by
  apply afterCall rfl
  intro _
  cases found : registry.find call.name with
  | none => exact of_raise
  | some spec =>
      simp only
      split
      · exact of_raise
      · cases validateArguments host spec call.arguments with
        | error exc => exact of_raise
        | ok _ =>
            simp only
            split
            · refine executeMutation_sees.returning fun log' result longer seen => ?_
              exact ⟨Saw.here.later longer, spec, rfl, fun _ => seen⟩
            · rename_i reading
              apply afterCall rfl
              intro output
              refine Program.Obeys.seq (M := fun log' _ => log' = _) (of_ofExcept fun _ _ => rfl) ?_
              rintro log' json _ rfl
              refine of_done ⟨Saw.here.cons, spec, rfl, ?_⟩
              rintro (mutation | seen)
              · exact absurd mutation reading
              · exact (seen.cons rfl).cons rfl

/-- A recovery that returns has seen its request resolved. -/
theorem recoverReconciled_sees :
    (registry.recoverReconciled host requestId allowed now).Obeys Untaking
      (returns fun log' _ => SeenResolved requestId log') log := by
  apply afterCall rfl
  intro found
  cases found with
  | none => exact of_raise
  | some row =>
      simp only
      cases state : row.state with
      | committed =>
          refine Program.Obeys.seq (M := fun log' _ => log' = _) (of_ofExcept fun _ _ => rfl) ?_
          rintro log' output _ rfl
          exact of_done (.inl (.read (by simp [state, EffectState.unresolved])))
      | reconciledNoEffect =>
          simp only
          split
          · exact of_raise
          · exact of_raise
          · rename_i requestJson _ _
            refine Program.Obeys.seq (M := fun log' _ => log' = _) (of_ofExcept fun _ _ => rfl) ?_
            rintro log₁ payload _ rfl
            refine Program.Obeys.seq (M := fun log' call => log' = _ ∧ call.requestId = requestId)
              (of_ofExcept fun call decoded => ⟨rfl, storedCall_requestId decoded⟩) ?_
            rintro log₂ call _ ⟨rfl, rfl⟩
            refine execute_sees.returning fun log' result _ seen => ?_
            obtain ⟨_, spec, _, resolved⟩ := seen
            exact resolved (.inr (.inl (.read (by simp [state, EffectState.unresolved]))))
      | executing => exact of_raise
      | attemptedUnknown => exact of_raise

/-! ### Workers and hosts -/

theorem ack_calm : (engine.ack event now).Obeys Calm (returns fun _ _ => True) log :=
  ackEvent_obeys (fun _ _ => ⟨rfl, rfl⟩) ⟨rfl, rfl⟩

theorem recordRunMessage_calm {role : Role} {content : String} {messageKey : Option String} :
    (recordRunMessage runId role content now messageKey).proc.Obeys Calm
      (returns fun log' _ => MessageKept log' ⟨runId, role, content, messageKey, now⟩) log :=
  recordRunMessage_obeys ⟨rfl, rfl⟩ fun _ _ => ⟨rfl, rfl⟩

theorem runTaskRequested_calm :
    (engine.runTaskRequested event now).Obeys Calm (returns fun _ _ => True) log := by
  have rejected : ∀ reason log, (engine.rejectEvent event reason now).Obeys Calm
      (returns fun _ _ => True) log := by
    intro reason log
    refine (appendJournal_obeys fun _ _ => ⟨rfl, rfl⟩).seq fun _ _ _ _ => ?_
    exact ack_calm.seq fun _ _ _ _ => of_done trivial
  unfold Engine.runTaskRequested
  dsimp only
  split
  · exact rejected _ _
  · split
    · exact rejected _ _
    · split
      · exact rejected _ _
      · apply afterCall ⟨rfl, rfl⟩
        intro newRun
        exact ack_calm.seq fun _ _ _ _ => of_done trivial

theorem requeue_calm {exc : Exc} :
    (engine.requeue event runId exc now).Obeys Calm (returns fun _ _ => True) log := by
  refine (updateRun_obeys ⟨rfl, rfl⟩).seq fun _ _ _ _ => ?_
  refine (failEvent_obeys (fun _ _ => ⟨rfl, rfl⟩) ⟨rfl, rfl⟩).seq fun _ _ _ _ => ?_
  exact of_raise

theorem admittedResponse_calm :
    (engine.admittedResponse host runId run now).Obeys Calm (returns fun _ _ => True) log := by
  refine (getRunStepDecision_obeys host ⟨rfl, rfl⟩).seq fun log₁ stored _ _ => ?_
  cases stored with
  | some decision => exact of_ofExcept fun _ _ => trivial
  | none =>
      refine (messagesForRun_obeys (fun _ _ => ⟨rfl, rfl⟩) fun _ _ => ⟨rfl, rfl⟩).seq
        fun log₂ messages _ _ => ?_
      apply afterCall ⟨rfl, rfl⟩
      intro response
      refine (recordRunStepDecision_obeys ⟨rfl, rfl⟩ fun _ _ => ⟨rfl, rfl⟩).seq ?_
      exact fun _ _ _ _ => of_done trivial

theorem calm_untaking {α : Type} {M : History → α → Prop} {part : Proc α}
    (obeys : part.Obeys Calm (returns M) log) : part.Obeys Untaking (returns M) log :=
  obeys.mono (fun _ _ calm => calm.1) fun _ _ ends => ends

theorem classifyToolError_minds {exc : Exc} (untaken : Untaken log) :
    (engine.classifyToolError event runId call exc now).Obeys (MindsEffects registry)
      (returns fun _ _ => True) log := by
  simp only [Engine.classifyToolError, effectState, Op.perform, Program.perform,
    Program.bind_eq_bind, Program.call_bind, Program.bind_assoc]
  apply afterCall (Untaking.minds untaken rfl)
  intro row
  have untaken₁ : Untaken (⟨.sql (.selectEffect call.requestId), .ok row⟩ :: log) :=
    untaken.cons rfl
  simp only [Program.pure_eq_done, Program.done_bind]
  split
  · refine (blockRunOnEffect_obeys (R := MindsEffects registry) (fun _ _ => Calm.minds ⟨rfl, rfl⟩)
      ⟨fun _ => untaken₁, trivial⟩).seq fun _ _ _ _ => ?_
    exact calm_minds ack_calm
  · split
    · refine (updateRun_obeys ⟨fun _ => untaken₁, trivial⟩).seq fun _ _ _ _ => ?_
      exact calm_minds ack_calm
    · exact of_raise

theorem toolStep_minds (untaken : Untaken log) :
    (engine.toolStep host event runId run call now).Obeys (MindsEffects engine.tools)
      (returns fun _ _ => True) log := by
  refine (untaking_minds (calm_untaking recordRunMessage_calm) untaken).seq fun log₁ _ _ ends₁ => ?_
  refine (untaking_captured execute_sees ends₁.1).seq fun log₂ outcome _ ends₂ => ?_
  cases outcome with
  | error exc => exact classifyToolError_minds ends₂.1
  | ok result =>
      obtain ⟨untaken₂, seen⟩ := ends₂
      obtain ⟨entered, spec, found, resolved⟩ := seen result rfl
      refine Program.Obeys.seq (M := fun log' _ => log' = log₂) (of_ofExcept fun _ _ => rfl) ?_
      rintro log₃ content _ rfl
      refine (calm_keeps recordRunMessage_calm untaken₂ fun mutation =>
        resolved (.inl mutation)).seq fun log₄ _ longer ends₄ => ?_
      apply afterCall
      · exact ⟨fun _ => ends₄.1, call, run.capabilities, spec, entered.later longer, found, ends₄.2⟩
      · exact fun next => calm_minds ack_calm

theorem finalStep_minds {text : String} (untaken : Untaken log) :
    (engine.finalStep event runId run text now).Obeys (MindsEffects registry)
      (returns fun _ _ => True) log := by
  refine (untaking_minds (calm_untaking recordRunMessage_calm) untaken).seq fun log₁ _ _ ends₁ => ?_
  refine (updateRun_obeys ⟨fun _ => ends₁.1, trivial⟩).seq fun _ _ _ _ => ?_
  exact calm_minds ack_calm

theorem runStep_minds (untaken : Untaken log) :
    (engine.runStep host event now).Obeys (MindsEffects engine.tools) (returns fun _ _ => True)
      log := by
  unfold Engine.runStep
  split
  · exact of_raise
  · refine (untaking_minds (getRun_obeys rfl) untaken).seq fun log₁ run _ ends₁ => ?_
    have untaken₁ := ends₁.1
    dsimp only
    split
    · exact (calm_minds ack_calm).seq fun _ _ _ _ => of_done trivial
    · split
      · exact (calm_minds ack_calm).seq fun _ _ _ _ => of_done trivial
      · split
        · refine (updateRun_obeys ⟨fun _ => untaken₁, trivial⟩).seq fun _ _ _ _ => ?_
          exact (calm_minds ack_calm).seq fun _ _ _ _ => of_done trivial
        · have processed : ∀ runId, (engine.processStep host event runId run now).Obeys
              (MindsEffects engine.tools) (returns fun _ _ => True) log₁ := by
            intro runId
            refine (untaking_minds (calm_untaking admittedResponse_calm) untaken₁).seq ?_
            intro log₂ response _ ends₂
            cases response with
            | toolCall call => exact toolStep_minds ends₂.1
            | finalText text => exact finalStep_minds ends₂.1
          refine (processed _).captured.seq fun log₂ outcome _ _ => ?_
          cases outcome with
          | ok _ => exact of_done trivial
          | error exc => exact (calm_minds requeue_calm).seq fun _ _ _ _ => of_done trivial

theorem runOnce_minds :
    (engine.runOnce host now).Obeys (MindsEffects engine.tools) (returns fun _ _ => True) [] := by
  have claims : (claimEvent engine.workerId now engine.leaseSeconds).Obeys Untaking
      (returns fun _ _ => True) [] := by
    apply afterCall rfl
    intro found
    cases found with
    | none => exact of_done trivial
    | some claim =>
        refine Program.Obeys.seq (M := fun _ _ => True) (of_ofExcept fun _ _ => trivial) ?_
        exact fun _ _ _ _ => of_done trivial
  refine (untaking_minds claims .nil).seq fun log event _ ends => ?_
  cases event with
  | none => exact of_done trivial
  | some event =>
      dsimp only
      split
      · exact calm_minds runTaskRequested_calm
      · split
        · exact runStep_minds ends.1
        · exact (calm_minds ack_calm).seq fun _ _ _ _ => of_done trivial

theorem resumeBlockedEffect_minds :
    (resumeBlockedEffect host registry runId now).Obeys (MindsEffects registry)
      (returns fun _ _ => True) [] := by
  refine (untaking_minds (getRun_obeys rfl) .nil).seq ?_
  rintro log₁ run _ ⟨untaken₁, rfl⟩
  split
  · rename_i requestId blocked request
    split
    · exact of_raise
    · have resuming : Resuming [⟨.sql (.selectRun runId), .ok (some run)⟩] runId run requestId :=
        ⟨Saw.here, blocked, request⟩
      refine (untaking_minds recoverReconciled_sees untaken₁).seq fun log₂ result longer₂ ends₂ => ?_
      refine Program.Obeys.seq (M := fun log' _ => log' = log₂) (of_ofExcept fun _ _ => rfl) ?_
      rintro log₃ content _ rfl
      refine (calm_keeps recordRunMessage_calm ends₂.1 fun _ : True => ends₂.2).seq ?_
      intro log₄ _ longer₄ ends₄
      apply afterCall
      · exact ⟨fun _ => ends₄.1, run, requestId, resuming.later (longer₂.trans longer₄),
          ends₄.2 trivial⟩
      · exact fun next => of_done trivial
  · exact of_raise

/-! ### What an engine knows -/

/-- The ledger row of the request, if there is one, is not in doubt. -/
def Resolved (db : Db) (requestId : String) : Prop :=
  ∀ row, db.effect requestId = some row → row.state.unresolved = false

/-- The row stands as the run was read. -/
structure RunRow.Stands (run row : RunRow) : Prop where
  status : row.status = run.status
  stepCount : row.stepCount = run.stepCount
  blockedRequestId : row.blockedRequestId = run.blockedRequestId

/-- What an engine knows as long as it is the only one at work. -/
structure EngineKnows (log : History) (world : World) : Prop where
  resolved : ∀ requestId, SeenResolved requestId log → Resolved world.db requestId
  runs : Untaken log → ∀ runId run, Saw log (.sql (.selectRun runId)) (some run) →
    ∃ row, world.db.run runId = some row ∧ run.Stands row

variable {op : Op} {answer : Answer} {row : RunRow} {effect : EffectRow}

/-- A row that is resolved stays so, unless it is brought into doubt. -/
theorem Resolved.later (resolved : Resolved world.db requestId) (issued : op.issued)
    (calm : op.doubts = false) (answer : Answer) :
    Resolved (op.answer host answer world).2.db requestId := by
  intro effect stored
  have change := ledgerChange host world answer issued requestId
  rw [stored] at change
  generalize before : world.db.effect requestId = old at change
  cases change with
  | keep => exact resolved effect before
  | enter => cases calm
  | reenter => cases calm
  | attempt => cases calm
  | commit => rfl
  | @reconcile _ effectOccurred => cases effectOccurred <;> rfl

/-- What shows that a row is not in doubt leaves it so. -/
theorem ShowsResolved.resolved (shows : ShowsResolved requestId
    ⟨op, (op.answer host answer world).1⟩) :
    Resolved (op.answer host answer world).2.db requestId := by
  generalize answered : (op.answer host answer world).1 = outcome at shows
  intro effect stored
  cases shows with
  | @read found resolved =>
      cases faulty : answer.fault with
      | some fault => simp [Op.answer, faulty] at answered
      | none =>
          simp only [Op.answer, faulty, Stmt.exec, Except.ok.injEq] at answered stored
          rw [← answered, stored] at resolved
          exact resolved
  | commit resultJson resultSha256 now =>
      cases faulty : answer.fault with
      | some fault => simp [Op.answer, faulty] at answered
      | none =>
          simp only [Op.answer, faulty, Stmt.exec] at stored
          have updated := (effect_updateEffects requestId
            (EffectRow.committed resultJson resultSha256 now) (fun _ => rfl) requestId).symm.trans
              stored
          obtain ⟨old, before, rfl⟩ := Option.map_eq_some_iff.1 updated
          rw [if_pos (Db.effect_eq_some.1 before).2]
          rfl

/-- A run that was read is there. -/
theorem selectRun_reads
    (answered : ((Op.sql (.selectRun runId)).answer host answer world).1 = .ok (some run)) :
    ((Op.sql (.selectRun runId)).answer host answer world).2.db.run runId = some run := by
  cases faulty : answer.fault with
  | some fault => simp [Op.answer, faulty] at answered
  | none => simpa [Op.answer, faulty, Stmt.exec] using answered

/-- A run that no step takes on stands as before. -/
theorem RunRow.Stands.later (stands : run.Stands row) (stored : world.db.run runId = some row)
    (issued : op.issued) (still : op.takes = false) (answer : Answer) :
    ∃ row', (op.answer host answer world).2.db.run runId = some row' ∧ run.Stands row' := by
  have change := Kernel.runStep host world answer issued runId
  rw [stored] at change
  generalize (op.answer host answer world).2.db.run runId = after at change
  cases change with
  | keep => exact ⟨row, rfl, stands⟩
  | update issued =>
      cases issued with
      | complete now text => cases still
      | fail now error => cases still
      | note now error => exact ⟨_, rfl, stands.1, stands.2, stands.3⟩
  | block _ => cases still
  | advance _ => cases still
  | resume _ => cases still

/-- Calls that are not an engine's, and execute no tools themselves, are calm. -/
theorem CallRule.calm_of_other {other : Call} (rule : CallRule host other log op)
    (isOther : other.isEngine = false) (indirect : other.entering host = none) : Calm log op := by
  constructor
  · cases moves : op.moves with
    | true =>
        have worker := rule.mover moves
        cases other with
        | runOnce => cases isOther
        | _ => cases worker
    | false =>
        cases op with
        | transaction block =>
            cases block with
            | resumeRunAfterEffect =>
                cases other with
                | resumeBlockedEffect => cases isOther
                | runOnce => cases isOther
                | _ => exact rule.elim
            | _ => exact moves
        | _ => exact moves
  · cases tool : op.isTool with
    | false => rfl
    | true =>
        obtain ⟨_, _, entering, _⟩ := rule.tool tool
        rw [indirect] at entering
        cases entering

/-- Every engine deals with its tools first, and takes its run on then. -/
theorem program_minds (host : Host) (call : Call) :
    (call.program host).Obeys (fun log op => call.isEngine = true →
      ∀ registry, call.Uses host registry → MindsEffects registry log op)
      Program.anyOutcome [] := by
  cases call with
  | runOnce engine now =>
      have minds : ((Call.runOnce engine now).program host).Obeys (MindsEffects engine.tools)
          (returns fun _ _ => True) [] := discard_obeys runOnce_minds
      refine minds.mono (fun log op minds _ registry uses => ?_) fun _ _ _ => trivial
      obtain rfl := uses _ _ rfl
      exact minds
  | resumeBlockedEffect registry runId now =>
      have minds : ((Call.resumeBlockedEffect registry runId now).program host).Obeys
          (MindsEffects registry) (returns fun _ _ => True) [] := resumeBlockedEffect_minds
      refine minds.mono (fun log op minds _ registry' uses => ?_) fun _ _ _ => trivial
      obtain rfl := uses _ _ rfl
      exact minds
  | _ => exact (program_obeys host _).mono (fun _ _ _ => nofun) fun _ _ ends => ends

variable {maxSteps : Int} {config config' : KernelConfig}

/-! ### One engine at a time -/

theorem OneEngine.worker (config : KernelConfig) (label : Label Answer Call)
    (one : OneEngine host registry maxSteps config label) : OneWorker maxSteps config label := by
  cases label with
  | spawn call =>
      cases call with
      | runOnce engine now =>
          have alone := one.2
          simp only [oneEngine, KernelConfig.idle, Bool.and_eq_true, List.all_eq_true] at alone
          simp only [OneWorker, oneWorker, Bool.and_eq_true, List.all_eq_true]
          refine ⟨alone.2.1, fun process member => ?_⟩
          have idle := alone.2.2 process member
          cases isCall : process.call <;> simp_all [Call.isEngine, Call.isWorker]
      | _ => rfl
  | _ => rfl

theorem OneEngine.owned (config : KernelConfig) (label : Label Answer Call)
    (one : OneEngine host registry maxSteps config label) : StoreOwnsSteps config label := by
  cases label with
  | spawn call =>
      have alone := one.2
      simp only [oneEngine, Bool.and_eq_true] at alone
      exact alone.1
  | _ => rfl

/-- The process is an engine that has not finished. -/
abbrev EngineAtWork (process : Process kernel Exc Call) : Prop :=
  System.Reachable.Busy (fun call => call.isEngine = true) process

theorem OneEngine.guarded (config : KernelConfig) (call : Call)
    (one : OneEngine host registry maxSteps config (.spawn call)) (isEngine : call.isEngine = true) :
    ∀ process ∈ config.procs, ¬ EngineAtWork process := by
  rintro process member ⟨engine, work⟩
  have alone := one.2
  have idle : config.idle = true := by
    cases call with
    | runOnce => simp_all [oneEngine]
    | resumeBlockedEffect => simp_all [oneEngine]
    | _ => cases isEngine
  have busy := List.all_eq_true.1 idle process member
  simp [engine, work] at busy

/-! ### Runs that wait for effects -/

/-- The run waits for the effect: it is blocked on its request, or it has decided the call of the
effect for the step that it is about to take. -/
inductive Attends (host : Host) (db : Db) (effect : EffectRow) (run : RunRow) : Prop where
  | blocked (status : run.status = .blockedEffect)
      (request : run.blockedRequestId = some effect.requestId)
  | running (status : run.status = .running) (call : ToolCall)
      (decided : DecidedCall host db run.id run.stepCount call)
      (request : call.requestId = effect.requestId) (admits : effect.admits host call)

/-- A run that stands as before attends to the effect as before. -/
theorem Attends.later {run' : RunRow} {effect' : EffectRow}
    (attends : Attends host world.db effect run) (same : effect.SameRequest effect')
    (stands : run.Stands run') (id : run'.id = run.id) (op : Op) (answer : Answer) :
    Attends host (op.answer host answer world).2.db effect' run' := by
  cases attends with
  | blocked status request =>
      refine .blocked (stands.status.trans status) (stands.blockedRequestId.trans ?_)
      rw [request, same.requestId]
  | running status call decided request admits =>
      refine .running (stands.status.trans status) call ?_ (request.trans same.requestId.symm)
        (same.admits admits)
      rw [id, stands.stepCount]
      exact decided.later op answer

section Reached

variable (reached : (system host).Reachable (OneEngine host registry maxSteps)
  KernelConfig.initial config)
include reached

/-- Calls that execute tools are those of engines. -/
theorem indirect_of_other {process : Process kernel Exc Call} (member : process ∈ config.procs)
    (other : process.call.isEngine = false) : process.call.entering host = none := by
  have direct := reached.calls
    (P := fun call => call.isEngine = false → call.entering host = none) ?_ rfl process member
  · exact direct other
  · intro config call one isOther
    have alone := one.2
    cases call with
    | execute => simp [oneEngine] at alone
    | recoverReconciled => simp [oneEngine] at alone
    | runOnce => cases isOther
    | resumeBlockedEffect => cases isOther
    | _ => rfl

/-- An engine at work knows what it has seen. -/
theorem engine_knows : ∀ (pid : Nat) (process : Process kernel Exc Call),
    config.procs[pid]? = some process → EngineAtWork process →
      EngineKnows process.log config.world := by
  refine reached.exclusively OneEngine.guarded ?_ ?_ ?_ rfl
  · exact fun world => ⟨fun _ seen => seen.elim, fun _ _ _ saw => absurd saw List.not_mem_nil⟩
  · intro config pid call op next log answer before found _ knows
    have rule := (reachable_rule before _ (List.mem_of_getElem? found)).head
    constructor
    · intro requestId seen
      rcases seen with shows | ⟨calm, seen⟩
      · exact shows.resolved
      · exact (knows.resolved requestId seen).later rule.issued calm answer
    · intro untaken runId run saw
      have still : op.takes = false := untaken _ List.mem_cons_self
      have earlier : Untaken log := fun entry member => untaken entry (List.mem_cons_of_mem _ member)
      rcases List.mem_cons.1 saw with here | older
      · obtain ⟨isOp, answered⟩ := Entry.mk.inj here
        subst isOp
        rw [heq_eq_eq] at answered
        exact ⟨run, selectRun_reads answered.symm, rfl, rfl, rfl⟩
      · obtain ⟨row, stored, stands⟩ := knows.runs earlier runId run older
        exact stands.later stored rule.issued still answer
  · intro config pid call op next log answer before found other known knows
    have member := List.mem_of_getElem? found
    have rule := (reachable_rule before _ member).head
    have isOther : call.isEngine = false := by simpa using other
    have calm : Calm log op := rule.calm_of_other isOther (indirect_of_other before member isOther)
    constructor
    · intro requestId seen
      exact (knows.resolved requestId seen).later rule.issued calm.doubts answer
    · intro untaken runId run saw
      obtain ⟨row, stored, stands⟩ := knows.runs untaken runId run saw
      exact stands.later stored rule.issued calm.1 answer

/-- The calls have the registry. -/
theorem calls_use {process : Process kernel Exc Call} (member : process ∈ config.procs) :
    process.call.Uses host registry :=
  reached.calls (P := fun call => call.Uses host registry)
    (fun _ call one => one.1 call rfl) rfl process member

/-- What an engine does next, it does with care for the effects. -/
theorem engine_minds {call : Call} {op : Op} {next : Except Exc op.Result → Proc Unit}
    (member : ⟨call, .call (F := kernel) op next, log, true⟩ ∈ config.procs)
    (isEngine : call.isEngine = true) : MindsEffects registry log op :=
  (reached.obeys (program_minds host) rfl _ member).head isEngine registry
    (calls_use reached member)

/-- An effect that an engine deals with is one that the engine's run waits for. -/
theorem engine_attends {pid : Nat} {engineCall : Call} {op : Op}
    {next : Except Exc op.Result → Proc Unit} {allowed : List String}
    (found : config.procs[pid]? = some ⟨engineCall, .call (F := kernel) op next, log, true⟩)
    (isEngine : engineCall.isEngine = true) (isTool : op.isTool = true)
    (entered : Saw log (.enterExecute call allowed) ()) (request : call.requestId = effect.requestId)
    (admits : effect.admits host call) (answer : Answer) :
    ∃ runId run, (op.answer host answer config.world).2.db.run runId = some run ∧
      Attends host (op.answer host answer config.world).2.db effect run := by
  have member := List.mem_of_getElem? found
  have rule := (reachable_rule reached _ member).head
  have known := reachable_known reached _ member
  have untaken := (engine_minds reached member isEngine).1 (.inl isTool)
  have knows := engine_knows reached pid _ found ⟨isEngine, rfl⟩
  have still : op.takes = false := by
    cases op with
    | sql stmt => cases stmt <;> first | rfl | cases isTool
    | handler handled => rfl
    | _ => cases isTool
  obtain ⟨older, longer, enters⟩ := (reachable_lawful reached _ member).of_mem entered
  have inside := (List.suffix_cons _ _).trans longer
  cases engineCall with
  | runOnce engine now =>
      obtain ⟨claim, event, runId, run, stepping, decided, _⟩ := enters
      obtain ⟨decisionJson, seen, decoded⟩ := decided.later inside
      obtain ⟨decision, isDecision, rfl⟩ := seen.stored known
      obtain ⟨row, stored, stands⟩ := knows.runs untaken runId run (stepping.selected.later inside)
      obtain ⟨row', stored', stands'⟩ := stands.later stored rule.issued still answer
      have isDecided : DecidedCall host config.world.db runId run.stepCount call :=
        ⟨decision, isDecision, decoded⟩
      refine ⟨runId, row', stored', .running (stands'.status.trans stepping.running) call ?_ request
        admits⟩
      rw [(Db.run_eq_some.1 stored').2, stands'.stepCount]
      exact isDecided.later op answer
  | resumeBlockedEffect registry runId now =>
      obtain ⟨run, requestId, resuming, isStored, _⟩ := enters
      obtain ⟨row, stored, stands⟩ := knows.runs untaken runId run (resuming.selected.later inside)
      obtain ⟨row', stored', stands'⟩ := stands.later stored rule.issued still answer
      refine ⟨runId, row', stored', .blocked (stands'.status.trans resuming.blocked) ?_⟩
      rw [stands'.blockedRequestId, resuming.request, ← isStored.sameRequest, request]
  | _ => cases isEngine

/-- An effect is one of a mutation. -/
theorem effect_mutation (stored : config.world.db.effect requestId = some effect)
    (admits : effect.admits host call) {spec : ToolSpec} (found : registry.find call.name = some spec) :
    spec.mutation = true := by
  have fixed : ∀ config label, OneEngine host registry maxSteps config label →
      FixedRegistry host registry label := fun _ _ one => one.1
  rcases effect_origin fixed reached requestId effect stored with
    ⟨runId, decided, admitted⟩ | ⟨process, member, _, call', _, _, isCall, _⟩
  · obtain ⟨run, _, admissible⟩ := admitted.admissible
    have sameName : decided.name = call.name := admitted.admits.2.symm.trans admits.2
    rw [ToolRegistry.admissible, sameName, found] at admissible
    simp only [Option.any_some, Bool.and_eq_true] at admissible
    exact admissible.1.1
  · have indirect := indirect_of_other reached member (by rw [isCall]; rfl)
    rw [isCall] at indirect
    cases indirect

/-- A worker that takes a run on finds it as it read it. -/
theorem worker_stands {started : Time} {op : Op} {next : Except Exc op.Result → Proc Unit}
    {pid : Nat} {claim : Claim}
    (found : config.procs[pid]? = some
      ⟨.runOnce engine started, .call (F := kernel) op next, log, true⟩)
    (takes : op.takes = true) (stepping : Stepping host engine log claim event runId run)
    (stored : config.world.db.run runId = some row) : run.Stands row := by
  have member := List.mem_of_getElem? found
  have untaken := (engine_minds reached member rfl).1 (.inr takes)
  obtain ⟨row', stored', stands⟩ := (engine_knows reached pid _ found ⟨rfl, rfl⟩).runs untaken runId
    run stepping.selected
  obtain rfl := Option.some.inj (stored.symm.trans stored')
  exact stands

/-- A decision that a process has seen is that of the run. -/
theorem decided_agrees {process : Process kernel Exc Call} (member : process ∈ config.procs)
    {step : Nat} {response : ModelResponse} (seen : Decided host process.log runId step response)
    (decided : DecidedCall host config.world.db runId step call) : response = .toolCall call := by
  obtain ⟨decisionJson, isSeen, decoded⟩ := seen
  obtain ⟨decision, stored, rfl⟩ := isSeen.stored (reachable_known reached _ member)
  obtain ⟨decision', stored', decoded'⟩ := decided
  obtain rfl := Option.some.inj (stored.symm.trans stored')
  exact Except.ok.inj (decoded.symm.trans decoded')

/-- A worker that ends a run leaves no effect behind that is in doubt. -/
theorem worker_ends (nonneg : 0 ≤ maxSteps) {started : Time} {change : RunChange}
    {next : Except Exc (Op.sql (.updateRun runId change)).Result → Proc Unit} {pid : Nat}
    (found : config.procs[pid]? = some
      ⟨.runOnce engine started, .call (F := kernel) (.sql (.updateRun runId change)) next, log,
        true⟩)
    (ends : change.status.isSome = true) (stored : config.world.db.run runId = some run)
    (present : config.world.db.effect effect.requestId = some effect)
    (attends : Attends host config.world.db effect run) : effect.state.unresolved = false := by
  have member := List.mem_of_getElem? found
  have rule := (reachable_rule reached _ member).head
  obtain ⟨claim, event, read, stepping, updates⟩ := rule
  have stands := worker_stands reached found ends stepping stored
  have isRun := (Db.run_eq_some.1 stored).2
  cases attends with
  | blocked status _ => exact absurd (stepping.running.symm.trans (stands.status.symm.trans status)) nofun
  | running status call decided request admits =>
      rw [isRun, stands.stepCount] at decided
      cases updates with
      | complete now text seen => exact absurd (decided_agrees reached member seen decided) nofun
      | exceed now full =>
          have inPace := reachable_inPace nonneg (reached.mono OneEngine.worker)
          obtain ⟨count, paced⟩ := inPace.paced runId run stored
          obtain ⟨decision, isDecision, _⟩ := decided
          have below := (paced.decided run.stepCount).1 (by
            rw [isRun, stands.stepCount, isDecision]
            rfl)
          have bound := worker_bound (reached.mono OneEngine.worker) _ member engine started rfl
          have := paced.bound
          have := stands.stepCount
          omega
      | refuse now exc call' read older seen raised isLast resolved =>
          subst isLast
          have same := decided_agrees reached member (seen.later (List.suffix_cons _ _)) decided
          obtain rfl := ModelResponse.toolCall.inj same
          have knows := engine_knows reached pid _ found ⟨rfl, rfl⟩
          exact knows.resolved _ (.inl (.read resolved)) effect (request ▸ present)
      | note now error => cases ends

/-- A worker that takes a run to its next step leaves no effect behind that is in doubt. -/
theorem worker_advances {started : Time} {step : Nat} {priority : Int} {pid : Nat}
    {next : Except Exc (Op.transaction (.advanceRunStep runId step priority now)).Result →
      Proc Unit}
    (found : config.procs[pid]? = some ⟨.runOnce engine started,
      .call (F := kernel) (.transaction (.advanceRunStep runId step priority now)) next, log, true⟩)
    (stored : config.world.db.run runId = some run)
    (present : config.world.db.effect effect.requestId = some effect)
    (attends : Attends host config.world.db effect run) : effect.state.unresolved = false := by
  have member := List.mem_of_getElem? found
  have rule := (reachable_rule reached _ member).head
  obtain ⟨claim, event, read, stepping, rfl, _⟩ := rule
  have stands := worker_stands reached found rfl stepping stored
  obtain ⟨_, entered, allowed, spec, saw, isSpec, seen⟩ := engine_minds reached member rfl
  have isRun := (Db.run_eq_some.1 stored).2
  cases attends with
  | blocked status _ => exact absurd (stepping.running.symm.trans (stands.status.symm.trans status)) nofun
  | running status call decided request admits =>
      rw [isRun, stands.stepCount] at decided
      -- the call that the worker entered is the one that the run has decided
      have lawful : System.Reachable.Lawful (WorkerRule host engine) log :=
        reachable_lawful reached _ member
      obtain ⟨older, longer, claim', event', runId', read', stepping', isDecided, _⟩ :=
        lawful.of_mem saw
      have inside := (List.suffix_cons _ _).trans longer
      obtain ⟨rfl, rfl⟩ := selects_once lawful stepping.selected (stepping'.selected.later inside)
      have same := decided_agrees reached member (isDecided.later inside) decided
      obtain rfl := ModelResponse.toolCall.inj same
      have resolved := seen (effect_mutation reached present admits isSpec)
      have knows := engine_knows reached pid _ found ⟨rfl, rfl⟩
      exact knows.resolved _ resolved effect (request ▸ present)

/-- A host that resumes a run leaves no effect behind that is in doubt. -/
theorem host_resumes {target : String} {started : Time} {priority : Int} {pid : Nat}
    {next : Except Exc (Op.transaction (.resumeRunAfterEffect runId now priority)).Result →
      Proc Unit}
    (found : config.procs[pid]? = some ⟨.resumeBlockedEffect registry target started,
      .call (F := kernel) (.transaction (.resumeRunAfterEffect runId now priority)) next, log,
        true⟩)
    (stored : config.world.db.run runId = some run)
    (present : config.world.db.effect effect.requestId = some effect)
    (attends : Attends host config.world.db effect run) : effect.state.unresolved = false := by
  have member := List.mem_of_getElem? found
  obtain ⟨untaken, read, requestId, resuming, seen⟩ := engine_minds reached member rfl
  have knows := engine_knows reached pid _ found ⟨rfl, rfl⟩
  obtain ⟨row, stored', stands⟩ := knows.runs (untaken (.inr rfl)) runId read resuming.selected
  obtain rfl := Option.some.inj (stored.symm.trans stored')
  cases attends with
  | blocked status request =>
      rw [stands.blockedRequestId, resuming.request, Option.some.injEq] at request
      exact knows.resolved _ seen effect (request ▸ present)
  | running status _ _ _ _ =>
      exact absurd (resuming.blocked.symm.trans (stands.status.symm.trans status)) nofun

/-- A run that waits for an effect in doubt goes on waiting, whatever is done. -/
theorem attends_act (nonneg : 0 ≤ maxSteps) {pid : Nat} {call : Call} {op : Op}
    {next : Except Exc op.Result → Proc Unit} (answer : Answer)
    (found : config.procs[pid]? = some ⟨call, .call (F := kernel) op next, log, true⟩)
    (stored : config.world.db.run runId = some run)
    (present : config.world.db.effect effect.requestId = some effect)
    (doubt : effect.state.unresolved = true) (attends : Attends host config.world.db effect run)
    {effect' : EffectRow} (same : effect.SameRequest effect') :
    ∃ run', (op.answer host answer config.world).2.db.run runId = some run' ∧
      Attends host (op.answer host answer config.world).2.db effect' run' := by
  have member := List.mem_of_getElem? found
  have rule := (reachable_rule reached _ member).head
  have isRun := (Db.run_eq_some.1 stored).2
  have change := Kernel.runStep host config.world answer rule.issued runId
  rw [stored] at change
  generalize isAfter : (op.answer host answer config.world).2.db.run runId = after at change
  cases change with
  | keep => exact ⟨run, rfl, attends.later same ⟨rfl, rfl, rfl⟩ rfl op answer⟩
  | @update _ change issued =>
      cases issued with
      | note now error =>
          have stands : run.Stands
              (RunChange.apply ⟨now, none, none, some error, false, false⟩ run) := ⟨rfl, rfl, rfl⟩
          exact ⟨_, rfl, attends.later same stands rfl _ answer⟩
      | complete now text =>
          cases call with
          | runOnce engine started =>
              have resolved := worker_ends reached nonneg found rfl stored present attends
              rw [resolved] at doubt
              cases doubt
          | _ => exact rule.elim
      | fail now error =>
          cases call with
          | runOnce engine started =>
              have resolved := worker_ends reached nonneg found rfl stored present attends
              rw [resolved] at doubt
              cases doubt
          | _ => exact rule.elim
  | @block _ requestId error now running =>
      cases call with
      | runOnce engine started =>
          obtain ⟨claim, event, read, called, stepping, seen, _, rfl⟩ := rule
          have stands := worker_stands reached found rfl stepping stored
          refine ⟨_, rfl, .blocked rfl ?_⟩
          cases attends with
          | blocked status _ => exact absurd (running.symm.trans status) nofun
          | running _ call decided request admits =>
              rw [isRun, stands.stepCount] at decided
              obtain rfl := ModelResponse.toolCall.inj (decided_agrees reached member seen decided)
              rw [same.requestId, ← request]
              rfl
      | _ => exact rule.elim
  | advance running =>
      cases call with
      | runOnce engine started =>
          have resolved := worker_advances reached found stored present attends
          rw [resolved] at doubt
          cases doubt
      | _ => exact rule.elim
  | resume blocked =>
      cases call with
      | resumeBlockedEffect registry' target started =>
          obtain rfl := calls_use reached member _ _ rfl
          have resolved := host_resumes reached found stored present attends
          rw [resolved] at doubt
          cases doubt
      | runOnce engine started => exact rule.elim
      | _ => exact rule.elim

/-- An effect that a step brings into doubt is one that a run waits for. -/
theorem doubted_attended {pid : Nat} {engineCall : Call} {op : Op}
    {next : Except Exc op.Result → Proc Unit} (answer : Answer)
    (found : config.procs[pid]? = some ⟨engineCall, .call (F := kernel) op next, log, true⟩)
    (change : LedgerChange requestId op (config.world.db.effect requestId) (some effect))
    (doubts : op.doubts = true) (changed : config.world.db.effect requestId ≠ some effect) :
    ∃ runId run, (op.answer host answer config.world).2.db.run runId = some run ∧
      Attends host (op.answer host answer config.world).2.db effect run := by
  have member := List.mem_of_getElem? found
  have rule := (reachable_rule reached _ member).head
  have known := reachable_known reached _ member
  have isTool : op.isTool = true := by
    cases op with
    | sql stmt => cases stmt <;> first | rfl | cases doubts
    | _ => cases doubts
  have isEngine : engineCall.isEngine = true := by
    cases other : engineCall.isEngine with
    | true => rfl
    | false =>
        have calm : Calm log op :=
          rule.calm_of_other other (indirect_of_other reached member other)
        exact absurd calm.2 (by simp [isTool])
  obtain ⟨registry', enter, _, tool⟩ := rule.tool isTool
  generalize before : config.world.db.effect requestId = old at change changed
  cases change with
  | keep => exact absurd rfl changed
  | enter named =>
      obtain ⟨call, allowed, spec, now, entered, _, _, rfl⟩ := tool
      exact engine_attends reached found isEngine isTool entered rfl ⟨rfl, rfl⟩ answer
  | @reenter row now =>
      obtain ⟨call, allowed, spec, read, entered, _, _, rfl, saw, admits, _⟩ := tool
      obtain ⟨row', stored, same⟩ := Saw.effect known saw
      obtain rfl := Option.some.inj (before.symm.trans stored)
      have request : call.requestId = (row.readmitted now).requestId :=
        (Db.effect_eq_some.1 before).2.symm
      have isAdmitted : (row.readmitted now).admits host call := same.admits admits
      exact engine_attends reached found isEngine isTool entered request isAdmitted answer
  | @attempt row now =>
      obtain ⟨handled, exc, older, rfl, mutation, rfl⟩ := tool
      have lawful := reachable_lawful reached _ member
      obtain ⟨_, _, _, call, allowed, spec, entered, _, rfl, admitted⟩ := lawful.1.tool rfl
      have request : call.requestId = (row.attempted now).requestId :=
        (Db.effect_eq_some.1 before).2.symm
      have admits : (row.attempted now).admits host call := by
        cases admitted mutation with
        | fresh now rest =>
            obtain ⟨_, _, isKnown⟩ := known.of_mem (List.mem_cons_of_mem _ List.mem_cons_self)
            obtain ⟨row', stored, same⟩ := isKnown.effectEntered _ rfl
            obtain rfl := Option.some.inj (before.symm.trans stored)
            exact same.admits ⟨rfl, rfl⟩
        | again now rest selected admits =>
            obtain ⟨row', stored, same⟩ := Saw.effect known selected.cons.cons
            obtain rfl := Option.some.inj (before.symm.trans stored)
            exact same.admits admits
      exact engine_attends reached found isEngine isTool entered.cons request admits answer
  | commit => cases doubts
  | reconcile => cases doubts

/-- Every effect in doubt has a run that waits for it. -/
theorem reachable_attended (nonneg : 0 ≤ maxSteps) : ∀ requestId effect,
    config.world.db.effect requestId = some effect → effect.state.unresolved = true →
      ∃ runId run, config.world.db.run runId = some run ∧
        Attends host config.world.db effect run := by
  refine reached.invariant (I := fun config => ∀ requestId effect,
    config.world.db.effect requestId = some effect → effect.state.unresolved = true →
      ∃ runId run, config.world.db.run runId = some run ∧
        Attends host config.world.db effect run) ?_ ?_
  · exact fun _ _ stored => nomatch stored
  · intro config label config' before held _ stepped requestId effect stored doubt
    cases Steps.of_step stepped with
    | spawn call => exact held requestId effect stored doubt
    | die found => exact held requestId effect stored doubt
    | @act pid answer call op next log found =>
        have rule := (reachable_rule before _ (List.mem_of_getElem? found)).head
        have change := ledgerChange host config.world answer rule.issued requestId
        change (op.answer host answer config.world).2.db.effect requestId = some effect at stored
        rw [stored] at change
        by_cases same : config.world.db.effect requestId = some effect
        · -- the effect was in doubt before
          have named := (Db.effect_eq_some.1 same).2
          obtain ⟨runId, run, there, attends⟩ := held requestId effect same doubt
          obtain ⟨run', there', attends'⟩ := attends_act before nonneg answer found there
            (named.symm ▸ same) doubt attends (.refl effect)
          exact ⟨runId, run', there', attends'⟩
        · cases doubts : op.doubts with
          | true => exact doubted_attended before answer found change doubts same
          | false =>
              generalize earlier : config.world.db.effect requestId = old at change same
              cases change with
              | keep => exact absurd rfl same
              | enter => cases doubts
              | reenter => cases doubts
              | attempt => cases doubts
              | commit => cases doubt
              | @reconcile _ effectOccurred => cases effectOccurred <;> cases doubt

end Reached

/-- No effect in doubt is forgotten: a run waits for it, and if it does so at a step that it is about
to take, the event of that step is still to be worked off.  Once every event is, it is blocked on
the effect. -/
structure EffectsAttended (host : Host) (db : Db) : Prop where
  waits : ∀ effect ∈ db.effects.rows, effect.state.unresolved = true →
    ∃ run ∈ db.runs.rows, Attends host db effect run ∧
      (run.status = .running → ∃ event ∈ db.events.rows,
        event.Carries run.id run.stepCount ∧ event.unfinished = true)
  rests : (∀ event ∈ db.events.rows, event.status = .done) →
    ∀ effect ∈ db.effects.rows, effect.state.unresolved = true →
      ∃ run ∈ db.runs.rows, run.status = .blockedEffect ∧
        run.blockedRequestId = some effect.requestId

theorem EffectsAttended.of_waits {db : Db}
    (waits : ∀ effect ∈ db.effects.rows, effect.state.unresolved = true →
      ∃ run ∈ db.runs.rows, Attends host db effect run ∧
        (run.status = .running → ∃ event ∈ db.events.rows,
          event.Carries run.id run.stepCount ∧ event.unfinished = true)) :
    EffectsAttended host db where
  waits := waits
  rests := by
    intro done effect stored doubt
    obtain ⟨run, there, attends, goesOn⟩ := waits effect stored doubt
    cases attends with
    | blocked status request => exact ⟨run, there, status, request⟩
    | running status call decided request admits =>
        obtain ⟨event, isEvent, _, unfinished⟩ := goesOn status
        simp [EventRow.unfinished, done event isEvent] at unfinished

/-- With one worker or resuming host at a time, one registry and one bound, and whatever producers
and reconciling hosts do meanwhile, no effect in doubt is forgotten. -/
theorem effects_attended (host : Host) (registry : ToolRegistry) (maxSteps : Int)
    (nonneg : 0 ≤ maxSteps) (config : KernelConfig)
    (reached : (system host).Reachable (OneEngine host registry maxSteps) KernelConfig.initial
      config) : EffectsAttended host config.world.db := by
  apply EffectsAttended.of_waits
  intro effect stored doubt
  obtain ⟨runId, run, isRun, attends⟩ := reachable_attended reached nonneg effect.requestId effect
    (Db.effect_eq_some.2 ⟨stored, rfl⟩) doubt
  have there := (Db.run_eq_some.1 isRun).1
  refine ⟨run, there, attends, fun running => ?_⟩
  have noneStranded := (reachable_sound (reached.mono OneEngine.owned)).noStrandedRun
  obtain ⟨event, isEvent, carries, _, waits⟩ := noneStranded.next run there running
  refine ⟨event, isEvent, carries, ?_⟩
  rcases waits with pending | ⟨claimed, _⟩
  · simp [EventRow.unfinished, pending]
  · simp [EventRow.unfinished, claimed]

set_option maxRecDepth 10000 in
/-- A payment that fails in an unknown way is in doubt when every event is done, and its run is
blocked on it. -/
theorem effects_attended_payment :
    ∃ config, (system plainHost).Reachable (OneEngine plainHost payRegistry 8) KernelConfig.initial
        config ∧
      config.world.db.ledgerState "q" = some .attemptedUnknown ∧
      (∀ event ∈ config.world.db.events.rows, event.status = .done) ∧
      EffectsAttended plainHost config.world.db := by
  have fixed : ∀ label ∈ unresolvedPayment ++ [.act 1 .quiet, .act 1 .quiet, .act 1 .quiet],
      FixedRegistry plainHost payRegistry label := by
    simp [unresolvedPayment, FixedRegistry, Call.Uses, Call.entering, payEngine]
  have ran : ((system plainHost).run (oneEngine 8) KernelConfig.initial
      (unresolvedPayment ++ [.act 1 .quiet, .act 1 .quiet, .act 1 .quiet])).any (fun config =>
        decide (config.world.db.ledgerState "q" = some .attemptedUnknown ∧
          ∀ event ∈ config.world.db.events.rows, event.status = .done)) = true := by
    decide +kernel
  obtain ⟨config, reached, ended⟩ := System.Reachable.exists_of_run_each _ fixed ran
  obtain ⟨doubt, done⟩ := of_decide_eq_true ended
  exact ⟨config, reached, doubt, done,
    effects_attended plainHost payRegistry 8 (by decide) config reached⟩

end PreActive.Kernel
