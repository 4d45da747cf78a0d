/-
Module: PreActive.Kernel.Paths
Purpose: Which operations each call of the system performs after which history.
Trusted boundary: none
Main exports:
  Resuming, StoredFor, RecoverReturns, ResumeRule, CallRule, CallRule.issued, CallRule.tool,
  reachable_rule, reachable_lawful
-/
import PreActive.Kernel.System
import PreActive.Kernel.WorkerPaths

namespace PreActive.Kernel

open PreActive.Foundation PreActive.Python
open Program.Obeys

/-! ### Recovery -/

/-- The call is the one the ledger stores under its request id. -/
def StoredFor (host : Host) (log : History) (requestId : String) (call : ToolCall) : Prop :=
  ∃ row requestJson payload,
    Saw log (.sql (.selectEffect requestId)) (some row) ∧ row.requestJson = some requestJson ∧
      loads requestJson = .ok payload ∧ storedCall host requestId payload = .ok call

/-- What a returned recovery rests on: a committed row, whoever's it is, or a fresh execution of
the stored call. -/
def RecoverReturns (host : Host) (registry : ToolRegistry) (requestId : String)
    (allowedCapabilities : List String) (log : History) (result : ToolExecution) : Prop :=
  (∃ row, Saw log (.sql (.selectEffect requestId)) (some row) ∧ row.state = .committed ∧
    result.toolName = row.toolName ∧ loadsResult row.resultJson = .ok result.output) ∨
  ∃ call, StoredFor host log requestId call ∧
    ExecuteReturns host registry call allowedCapabilities log result

/-- The host has read which request the run is blocked on. -/
structure Resuming (log : History) (runId : String) (run : RunRow) (requestId : String) :
    Prop where
  selected : Saw log (.sql (.selectRun runId)) (some run)
  blocked : run.status = .blockedEffect
  request : run.blockedRequestId = some requestId

/-- The call a resuming host passes to `execute` is the stored one, under the capabilities of the
run. -/
def EntersStored (host : Host) (runId : String) (log : History) (call : ToolCall)
    (allowedCapabilities : List String) : Prop :=
  ∃ run requestId, Resuming log runId run requestId ∧ StoredFor host log requestId call ∧
    allowedCapabilities = run.capabilities

/-- The operations of `resume_blocked_effect` and what comes before each. -/
def ResumeRule (host : Host) (registry : ToolRegistry) (runId : String) (log : History) :
    Op → Prop
  | .sql (.selectRun target) => target = runId ∧ log = []
  | .sql (.insertMessage row) => row.runId = runId ∧ ∃ run requestId result,
      Resuming log runId run requestId ∧
        RecoverReturns host registry requestId run.capabilities log result ∧ row.role = .tool ∧
          reconciledContent result.toolName result.output = .ok row.content ∧
            row.messageKey = some (reconciledKey requestId)
  | .sql (.selectMessageByKey ..) => True
  | .transaction (.resumeRunAfterEffect target _ _) => target = runId ∧ ∃ run requestId result,
      Resuming log runId run requestId ∧
        RecoverReturns host registry requestId run.capabilities log result
  | op => ToolRule host registry (EntersStored host runId) log op

/-! ### All calls -/

/-- The operations of each call and what comes before each. -/
def CallRule (host : Host) : Call → History → Op → Prop
  | .submitTask _ _ _ source => fun _ op =>
      match op with
      | .transaction (.createRunWithInitialStep _ _ _ sourceEventId _) => sourceEventId = source
      | _ => False
  | .runOnce engine _ => WorkerRule host engine
  | .resumeBlockedEffect registry runId _ => ResumeRule host registry runId
  | .execute registry call allowed _ =>
      ToolRule host registry fun _ entered capabilities => entered = call ∧ capabilities = allowed
  | .recoverReconciled registry requestId _ _ =>
      ToolRule host registry fun log call _ => StoredFor host log requestId call
  | .reconcile requestId .. => fun _ op =>
      match op with
      | .sql (.selectEffect _) => True
      | .transaction (.reconcile target occurred _ resultJson _ _) =>
          target = requestId ∧ resultJson.isSome = occurred
      | _ => False
  | .enqueueEvent request => fun log op =>
      match op with
      | .sql .uuid4 | .sql (.selectEventByDedup _) | .sql (.insertJournal _) => True
      | .sql (.insertEvent row) => ∃ eventId, Saw log (.sql .uuid4) eventId ∧
          row = request.row eventId
      | _ => False
  | .addMemory .. => fun _ op =>
      match op with
      | .sql .uuid4 | .sql (.insertMemory _) => True
      | _ => False

variable {host : Host} {registry : ToolRegistry} {log : History} {runId requestId : String}
variable {run : RunRow} {allowed : List String} {now : Time}

theorem StoredFor.later {log' : History} {call : ToolCall}
    (stored : StoredFor host log requestId call) (longer : log <:+ log') :
    StoredFor host log' requestId call := by
  obtain ⟨row, requestJson, payload, selected, rest⟩ := stored
  exact ⟨row, requestJson, payload, selected.later longer, rest⟩

theorem storedCall_requestId {payload : PyVal} {call : ToolCall}
    (decoded : storedCall host requestId payload = .ok call) : call.requestId = requestId := by
  unfold storedCall at decoded
  split at decoded
  · cases decoded
  · cases decoded
  · split at decoded
    · cases decoded
    · rw [← Except.ok.inj decoded]

theorem StoredFor.sameRequest {call : ToolCall} (stored : StoredFor host log requestId call) :
    call.requestId = requestId := by
  obtain ⟨_, _, _, _, _, _, decoded⟩ := stored
  exact storedCall_requestId decoded

theorem RecoverReturns.later {log' : History} {result : ToolExecution}
    (returned : RecoverReturns host registry requestId allowed log result)
    (longer : log <:+ log') : RecoverReturns host registry requestId allowed log' result := by
  rcases returned with ⟨row, selected, rest⟩ | ⟨call, stored, executed⟩
  · exact .inl ⟨row, selected.later longer, rest⟩
  · exact .inr ⟨call, stored.later longer, executed.later longer⟩

theorem Resuming.later {log' : History} (resuming : Resuming log runId run requestId)
    (longer : log <:+ log') : Resuming log' runId run requestId := by
  obtain ⟨selected, blocked, request⟩ := resuming
  exact ⟨selected.later longer, blocked, request⟩

theorem resumeRule_of_toolRule (log : History) (op : Op)
    (allowed : ToolRule host registry (EntersStored host runId) log op) :
    ResumeRule host registry runId log op := by
  cases op with
  | sql stmt => cases stmt <;> first | exact allowed | exact allowed.elim
  | transaction block => exact allowed.elim
  | enterExecute call capabilities => exact allowed
  | respond messages tools => exact allowed.elim
  | handler handled => exact allowed

theorem recoverReconciled_obeys {enter : History → ToolCall → List String → Prop}
    (entering : ∀ log' call, log <:+ log' → StoredFor host log' requestId call →
      enter log' call allowed) :
    (registry.recoverReconciled host requestId allowed now).Obeys (ToolRule host registry enter)
      (returns (RecoverReturns host registry requestId allowed)) log := by
  simp only [ToolRegistry.recoverReconciled, Op.perform, Program.perform, Program.bind_eq_bind,
    Program.call_bind]
  apply afterCall
  · trivial
  · intro found
    cases found with
    | none => exact of_raise
    | some row =>
        simp only
        cases state : row.state with
        | committed =>
            apply seq (M := fun log' output => loadsResult row.resultJson = .ok output)
            · exact of_ofExcept fun output read => read
            · intro log' output longer read
              exact of_done (.inl ⟨row, Saw.here.later longer, state, rfl, read⟩)
        | reconciledNoEffect =>
            simp only
            split
            · exact of_raise
            · exact of_raise
            · rename_i requestJson _ json
              apply seq (M := fun log' payload => loads requestJson = .ok payload)
              · exact of_ofExcept fun payload read => read
              · intro log₁ payload longer₁ read
                apply seq (M := fun log' call => storedCall host requestId payload = .ok call)
                · exact of_ofExcept fun call decoded => decoded
                · intro log₂ call longer₂ decoded
                  have stored : StoredFor host log₂ requestId call :=
                    ⟨row, requestJson, payload,
                      Saw.here.later (longer₁.trans longer₂), json, read, decoded⟩
                  refine (execute_obeys (entering log₂ call ?_ stored)).returning ?_
                  · exact (List.suffix_cons _ _).trans (longer₁.trans longer₂)
                  · intro log₃ result longer₃ executed
                    exact .inr ⟨call, stored.later longer₃, executed⟩
        | executing => exact of_raise
        | attemptedUnknown => exact of_raise

/-- Every operation of `resume_blocked_effect` is one the resume rule allows. -/
theorem resumeBlockedEffect_obeys :
    (resumeBlockedEffect host registry runId now).Obeys (ResumeRule host registry runId)
      (returns fun _ _ => True) [] := by
  simp only [resumeBlockedEffect, Program.bind_eq_bind]
  refine (getRun_obeys ⟨rfl, rfl⟩).seq ?_
  rintro log₁ run longer rfl
  split
  · rename_i requestId blocked request
    split
    · exact of_raise
    · have resuming : Resuming [⟨.sql (.selectRun runId), .ok (some run)⟩] runId run
          requestId := ⟨Saw.here, blocked, request⟩
      have recovered : (registry.recoverReconciled host requestId run.capabilities now).Obeys
          (ToolRule host registry (EntersStored host runId)) _
          [⟨.sql (.selectRun runId), .ok (some run)⟩] :=
        recoverReconciled_obeys fun log' call longer stored =>
          ⟨run, requestId, resuming.later longer, stored, rfl⟩
      refine (recovered.mono resumeRule_of_toolRule fun _ _ ends => ends).seq ?_
      intro log₂ result longer₂ returned
      apply seq (M := fun log' content =>
        reconciledContent result.toolName result.output = .ok content)
      · exact of_ofExcept fun content printed => printed
      · intro log₃ content longer₃ printed
        have resuming₃ := resuming.later (longer₂.trans longer₃)
        have returned₃ := returned.later longer₃
        refine (recordRunMessage_obeys ⟨rfl, run, requestId, result, resuming₃, returned₃, rfl,
          printed, rfl⟩ fun _ _ => trivial).seq ?_
        intro log₄ _ longer₄ _
        simp only [Transaction.perform, Op.perform, Program.perform, Program.call_bind]
        apply afterCall
        · exact ⟨rfl, run, requestId, result, resuming₃.later longer₄, returned₃.later longer₄⟩
        · intro next
          exact of_done trivial
  · exact of_raise

theorem reconcile_obeys {effectOccurred : Bool} {evidenceDigest : String} {result : Option PyVal} :
    (reconcile host requestId effectOccurred evidenceDigest now result).Obeys
      (CallRule host (.reconcile requestId effectOccurred evidenceDigest now result))
      (returns fun _ _ => True) log := by
  simp only [reconcile, Transaction.perform, Op.perform, Program.perform, Program.bind_eq_bind,
    Program.call_bind]
  split
  · exact of_raise
  · apply afterCall
    · trivial
    · intro found
      cases found with
      | none => exact of_raise
      | some row =>
          simp only
          split
          · exact of_raise
          · split
            · exact of_raise
            · exact of_raise
            · refine (of_ofExcept fun _ _ => trivial).seq (M := fun _ _ => True) ?_
              intro log' json _ _
              refine ⟨⟨rfl, rfl⟩, fun result => ?_⟩
              cases result <;> trivial
            · refine ⟨⟨rfl, rfl⟩, fun result => ?_⟩
              cases result <;> trivial

theorem existingForDedup_obeys {R : History → Op → Prop} {dedupKey : Option String}
    (lookup : ∀ log key, R log (.sql (.selectEventByDedup key))) :
    (existingForDedup dedupKey).proc.Obeys R (returns fun _ _ => True) log := by
  unfold existingForDedup
  split
  · split
    · exact of_done trivial
    · simp only [Stmt.perform, Program.perform, Sql.proc_call, Sql.proc_ofExcept]
      refine ⟨lookup _ _, fun result => ?_⟩
      cases result <;> trivial
  · exact of_done trivial

theorem reuseOrReject_obeys {R : History → Op → Prop} {request : EventRequest} {row : EventRow} :
    (reuseOrReject request row).proc.Obeys R (returns fun _ _ => True) log := by
  unfold reuseOrReject
  split
  · exact of_done trivial
  · exact of_raise

theorem enqueueEvent_obeys {request : EventRequest} :
    (Kernel.enqueueEvent request).proc.Obeys (CallRule host (.enqueueEvent request))
      (returns fun _ _ => True) log := by
  have lookup : ∀ log key,
      CallRule host (.enqueueEvent request) log (.sql (.selectEventByDedup key)) :=
    fun _ _ => trivial
  simp only [Kernel.enqueueEvent, Program.bind_eq_bind, Sql.proc_bind]
  refine (existingForDedup_obeys lookup).seq fun log₁ found _ _ => ?_
  cases found with
  | some existing => exact reuseOrReject_obeys
  | none =>
      simp only [Stmt.perform, Program.perform, Program.call_attempt, Program.call_bind,
        Sql.proc_call, Sql.proc_bind, Sql.proc_ofExcept]
      apply afterCall
      · trivial
      · intro eventId
        simp only [Sql.proc_attempt, Sql.proc_ofExcept]
        apply afterAttempt
        · exact ⟨eventId, Saw.here, rfl⟩
        · intro result
          cases result with
          | ok _ =>
              simp only [Sql.proc_bind]
              exact (appendJournal_obeys fun _ _ => trivial).seq fun _ _ _ _ => of_done trivial
          | error exc =>
              simp only
              split
              · rw [Sql.proc_bind]
                refine (existingForDedup_obeys lookup).seq fun log₂ raced _ _ => ?_
                cases raced with
                | none => exact of_raise
                | some existing => exact reuseOrReject_obeys
              · exact of_raise

/-- A call whose value is discarded keeps to the rule of the call. -/
theorem discard_obeys {α : Type} {R : History → Op → Prop} {program : Proc α}
    {Q : History → α → Prop} (obeys : program.Obeys R (returns Q) log) :
    (discard program).Obeys R (returns fun _ _ => True) log :=
  obeys.seq fun _ _ _ _ => of_done trivial

/-- Every call keeps to its rule. -/
theorem program_obeys (host : Host) (call : Call) :
    (call.program host).Obeys (CallRule host call) Program.anyOutcome [] := by
  have kept : (call.program host).Obeys (CallRule host call) (returns fun _ _ => True) [] := by
    cases call with
    | submitTask task capabilities now sourceEventId =>
        simp only [Call.program, discard, submitTask, Transaction.perform, Op.perform,
          Program.perform, Program.call_bind]
        apply afterCall
        · rfl
        · intro runId
          exact of_done trivial
    | runOnce engine now => exact discard_obeys runOnce_obeys
    | resumeBlockedEffect registry runId now => exact resumeBlockedEffect_obeys
    | execute registry call allowed now => exact discard_obeys (execute_obeys ⟨rfl, rfl⟩)
    | recoverReconciled registry requestId allowed now =>
        exact discard_obeys (recoverReconciled_obeys fun _ _ _ stored => stored)
    | reconcile requestId effectOccurred evidenceDigest now result => exact reconcile_obeys
    | enqueueEvent request => exact discard_obeys enqueueEvent_obeys
    | addMemory kind content salience now =>
        simp only [Call.program, discard, Kernel.addMemory, Stmt.perform, Program.perform,
          Program.bind_eq_bind, Program.call_bind, Sql.proc_call, Sql.proc_bind,
          Sql.proc_ofExcept, Program.bind_assoc]
        apply afterCall
        · trivial
        · intro memoryId
          apply afterCall
          · trivial
          · intro _
            exact of_done trivial
  exact kept.weaken fun _ _ _ => trivial

theorem ToolRule.issued {enter : History → ToolCall → List String → Prop} {op : Op}
    (rule : ToolRule host registry enter log op) : op.issued := by
  cases op with
  | sql stmt => cases stmt <;> first | exact rule.elim | trivial
  | transaction block => trivial
  | enterExecute call capabilities => trivial
  | respond messages tools => trivial
  | handler handled => trivial

/-- Whatever a call performs has one of the issued forms. -/
theorem CallRule.issued {call : Call} {op : Op} (rule : CallRule host call log op) :
    op.issued := by
  cases call with
  | runOnce engine now =>
      cases op with
      | sql stmt =>
          cases stmt with
          | updateRun runId change =>
              obtain ⟨_, _, _, _, updates⟩ := rule
              exact updates.issued
          | insertRun | advanceRun | resumeRun | claimEvent | clearEffect | insertReconciliation
            | insertEvent => exact rule.elim
          | _ => trivial
      | _ => trivial
  | resumeBlockedEffect registry runId now =>
      cases op with
      | sql stmt => cases stmt <;> trivial
      | _ => trivial
  | execute registry call allowed now =>
      simp only [CallRule] at rule
      exact rule.issued
  | recoverReconciled registry requestId allowed now =>
      simp only [CallRule] at rule
      exact rule.issued
  | enqueueEvent request =>
      cases op with
      | sql stmt =>
          cases stmt with
          | insertEvent row =>
              obtain ⟨eventId, _, same⟩ := rule
              exact ⟨request, eventId, same⟩
          | _ => trivial
      | _ => trivial
  | submitTask task capabilities now sourceEventId =>
      cases op with
      | sql stmt => exact rule.elim
      | _ => trivial
  | reconcile requestId effectOccurred evidenceDigest now result =>
      cases op with
      | sql stmt => cases stmt <;> trivial
      | _ => trivial
  | addMemory kind content salience now =>
      cases op with
      | sql stmt => cases stmt <;> trivial
      | _ => trivial

/-- The operations that only `execute` performs. -/
def Op.isTool : Op → Bool
  | .sql (.insertEffect _) | .sql (.readmitEffect ..) | .sql (.attemptUnknown ..)
  | .sql (.commitEffect ..) | .handler _ => true
  | _ => false

/-- The registry of a call that executes tools, and the calls it enters `execute` with. -/
def Call.entering (host : Host) : Call → Option (ToolRegistry × (History → ToolCall → List String → Prop))
  | .runOnce engine _ => some (engine.tools, EntersDecided host engine)
  | .resumeBlockedEffect registry runId _ => some (registry, EntersStored host runId)
  | .execute registry call allowed _ =>
      some (registry, fun _ entered capabilities => entered = call ∧ capabilities = allowed)
  | .recoverReconciled registry requestId _ _ =>
      some (registry, fun log call _ => StoredFor host log requestId call)
  | _ => none

/-- The call executes tools of this registry, if of any. -/
def Call.Uses (host : Host) (call : Call) (registry : ToolRegistry) : Prop :=
  ∀ registry' enter, call.entering host = some (registry', enter) → registry' = registry

/-- Whichever call performs an operation of `execute`, it keeps to the tool rule there. -/
theorem CallRule.tool {call : Call} {op : Op} (rule : CallRule host call log op)
    (isTool : op.isTool = true) :
    ∃ registry enter, call.entering host = some (registry, enter) ∧
      ToolRule host registry enter log op := by
  cases call with
  | runOnce engine now =>
      refine ⟨engine.tools, EntersDecided host engine, rfl, ?_⟩
      cases op with
      | sql stmt => cases stmt <;> first | exact rule | cases isTool
      | handler handled => exact rule
      | _ => cases isTool
  | resumeBlockedEffect registry runId now =>
      refine ⟨registry, EntersStored host runId, rfl, ?_⟩
      cases op with
      | sql stmt => cases stmt <;> first | exact rule | cases isTool
      | handler handled => exact rule
      | _ => cases isTool
  | execute registry call allowed now => exact ⟨registry, _, rfl, rule⟩
  | recoverReconciled registry requestId allowed now => exact ⟨registry, _, rfl, rule⟩
  | _ =>
      cases op with
      | sql stmt => cases stmt <;> first | exact rule.elim | cases isTool
      | handler handled => exact rule.elim
      | _ => cases isTool

/-- In every reachable state, what is left of each process keeps to the rule of its call. -/
theorem reachable_rule {steps : KernelConfig → Label Answer Call → Prop} {config : KernelConfig}
    (reached : (system host).Reachable steps KernelConfig.initial config) :
    ∀ process ∈ config.procs,
      process.rest.Obeys (CallRule host process.call) Program.anyOutcome process.log :=
  reached.obeys (program_obeys host) rfl

/-- In every reachable state, the next operation of a process keeps to the rule of its call. -/
theorem next_rule {steps : KernelConfig → Label Answer Call → Prop} {config : KernelConfig}
    {process : Process kernel Exc Call} {op : Op}
    (reached : (system host).Reachable steps KernelConfig.initial config)
    (member : process ∈ config.procs) (next : process.nextOp = some op) :
    CallRule host process.call process.log op := by
  have rule := reachable_rule reached process member
  unfold Process.nextOp at next
  split at next
  · rename_i op' continuation running rest
    rw [rest] at rule
    obtain rfl := Option.some.inj next
    exact rule.head
  · cases next

/-- In every reachable state, what each process has done kept to the rule of its call. -/
theorem reachable_lawful {steps : KernelConfig → Label Answer Call → Prop} {config : KernelConfig}
    (reached : (system host).Reachable steps KernelConfig.initial config) :
    ∀ process ∈ config.procs,
      System.Reachable.Lawful (CallRule host process.call) process.log :=
  reached.lawful (program_obeys host) rfl

end PreActive.Kernel
