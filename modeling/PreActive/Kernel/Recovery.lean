/-
Module: PreActive.Kernel.Recovery
Purpose: A blocked run whose request was reconciled, and when an undisturbed resume takes it on.
Trusted boundary: human-reviewed spec
Main exports: Settles, Resumed, Recoverable, blocked_run_recovers
-/
import PreActive.Kernel.Origins
import PreActive.Kernel.Pace
import PreActive.Kernel.Successors

namespace PreActive.Kernel

open PreActive.Foundation PreActive.Python
open Program

variable {host : Host} {registry : ToolRegistry} {answers : Op → Answer} {world world' : World}
variable {runId requestId : String} {now : Time}

/-! ### Keys -/

/-- A list ends at the first mark in one way. -/
theorem append_cons_inj {α : Type} {mark : α} : ∀ {xs ys us vs : List α}, mark ∉ xs → mark ∉ ys →
    xs ++ mark :: us = ys ++ mark :: vs → xs = ys ∧ us = vs
  | [], [], _, _, _, _, same => ⟨rfl, (List.cons.inj same).2⟩
  | [], _ :: _, _, _, _, absent, same =>
      absurd (List.mem_cons.2 (.inl (List.cons.inj same).1)) absent
  | _ :: _, [], _, _, absent, _, same =>
      absurd (List.mem_cons.2 (.inl (List.cons.inj same).1.symm)) absent
  | _ :: _, _ :: _, _, _, absent, absent', same => by
      obtain ⟨rfl, rest⟩ := List.cons.inj same
      obtain ⟨rfl, rfl⟩ := append_cons_inj (List.not_mem_of_not_mem_cons absent)
        (List.not_mem_of_not_mem_cons absent') rest
      exact ⟨rfl, rfl⟩

theorem notMem_digits {c : Char} (other : c.isDigit = false) (n : Nat) :
    c ∉ Nat.toDigits 10 n := by
  intro member
  have digit := Nat.isDigit_of_mem_toDigits (by omega) (by omega) member
  cases other.symm.trans digit

theorem colon_notMem_digits (n : Nat) : ':' ∉ Nat.toDigits 10 n := notMem_digits rfl n

theorem digits_inj {m n : Nat} (same : Nat.toDigits 10 m = Nat.toDigits 10 n) : m = n := by
  rw [← Nat.ofDigitChars_ten_toDigits (n := m), same, Nat.ofDigitChars_ten_toDigits]

/-- The key of a step event names its run and its step. -/
theorem runStepKey_inj {runId runId' : String} {step step' : Nat}
    (same : runStepKey runId step = runStepKey runId' step') : runId = runId' ∧ step = step' := by
  -- the digits of the step are what follows the last colon
  have reversed : ∀ runId step, (runStepKey runId step).toList.reverse =
      (Nat.toDigits 10 step).reverse ++ ':' :: (runId.toList.reverse ++ "run-step:".toList.reverse) := by
    intro runId step
    simp [runStepKey]
  have letters := congrArg (fun key : String => key.toList.reverse) same
  rw [reversed, reversed] at letters
  obtain ⟨digits, rest⟩ := append_cons_inj
    (fun member => colon_notMem_digits step (List.mem_reverse.1 member))
    (fun member => colon_notMem_digits step' (List.mem_reverse.1 member)) letters
  constructor
  · have names := List.append_cancel_right rest
    exact String.toList_inj.1 (List.reverse_injective names)
  · exact digits_inj (List.reverse_injective digits)

/-! ### Transcripts -/

section Transcript

variable {run : RunRow} {role : Role} {content key : String}

/-- A message under a new key is added. -/
theorem recordRunMessage_fresh (faultless : Faultless answers)
    (stored : world.db.run runId = some run) (absent : world.db.message runId key = none) :
    ∃ messages, world.db.messages.insert ⟨runId, role, content, some key, now⟩ = some messages ∧
      Runs host answers (recordRunMessage runId role content now (some key)).proc world (.ok ())
        { world with db := { world.db with messages := messages } } := by
  obtain ⟨messages, inserted⟩ : ∃ messages,
      world.db.messages.insert ⟨runId, role, content, some key, now⟩ = some messages := by
    apply Table.insert_isSome
    intro old member
    have apart := Table.select_eq_none.1 absent old member
    rw [Bool.eq_false_iff]
    intro clashes
    simp only [UniqueKeys.clash, UniqueKeys.key, Bool.and_eq_true, beq_iff_eq] at clashes
    simp [clashes.1.1, clashes.2] at apart
  refine ⟨messages, inserted, faultless.proc _ ?_⟩
  obtain ⟨member, named⟩ := Db.run_eq_some.1 stored
  have known : (world.db.runs.rows.any fun other => other.id == runId) = true :=
    List.any_eq_true.2 ⟨run, member, by simp [named]⟩
  simp [recordRunMessage, Stmt.perform, Program.perform, Stmt.exec, known, inserted]

/-- A message under a key that is taken is compared with the stored one. -/
theorem recordRunMessage_again (faultless : Faultless answers)
    (stored : world.db.run runId = some run) {row : MessageRow}
    (taken : world.db.message runId key = some row) :
    Runs host answers (recordRunMessage runId role content now (some key)).proc world
      (if row.role ≠ role ∨ row.content ≠ content then
        .error (runtimeError "run message key changed after durable admission")
      else .ok ()) world := by
  apply faultless.proc
  obtain ⟨member, named⟩ := Db.run_eq_some.1 stored
  have known : (world.db.runs.rows.any fun other => other.id == runId) = true :=
    List.any_eq_true.2 ⟨run, member, by simp [named]⟩
  have refused : world.db.messages.insert ⟨runId, role, content, some key, now⟩ = none := by
    cases inserted : world.db.messages.insert ⟨runId, role, content, some key, now⟩ with
    | none => rfl
    | some messages =>
        have absent := message_none_of_insert inserted rfl
        rw [taken] at absent
        cases absent
  simp only [recordRunMessage, Stmt.perform, Program.perform, Program.bind_eq_bind,
    Program.call_attempt, Program.call_bind, Sql.run_call, Stmt.exec, known, if_true, refused,
    Program.ofExcept_attempt, Program.done_bind, uniqueFailed, Exc.isIntegrityError, decide_true,
    taken, Program.ofExcept_ok]
  split <;> rfl

/-- The message of the key, if there is one, is this one. -/
def Db.Agrees (db : Db) (runId key : String) (role : Role) (content : String) : Prop :=
  ∀ row, db.message runId key = some row → row.role = role ∧ row.content = content

/-- A message is recorded if the stored one agrees with it. -/
theorem recordRunMessage_runs (faultless : Faultless answers)
    (stored : world.db.run runId = some run) (agrees : world.db.Agrees runId key role content) :
    ∃ messages, Runs host answers (recordRunMessage runId role content now (some key)).proc world
      (.ok ()) { world with db := { world.db with messages := messages } } := by
  cases taken : world.db.message runId key with
  | none =>
      obtain ⟨messages, _, ran⟩ := recordRunMessage_fresh faultless stored taken
      exact ⟨messages, ran⟩
  | some row =>
      refine ⟨world.db.messages, ?_⟩
      refine (congrArg (fun outcome => Runs host answers _ world outcome world)
        (if_neg ?_)).mp (recordRunMessage_again faultless stored taken)
      obtain ⟨sameRole, sameContent⟩ := agrees row taken
      simp [sameRole, sameContent]

/-- A message that was recorded agrees with the stored one. -/
theorem recordRunMessage_ok (faultless : Faultless answers) (stored : world.db.run runId = some run)
    (ran : Runs host answers (recordRunMessage runId role content now (some key)).proc world
      (.ok ()) world') :
    world.db.Agrees runId key role content ∧
      ∃ messages, world' = { world with db := { world.db with messages := messages } } := by
  cases taken : world.db.message runId key with
  | none =>
      obtain ⟨messages, _, ran'⟩ := recordRunMessage_fresh faultless stored taken
      exact ⟨fun row impossible => by simp [taken] at impossible,
        messages, (ran.unique ran').2⟩
  | some row =>
      obtain ⟨outcome, same⟩ := ran.unique (recordRunMessage_again faultless stored taken)
      refine ⟨fun row' there => ?_, world.db.messages, same⟩
      obtain rfl := Option.some.inj (taken.symm.trans there)
      split at outcome
      · cases outcome
      · rename_i agree
        exact ⟨not_not.1 (not_or.1 agree).1, not_not.1 (not_or.1 agree).2⟩

end Transcript

/-! ### The successor event -/

section Successor

variable {request : EventRequest}

theorem runStepKey_ne_empty (runId : String) (step : Nat) :
    (runStepRequest runId step 0 now).dedupKey ≠ some "" := by
  simp [runStepRequest, runStepKey]

/-- An event under a new key is added under an identifier that no event has. -/
theorem run_enqueueEvent_new (new : ∀ row ∈ world.db.events.rows, row.id ≠ host.uuid4 world.drawn)
    (absent : world.db.existing request.dedupKey = none) (keyed : request.dedupKey ≠ some "") :
    ∃ world', (enqueueEvent request).run host world = (.ok (host.uuid4 world.drawn), world') ∧
      Enqueues host request world (host.uuid4 world.drawn) world' ∧
        request.row (host.uuid4 world.drawn) ∈ world'.db.events.rows := by
  obtain ⟨events, inserted⟩ : ∃ events,
      world.db.events.insert (request.row (host.uuid4 world.drawn)) = some events := by
    apply Table.insert_isSome
    intro old member
    rw [Bool.eq_false_iff]
    intro clashes
    simp only [UniqueKeys.clash, UniqueKeys.key, EventRequest.row, Bool.or_eq_true, beq_iff_eq,
      Bool.and_eq_true] at clashes
    rcases clashes with sameId | ⟨isSome, sameKey⟩
    · exact new old member sameId
    · rw [sameKey, Option.isSome_iff_exists] at isSome
      obtain ⟨key, isKey⟩ := isSome
      have nonempty : key ≠ "" := fun empty => keyed (isKey.trans (congrArg some empty))
      rw [isKey] at absent sameKey
      simp only [Db.existing, Option.bind_some, nonempty, if_false] at absent
      have apart := Table.select_eq_none.1 absent old member
      simp [sameKey] at apart
  refine ⟨_, ?_, .fresh events absent inserted, ?_⟩
  swap
  · rw [Table.rows_insert inserted]
    exact List.mem_append_right _ (List.mem_singleton.2 rfl)
  simp only [enqueueEvent, Program.bind_eq_bind, Sql.run_bind, run_existingForDedup, absent,
    Stmt.perform, Program.perform, Program.call_bind, Sql.run_call, Stmt.exec, Program.ofExcept_ok,
    Program.done_bind, Program.call_attempt, Program.ofExcept_attempt, inserted, appendJournal,
    Program.pure_eq_done, Sql.run_done]
  rfl

/-- Where identifiers are drawn and distinct, the next one is new. -/
theorem run_enqueueEvent_fresh (distinct : Function.Injective host.uuid4)
    (drawn : EventsDrawn host world) (absent : world.db.existing request.dedupKey = none)
    (keyed : request.dedupKey ≠ some "") :
    ∃ world', (enqueueEvent request).run host world = (.ok (host.uuid4 world.drawn), world') ∧
      Enqueues host request world (host.uuid4 world.drawn) world' ∧
        request.row (host.uuid4 world.drawn) ∈ world'.db.events.rows := by
  refine run_enqueueEvent_new (fun row member same => ?_) absent keyed
  obtain ⟨index, below, named⟩ := drawn row member
  have equal := distinct (named.symm.trans same)
  omega

theorem run_enqueueEvent_found {row : EventRow}
    (found : world.db.existing request.dedupKey = some row) :
    (enqueueEvent request).run host world = (reuseOrReject request row).run host world := by
  simp only [enqueueEvent, Program.bind_eq_bind, Sql.run_bind, run_existingForDedup, found]

/-- A resume does what it does to the run, and then enqueues the event of the next step. -/
theorem exec_resumeRun {run : RunRow} {priority : Int} (stored : world.db.run runId = some run)
    (blocked : run.status = .blockedEffect) :
    (resumeRunAfterEffectBody host runId now priority).run host world =
      Sql.run host ((enqueueEvent (runStepRequest runId (run.stepCount + 1) priority now)).bind
        fun _ => .done (run.stepCount + 1)) (resumedWorld world runId run.stepCount now) := by
  have counted : world.db.runs.count (RunRow.standsAt runId .blockedEffect run.stepCount) = 1 :=
    (count_standsAt _ _ _ _).2 ⟨run, stored, blocked, rfl⟩
  simp only [resumeRunAfterEffectBody, Stmt.perform, Program.perform, Program.bind_eq_bind,
    Program.call_bind, Sql.run_call, Stmt.exec, Program.ofExcept_ok, Program.done_bind, stored,
    blocked, counted, ne_eq, not_true_eq_false, if_false, appendJournal, Program.pure_eq_done]
  rfl

end Successor

/-! ### The ledger -/

/-- The step or the part changes at most the ledger and the list of handler calls. -/
structure LedgerOnly (world world' : World) : Prop where
  runs : world'.db.runs = world.db.runs
  messages : world'.db.messages = world.db.messages
  events : world'.db.events = world.db.events
  drawn : world'.drawn = world.drawn

theorem LedgerOnly.trans {middle : World} (first : LedgerOnly world middle)
    (second : LedgerOnly middle world') : LedgerOnly world world' where
  runs := second.runs.trans first.runs
  messages := second.messages.trans first.messages
  events := second.events.trans first.events
  drawn := second.drawn.trans first.drawn

theorem LedgerOnly.symm (same : LedgerOnly world world') : LedgerOnly world' world :=
  ⟨same.runs.symm, same.messages.symm, same.events.symm, same.drawn.symm⟩

theorem LedgerOnly.run (same : LedgerOnly world world') (runId : String) :
    world'.db.run runId = world.db.run runId := by
  rw [Db.run, same.runs, Db.run]

theorem storedCall_requestPayload (call : ToolCall) :
    storedCall host call.requestId (requestPayload call.name call.arguments).value = .ok call := by
  simp [storedCall, requestPayload, JsonObject.ofFields, PyVal.ofFields, PyVal.get?, PyVal.lookup,
    Host.str]

section Ledger

variable {row : EffectRow} {allowed : List String}

theorem selectEffect_runs (faultless : Faultless answers)
    (stored : world.db.effect requestId = some row) :
    Runs host answers (Op.sql (.selectEffect requestId)).perform world (.ok (some row)) world := by
  have selected := @Faultless.sql host answers world faultless (.selectEffect requestId)
  simp only [Stmt.exec, stored] at selected
  exact selected

/-- A committed request is recovered from its stored result. -/
theorem recover_committed_runs (faultless : Faultless answers)
    (stored : world.db.effect requestId = some row) (committed : row.state = .committed)
    {result : JsonObject} (json : row.resultJson = some (result.text canonicalStyle)) :
    Runs host answers (registry.recoverReconciled host requestId allowed now) world
      (.ok ⟨requestId, row.toolName, result.value, true, row.resultSha256.getD "None"⟩) world := by
  refine .bind (selectEffect_runs faultless stored) ?_
  simp only [committed, replay, loadsResult, json, JsonObject.loads_text, Program.ofExcept_ok]
  exact .done _

variable {call : ToolCall} {spec : ToolSpec} {output : PyVal}

/-- The dispatch of an admitted call whose handler returns. -/
theorem dispatchMutation_runs (faultless : Faultless answers)
    (returns : (answers (.handler ⟨spec, call.arguments, call.requestId⟩)).output = .ok output) :
    ∃ world', LedgerOnly world world' ∧
      world'.calls = world.calls ++ [⟨⟨spec, call.arguments, call.requestId⟩, .ok output⟩] ∧
        Runs host answers (dispatchMutation host spec call now) world
          ((canonicalJson output).map fun json =>
            ⟨call.requestId, call.name, output, false, host.sha256 json⟩) world' := by
  let handled : HandlerCall := ⟨spec, call.arguments, call.requestId⟩
  let invoked : World := { world with calls := world.calls ++ [⟨handled, .ok output⟩] }
  have handles : Runs host answers (Op.handler handled).perform world (.ok output) invoked := by
    have ran := Op.runs host answers (.handler handled) world
    simp only [Op.answer, handled, returns] at ran
    exact ran
  cases printed : canonicalJson output with
  | error exc =>
      refine ⟨invoked, ⟨rfl, rfl, rfl, rfl⟩, rfl, .bind handles.attempt ?_⟩
      simp only [printed]
      exact .raise exc
  | ok json =>
      refine ⟨(Stmt.exec host (.commitEffect call.requestId json (host.sha256 json) now)
        invoked).2, ⟨rfl, rfl, rfl, rfl⟩, rfl, .bind handles.attempt ?_⟩
      simp only [printed, Program.bind_eq_bind, Program.ofExcept_ok, Program.done_bind]
      refine .bind (@Faultless.sql host answers invoked faultless _) ?_
      exact .done _

/-- A request that is known to have had no effect is executed again, as it was stored. -/
theorem recover_again_runs (faultless : Faultless answers)
    (stored : world.db.effect call.requestId = some row) (cleared : row.state = .reconciledNoEffect)
    (json : row.requestJson = some (requestText call.name call.arguments))
    (admits : row.admits host call) (gates : Granted host registry call allowed spec)
    (mutation : spec.mutation = true)
    (returns : (answers (.handler ⟨spec, call.arguments, call.requestId⟩)).output = .ok output) :
    ∃ world', LedgerOnly world world' ∧
      world'.calls = world.calls ++ [⟨⟨spec, call.arguments, call.requestId⟩, .ok output⟩] ∧
        Runs host answers (registry.recoverReconciled host call.requestId allowed now) world
          ((canonicalJson output).map fun json =>
            ⟨call.requestId, call.name, output, false, host.sha256 json⟩) world' := by
  let readmitted : World := (Stmt.exec host (.readmitEffect call.requestId now) world).2
  obtain ⟨world', same, calls, dispatches⟩ :=
    @dispatchMutation_runs host answers readmitted now call spec output faultless returns
  refine ⟨world', ⟨same.runs, same.messages, same.events, same.drawn⟩, calls, ?_⟩
  have read : loads (requestText call.name call.arguments) =
      .ok (requestPayload call.name call.arguments).value := JsonObject.loads_text _ _
  have nonempty : requestText call.name call.arguments ≠ "" := by
    intro empty
    rw [empty] at read
    cases read
  refine .bind (selectEffect_runs faultless stored) ?_
  simp only [cleared, json, read, Program.bind_eq_bind, Program.ofExcept_ok,
    Program.done_bind, storedCall_requestPayload]
  refine .bind (Op.runs host answers (.enterExecute call allowed) world) ?_
  simp only [gates.found, List.contains_iff_mem.2 gates.granted, Bool.not_true,
    Bool.false_eq_true, if_false, gates.valid, mutation, if_true]
  refine .bind (selectEffect_runs faultless stored) ?_
  simp only [admits.1, admits.2, ne_eq, not_true_eq_false, or_self, if_false, cleared]
  exact .bind (@Faultless.sql host answers world faultless _) dispatches

end Ledger

/-! ### Reconciliation -/

/-- How a request is settled, with the value its resume will report: a result that is confirmed
together with the effect, or, if there was no effect, what the handler returns on the retry. -/
inductive Settles (host : Host) (answers : Op → Answer) (world : World) (requestId : String) :
    Bool → PyVal → World → Prop where
  | occurred (before : Op → Answer) (evidenceDigest : String) (now : Time) (result : JsonObject)
      {world' : World} (faultless : Faultless before)
      (ran : Runs host before
        (reconcile host requestId true evidenceDigest now (some result.value)) world (.ok ()) world') :
      Settles host answers world requestId true result.value world'
  | noEffect (before : Op → Answer) (evidenceDigest : String) (now : Time) (output : PyVal)
      {world' : World} (faultless : Faultless before)
      (ran : Runs host before (reconcile host requestId false evidenceDigest now none) world
        (.ok ()) world')
      (returns : ∀ handled, (answers (.handler handled)).output = .ok output) :
      Settles host answers world requestId false output world'

/-- The row of a request after it was settled. -/
structure EffectRow.SettledAs (row row' : EffectRow) (effectOccurred : Bool) (value : PyVal) :
    Prop where
  same : row.SameRequest row'
  committed : effectOccurred = true → row'.state = .committed ∧
    ∃ result : JsonObject, result.value = value ∧
      row'.resultJson = some (result.text canonicalStyle)
  cleared : effectOccurred = false → row'.state = .reconciledNoEffect

theorem transacts_of_runs (faultless : Faultless answers) {block : Transaction}
    {value : block.Result} (ran : Runs host answers block.perform world (.ok value) world') :
    Transacts host world block value world' := by
  obtain ⟨outcome, same⟩ := ran.unique (faultless.transaction block)
  exact Transaction.exec_ok (Prod.ext outcome.symm same.symm)

/-- A reconciliation that returns has committed its block. -/
theorem reconcile_transacts (faultless : Faultless answers) {effectOccurred : Bool}
    {evidenceDigest : String} {result : Option PyVal}
    (ran : Runs host answers (reconcile host requestId effectOccurred evidenceDigest now result)
      world (.ok ()) world') :
    ∃ resultJson resultDigest, Transacts host world (.reconcile requestId effectOccurred
      (host.lower evidenceDigest) resultJson resultDigest now) () world' ∧
        ∀ value, result = some value → ∃ json, canonicalJson value = .ok json ∧
          resultJson = some json := by
  unfold Runs RunsTo reconcile at ran
  split at ran
  · cases ran
  · simp only [Op.perform, Program.perform, Program.bind_eq_bind, Program.call_bind, execute,
      kernelMachine, Op.answer, faultless _, Stmt.exec, Program.ofExcept_ok,
      Program.done_bind] at ran
    split at ran
    · cases ran
    · split at ran
      · cases ran
      · split at ran
        · cases ran
        · cases ran
        · rename_i value
          cases printed : canonicalJson value with
          | error exc =>
              rw [printed] at ran
              cases ran
          | ok json =>
              rw [printed] at ran
              refine ⟨some json, _, transacts_of_runs faultless ran, fun value' same => ?_⟩
              obtain rfl := Option.some.inj same
              exact ⟨json, printed, rfl⟩
        · exact ⟨none, none, transacts_of_runs faultless ran, fun _ same => by cases same⟩

/-- What settling a request does to its row; nothing else that a resume reads is touched. -/
theorem Settles.row {effectOccurred : Bool} {value : PyVal} {row : EffectRow}
    (settles : Settles host answers world requestId effectOccurred value world')
    (stored : world.db.effect requestId = some row) :
    LedgerOnly world world' ∧ world'.calls = world.calls ∧
      ∃ row', world'.db.effect requestId = some row' ∧ row.SettledAs row' effectOccurred value := by
  have reconciled : ∀ (effectOccurred : Bool) (evidenceDigest : String)
      (resultJson resultDigest : Option String) (now : Time),
      Transacts host world (.reconcile requestId effectOccurred evidenceDigest resultJson
        resultDigest now) () world' →
      LedgerOnly world world' ∧ world'.calls = world.calls ∧
        world'.db.effect requestId =
          some (row.reconciled effectOccurred resultJson resultDigest now) := by
    intro effectOccurred evidenceDigest resultJson resultDigest now transacts
    have named := (Db.effect_eq_some.1 stored).2
    cases transacts with
    | reconcile row' found unresolved =>
        refine ⟨⟨rfl, rfl, rfl, rfl⟩, rfl, ?_⟩
        rw [effect_reconciledWorld, stored, Option.map_some, if_pos named]
  cases settles with
  | occurred before evidenceDigest now result faultless ran =>
      obtain ⟨resultJson, resultDigest, transacts, written⟩ := reconcile_transacts faultless ran
      obtain ⟨same, calls, stored'⟩ := reconciled _ _ _ _ _ transacts
      obtain ⟨json, printed, rfl⟩ := written _ rfl
      rw [canonicalJson, result.dumps_eq, Except.ok.injEq] at printed
      refine ⟨same, calls, _, stored', ⟨rfl, rfl, rfl, rfl, rfl⟩, fun _ => ⟨rfl, result, rfl, ?_⟩,
        fun impossible => nomatch impossible⟩
      rw [printed]
      rfl
  | noEffect before evidenceDigest now output faultless ran returns =>
      obtain ⟨resultJson, resultDigest, transacts, _⟩ := reconcile_transacts faultless ran
      obtain ⟨same, calls, stored'⟩ := reconciled _ _ _ _ _ transacts
      exact ⟨same, calls, _, stored', ⟨rfl, rfl, rfl, rfl, rfl⟩,
        (fun impossible => nomatch impossible), fun _ => rfl⟩

/-! ### The resume -/

/-- The event of the next step can be claimed already, if there is one. -/
def Db.SlotFree (db : Db) (run : RunRow) (now : Time) : Prop :=
  ∀ row, db.existing (some (runStepKey run.id (run.stepCount + 1))) = some row →
    (runStepRequest run.id (run.stepCount + 1) 0 now).sameAs row = true ∧
      row.claimable now = true

/-- What a resume needs besides a settled request: an id that is not empty, a value that can be
written, and a transcript and a queue that hold nothing else under the keys the resume writes. -/
structure Recoverable (db : Db) (run : RunRow) (requestId toolName : String)
    (value : PyVal) (now : Time) : Prop where
  named : requestId ≠ ""
  written : ∃ json, canonicalJson value = .ok json
  message : ∃ content, reconciledContent toolName value = .ok content ∧
    db.Agrees run.id (reconciledKey requestId) .tool content
  event : db.SlotFree run now

theorem LedgerOnly.recoverable {run : RunRow} {toolName : String} {value : PyVal}
    (same : LedgerOnly world world')
    (recoverable : Recoverable world.db run requestId toolName value now) :
    Recoverable world'.db run requestId toolName value now where
  named := recoverable.named
  written := recoverable.written
  message := by
    simpa only [Db.Agrees, Db.message, same.messages] using recoverable.message
  event := by
    simpa only [Db.SlotFree, Db.existing, Db.eventByKey, same.events] using recoverable.event

/-- The run has left the step it was blocked at, and its next step can be claimed. -/
structure Resumed (world : World) (run : RunRow) (now : Time) : Prop where
  moved : ∃ row, world.db.run run.id = some row ∧ row.status = .running ∧
    row.stepCount = run.stepCount + 1 ∧ row.blockedRequestId = none
  event : ∃ row ∈ world.db.events.rows, row.IsStep run.id (run.stepCount + 1) ∧
    row.claimable now = true

section Resume

variable {run : RunRow} {result : ToolExecution}

/-- What a resume does with the recovered result: it writes the message and moves the run. -/
def concludeResume (runId requestId toolName : String) (output : PyVal)
    (now : Time) : Proc Unit :=
  (Program.ofExcept (reconciledContent toolName output)).bind fun content =>
    (recordRunMessage runId .tool content now (some (reconciledKey requestId))).proc.bind
      fun _ => (Transaction.resumeRunAfterEffect runId now 0).perform.bind fun _ => .done ()

/-- A resume is the recovery of its request, and its conclusion. -/
theorem resume_runs (stored : world.db.run run.id = some run) (faultless : Faultless answers)
    (blocked : run.status = .blockedEffect) (waits : run.blockedRequestId = some requestId)
    (named : requestId ≠ "") {middle : World} {outcome : Except Exc Unit}
    (recovered : Runs host answers
      (registry.recoverReconciled host requestId run.capabilities now) world (.ok result) middle)
    (rest : Runs host answers (concludeResume run.id requestId result.toolName result.output now)
      middle outcome world') :
    Runs host answers (resumeBlockedEffect host registry run.id now) world outcome world' := by
  refine .bind (getRun_runs faultless stored) ?_
  simp only [blocked, waits, named, if_false]
  exact .bind recovered rest

/-- A resume whose recovery raises does nothing else. -/
theorem resume_raises (stored : world.db.run run.id = some run) (faultless : Faultless answers)
    (blocked : run.status = .blockedEffect) (waits : run.blockedRequestId = some requestId)
    (named : requestId ≠ "") {exc : Exc}
    (recovered : Runs host answers
      (registry.recoverReconciled host requestId run.capabilities now) world (.error exc) world') :
    Runs host answers (resumeBlockedEffect host registry run.id now) world (.error exc) world' := by
  refine .bind (getRun_runs faultless stored) ?_
  simp only [blocked, waits, named, if_false]
  exact recovered.bindRaised

theorem run_resumedWorld_self (stored : world.db.run run.id = some run)
    (blocked : run.status = .blockedEffect) :
    (resumedWorld world run.id run.stepCount now).db.run run.id = some (run.resumed now) :=
  (run_resumedWorld now stored blocked).1

/-- The world after the transition has the moved run and its event. -/
theorem Enqueues.resumed {eventId : String} (stored : world.db.run run.id = some run)
    (blocked : run.status = .blockedEffect)
    (enqueued : Enqueues host (runStepRequest run.id (run.stepCount + 1) 0 now)
      (resumedWorld world run.id run.stepCount now) eventId world') :
    (∃ row, world'.db.run run.id = some row ∧ row.status = .running ∧
      row.stepCount = run.stepCount + 1 ∧ row.blockedRequestId = none) ∧
      world'.calls = world.calls := by
  obtain ⟨events, journal, drawn, rfl⟩ := enqueued.touches
  exact ⟨⟨run.resumed now, run_resumedWorld_self stored blocked, rfl, rfl, rfl⟩, rfl⟩

/-- The transition of an undisturbed resume. -/
theorem resumeTransaction_runs (faultless : Faultless answers)
    (distinct : Function.Injective host.uuid4) (drawn : EventsDrawn host world)
    (stored : world.db.run run.id = some run) (blocked : run.status = .blockedEffect)
    (free : world.db.SlotFree run now) :
    ∃ world', Runs host answers (Transaction.resumeRunAfterEffect run.id now 0).perform world
      (.ok (run.stepCount + 1)) world' ∧ Resumed world' run now ∧ world'.calls = world.calls := by
  let request := runStepRequest run.id (run.stepCount + 1) 0 now
  let middle := resumedWorld world run.id run.stepCount now
  have executed : ∀ eventId world', (enqueueEvent request).run host middle = (.ok eventId, world') →
      Runs host answers (Transaction.resumeRunAfterEffect run.id now 0).perform world
        (.ok (run.stepCount + 1)) world' := by
    intro eventId world' enqueued
    have ran := @Faultless.transaction host answers world faultless
      (.resumeRunAfterEffect run.id now 0)
    rw [Transaction.exec, Transaction.body, exec_resumeRun stored blocked, Sql.run_bind,
      enqueued] at ran
    exact ran
  cases found : middle.db.existing request.dedupKey with
  | none =>
      have drawn' : EventsDrawn host middle := drawn.of_events rfl (le_refl _)
      obtain ⟨world', ran, enqueued, member⟩ :=
        run_enqueueEvent_fresh distinct drawn' found (runStepKey_ne_empty _ _)
      obtain ⟨moved, calls⟩ := enqueued.resumed stored blocked
      refine ⟨world', executed _ _ ran, ⟨moved, _, member,
        EventRequest.row_isStep run.id _ (run.stepCount + 1) 0 now, ?_⟩, calls⟩
      simp [EventRow.claimable, EventRequest.row, request, runStepRequest]
  | some row =>
      obtain ⟨same, claimable⟩ := free row found
      have ran := @run_enqueueEvent_found host middle request row found
      rw [reuseOrReject, if_pos same, Sql.run_done] at ran
      obtain ⟨moved, calls⟩ :=
        (@Enqueues.reused host request middle row found same).resumed stored blocked
      obtain ⟨member, isStep⟩ := Db.existing_isStep found same
      exact ⟨middle, executed _ _ ran, ⟨moved, row, member, isStep, claimable⟩, calls⟩

variable {toolName : String} {output : PyVal}

theorem concludeResume_runs (faultless : Faultless answers)
    (distinct : Function.Injective host.uuid4) (drawn : EventsDrawn host world)
    (stored : world.db.run run.id = some run) (blocked : run.status = .blockedEffect)
    (recoverable : Recoverable world.db run requestId toolName output now) :
    ∃ world', Runs host answers (concludeResume run.id requestId toolName output now) world
      (.ok ()) world' ∧ Resumed world' run now ∧ world'.calls = world.calls := by
  obtain ⟨content, printed, agrees⟩ := recoverable.message
  obtain ⟨messages, recorded⟩ := recordRunMessage_runs faultless stored agrees
  let noted : World := { world with db := { world.db with messages := messages } }
  obtain ⟨world', moved, resumed, calls⟩ :=
    @resumeTransaction_runs host answers noted now run faultless distinct
      (drawn.of_events rfl (le_refl _)) stored blocked recoverable.event
  refine ⟨world', ?_, resumed, calls⟩
  rw [concludeResume, printed, Program.ofExcept_ok, Program.done_bind]
  exact .bind recorded (.bind moved (.done _))

/-- A resume that concluded had no other message under its key, and no event of the next step that
cannot be claimed. -/
theorem concludeResume_ok (faultless : Faultless answers)
    (stored : world.db.run run.id = some run)
    (ran : Runs host answers (concludeResume run.id requestId toolName output now) world
      (.ok ()) world') (resumed : Resumed world' run now) :
    (∃ content, reconciledContent toolName output = .ok content ∧
      world.db.Agrees run.id (reconciledKey requestId) .tool content) ∧
        world.db.SlotFree run now := by
  obtain ⟨content, _, printing, afterPrint⟩ := ran.of_bind
  obtain ⟨printed, rfl⟩ := printing.of_ofExcept
  obtain ⟨_, middle, recording, afterRecord⟩ := afterPrint.of_bind
  obtain ⟨agrees, messages, rfl⟩ := recordRunMessage_ok faultless stored recording
  obtain ⟨next, _, moving, ending⟩ := afterRecord.of_bind
  obtain ⟨_, rfl⟩ := Prod.mk.inj ending
  refine ⟨⟨content, printed, agrees⟩, fun row found => ?_⟩
  have transacts := transacts_of_runs faultless moving
  obtain ⟨event, member, isStep, claimable⟩ := resumed.event
  cases transacts with
  | resume row' stored' blocked enqueued =>
      obtain rfl := Option.some.inj (stored.symm.trans stored')
      cases enqueued with
      | fresh events absent inserted =>
          have missing := found.symm.trans absent
          cases missing
      | reused row' there same =>
          obtain rfl := Option.some.inj (found.symm.trans there)
          -- the step event that the resume left is the one that was there
          have keyed := Db.eventByKey_eq_some.2 ⟨member, isStep.key⟩
          obtain ⟨member', isStep'⟩ := Db.existing_isStep there same
          have keyed' := Db.eventByKey_eq_some.2 ⟨member', isStep'.key⟩
          obtain rfl := Option.some.inj (keyed.symm.trans keyed')
          exact ⟨same, claimable⟩

end Resume

/-! ### Recovering a settled request -/

section Settled

variable {effectOccurred : Bool} {value : PyVal} {row : EffectRow} {run : RunRow}

/-- The handler calls of a resume: none if the effect is known to have occurred, and else the call
that was first admitted, once. -/
def Retried (host : Host) (registry : ToolRegistry) (db : Db) (row : EffectRow) (runId : String)
    (value : PyVal) (world world' : World) : Bool → Prop
  | true => world'.calls = world.calls
  | false => ∃ spec call, row.AdmittedFor host registry db runId call ∧
      registry.find call.name = some spec ∧
        world'.calls = world.calls ++ [⟨⟨spec, call.arguments, row.requestId⟩, .ok value⟩]

theorem Retried.of_calls {db : Db} {middle : World}
    (retried : Retried host registry db row runId value world middle effectOccurred)
    (same : world'.calls = middle.calls) :
    Retried host registry db row runId value world world' effectOccurred := by
  cases effectOccurred with
  | true => exact same.trans retried
  | false =>
      obtain ⟨spec, call, admitted, found, calls⟩ := retried
      exact ⟨spec, call, admitted, found, same.trans calls⟩

/-- What the recovery of a settled request answers, if the value can be written. -/
structure Recovers (host : Host) (registry : ToolRegistry) (answers : Op → Answer) (run : RunRow)
    (requestId toolName : String) (value : PyVal) (now : Time) (world world' : World) : Prop where
  same : LedgerOnly world world'
  written : ∀ json, canonicalJson value = .ok json → ∃ result : ToolExecution,
    result.toolName = toolName ∧ result.output = value ∧
      Runs host answers (registry.recoverReconciled host requestId run.capabilities now) world
        (.ok result) world'
  unwritten : ∀ exc, canonicalJson value = .error exc →
    Runs host answers (registry.recoverReconciled host requestId run.capabilities now) world
      (.error exc) world'

theorem ToolRegistry.admissible_granted {call : ToolCall} {allowed : List String}
    (admissible : registry.admissible host call allowed = true) :
    ∃ spec, Granted host registry call allowed spec ∧ spec.mutation = true := by
  obtain ⟨spec, found, admits⟩ := (Option.any_eq_true _ _).1 admissible
  simp only [Bool.and_eq_true, decide_eq_true_eq, List.contains_iff_mem] at admits
  exact ⟨spec, ⟨found, admits.1.2, admits.2⟩, admits.1.1⟩

/-- A settled request is recovered, whatever the retry answers. -/
theorem settled_recovers {db : Db} {call : ToolCall} {row' : EffectRow}
    (faultless : Faultless answers) (stored : world'.db.effect requestId = some row')
    (settled : row.SettledAs row' effectOccurred value)
    (admitted : row.AdmittedFor host registry db run.id call) (known : db.run run.id = some run)
    (returns : effectOccurred = false → ∀ handled, (answers (.handler handled)).output = .ok value) :
    ∃ middle, Recovers host registry answers run requestId row.toolName value now world' middle ∧
      Retried host registry db row run.id value world' middle effectOccurred := by
  have named := settled.same.requestId.symm.trans (Db.effect_eq_some.1 stored).2
  cases effectOccurred with
  | true =>
      obtain ⟨committed, result, rfl, json⟩ := settled.committed rfl
      refine ⟨world', ⟨⟨rfl, rfl, rfl, rfl⟩, fun _ _ => ?_, fun exc failed => ?_⟩, rfl⟩
      · exact ⟨_, settled.same.toolName, rfl, recover_committed_runs faultless stored committed json⟩
      · rw [canonicalJson, result.dumps_eq] at failed
        cases failed
  | false =>
      obtain ⟨run', stored', admissible⟩ := admitted.admissible
      obtain rfl := Option.some.inj (known.symm.trans stored')
      obtain ⟨spec, gates, mutation⟩ := ToolRegistry.admissible_granted admissible
      have isId : call.requestId = requestId := admitted.requestId.trans named
      subst isId
      obtain ⟨middle, same, calls, ran⟩ := recover_again_runs faultless stored
        (settled.cleared rfl)
        (settled.same.requestJson.trans admitted.requestJson) (settled.same.admits admitted.admits)
        gates mutation
        (returns rfl ⟨spec, call.arguments, call.requestId⟩)
      refine ⟨middle, ⟨same, fun json printed => ?_, fun exc failed => ?_⟩,
        ⟨spec, call, admitted, gates.found, admitted.requestId ▸ calls⟩⟩
      · rw [printed] at ran
        exact ⟨_, admitted.admits.2.symm, rfl, ran⟩
      · rw [failed] at ran
        exact ran

/-- The engine's own guard takes an empty request id for none. -/
theorem resume_unnamed (faultless : Faultless answers) (stored : world.db.run run.id = some run)
    (blocked : run.status = .blockedEffect) (waits : run.blockedRequestId = some "") :
    Runs host answers (resumeBlockedEffect host registry run.id now) world
      (.error (runtimeError "run is not blocked on an unresolved effect")) world := by
  refine .bind (getRun_runs faultless stored) ?_
  simp only [blocked, waits, if_true]
  exact .raise _

section Undisturbed

variable {middle : World} {toolName : String} (faultless : Faultless answers)
variable (stored : world.db.run run.id = some run) (blocked : run.status = .blockedEffect)
variable (waits : run.blockedRequestId = some requestId)
variable (recovers : Recovers host registry answers run requestId toolName value now world middle)
include faultless stored blocked waits recovers

/-- An undisturbed resume of a recoverable request takes the run on. -/
theorem recoverable_resumes (distinct : Function.Injective host.uuid4)
    (drawn : EventsDrawn host world)
    (recoverable : Recoverable world.db run requestId toolName value now) :
    ∃ world', Runs host answers (resumeBlockedEffect host registry run.id now) world (.ok ())
      world' ∧ Resumed world' run now ∧ world'.calls = middle.calls := by
  obtain ⟨json, printed⟩ := recoverable.written
  obtain ⟨result, rfl, rfl, recovered⟩ := recovers.written json printed
  obtain ⟨world', concluded, resumed, calls⟩ :=
    concludeResume_runs faultless distinct
      (drawn.of_events recovers.same.events (le_of_eq recovers.same.drawn.symm))
      ((recovers.same.run run.id).trans stored) blocked (recovers.same.recoverable recoverable)
  exact ⟨world', resume_runs stored faultless blocked waits recoverable.named recovered concluded,
    resumed, calls⟩

/-- A resume that takes the run on had a recoverable request. -/
theorem recoverable_of_resumed
    (ran : Runs host answers (resumeBlockedEffect host registry run.id now) world (.ok ()) world')
    (resumed : Resumed world' run now) :
    Recoverable world.db run requestId toolName value now := by
  have named : requestId ≠ "" := by
    rintro rfl
    have refused := (ran.unique (resume_unnamed faultless stored blocked waits)).1
    cases refused
  cases printed : canonicalJson value with
  | error exc =>
      have refused := (ran.unique (resume_raises stored faultless blocked waits named
        (recovers.unwritten exc printed))).1
      cases refused
  | ok json =>
      obtain ⟨result, rfl, rfl, recovered⟩ := recovers.written json printed
      rcases concluded : (concludeResume run.id requestId result.toolName result.output
        now).execute (kernelMachine host) answers middle with ⟨outcome, last⟩
      obtain ⟨rfl, rfl⟩ :=
        ran.unique (resume_runs stored faultless blocked waits named recovered concluded)
      have storedMiddle := (recovers.same.run run.id).trans stored
      obtain ⟨message, event⟩ := concludeResume_ok faultless storedMiddle concluded resumed
      exact recovers.same.symm.recoverable ⟨named, ⟨json, printed⟩, message, event⟩

end Undisturbed

end Settled

/-! ### Every blocked run -/

/-- A run decides a payment under the given request id, the payment fails in an unknown way, and the
run is blocked on it. -/
def timedOutPayment (requestId : String) : List (Label Answer Call) :=
  [.spawn (.submitTask "task" ["money"] 0 none), .act 0 .quiet,
    .spawn (.runOnce (payEngine "a") 0), .act 1 .quiet, .act 1 .quiet, .act 1 .quiet,
    .act 1 .quiet, .act 1 (.ofResponse (.toolCall (payCall requestId))), .act 1 .quiet,
    .act 1 .quiet, .act 1 .quiet, .act 1 .quiet, .act 1 .quiet,
    .act 1 (.ofOutput (.error ⟨.other "TimeoutError", "no answer"⟩)), .act 1 .quiet,
    .act 1 .quiet, .act 1 .quiet, .act 1 .quiet, .act 1 .quiet, .act 1 .quiet]

theorem timedOutPayment_fixed (requestId : String) :
    ∀ label ∈ timedOutPayment requestId, FixedRegistry plainHost payRegistry label := by
  simp [timedOutPayment, FixedRegistry, Call.Uses, Call.entering, payEngine]

/-- All decisions are those of one run, and no call is executed directly. -/
def onlyRun (runId : String) (config : KernelConfig) : Bool :=
  (config.world.db.decisions.rows.all fun row => row.runId == runId) &&
    config.procs.all fun process => match process.call with
      | .execute _ _ _ _ => false
      | _ => true

theorem requestsApart_of_onlyRun {config : KernelConfig} (only : onlyRun runId config = true) :
    RequestsApart host config := by
  simp only [onlyRun, Bool.and_eq_true, List.all_eq_true, beq_iff_eq] at only
  constructor
  · rintro first step call second step' call' ⟨row, decided, _⟩ ⟨row', decided', _⟩ _
    obtain ⟨member, named, _⟩ := Db.decision_eq_some.1 decided
    obtain ⟨member', named', _⟩ := Db.decision_eq_some.1 decided'
    exact (named.symm.trans (only.1 row member)).trans
      ((only.1 row' member').symm.trans named')
  · intro process member registry call allowed now isCall
    have direct := only.2 process member
    rw [isCall] at direct
    cases direct

/-- The run is blocked on the request, whose row is in the ledger, and the request can be
confirmed. -/
def confirmable (requestId : String) (config : KernelConfig) : Bool :=
  onlyRun "id-0" config && config.world.db.isBlockedOn "id-0" requestId 0 &&
    (config.world.db.effect requestId).isSome &&
      ((reconcile plainHost requestId true someEvidence 1 (some (.dict []))).execute
        (kernelMachine plainHost) (fun _ => .quiet) config.world).1.isOk

theorem confirmable_settles {config : KernelConfig} (confirms : confirmable requestId config = true) :
    RequestsApart plainHost config ∧
      ∃ run row world', run.id = "id-0" ∧ run.stepCount = 0 ∧
        config.world.db.run run.id = some run ∧
        run.status = .blockedEffect ∧ run.blockedRequestId = some requestId ∧
        config.world.db.effect requestId = some row ∧
        Settles plainHost (fun _ => .quiet) config.world requestId true (.dict []) world' := by
  simp only [confirmable, Bool.and_eq_true, Db.isBlockedOn] at confirms
  obtain ⟨⟨⟨only, blocks⟩, ledger⟩, ended⟩ := confirms
  obtain ⟨run, stored, ⟨blocked, waits⟩, atFirst⟩ := by
    simpa [Option.any_eq_true] using blocks
  obtain ⟨row, isRow⟩ := Option.isSome_iff_exists.1 ledger
  have named := (Db.run_eq_some.1 stored).2
  rcases ran : (reconcile plainHost requestId true someEvidence 1 (some (.dict []))).execute
    (kernelMachine plainHost) (fun _ => .quiet) config.world with ⟨_ | ⟨⟨⟩⟩, world'⟩
  · rw [ran] at ended
    cases ended
  · exact ⟨requestsApart_of_onlyRun only, run, row, world', named, atFirst, named ▸ stored,
      blocked, waits,
      isRow, .occurred (fun _ => .quiet) someEvidence 1 .empty (fun _ => rfl) ran⟩

theorem plainHost_uuid4_injective : Function.Injective plainHost.uuid4 := by
  intro index index' same
  have digits : index.repr = index'.repr := by simpa [plainHost] using same
  rw [Nat.repr_eq_ofList_toDigits, Nat.repr_eq_ofList_toDigits, String.ofList_inj] at digits
  exact digits_inj digits

/-- Nothing has taken the keys of the message and of the event of the resume. -/
def slotsEmpty (requestId : String) (config : KernelConfig) : Bool :=
  (config.world.db.message "id-0" (reconciledKey requestId)).isNone &&
    (config.world.db.existing (some (runStepKey "id-0" 1))).isNone

end PreActive.Kernel
