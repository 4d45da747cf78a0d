/-
Module: PreActive.Kernel.StorePaths
Purpose: The history rules of the store methods that workers and hosts call statement by
  statement, for any rule that admits their statements.
Trusted boundary: none
Main exports:
  Sql.proc_bind, getRun_obeys, recordRunMessage_obeys, recordRunStepDecision_obeys,
  getRunStepDecision_obeys, ackEvent_obeys, failEvent_obeys, blockRunOnEffect_obeys
-/
import PreActive.Kernel.Decisions
import PreActive.Kernel.ToolPaths

namespace PreActive.Kernel

open PreActive.Foundation PreActive.Python
open Program.Obeys

namespace Sql

variable {α β : Type}

@[simp] theorem proc_done (value : α) : Sql.proc (.done value) = .done value := rfl

@[simp] theorem proc_raise (exc : Exc) : Sql.proc (.raise exc : Sql α) = .raise exc := rfl

@[simp] theorem proc_ofExcept (outcome : Except Exc α) :
    Sql.proc (Program.ofExcept outcome) = Program.ofExcept outcome := by
  cases outcome <;> rfl

@[simp] theorem proc_call (stmt : Stmt) (next : Except Exc stmt.Result → Sql α) :
    Sql.proc (.call (F := stmtSignature) stmt next) =
      .call (F := kernel) (Op.sql stmt) fun result => (next result).proc := by
  unfold Sql.proc
  rw [Program.lift]
  congr 1
  funext result
  cases result <;> rfl

theorem proc_bind (first : Sql α) (next : α → Sql β) :
    Sql.proc (first.bind next) = first.proc.bind fun value => (next value).proc :=
  Program.lift_bind _ _ first next

theorem proc_attempt (sql : Sql α) : Sql.proc sql.attempt = sql.proc.attempt :=
  Program.lift_attempt _ _ sql

end Sql

variable {host : Host} {R : History → Op → Prop} {log : History}
variable {runId : String} {now : Time}

theorem getRun_obeys (allowed : R log (.sql (.selectRun runId))) :
    (getRun host runId).proc.Obeys R
      (returns fun log' row => log' = ⟨.sql (.selectRun runId), .ok (some row)⟩ :: log) log := by
  simp only [getRun, Stmt.perform, Program.perform, Program.bind_eq_bind,
    Program.call_bind, Sql.proc_call, Sql.proc_bind, Sql.proc_ofExcept]
  apply afterCall allowed
  intro found
  cases found with
  | none => exact of_raise
  | some row => exact of_done rfl

theorem appendJournal_obeys {eventType : JournalKind} {subjectId : Option String}
    {payload : List (String × JournalField)}
    (journal : ∀ log row, R log (.sql (.insertJournal row))) :
    (appendJournal eventType subjectId payload now).proc.Obeys R
      (returns fun log' seq =>
        Saw log' (.sql (.insertJournal ⟨eventType, subjectId, payload, now⟩)) seq) log := by
  simp only [appendJournal, Stmt.perform, Program.perform, Sql.proc_call, Sql.proc_ofExcept]
  refine ⟨journal _ _, fun result => ?_⟩
  cases result with
  | ok _ => exact Saw.here
  | error _ => exact trivial

theorem ackEvent_obeys {eventId workerId : String}
    (journal : ∀ log row, R log (.sql (.insertJournal row)))
    (allowed : R log (.sql (.ackEvent eventId workerId now))) :
    (ackEvent eventId workerId now).proc.Obeys R (returns fun _ _ => True) log := by
  simp only [ackEvent, Stmt.perform, Program.perform, Program.bind_eq_bind,
    Program.call_bind, Sql.proc_call, Sql.proc_bind, Sql.proc_ofExcept]
  apply afterCall allowed
  intro rowcount
  split
  · exact of_raise
  · rw [Sql.proc_bind]
    exact (appendJournal_obeys journal).seq fun _ _ _ _ => of_done trivial

theorem failEvent_obeys {eventId workerId : String} {retryAt : Option Time}
    (journal : ∀ log row, R log (.sql (.insertJournal row)))
    (allowed : R log (.sql (.releaseEvent eventId workerId (retryAt.getD now) now))) :
    (failEvent eventId workerId now retryAt).proc.Obeys R (returns fun _ _ => True) log := by
  simp only [failEvent, Stmt.perform, Program.perform, Program.bind_eq_bind,
    Program.call_bind, Sql.proc_call, Sql.proc_bind, Sql.proc_ofExcept]
  apply afterCall allowed
  intro rowcount
  split
  · exact of_raise
  · rw [Sql.proc_bind]
    exact (appendJournal_obeys journal).seq fun _ _ _ _ => of_done trivial

/-- A run that was blocked was changed. -/
theorem blockRunOnEffect_obeys {requestId error : String}
    (journal : ∀ log row, R log (.sql (.insertJournal row)))
    (allowed : R log (.sql (.blockRun runId requestId error now))) :
    (blockRunOnEffect runId requestId error now).proc.Obeys R
      (returns fun log' _ => Saw log' (.sql (.blockRun runId requestId error now)) (1 : Nat))
      log := by
  simp only [blockRunOnEffect, Stmt.perform, Program.perform, Program.bind_eq_bind,
    Program.call_bind, Sql.proc_call, Sql.proc_bind, Sql.proc_ofExcept]
  apply afterCall allowed
  intro rowcount
  split
  · exact of_raise
  · rename_i counted
    obtain rfl : rowcount = (1 : Nat) := not_not.1 counted
    rw [Sql.proc_bind]
    exact (appendJournal_obeys journal).seq fun log' _ longer _ =>
      of_done (Saw.here.later longer)

theorem updateRun_obeys {change : RunChange} (allowed : R log (.sql (.updateRun runId change))) :
    (updateRun runId change).proc.Obeys R
      (returns fun log' _ => Saw log' (.sql (.updateRun runId change)) ()) log := by
  unfold updateRun
  split
  · exact of_raise
  · simp only [Stmt.perform, Program.perform, Sql.proc_call, Sql.proc_ofExcept]
    refine ⟨allowed, fun result => ?_⟩
    cases result with
    | ok _ => exact Saw.here
    | error _ => exact trivial

/-- The message is stored, or another one with the same content was found under its key. -/
def MessageKept (log : History) (row : MessageRow) : Prop :=
  Saw log (.sql (.insertMessage row)) () ∨
    ∃ key kept, row.messageKey = some key ∧
      Saw log (.sql (.selectMessageByKey row.runId key)) (some kept) ∧ kept.role = row.role ∧
        kept.content = row.content

theorem recordRunMessage_obeys {role : Role} {content : String} {messageKey : Option String}
    (allowed : R log (.sql (.insertMessage ⟨runId, role, content, messageKey, now⟩)))
    (lookup : ∀ log key, R log (.sql (.selectMessageByKey runId key))) :
    (recordRunMessage runId role content now messageKey).proc.Obeys R
      (returns fun log' _ => MessageKept log' ⟨runId, role, content, messageKey, now⟩) log := by
  simp only [recordRunMessage, Stmt.perform, Program.perform, Program.bind_eq_bind,
    Program.call_attempt, Program.call_bind, Sql.proc_call, Sql.proc_bind, Sql.proc_attempt,
    Sql.proc_ofExcept]
  apply afterAttempt allowed
  intro result
  cases result with
  | ok _ => exact of_done (.inl Saw.here)
  | error exc =>
      simp only
      split
      · cases messageKey with
        | none => exact of_raise
        | some key =>
            simp only [Sql.proc_call, Sql.proc_bind, Sql.proc_ofExcept]
            apply afterCall (lookup _ key)
            intro found
            cases found with
            | none => exact of_raise
            | some kept =>
                simp only
                split
                · exact of_raise
                · rename_i same
                  simp only [ne_eq, not_or, not_not] at same
                  exact of_done (.inr ⟨key, kept, rfl, Saw.here, same.1, same.2⟩)
      · exact of_raise

/-- The text of the step's decision: it was read from its row, or written there. -/
def DecisionSeen (log : History) (runId : String) (step : Nat) (decisionJson : String) : Prop :=
  (∃ row, Saw log (.sql (.selectDecision runId step)) (some row) ∧
      row.decisionJson = decisionJson) ∨
    ∃ now, Saw log (.sql (.insertDecision ⟨runId, step, decisionJson, now⟩)) ()

theorem DecisionSeen.later {log log' : History} {step : Nat} {decisionJson : String}
    (seen : DecisionSeen log runId step decisionJson) (longer : log <:+ log') :
    DecisionSeen log' runId step decisionJson := by
  rcases seen with ⟨row, saw, same⟩ | ⟨now, saw⟩
  · exact .inl ⟨row, saw.later longer, same⟩
  · exact .inr ⟨now, saw.later longer⟩

theorem recordRunStepDecision_obeys {step : Nat} {response : ModelResponse}
    (allowed : R log (.sql (.insertDecision ⟨runId, step, decisionText response, now⟩)))
    (lookup : ∀ log' : History, log <:+ log' → R log' (.sql (.selectDecision runId step))) :
    (recordRunStepDecision runId step (decisionFromResponse response) now).proc.Obeys R
      (returns fun log' _ => DecisionSeen log' runId step (decisionText response)) log := by
  simp only [recordRunStepDecision, Stmt.perform, Program.perform, Program.bind_eq_bind,
    Program.call_attempt, Program.call_bind, Sql.proc_call, Sql.proc_bind, Sql.proc_attempt,
    Sql.proc_ofExcept]
  apply afterAttempt allowed
  intro result
  cases result with
  | ok _ => exact of_done (.inr ⟨now, Saw.here⟩)
  | error exc =>
      simp only
      split
      · simp only [Sql.proc_call, Sql.proc_bind, Sql.proc_ofExcept]
        apply afterCall (lookup _ (List.suffix_cons _ _))
        intro found
        cases found with
        | none => exact of_raise
        | some row =>
            simp only
            split
            · rename_i same
              exact of_done (.inl ⟨row, Saw.here, same⟩)
            · exact of_raise
      · exact of_raise

/-- A stored decision was read, or none was there. -/
theorem getRunStepDecision_obeys (host : Host) {step : Nat}
    (allowed : R log (.sql (.selectDecision runId step))) :
    (getRunStepDecision runId step).proc.Obeys R
      (returns fun log' decision => ∀ value, decision = some value →
        ∃ decisionJson, DecisionSeen log' runId step decisionJson ∧
          decodeDecision host decisionJson = responseFromDecision host value) log := by
  simp only [getRunStepDecision, Stmt.perform, Program.perform, Program.bind_eq_bind,
    Program.call_bind, Sql.proc_call, Sql.proc_bind, Sql.proc_ofExcept]
  apply afterCall allowed
  intro found
  cases found with
  | none => exact of_done fun value impossible => by cases impossible
  | some row =>
      simp only
      cases read : loads row.decisionJson with
      | error exc => exact of_raise
      | ok value =>
          simp only
          split
          · rename_i isDict
            refine of_done fun value' same => ⟨row.decisionJson, .inl ⟨row, Saw.here, rfl⟩, ?_⟩
            rw [decodeDecision, read, ← Option.some.inj same]
            simp only [isDict, if_true]
          · exact of_raise

end PreActive.Kernel
