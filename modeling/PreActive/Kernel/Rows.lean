/-
Module: PreActive.Kernel.Rows
Purpose: Selections by key, and what an insert or an update leaves to be selected.
Trusted boundary: none
Main exports:
  Db.run_eq_some, Db.effect_eq_some, Db.decision_eq_some, Db.message_eq_some,
  Db.run_updateRuns, Db.effect_updateEffects
-/
import PreActive.Kernel.Statements

namespace PreActive.Kernel

open PreActive.Foundation PreActive.Python

namespace Db

variable {db : Db}

theorem run_eq_some {runId : String} {row : RunRow} :
    db.run runId = some row ↔ row ∈ db.runs.rows ∧ row.id = runId := by
  rw [run, Table.select_eq_some, beq_iff_eq]
  intro a b inA inB
  simp only [beq_iff_eq] at inA inB
  simp [UniqueKeys.clash, UniqueKeys.key, inA, inB]

theorem run_eq_none {runId : String} :
    db.run runId = none ↔ ∀ row ∈ db.runs.rows, row.id ≠ runId := by
  simp [run, Table.select_eq_none]

theorem effect_eq_some {requestId : String} {row : EffectRow} :
    db.effect requestId = some row ↔ row ∈ db.effects.rows ∧ row.requestId = requestId := by
  rw [effect, Table.select_eq_some, beq_iff_eq]
  intro a b inA inB
  simp only [beq_iff_eq] at inA inB
  simp [UniqueKeys.clash, UniqueKeys.key, inA, inB]

theorem effect_eq_none {requestId : String} :
    db.effect requestId = none ↔ ∀ row ∈ db.effects.rows, row.requestId ≠ requestId := by
  simp [effect, Table.select_eq_none]

theorem decision_eq_some {runId : String} {step : Nat} {row : DecisionRow} :
    db.decision runId step = some row ↔
      row ∈ db.decisions.rows ∧ row.runId = runId ∧ row.step = step := by
  rw [decision, Table.select_eq_some, Bool.and_eq_true, beq_iff_eq, beq_iff_eq]
  intro a b inA inB
  simp only [Bool.and_eq_true, beq_iff_eq] at inA inB
  simp [UniqueKeys.clash, UniqueKeys.key, inA, inB]

theorem message_eq_some {runId messageKey : String} {row : MessageRow} :
    db.message runId messageKey = some row ↔
      row ∈ db.messages.rows ∧ row.runId = runId ∧ row.messageKey = some messageKey := by
  rw [message, Table.select_eq_some, Bool.and_eq_true, beq_iff_eq, beq_iff_eq]
  intro a b inA inB
  simp only [Bool.and_eq_true, beq_iff_eq] at inA inB
  simp [UniqueKeys.clash, UniqueKeys.key, inA, inB]

theorem eventByKey_eq_some {dedupKey : String} {row : EventRow} :
    db.eventByKey dedupKey = some row ↔
      row ∈ db.events.rows ∧ row.dedupKey = some dedupKey := by
  rw [eventByKey, Table.select_eq_some, beq_iff_eq]
  intro a b inA inB
  simp only [beq_iff_eq] at inA inB
  simp [UniqueKeys.clash, UniqueKeys.key, inA, inB]

theorem eventByKey_eq_none {dedupKey : String} :
    db.eventByKey dedupKey = none ↔ ∀ row ∈ db.events.rows, row.dedupKey ≠ some dedupKey := by
  simp [eventByKey, Table.select_eq_none]

end Db

/-- The first element in an order is an element. -/
theorem firstBy_mem {α : Type} {tieBreak : List α → Nat} {before : α → α → Bool} {items : List α}
    {item : α} (found : firstBy tieBreak before items = some item) : item ∈ items :=
  List.mem_of_mem_filter (List.mem_of_getElem? found)

/-! ### After an update -/

variable {world : World}

theorem run_updateRuns (world : World) (p : RunRow → Bool) (f : RunRow → RunRow)
    (keeps : ∀ row, UniqueKeys.key (f row) = UniqueKeys.key row) (runId : String) :
    (updateRuns world p f keeps).db.run runId =
      (world.db.run runId).map fun row => if p row then f row else row := by
  refine Table.select_update _ p _ f keeps fun row => ?_
  have same : (f row).id = row.id := congrArg Prod.fst (keeps row)
  rw [same]

theorem effect_updateEffects (requestId : String) (f : EffectRow → EffectRow)
    (keeps : ∀ row, UniqueKeys.key (f row) = UniqueKeys.key row) (other : String) :
    (updateEffects world requestId f keeps).db.effect other =
      (world.db.effect other).map fun row => if row.requestId = requestId then f row else row := by
  have updated := Table.select_update world.db.effects (fun row => row.requestId == requestId)
    (fun row => row.requestId == other) f keeps fun row => by
      have same : (f row).requestId = row.requestId := keeps row
      rw [same]
  simpa [updateEffects, Db.effect] using updated

theorem effect_updateEffects_self {requestId : String} {row : EffectRow}
    (stored : world.db.effect requestId = some row)
    {f : EffectRow → EffectRow} (keeps : ∀ row, UniqueKeys.key (f row) = UniqueKeys.key row) :
    (updateEffects world requestId f keeps).db.effect requestId = some (f row) := by
  rw [effect_updateEffects, stored, Option.map_some, if_pos (Db.effect_eq_some.1 stored).2]

/-- The `rowcount` of the update that blocks a run. -/
theorem count_isRunning (db : Db) (runId : String) :
    db.runs.count (RunRow.isRunning runId) = 1 ↔
      ∃ row, db.run runId = some row ∧ row.status = .running := by
  rw [Table.count_eq_one]
  · constructor
    · rintro ⟨row, member, matched⟩
      simp only [RunRow.isRunning, Bool.and_eq_true, beq_iff_eq] at matched
      exact ⟨row, Db.run_eq_some.2 ⟨member, matched.1⟩, matched.2⟩
    · rintro ⟨row, found, running⟩
      obtain ⟨member, isRun⟩ := Db.run_eq_some.1 found
      exact ⟨row, member, by simp [RunRow.isRunning, isRun, running]⟩
  · intro a b inA inB
    simp only [RunRow.isRunning, Bool.and_eq_true, beq_iff_eq] at inA inB
    simp [UniqueKeys.clash, UniqueKeys.key, inA.1, inB.1]

end PreActive.Kernel
