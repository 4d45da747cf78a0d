/-
Module: PreActive.Foundation.Selection
Purpose: One pass over ranked items that keeps each item which still fits beside those kept before.
Trusted boundary: none
Main exports: Picks, Picks.sublist, Picks.fitting, Picks.of_none
-/
import Mathlib.Data.List.Basic

namespace PreActive.Foundation

variable {α : Type} {fits : List α → Prop} {kept items chosen : List α}

/-- With some items kept already, the pass over the remaining ones ends with the chosen items.
Whether an item fits is asked once, at its turn. -/
inductive Picks (fits : List α → Prop) : List α → List α → List α → Prop where
  | done {kept : List α} : Picks fits kept [] kept
  | take {kept items chosen : List α} {item : α} (room : fits (kept ++ [item]))
      (later : Picks fits (kept ++ [item]) items chosen) : Picks fits kept (item :: items) chosen
  | skip {kept items chosen : List α} {item : α} (noRoom : ¬ fits (kept ++ [item]))
      (later : Picks fits kept items chosen) : Picks fits kept (item :: items) chosen

namespace Picks

/-- What is added is a part of the items, in their order. -/
theorem sublist (picks : Picks fits kept items chosen) :
    ∃ added, chosen = kept ++ added ∧ added.Sublist items := by
  induction picks with
  | done => exact ⟨[], by simp, List.Sublist.slnil⟩
  | @take kept items chosen item room later ih =>
      obtain ⟨added, same, part⟩ := ih
      exact ⟨item :: added, by simp [same], part.cons_cons item⟩
  | skip noRoom later ih =>
      obtain ⟨added, same, part⟩ := ih
      exact ⟨added, same, part.cons _⟩

/-- If anything was added, the result fits. -/
theorem fitting (picks : Picks fits kept items chosen) : chosen = kept ∨ fits chosen := by
  induction picks with
  | done => exact .inl rfl
  | take room later ih =>
      rcases ih with rfl | holds
      · exact .inr room
      · exact .inr holds
  | skip noRoom later ih => exact ih

/-- Where nothing fits, nothing is added. -/
theorem of_none (none : ∀ item ∈ items, ¬ fits (kept ++ [item])) : Picks fits kept items kept := by
  induction items with
  | nil => exact .done
  | cons item items ih =>
      have first : ¬ fits (kept ++ [item]) := none item List.mem_cons_self
      exact .skip first (ih fun later member => none later (List.mem_cons_of_mem _ member))

end Picks

end PreActive.Foundation
