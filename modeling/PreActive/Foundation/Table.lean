/-
Module: PreActive.Foundation.Table
Purpose: Tables of rows in insertion order whose uniqueness constraints hold by construction,
  with the insert, select and update statements over them.
Trusted boundary: none
Main exports: UniqueKeys, Table, Table.insert, Table.select, Table.update
-/
import Mathlib.Data.List.Basic
import Mathlib.Data.List.Pairwise

namespace PreActive.Foundation

/-- The columns of a row type that carry uniqueness constraints, and when two values of them
may not stand in one table. -/
class UniqueKeys (α : Type) where
  Key : Type
  key : α → Key
  clash : Key → Key → Bool

/-- Rows in insertion order, no two of which clash. -/
structure Table (α : Type) [UniqueKeys α] where
  rows : List α
  unique : rows.Pairwise fun a b => UniqueKeys.clash (UniqueKeys.key a) (UniqueKeys.key b) = false

namespace Table

variable {α : Type} [UniqueKeys α]

def empty : Table α := ⟨[], .nil⟩

/-- `SELECT ... WHERE p LIMIT 1` in insertion order. -/
def select (table : Table α) (p : α → Bool) : Option α := table.rows.find? p

/-- `INSERT`; `none` is the integrity error of a uniqueness constraint. -/
def insert (table : Table α) (row : α) : Option (Table α) :=
  if fresh : ∀ old ∈ table.rows,
      UniqueKeys.clash (UniqueKeys.key old) (UniqueKeys.key row) = false then
    some
      { rows := table.rows ++ [row]
        unique := by
          rw [List.pairwise_append]
          refine ⟨table.unique, List.pairwise_singleton _ _, fun old member new single => ?_⟩
          rw [List.mem_singleton] at single
          exact single ▸ fresh old member }
  else none

/-- `UPDATE ... SET f WHERE p` of columns outside the constraints. -/
def update (table : Table α) (p : α → Bool) (f : α → α)
    (keeps : ∀ row, UniqueKeys.key (f row) = UniqueKeys.key row) : Table α where
  rows := table.rows.map fun row => if p row then f row else row
  unique := by
    have same : ∀ row, UniqueKeys.key (if p row then f row else row) = UniqueKeys.key row := by
      intro row
      split
      · exact keeps row
      · rfl
    rw [List.pairwise_map]
    exact table.unique.imp fun apart => by rw [same, same]; exact apart

/-- The `rowcount` of an update. -/
def count (table : Table α) (p : α → Bool) : Nat := table.rows.countP p

/-! ### Reading back -/

@[simp] theorem rows_empty : (empty : Table α).rows = [] := rfl

theorem rows_insert {table table' : Table α} {row : α} (inserted : table.insert row = some table') :
    table'.rows = table.rows ++ [row] := by
  simp only [insert] at inserted
  split at inserted
  · rw [← Option.some.inj inserted]
  · cases inserted

/-- An insert fails only on a clashing row. -/
theorem exists_clash_of_insert_none {table : Table α} {row : α}
    (refused : table.insert row = none) :
    ∃ old ∈ table.rows, UniqueKeys.clash (UniqueKeys.key old) (UniqueKeys.key row) = true := by
  simp only [insert] at refused
  split at refused
  · cases refused
  · rename_i clashing
    simpa using clashing

theorem insert_isSome {table : Table α} (row : α)
    (fresh : ∀ old ∈ table.rows,
      UniqueKeys.clash (UniqueKeys.key old) (UniqueKeys.key row) = false) :
    ∃ table', table.insert row = some table' := by
  simp only [insert]
  rw [dif_pos fresh]
  exact ⟨_, rfl⟩

/-- A successful insert found no clashing row. -/
theorem fresh_of_insert {table table' : Table α} {row : α}
    (inserted : table.insert row = some table') :
    ∀ old ∈ table.rows, UniqueKeys.clash (UniqueKeys.key old) (UniqueKeys.key row) = false := by
  simp only [insert] at inserted
  split at inserted
  · assumption
  · cases inserted

theorem select_insert {table table' : Table α} {row : α} (p : α → Bool)
    (inserted : table.insert row = some table') :
    table'.select p = (table.select p).or (if p row then some row else none) := by
  rw [select, rows_insert inserted, List.find?_append, select]
  congr 1
  by_cases matched : p row = true <;> simp [matched]

@[simp] theorem rows_update (table : Table α) (p : α → Bool) (f : α → α)
    (keeps : ∀ row, UniqueKeys.key (f row) = UniqueKeys.key row) :
    (table.update p f keeps).rows = table.rows.map fun row => if p row then f row else row := rfl

/-- A selection that the update cannot influence finds the updated version of the same row. -/
theorem select_update (table : Table α) (p q : α → Bool) (f : α → α)
    (keeps : ∀ row, UniqueKeys.key (f row) = UniqueKeys.key row)
    (stable : ∀ row, q (f row) = q row) :
    (table.update p f keeps).select q =
      (table.select q).map fun row => if p row then f row else row := by
  have same : (q ∘ fun row => if p row then f row else row) = q := by
    funext row
    simp only [Function.comp_apply]
    split
    · exact stable row
    · rfl
  rw [select, rows_update, List.find?_map, same, select]

/-- Tables with the same rows are the same. -/
theorem eq_of_rows {table table' : Table α} (same : table.rows = table'.rows) : table = table' := by
  cases table
  cases table'
  cases same
  rfl

/-- An update that matches nothing changes nothing. -/
theorem update_eq_self {table : Table α} {p : α → Bool} {f : α → α}
    {keeps : ∀ row, UniqueKeys.key (f row) = UniqueKeys.key row}
    (apart : ∀ row ∈ table.rows, p row = false) : table.update p f keeps = table := by
  refine eq_of_rows ((List.map_congr_left fun row member => ?_).trans (List.map_id' _))
  rw [apart row member, if_neg Bool.false_ne_true]

theorem mem_of_select {table : Table α} {p : α → Bool} {row : α}
    (selected : table.select p = some row) : row ∈ table.rows :=
  List.mem_of_find?_eq_some selected

theorem holds_of_select {table : Table α} {p : α → Bool} {row : α}
    (selected : table.select p = some row) : p row = true :=
  List.find?_some selected

theorem select_eq_none {table : Table α} {p : α → Bool} :
    table.select p = none ↔ ∀ row ∈ table.rows, p row = false := by
  simp [select]

/-- Two rows of a table that would clash are the same row. -/
theorem eq_of_clash {table : Table α} {a b : α} (inA : a ∈ table.rows) (inB : b ∈ table.rows)
    (clash : UniqueKeys.clash (UniqueKeys.key a) (UniqueKeys.key b) = true)
    (clash' : UniqueKeys.clash (UniqueKeys.key b) (UniqueKeys.key a) = true) : a = b := by
  let Distinct : α → α → Prop := fun a b =>
    UniqueKeys.clash (UniqueKeys.key a) (UniqueKeys.key b) = true →
      UniqueKeys.clash (UniqueKeys.key b) (UniqueKeys.key a) = true → a = b
  have forward : table.rows.Pairwise Distinct :=
    table.unique.imp fun apart clash _ => absurd clash (by simp [apart])
  have backward : table.rows.Pairwise (flip Distinct) :=
    table.unique.imp fun apart _ clash => absurd clash (by simp [apart])
  exact List.Pairwise.forall_of_forall_of_flip (fun _ _ _ _ => rfl) forward backward inA inB
    clash clash'

/-! ### Selections by a key -/

section Keyed

variable {p : α → Bool}

/-- A condition that fixes a key finds a row exactly when the row is there. -/
theorem select_eq_some {table : Table α} {row : α}
    (keyed : ∀ a b, p a = true → p b = true →
      UniqueKeys.clash (UniqueKeys.key a) (UniqueKeys.key b) = true) :
    table.select p = some row ↔ row ∈ table.rows ∧ p row = true := by
  refine ⟨fun selected => ⟨mem_of_select selected, holds_of_select selected⟩, ?_⟩
  rintro ⟨member, holds⟩
  cases selected : table.select p with
  | none =>
      rw [select_eq_none.1 selected row member] at holds
      cases holds
  | some other =>
      have there := holds_of_select selected
      rw [eq_of_clash (mem_of_select selected) member (keyed _ _ there holds)
        (keyed _ _ holds there)]

/-- A condition that fixes a key holds of at most one row. -/
theorem count_le_one (table : Table α)
    (keyed : ∀ a b, p a = true → p b = true →
      UniqueKeys.clash (UniqueKeys.key a) (UniqueKeys.key b) = true) :
    table.count p ≤ 1 := by
  rw [count, List.countP_eq_length_filter]
  have apart := table.unique.filter p
  cases found : table.rows.filter p with
  | nil => simp
  | cons first rest =>
      cases rest with
      | nil => simp
      | cons second rest =>
          have inFirst : p first = true := (List.mem_filter.1 (by rw [found]; simp)).2
          have inSecond : p second = true := (List.mem_filter.1 (by rw [found]; simp)).2
          rw [found, List.pairwise_cons] at apart
          have clear := apart.1 second (by simp)
          rw [keyed _ _ inFirst inSecond] at clear
          cases clear

theorem count_pos {table : Table α} : 0 < table.count p ↔ ∃ row ∈ table.rows, p row = true :=
  List.countP_pos_iff

/-- The `rowcount` of an update by key is 1 exactly when the row is there. -/
theorem count_eq_one {table : Table α}
    (keyed : ∀ a b, p a = true → p b = true →
      UniqueKeys.clash (UniqueKeys.key a) (UniqueKeys.key b) = true) :
    table.count p = 1 ↔ ∃ row ∈ table.rows, p row = true := by
  rw [← count_pos]
  have := count_le_one table keyed
  omega

end Keyed

end Table

end PreActive.Foundation
