/-
Module: PreActive.Foundation.Ranking
Purpose: The best items of a list by a key, and when a shortlist that was cut by a coarser key
  still has them.
Trusted boundary: none
Main exports:
  descending, IsTop, isTop_take, isTop_iff_keys, IsTop.extend_iff, IsTop.shortlist_iff
-/
import Mathlib.Data.List.Sort
import Mathlib.Data.Prod.Lex

namespace PreActive.Foundation

variable {α κ : Type} [LinearOrder κ] {key : α → κ} {limit : Nat} {items chosen : List α}

/-- The items with the greatest keys first, and items of equal keys in their order. -/
def descending (key : α → κ) (items : List α) : List α :=
  items.insertionSort fun a b => key b ≤ key a

theorem perm_descending (key : α → κ) (items : List α) : (descending key items).Perm items :=
  List.perm_insertionSort _ items

theorem pairwise_descending (key : α → κ) (items : List α) :
    (descending key items).Pairwise fun a b => key b ≤ key a := by
  have total : Std.Total fun a b : α => key b ≤ key a := ⟨fun a b => le_total (key b) (key a)⟩
  have trans : IsTrans α fun a b => key b ≤ key a := ⟨fun _ _ _ ab bc => bc.trans ab⟩
  exact List.pairwise_insertionSort _ items

/-- The chosen items are the `limit` best ones: none that is left out ranks strictly above one of
them. -/
structure IsTop (key : α → κ) (limit : Nat) (items chosen : List α) : Prop where
  count : chosen.length = min limit items.length
  ordered : chosen.Pairwise fun a b => key b ≤ key a
  best : ∃ left, (chosen ++ left).Perm items ∧ ∀ out ∈ left, ∀ kept ∈ chosen, ¬ key kept < key out

/-- The first items of a ranking are the best ones. -/
theorem isTop_take (key : α → κ) (limit : Nat) (items : List α) :
    IsTop key limit items ((descending key items).take limit) where
  count := by rw [List.length_take, (perm_descending key items).length_eq]
  ordered := (pairwise_descending key items).sublist (List.take_sublist _ _)
  best := by
    refine ⟨(descending key items).drop limit, ?_, fun out isOut kept isKept => ?_⟩
    · rw [List.take_append_drop]
      exact perm_descending key items
    · have ordered := pairwise_descending key items
      rw [← List.take_append_drop limit (descending key items), List.pairwise_append] at ordered
      exact not_lt.2 (ordered.2.2 kept isKept out isOut)

/-- Lists of keys in descending order are the same when they hold the same keys. -/
theorem descending_unique {first second : List κ} (perm : first.Perm second)
    (ordered : first.Pairwise fun a b => b ≤ a) (ordered' : second.Pairwise fun a b => b ≤ a) :
    first = second :=
  perm.eq_of_pairwise (fun _ _ _ _ ab ba => le_antisymm ba ab) ordered ordered'

namespace IsTop

/-- The best items followed by the others, by their keys. -/
theorem keys_append {left : List α} (top : IsTop key limit items chosen)
    (perm : (chosen ++ left).Perm items) (below : ∀ out ∈ left, ∀ kept ∈ chosen,
      ¬ key kept < key out) :
    chosen.map key ++ (descending key left).map key = (descending key items).map key := by
  rw [← List.map_append]
  refine descending_unique ?_ ?_ ?_
  · refine List.Perm.map key (List.Perm.trans ?_ (perm_descending key items).symm)
    exact ((perm_descending key left).append_left chosen).trans perm
  · rw [List.pairwise_map, List.pairwise_append]
    refine ⟨top.ordered, pairwise_descending key left, fun kept isKept out isOut => ?_⟩
    exact not_lt.1 (below out ((perm_descending key left).mem_iff.1 isOut) kept isKept)
  · rw [List.pairwise_map]
    exact pairwise_descending key items

/-- The keys of the best items are the first keys of the whole ranking. -/
theorem keys (top : IsTop key limit items chosen) :
    chosen.map key = ((descending key items).take limit).map key := by
  obtain ⟨left, perm, below⟩ := top.best
  have whole := top.keys_append perm below
  have count : (chosen.map key).length = min limit ((descending key items).map key).length := by
    rw [List.length_map, List.length_map, (perm_descending key items).length_eq, top.count]
  rw [List.map_take, List.take_eq_take_min, ← count, ← whole, List.take_left]

end IsTop

/-- Some of the items are the best ones exactly if their keys are the first ones of the whole
ranking. -/
theorem isTop_iff_keys {left : List α} (perm : (chosen ++ left).Perm items) :
    IsTop key limit items chosen ↔
      chosen.map key = ((descending key items).take limit).map key := by
  constructor
  · exact IsTop.keys
  · intro same
    have top := isTop_take key limit items
    obtain ⟨left', perm', below'⟩ := top.best
    refine ⟨?_, ?_, left, perm, fun out isOut kept isKept => ?_⟩
    · rw [← top.count, ← List.length_map (f := key), same, List.length_map]
    · have ordered := top.ordered
      rw [← List.pairwise_map (f := key) (R := fun a b => b ≤ a)] at ordered ⊢
      rwa [same]
    · -- what is left out has the keys that the ranking leaves out
      have others : (left.map key).Perm (left'.map key) := by
        have both := (perm.trans perm'.symm).map key
        rw [List.map_append, List.map_append, same] at both
        exact (List.perm_append_left_iff _).1 both
      obtain ⟨out', isOut', sameOut⟩ :=
        List.mem_map.1 (others.mem_iff.1 (List.mem_map_of_mem (f := key) isOut))
      have keptKey : key kept ∈ ((descending key items).take limit).map key :=
        same ▸ List.mem_map_of_mem isKept
      obtain ⟨kept', isKept', sameKept⟩ := List.mem_map.1 keptKey
      rw [← sameOut, ← sameKept]
      exact below' out' isOut' kept' isKept'

namespace IsTop

/-- A part that has enough items, where it is not everything, offers as many as there are. -/
theorem count_of_part {part others : List α} (top : IsTop key limit part chosen)
    (perm : (part ++ others).Perm items) (filled : others ≠ [] → limit ≤ part.length) :
    chosen.length = min limit items.length := by
  rw [top.count, ← perm.length_eq, List.length_append]
  cases others with
  | nil => rw [List.length_nil, Nat.add_zero]
  | cons out others =>
      have enough := filled (List.cons_ne_nil out others)
      omega

/-- The best items of a part are the best of all exactly if nothing outside of the part ranks
strictly above one of them. -/
theorem extend_iff {part others : List α} (top : IsTop key limit part chosen)
    (perm : (part ++ others).Perm items) (count : chosen.length = min limit items.length) :
    IsTop key limit items chosen ↔ ∀ out ∈ others, ∀ kept ∈ chosen, ¬ key kept < key out := by
  obtain ⟨spare, perm', below⟩ := top.best
  have whole : (chosen ++ (spare ++ others)).Perm items := by
    rw [← List.append_assoc]
    exact (perm'.append_right others).trans perm
  constructor
  · rintro ⟨_, _, left, permLeft, belowLeft⟩ out isOut
    have same : left.Perm (spare ++ others) :=
      (List.perm_append_left_iff chosen).1 (permLeft.trans whole.symm)
    exact belowLeft out (same.mem_iff.2 (List.mem_append_right spare isOut))
  · intro under
    refine ⟨count, top.ordered, spare ++ others, whole, fun out isOut => ?_⟩
    rcases List.mem_append.1 isOut with isSpare | isOther
    · exact below out isSpare
    · exact under out isOther

end IsTop

/-! ### Shortlists

Items are ranked by a score and, where the scores agree, by a coarser key.  A shortlist takes the
first items by the coarser key alone. -/

section Shortlist

variable {σ γ : Type} [LinearOrder σ] [LinearOrder γ] {score : α → σ} {coarse : α → γ}
  {part others : List α}

/-- The score first and the coarser key where the scores agree. -/
def scoredKey (score : α → σ) (coarse : α → γ) (item : α) : σ ×ₗ γ :=
  toLex (score item, coarse item)

theorem scoredKey_lt {a b : α} :
    scoredKey score coarse a < scoredKey score coarse b ↔
      score a < score b ∨ score a = score b ∧ coarse a < coarse b := Prod.Lex.toLex_lt_toLex

/-- An item outside of the shortlist ranks above one of it only by its score. -/
theorem scoredKey_lt_of_le {a b : α} (le : coarse b ≤ coarse a) :
    scoredKey score coarse a < scoredKey score coarse b ↔ score a < score b := by
  rw [scoredKey_lt]
  exact or_iff_left fun both => absurd both.2 (not_lt.2 le)

/-- With as many chosen as asked for, none of them is outscored exactly if enough of the items
score at least as much. -/
theorem IsTop.unscored_iff (top : IsTop (scoredKey score coarse) limit part chosen)
    (full : chosen.length = limit) (bar : σ) :
    (∀ kept ∈ chosen, ¬ score kept < bar) ↔ limit ≤ part.countP fun item => bar ≤ score item := by
  obtain ⟨left, perm, below⟩ := top.best
  rw [← perm.countP_eq, List.countP_append]
  constructor
  · intro none
    have all : chosen.countP (fun item => bar ≤ score item) = chosen.length := by
      rw [List.countP_eq_length]
      exact fun kept isKept => decide_eq_true (not_lt.1 (none kept isKept))
    rw [all, full]
    exact Nat.le_add_right _ _
  · intro enough kept isKept low
    have outside : left.countP (fun item => bar ≤ score item) = 0 := by
      rw [List.countP_eq_zero]
      intro out isOut high
      have above : scoredKey score coarse kept < scoredKey score coarse out :=
        scoredKey_lt.2 (.inl (low.trans_le (of_decide_eq_true high)))
      exact below out isOut kept isKept above
    have inside : chosen.countP (fun item => bar ≤ score item) < chosen.length := by
      refine lt_of_le_of_ne List.countP_le_length fun all => ?_
      exact absurd low (not_lt.2 (of_decide_eq_true (List.countP_eq_length.1 all kept isKept)))
    omega

/-- The best items of a shortlist are the best of all exactly if every item beyond the shortlist
has enough items in it that score at least as much. -/
theorem IsTop.shortlist_iff (top : IsTop (scoredKey score coarse) limit part chosen)
    (perm : (part ++ others).Perm items)
    (cut : ∀ kept ∈ part, ∀ out ∈ others, coarse out ≤ coarse kept)
    (filled : others ≠ [] → limit ≤ part.length) :
    IsTop (scoredKey score coarse) limit items chosen ↔
      ∀ out ∈ others, limit ≤ part.countP fun item => score out ≤ score item := by
  obtain ⟨spare, perm', _⟩ := top.best
  have inPart : ∀ kept ∈ chosen, kept ∈ part := fun kept isKept =>
    perm'.mem_iff.1 (List.mem_append_left spare isKept)
  rw [top.extend_iff perm (top.count_of_part perm filled)]
  refine forall₂_congr fun out isOut => ?_
  have full : chosen.length = limit := by
    rw [top.count]
    exact Nat.min_eq_left (filled (List.ne_nil_of_mem isOut))
  rw [← top.unscored_iff full]
  refine forall₂_congr fun kept isKept => ?_
  rw [scoredKey_lt_of_le (cut kept (inPart kept isKept) out isOut)]

end Shortlist

end PreActive.Foundation
