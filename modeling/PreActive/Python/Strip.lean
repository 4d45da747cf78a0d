/-
Module: PreActive.Python.Strip
Purpose: What `str.strip` takes away from a text and what it leaves.
Trusted boundary: none
Main exports: leading, trailing, endsBlank, pyStrip_split, trailing_eq_nil
-/
import PreActive.Python.Values
import Mathlib.Data.List.TakeWhile

namespace PreActive.Python

variable {text : String}

/-- The whitespace a text starts with. -/
def leading (text : String) : List Char := text.toList.takeWhile isPySpace

/-- The whitespace a text ends with, in a text that has other characters. -/
def trailing (text : String) : List Char :=
  ((text.toList.dropWhile isPySpace).reverse.takeWhile isPySpace).reverse

/-- The last character is whitespace. -/
def endsBlank (text : String) : Bool := text.toList.getLast?.any isPySpace

theorem toList_pyStrip (text : String) :
    (pyStrip text).toList =
      ((text.toList.dropWhile isPySpace).reverse.dropWhile isPySpace).reverse := by
  simp [pyStrip]

/-- A text is its stripped form between its leading and its trailing whitespace. -/
theorem pyStrip_split (text : String) :
    text.toList = leading text ++ (pyStrip text).toList ++ trailing text := by
  have inner : text.toList.dropWhile isPySpace = (pyStrip text).toList ++ trailing text := by
    rw [toList_pyStrip, trailing, ← List.reverse_append, List.takeWhile_append_dropWhile,
      List.reverse_reverse]
  rw [List.append_assoc, ← inner, leading, List.takeWhile_append_dropWhile]

theorem isPySpace_of_mem_leading {c : Char} (member : c ∈ leading text) : isPySpace c = true :=
  List.mem_takeWhile_imp member

theorem isPySpace_of_mem_trailing {c : Char} (member : c ∈ trailing text) : isPySpace c = true :=
  List.mem_takeWhile_imp (List.mem_reverse.1 member)

/-- A prefix that is not all whitespace goes beyond the leading whitespace. -/
theorem leading_lt_of_prefix {start : List Char} (isPrefix : start <+: text.toList)
    (visible : ∃ c ∈ start, isPySpace c = false) : (leading text).length < start.length := by
  obtain ⟨c, member, shown⟩ := visible
  by_contra short
  have whole : leading text <+: text.toList := List.takeWhile_prefix _
  have inside := List.prefix_of_prefix_length_le isPrefix whole (Nat.not_lt.1 short)
  rw [isPySpace_of_mem_leading (inside.subset member)] at shown
  cases shown

/-- A suffix that is not all whitespace begins before the trailing whitespace. -/
theorem trailing_lt_of_suffix {ending : List Char} (isSuffix : ending <:+ text.toList)
    (visible : ∃ c ∈ ending, isPySpace c = false) : (trailing text).length < ending.length := by
  obtain ⟨c, member, shown⟩ := visible
  by_contra short
  have whole : trailing text <:+ text.toList :=
    ⟨leading text ++ (pyStrip text).toList, (pyStrip_split text).symm⟩
  have inside := List.suffix_of_suffix_length_le isSuffix whole (Nat.not_lt.1 short)
  rw [isPySpace_of_mem_trailing (inside.subset member)] at shown
  cases shown

/-- A text with a visible character loses nothing at its end exactly if it ends in no whitespace. -/
theorem trailing_eq_nil (visible : ∃ c ∈ text.toList, isPySpace c = false) :
    trailing text = [] ↔ endsBlank text = false := by
  have rest : text.toList.dropWhile isPySpace ≠ [] := by
    rw [Ne, List.dropWhile_eq_nil_iff]
    intro blank
    obtain ⟨c, member, shown⟩ := visible
    rw [blank c member] at shown
    cases shown
  have last : text.toList.getLast? = (text.toList.dropWhile isPySpace).reverse.head? := by
    conv_lhs => rw [← List.takeWhile_append_dropWhile (p := isPySpace) (l := text.toList)]
    rw [List.getLast?_append, List.head?_reverse]
    cases found : (text.toList.dropWhile isPySpace).getLast? with
    | none => exact absurd (List.getLast?_eq_none_iff.1 found) rest
    | some c => rfl
  rw [trailing, List.reverse_eq_nil_iff, endsBlank, last]
  cases (text.toList.dropWhile isPySpace).reverse with
  | nil => simp
  | cons c others => by_cases blank : isPySpace c = true <;> simp [blank]

end PreActive.Python
