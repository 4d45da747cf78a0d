/-
Module: PreActive.Foundation.Pattern
Purpose: Patterns of literals and greedy or lazy runs, matched by backtracking, and the search for
  their matches from left to right.
Trusted boundary: human-reviewed reading of regular expressions
Main exports: Piece, Found, matchAt, finditer, erase, matchAt_greedy, Scanned,
  scanned, Scanned.unique
-/
import Mathlib.Data.List.Infix
import Mathlib.Data.List.TakeWhile

namespace PreActive.Foundation

/-! ### Patterns -/

/-- A piece of a pattern: a literal, or a run of at least `least` elements of a class, as long as
possible or, if lazy, as short as possible, in a group or not. -/
inductive Piece (α : Type) where
  | lit (text : List α)
  | run (p : α → Bool) (least : Nat) (isLazy isGroup : Bool)

/-- A match: the contents of its groups and the text after it. -/
structure Found (α : Type) where
  groups : List (List α)
  rest : List α
deriving DecidableEq

/-- The match with one more group before the others. -/
def Found.capture {α : Type} (isGroup : Bool) (taken : List α) (found : Found α) : Found α :=
  if isGroup then { found with groups := taken :: found.groups } else found

/-- The lengths of a run in the order in which a matcher tries them. -/
def runLengths (least most : Nat) (isLazy : Bool) : List Nat :=
  let lengths := List.range' least (most + 1 - least)
  if isLazy then lengths else lengths.reverse

variable {α : Type}

@[simp] theorem Found.capture_rest (isGroup : Bool) (taken : List α) (found : Found α) :
    (found.capture isGroup taken).rest = found.rest := by
  unfold Found.capture
  split <;> rfl

theorem mem_runLengths {least most n : Nat} {isLazy : Bool} :
    n ∈ runLengths least most isLazy ↔ least ≤ n ∧ n ≤ most := by
  unfold runLengths
  cases isLazy <;> simp [List.mem_range'_1] <;> omega

theorem takeWhile_run {p : α → Bool} {run after : List α} (all : ∀ c ∈ run, p c = true)
    (stops : ∀ c ∈ after.head?, p c = false) : (run ++ after).takeWhile p = run := by
  rw [List.takeWhile_append_of_pos all]
  cases after with
  | nil => simp
  | cons c after => simp [stops c (by simp)]

/-- A literal that starts in a text and cannot run over its end is a part of it. -/
theorem prefix_of_append {text after literal : List α} (nonempty : text ≠ [])
    (stops : ∀ c ∈ after.head?, c ∉ literal.tail)
    (isPrefix : literal <+: text ++ after) : literal <+: text := by
  refine List.prefix_of_prefix_length_le isPrefix (List.prefix_append text after)
    (Nat.not_lt.1 fun short => ?_)
  have inside := List.prefix_of_prefix_length_le (List.prefix_append text after) isPrefix short.le
  obtain ⟨tail, rfl⟩ := inside
  rw [List.prefix_append_right_inj] at isPrefix
  obtain ⟨c, text, rfl⟩ := List.exists_cons_of_ne_nil nonempty
  cases tail with
  | nil => simp at short
  | cons d tail =>
      obtain ⟨rest, rfl⟩ := isPrefix
      exact stops d rfl (by simp)

variable [DecidableEq α]

/-- The match of a pattern at the start of a text: of all ways to match, the first that a
backtracking matcher finds. -/
def matchAt : List (Piece α) → List α → Option (Found α)
  | [], text => some ⟨[], text⟩
  | .lit literal :: pieces, text =>
      if literal <+: text then matchAt pieces (text.drop literal.length) else none
  | .run p least isLazy isGroup :: pieces, text =>
      (runLengths least (text.takeWhile p).length isLazy).findSome? fun n =>
        (matchAt pieces (text.drop n)).map fun found => found.capture isGroup (text.take n)

/-- `pattern.finditer(text)` for a pattern that matches no empty text, after `skip` more elements
of the last match. -/
def finditer (pieces : List (Piece α)) : List α → Nat → List (Found α)
  | [], _ => []
  | _ :: text, skip + 1 => finditer pieces text skip
  | c :: text, 0 =>
      match matchAt pieces (c :: text) with
      | none => finditer pieces text 0
      | some found => found :: finditer pieces text (text.length - found.rest.length)

/-- `pattern.sub("", text)` for such a pattern. -/
def erase (pieces : List (Piece α)) : List α → Nat → List α
  | [], _ => []
  | _ :: text, skip + 1 => erase pieces text skip
  | c :: text, 0 =>
      match matchAt pieces (c :: text) with
      | none => c :: erase pieces text 0
      | some found => erase pieces text (text.length - found.rest.length)

/-! ### Matching one piece -/

section Pieces

variable {pieces : List (Piece α)} {p : α → Bool} {least : Nat} {isGroup : Bool}
  {text literal : List α} {found : Found α}

@[simp] theorem matchAt_nil (text : List α) : matchAt [] text = some ⟨[], text⟩ := rfl

@[simp] theorem matchAt_lit (literal text : List α) :
    matchAt (.lit literal :: pieces) (literal ++ text) = matchAt pieces text := by
  rw [matchAt, if_pos (List.prefix_append _ _), List.drop_left]

theorem matchAt_lit_eq_some : matchAt (.lit literal :: pieces) text = some found ↔
    ∃ after, text = literal ++ after ∧ matchAt pieces after = some found := by
  constructor
  · intro matched
    rw [matchAt] at matched
    split at matched
    · rename_i isPrefix
      obtain ⟨after, rfl⟩ := isPrefix
      rw [List.drop_left] at matched
      exact ⟨after, rfl, matched⟩
    · cases matched
  · rintro ⟨after, rfl, matched⟩
    rw [matchAt_lit, matched]

theorem matchAt_run_eq_some {isLazy : Bool}
    (matched : matchAt (.run p least isLazy isGroup :: pieces) text = some found) :
    ∃ taken after found', text = taken ++ after ∧ (∀ c ∈ taken, p c = true) ∧
      least ≤ taken.length ∧ matchAt pieces after = some found' ∧
        found = found'.capture isGroup taken := by
  rw [matchAt, List.findSome?_eq_some_iff] at matched
  obtain ⟨before, n, after, isLengths, matched, _⟩ := matched
  have bounds : n ∈ runLengths least (text.takeWhile p).length isLazy := by simp [isLengths]
  rw [mem_runLengths] at bounds
  rw [Option.map_eq_some_iff] at matched
  obtain ⟨found', matched, rfl⟩ := matched
  have whole : text.take n <+: text.takeWhile p := by
    refine List.prefix_of_prefix_length_le (List.take_prefix n text) (List.takeWhile_prefix p) ?_
    rw [List.length_take]
    omega
  have short : n ≤ text.length := bounds.2.trans (List.takeWhile_prefix p).length_le
  refine ⟨text.take n, text.drop n, found', (List.take_append_drop n text).symm, ?_, ?_, matched,
    rfl⟩
  · exact fun c member => List.mem_takeWhile_imp (whole.subset member)
  · rw [List.length_take]
    omega

/-- A greedy run takes all it can if the rest of the pattern matches there. -/
theorem matchAt_greedy {run after : List α} (all : ∀ c ∈ run, p c = true)
    (stops : ∀ c ∈ after.head?, p c = false) (enough : least ≤ run.length)
    (matched : matchAt pieces after = some found) :
    matchAt (.run p least false isGroup :: pieces) (run ++ after) =
      some (found.capture isGroup run) := by
  have lengths : runLengths least run.length false =
      run.length :: (List.range' least (run.length - least)).reverse := by
    simp only [runLengths, Bool.false_eq_true, if_false]
    rw [show run.length + 1 - least = run.length - least + 1 by omega, List.range'_1_concat,
      List.reverse_concat, show least + (run.length - least) = run.length by omega]
  rw [matchAt, takeWhile_run all stops, lengths, List.findSome?_cons, List.drop_left,
    List.take_left, matched]
  rfl

theorem findSome?_range'_eq_some {β : Type} {f : Nat → Option β} {b : β} :
    ∀ {start count : Nat}, (List.range' start count).findSome? f = some b ↔
      ∃ n, start ≤ n ∧ n < start + count ∧ f n = some b ∧
        ∀ m, start ≤ m → m < n → f m = none
  | start, 0 => by
      simp only [List.range'_zero, List.findSome?_nil, reduceCtorEq, false_iff, not_exists]
      omega
  | start, count + 1 => by
      rw [List.range'_succ, List.findSome?_cons]
      cases first : f start with
      | some here =>
          simp only [Option.some.injEq]
          constructor
          · rintro rfl
            exact ⟨start, le_refl _, by omega, first, fun m after before => by omega⟩
          · rintro ⟨n, after, _, found, none⟩
            rcases Nat.eq_or_lt_of_le after with rfl | later
            · exact Option.some.inj (first.symm.trans found)
            · rw [none start (le_refl _) later] at first
              cases first
      | none =>
          rw [findSome?_range'_eq_some]
          constructor
          · rintro ⟨n, after, inside, found, none⟩
            refine ⟨n, by omega, by omega, found, fun m later before => ?_⟩
            rcases Nat.eq_or_lt_of_le later with rfl | later
            · exact first
            · exact none m (by omega) before
          · rintro ⟨n, after, inside, found, none⟩
            have different : n ≠ start := by
              rintro rfl
              rw [first] at found
              cases found
            exact ⟨n, by omega, by omega, found, fun m later before => none m (by omega) before⟩

/-- A lazy run stops at the first place where the rest of the pattern matches. -/
theorem matchAt_lazy {taken after : List α} (all : ∀ c ∈ taken, p c = true)
    (enough : least ≤ taken.length) (matched : matchAt pieces after = some found)
    (earlier : ∀ n, least ≤ n → n < taken.length →
      matchAt pieces (taken.drop n ++ after) = none) :
    matchAt (.run p least true isGroup :: pieces) (taken ++ after) =
      some (found.capture isGroup taken) := by
  have room : taken.length ≤ ((taken ++ after).takeWhile p).length := by
    rw [List.takeWhile_append_of_pos all, List.length_append]
    omega
  simp only [matchAt, runLengths, if_true]
  refine findSome?_range'_eq_some.2 ⟨taken.length, enough, by omega, ?_, fun n after before => ?_⟩
  · rw [List.drop_left, List.take_left, matched]
    rfl
  · rw [List.drop_append_of_le_length (by omega), earlier n after before]
    rfl

/-- A run that fits leaves nothing but the choice of its length to the matcher. -/
theorem matchAt_run_isSome {isLazy : Bool} {taken after : List α} (all : ∀ c ∈ taken, p c = true)
    (enough : least ≤ taken.length) (fits : (matchAt pieces after).isSome = true) :
    (matchAt (.run p least isLazy isGroup :: pieces) (taken ++ after)).isSome = true := by
  rw [matchAt, List.findSome?_isSome_iff]
  refine ⟨taken.length, mem_runLengths.2 ⟨enough, ?_⟩, ?_⟩
  · rw [List.takeWhile_append_of_pos all, List.length_append]
    omega
  · rw [List.drop_left, Option.isSome_map]
    exact fits

theorem matchAt_run_isSome_nil {isLazy : Bool} (fits : (matchAt pieces text).isSome = true) :
    (matchAt (.run p 0 isLazy isGroup :: pieces) text).isSome = true := by
  have whole := @matchAt_run_isSome _ _ pieces p 0 isGroup isLazy [] text (fun _ => nofun)
    (Nat.zero_le _) fits
  rwa [List.nil_append] at whole

theorem matchAt_suffix {pieces : List (Piece α)} {text : List α} {found : Found α}
    (matched : matchAt pieces text = some found) : ∃ here, text = here ++ found.rest := by
  induction pieces generalizing text found with
  | nil =>
      cases matched
      exact ⟨[], rfl⟩
  | cons piece pieces ih =>
      cases piece with
      | lit literal =>
          obtain ⟨after, rfl, inner⟩ := matchAt_lit_eq_some.1 matched
          obtain ⟨here, same⟩ := ih inner
          exact ⟨literal ++ here, by rw [List.append_assoc, ← same]⟩
      | run p least isLazy isGroup =>
          obtain ⟨taken, after, found', rfl, _, _, inner, rfl⟩ := matchAt_run_eq_some matched
          obtain ⟨here, same⟩ := ih inner
          exact ⟨taken ++ here, by rw [List.append_assoc, Found.capture_rest, ← same]⟩

end Pieces

/-! ### Texts in which a pattern matches nowhere -/

section Refusal

/-- The pattern matches nowhere in the text, whatever of the text after it a match would take. -/
def Refuses (pieces : List (Piece α)) (text after : List α) : Prop :=
  ∀ n < text.length, matchAt pieces (text.drop n ++ after) = none

variable {pieces : List (Piece α)} {text after literal : List α}

theorem refuses_nil (after : List α) : Refuses pieces [] after := fun _ => nofun

theorem refuses_cons {c : α} : Refuses pieces (c :: text) after ↔
    matchAt pieces (c :: (text ++ after)) = none ∧ Refuses pieces text after := by
  constructor
  · intro refuses
    exact ⟨refuses 0 (by simp), fun n short => refuses (n + 1) (by simpa using short)⟩
  · rintro ⟨first, later⟩ n short
    cases n with
    | zero => exact first
    | succ n => exact later n (by simpa using short)

theorem Refuses.append {text' : List α} (first : Refuses pieces text (text' ++ after))
    (second : Refuses pieces text' after) : Refuses pieces (text ++ text') after := by
  induction text with
  | nil => exact second
  | cons c text ih =>
      rw [refuses_cons] at first
      rw [List.cons_append, refuses_cons, List.append_assoc]
      exact ⟨first.1, ih first.2⟩

theorem matchAt_lit_eq_none (differs : ¬ literal <+: text) :
    matchAt (.lit literal :: pieces) text = none := by
  rw [matchAt, if_neg differs]

/-- A text without the literal that the pattern starts with. -/
theorem refuses_lit (absent : ¬ literal <:+: text) (stops : ∀ c ∈ after.head?, c ∉ literal.tail) :
    Refuses (.lit literal :: pieces) text after := by
  intro n short
  refine matchAt_lit_eq_none fun isPrefix => absent ?_
  have nonempty : text.drop n ≠ [] := fun empty => by
    rw [List.drop_eq_nil_iff] at empty
    omega
  exact (prefix_of_append nonempty stops isPrefix).isInfix.trans (List.drop_suffix n text).isInfix

/-- A text without the element that the pattern starts with. -/
theorem refuses_of_not_mem {c : α} (absent : c ∉ text) :
    Refuses (.lit (c :: literal) :: pieces) text after := by
  intro n short
  refine matchAt_lit_eq_none fun isPrefix => absent (List.mem_of_mem_drop (i := n) ?_)
  rw [List.drop_eq_getElem_cons short, List.cons_append, List.cons_prefix_cons] at isPrefix
  rw [isPrefix.1, List.drop_eq_getElem_cons short]
  exact List.mem_cons_self

/-- A run before the pattern changes nothing if the text does not end in its class. -/
theorem Refuses.run {p : α → Bool} {least : Nat} {isLazy isGroup : Bool}
    (refuses : Refuses pieces text after) (ends : ∀ c ∈ text.getLast?, p c = false) :
    Refuses (.run p least isLazy isGroup :: pieces) text after := by
  intro n short
  rw [Option.eq_none_iff_forall_ne_some]
  intro found matched
  obtain ⟨taken, rest, inner, same, all, _, matched, _⟩ := matchAt_run_eq_some matched
  by_cases inside : n + taken.length < text.length
  · have here := refuses (n + taken.length) inside
    rw [← List.drop_drop, ← List.drop_append_of_le_length (by rw [List.length_drop]; omega), same,
      List.drop_left, matched] at here
    cases here
  · have isPrefix : text.drop n <+: taken := by
      refine List.prefix_of_prefix_length_le (List.prefix_append _ after) ?_ ?_
      · rw [same]
        exact List.prefix_append _ _
      · rw [List.length_drop]
        omega
    have nonempty : text.drop n ≠ [] := fun empty => by
      rw [List.drop_eq_nil_iff] at empty
      omega
    have last : text.getLast? = some ((text.drop n).getLast nonempty) := by
      rw [← List.getLast?_eq_some_getLast, List.getLast?_drop, if_neg (by omega)]
    have inClass := all _ (isPrefix.subset (List.getLast_mem nonempty))
    rw [ends _ last] at inClass
    cases inClass

end Refusal

/-! ### Searching -/

section Search

variable {pieces : List (Piece α)}

theorem finditer_skip (text : List α) : ∀ skip,
    finditer pieces text skip = finditer pieces (text.drop skip) 0 := by
  induction text with
  | nil => intro skip; simp [finditer]
  | cons c text ih =>
      intro skip
      cases skip with
      | zero => rfl
      | succ skip => rw [finditer, ih, List.drop_succ_cons]

theorem erase_skip (text : List α) : ∀ skip,
    erase pieces text skip = erase pieces (text.drop skip) 0 := by
  induction text with
  | nil => intro skip; simp [erase]
  | cons c text ih =>
      intro skip
      cases skip with
      | zero => rfl
      | succ skip => rw [erase, ih, List.drop_succ_cons]

/-- What a search from left to right finds: the matches, and the text without them. -/
inductive Scanned (pieces : List (Piece α)) : List α → List (Found α) → List α → Prop where
  | nothing {text : List α} (fails : ∀ n < text.length, matchAt pieces (text.drop n) = none) :
      Scanned pieces text [] text
  | found {before here left : List α} {found : Found α} {more : List (Found α)}
      (fails : ∀ n < before.length,
        matchAt pieces (before.drop n ++ (here ++ found.rest)) = none)
      (matched : matchAt pieces (here ++ found.rest) = some found) (advances : here ≠ [])
      (later : Scanned pieces found.rest more left) :
      Scanned pieces (before ++ (here ++ found.rest)) (found :: more) (before ++ left)

/-- The pattern matches no empty text. -/
def Advances (pieces : List (Piece α)) : Prop :=
  ∀ text found, matchAt pieces text = some found → found.rest.length < text.length

theorem advances_lit (c : α) (literal : List α) (pieces : List (Piece α)) :
    Advances (.lit (c :: literal) :: pieces) := by
  intro text found matched
  obtain ⟨after, rfl, inner⟩ := matchAt_lit_eq_some.1 matched
  obtain ⟨here, rfl⟩ := matchAt_suffix inner
  simp
  omega

theorem Scanned.skip {c : α} {text left : List α} {founds : List (Found α)}
    (refused : matchAt pieces (c :: text) = none) (scanned : Scanned pieces text founds left) :
    Scanned pieces (c :: text) founds (c :: left) := by
  cases scanned with
  | nothing fails =>
      refine .nothing fun n short => ?_
      cases n with
      | zero => exact refused
      | succ n => exact fails n (by simpa using short)
  | @found before here left found more fails matched advances later =>
      refine @Scanned.found _ _ pieces (c :: before) _ _ _ _ (fun n short => ?_) matched advances
        later
      cases n with
      | zero => exact refused
      | succ n => exact fails n (by simpa using short)

theorem Scanned.fails {text left : List α} (scanned : Scanned pieces text [] left) :
    ∀ n < text.length, matchAt pieces (text.drop n) = none := by
  cases scanned with
  | nothing fails => exact fails

/-- The search of `finditer` and `sub`. -/
theorem scanned (advances : Advances pieces) (text : List α) :
    Scanned pieces text (finditer pieces text 0) (erase pieces text 0) := by
  induction size : text.length using Nat.strong_induction_on generalizing text with
  | _ size ih =>
      subst size
      cases text with
      | nil => exact .nothing fun n short => absurd short (Nat.not_lt_zero n)
      | cons c text =>
          rw [finditer, erase]
          cases isMatch : matchAt pieces (c :: text) with
          | none => exact .skip isMatch (ih text.length (by simp) text rfl)
          | some found =>
              obtain ⟨here, same⟩ := matchAt_suffix isMatch
              have shorter := advances _ _ isMatch
              cases here with
              | nil =>
                  rw [List.nil_append] at same
                  rw [same] at shorter
                  omega
              | cons d here =>
                  rw [List.cons_append, List.cons.injEq] at same
                  obtain ⟨rfl, rfl⟩ := same
                  have skipped : (here ++ found.rest).length - found.rest.length = here.length := by
                    simp
                  simp only [skipped]
                  rw [finditer_skip, erase_skip, List.drop_left]
                  have later := ih found.rest.length shorter found.rest rfl
                  exact @Scanned.found _ _ pieces [] (c :: here) _ found _
                    (fun n short => absurd short (Nat.not_lt_zero n)) isMatch (by simp) later

theorem finditer_nothing {text : List α}
    (fails : ∀ n < text.length, matchAt pieces (text.drop n) = none) :
    finditer pieces text 0 = [] ∧ erase pieces text 0 = text := by
  induction text with
  | nil => exact ⟨rfl, rfl⟩
  | cons c text ih =>
      have first := fails 0 (by simp)
      rw [List.drop_zero] at first
      obtain ⟨none, whole⟩ := ih fun n short => fails (n + 1) (by simpa using short)
      rw [finditer, erase, first]
      exact ⟨none, congrArg (c :: ·) whole⟩

/-- There is only one such search. -/
theorem Scanned.unique {text left : List α} {founds : List (Found α)}
    (scanned : Scanned pieces text founds left) :
    finditer pieces text 0 = founds ∧ erase pieces text 0 = left := by
  induction scanned with
  | nothing fails => exact finditer_nothing fails
  | @found before here left found more fails matched advances later ih =>
      induction before with
      | nil =>
          obtain ⟨c, here, rfl⟩ := List.exists_cons_of_ne_nil advances
          rw [List.cons_append] at matched
          have skipped : (here ++ found.rest).length - found.rest.length = here.length := by simp
          rw [List.nil_append, List.cons_append, finditer, erase, matched]
          simp only [skipped]
          rw [finditer_skip, erase_skip, List.drop_left, ih.1, ih.2]
          exact ⟨rfl, rfl⟩
      | cons c before before_ih =>
          have first := fails 0 (by simp)
          rw [List.drop_zero, List.cons_append] at first
          obtain ⟨same, whole⟩ := before_ih fun n short => fails (n + 1) (by simpa using short)
          rw [List.cons_append, finditer, erase, first]
          exact ⟨same, congrArg (c :: ·) whole⟩

end Search

end PreActive.Foundation
