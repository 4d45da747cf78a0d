/-
Module: PreActive.Foundation.Verdict
Purpose: Ordered checks whose tests are partial.  A check returns, refuses its input, or fails on a
  test that it cannot carry out.  A verdict says the same without an evaluation: whether the input
  meets the check, and whether the checker comes to a spoiled test on its way.  One rule for each
  way in which checks are put together, and the comparison of two readings of one check.
Trusted boundary: none (fully proved)
Main exports:
  forEach, anyM, countM, Verdict, Verdict.ReportedBy, Verdict.TestedBy, Verdict.Foretells
-/
import Mathlib.Data.List.Basic

namespace PreActive.Foundation

variable {α E : Type}

/-! ### Loops that may raise -/

/-- `any(test(item) for item in items)` with a test that may raise. -/
def anyM (test : α → Except E Bool) : List α → Except E Bool
  | [] => .ok false
  | item :: rest => do
      if ← test item then return true
      anyM test rest

/-- `sum(test(item) for item in items)` with a test that may raise. -/
def countM (test : α → Except E Bool) : List α → Except E Nat
  | [] => .ok 0
  | item :: rest => do
      let here ← test item
      let later ← countM test rest
      return (if here then 1 else 0) + later

def forEach (check : α → Except E Unit) : List α → Except E Unit
  | [] => .ok ()
  | item :: rest => do
      check item
      forEach check rest

/-- `try: check() except Refusal: return False; return True` -/
def accepted (isRefusal : E → Bool) : Except E Unit → Except E Bool
  | .ok () => .ok true
  | .error exc => if isRefusal exc then .ok false else .error exc

/-! ### Verdicts -/

/-- What an ordered check makes of its input. -/
@[ext]
structure Verdict where
  /-- The input meets the check. -/
  met : Prop
  /-- The checker comes to a spoiled test before it is through. -/
  spoiled : Prop

namespace Verdict

/-- Nothing is asked. -/
def pass : Verdict := ⟨True, False⟩

/-- A test that is never spoiled. -/
def test (met : Prop) : Verdict := ⟨met, False⟩

/-- The second check is made when the first one is met. -/
def andThen (first second : Verdict) : Verdict :=
  ⟨first.met ∧ second.met, first.spoiled ∨ first.met ∧ second.spoiled⟩

/-- The second check is made when the first one is not met. -/
def orElse (first second : Verdict) : Verdict :=
  ⟨first.met ∨ second.met, first.spoiled ∨ ¬first.met ∧ second.spoiled⟩

/-- All in order, up to the first that is not met. -/
def all : List Verdict → Verdict
  | [] => pass
  | first :: rest => first.andThen (all rest)

/-- All in order, up to the first that is met. -/
def any : List Verdict → Verdict
  | [] => test False
  | first :: rest => first.orElse (any rest)

/-- No check is met, and each one is made. -/
def noneMet : List Verdict → Verdict
  | [] => pass
  | first :: rest => ⟨¬first.met ∧ (noneMet rest).met, first.spoiled ∨ (noneMet rest).spoiled⟩

/-- Exactly one check is met, and each one is made. -/
def exactlyOne : List Verdict → Verdict
  | [] => test False
  | first :: rest =>
      ⟨first.met ∧ (noneMet rest).met ∨ ¬first.met ∧ (exactlyOne rest).met,
        first.spoiled ∨ (noneMet rest).spoiled⟩

def negate (verdict : Verdict) : Verdict := ⟨¬verdict.met, verdict.spoiled⟩

@[simp] theorem pass_met : pass.met := trivial

@[simp] theorem pass_spoiled : ¬pass.spoiled := id

@[simp] theorem test_spoiled {met : Prop} : ¬(test met).spoiled := id

@[simp] theorem pass_andThen {verdict : Verdict} : pass.andThen verdict = verdict := by
  ext <;> simp [andThen, pass]

@[simp] theorem andThen_pass {verdict : Verdict} : verdict.andThen pass = verdict := by
  ext <;> simp [andThen, pass]

@[simp] theorem test_met {met : Prop} : (test met).met ↔ met := .rfl

@[simp] theorem negate_met {verdict : Verdict} : verdict.negate.met ↔ ¬verdict.met := .rfl

@[simp] theorem all_nil_met : (all []).met := trivial

@[simp] theorem all_cons_met {first : Verdict} {rest : List Verdict} :
    (all (first :: rest)).met ↔ first.met ∧ (all rest).met := .rfl

theorem all_met {verdicts : List Verdict} :
    (all verdicts).met ↔ ∀ verdict ∈ verdicts, verdict.met := by
  induction verdicts with
  | nil => simp [all]
  | cons first rest ih => simp [all, andThen, ih]

theorem any_met {verdicts : List Verdict} :
    (any verdicts).met ↔ ∃ verdict ∈ verdicts, verdict.met := by
  induction verdicts with
  | nil => simp [any, test]
  | cons first rest ih => simp [any, orElse, ih]

theorem noneMet_met {verdicts : List Verdict} :
    (noneMet verdicts).met ↔ ∀ verdict ∈ verdicts, ¬verdict.met := by
  induction verdicts with
  | nil => simp [noneMet]
  | cons first rest ih => simp [noneMet, ih]

/-- One branch is met and all the branches around it are not. -/
theorem exactlyOne_met {verdicts : List Verdict} :
    (exactlyOne verdicts).met ↔ ∃ before verdict after, verdicts = before ++ verdict :: after ∧
      verdict.met ∧ ∀ other ∈ before ++ after, ¬other.met := by
  induction verdicts with
  | nil => simp [exactlyOne, test]
  | cons first rest ih =>
      simp only [exactlyOne, noneMet_met, ih]
      constructor
      · rintro (⟨met, others⟩ | ⟨unmet, before, verdict, after, rfl, met, others⟩)
        · exact ⟨[], first, rest, rfl, met, others⟩
        · refine ⟨first :: before, verdict, after, rfl, met, ?_⟩
          simpa [unmet] using others
      · rintro ⟨before, verdict, after, split, met, others⟩
        cases before with
        | nil =>
            obtain ⟨rfl, rfl⟩ := List.cons.inj split
            exact .inl ⟨met, others⟩
        | cons head before =>
            obtain ⟨rfl, rfl⟩ := List.cons.inj split
            refine .inr ⟨others first (by simp), before, verdict, after, rfl, met, ?_⟩
            intro other member
            exact others other (by simp [List.mem_append.1 member])

/-! ### Checkers -/

section Checkers

-- which exceptions refuse the input, and which report a test that could not be carried out
variable (refusal fault : E → Prop)

/-- The checker returns when the check is met, refuses when it is not, and fails on a spoiled
test. -/
def ReportedBy (verdict : Verdict) : Except E Unit → Prop
  | .ok () => verdict.met ∧ ¬verdict.spoiled
  | .error exc => refusal exc ∧ ¬verdict.met ∧ ¬verdict.spoiled ∨ fault exc ∧ verdict.spoiled

/-- The test answers whether the check is met, or fails on a spoiled test. -/
def TestedBy (verdict : Verdict) : Except E Bool → Prop
  | .ok answer => (answer = true ↔ verdict.met) ∧ ¬verdict.spoiled
  | .error exc => fault exc ∧ verdict.spoiled

/-- The number of branches that are met, as far as it is asked for, or a spoiled branch. -/
def CountedBy (verdicts : List Verdict) : Except E Nat → Prop
  | .ok count => ¬(noneMet verdicts).spoiled ∧ (count = 0 ↔ (noneMet verdicts).met) ∧
      (count = 1 ↔ (exactlyOne verdicts).met)
  | .error exc => fault exc ∧ (noneMet verdicts).spoiled

variable {refusal fault} {first second : Except E Unit} {v w : Verdict}

namespace ReportedBy

theorem pass : Verdict.pass.ReportedBy refusal fault (.ok ()) := ⟨trivial, id⟩

/-- Two checks one after the other; the second may rely on the first. -/
theorem andThen (head : v.ReportedBy refusal fault first)
    (tail : v.met → w.ReportedBy refusal fault second) :
    (v.andThen w).ReportedBy refusal fault (first >>= fun _ => second) := by
  cases first with
  | ok value =>
      obtain ⟨met, clean⟩ := head
      have rest := tail met
      change (v.andThen w).ReportedBy refusal fault second
      cases second with
      | ok value =>
          obtain ⟨met', clean'⟩ := rest
          exact ⟨⟨met, met'⟩, not_or.2 ⟨clean, fun both => clean' both.2⟩⟩
      | error exc =>
          rcases rest with ⟨refused, unmet, clean'⟩ | ⟨failed, spoiled⟩
          · refine .inl ⟨refused, fun both => unmet both.2, ?_⟩
            exact not_or.2 ⟨clean, fun both => clean' both.2⟩
          · exact .inr ⟨failed, .inr ⟨met, spoiled⟩⟩
  | error exc =>
      rcases head with ⟨refused, unmet, clean⟩ | ⟨failed, spoiled⟩
      · refine .inl ⟨refused, fun both => unmet both.1, ?_⟩
        exact not_or.2 ⟨clean, fun both => unmet both.1⟩
      · exact .inr ⟨failed, .inl spoiled⟩

/-- A check that is followed by others. -/
theorem next {rest : List Verdict} (head : v.ReportedBy refusal fault first)
    (tail : v.met → (all rest).ReportedBy refusal fault second) :
    (all (v :: rest)).ReportedBy refusal fault (first >>= fun _ => second) := head.andThen tail

/-- The last check. -/
theorem last (reported : v.ReportedBy refusal fault first) :
    (all [v]).ReportedBy refusal fault first := by
  rwa [all, all, andThen_pass]

theorem each {verdict : α → Verdict} {check : α → Except E Unit} {items : List α}
    (reported : ∀ item ∈ items, (verdict item).ReportedBy refusal fault (check item)) :
    (all (items.map verdict)).ReportedBy refusal fault (forEach check items) := by
  induction items with
  | nil => exact pass
  | cons item rest ih =>
      apply (reported item (by simp)).andThen
      intro _
      apply ih
      intro item member
      exact reported item (by simp [member])

/-- A checker under `except` for refusals is a test. -/
theorem caught {result : Except E Unit} {isRefusal : E → Bool}
    (recognized : ∀ exc, isRefusal exc = true ↔ refusal exc)
    (apart : ∀ exc, fault exc → ¬refusal exc) (reported : v.ReportedBy refusal fault result) :
    v.TestedBy fault (accepted isRefusal result) := by
  cases result with
  | ok value => exact ⟨by simp [reported.1], reported.2⟩
  | error exc =>
      rcases reported with ⟨refused, unmet, clean⟩ | ⟨failed, spoiled⟩
      · rw [accepted, if_pos ((recognized exc).2 refused)]
        exact ⟨by simp [unmet], clean⟩
      · rw [accepted, if_neg ((recognized exc).not.2 (apart exc failed))]
        exact ⟨failed, spoiled⟩

end ReportedBy

namespace TestedBy

variable {answer : Except E Bool} {exc : E}

/-- `if not answer: raise exc` -/
theorem demanded (tested : v.TestedBy fault answer) (refuses : refusal exc) :
    v.ReportedBy refusal fault (answer >>= fun holds => if holds then .ok () else .error exc) := by
  cases answer with
  | error failed => exact .inr tested
  | ok holds =>
      obtain ⟨agrees, clean⟩ := tested
      cases holds with
      | true => exact ⟨agrees.1 rfl, clean⟩
      | false => exact .inl ⟨refuses, fun met => absurd (agrees.2 met) (by decide), clean⟩

/-- `if answer: raise exc` -/
theorem forbidden (tested : v.TestedBy fault answer) (refuses : refusal exc) :
    v.negate.ReportedBy refusal fault
      (answer >>= fun holds => if !holds then .ok () else .error exc) := by
  cases answer with
  | error failed => exact .inr tested
  | ok holds =>
      obtain ⟨agrees, clean⟩ := tested
      cases holds with
      | true => exact .inl ⟨refuses, not_not_intro (agrees.1 rfl), clean⟩
      | false => exact ⟨fun met => absurd (agrees.2 met) (by decide), clean⟩

variable {verdict : α → Verdict} {check : α → Except E Bool} {items : List α}

theorem some (tested : ∀ item ∈ items, (verdict item).TestedBy fault (check item)) :
    (any (items.map verdict)).TestedBy fault (anyM check items) := by
  induction items with
  | nil => exact ⟨by simp [any, test], id⟩
  | cons item rest ih =>
      have head := tested item (by simp)
      have tail := ih fun item member => tested item (by simp [member])
      simp only [anyM, List.map_cons, any]
      cases outcome : check item with
      | error exc =>
          rw [outcome] at head
          exact ⟨head.1, .inl head.2⟩
      | ok holds =>
          rw [outcome] at head
          obtain ⟨agrees, clean⟩ := head
          cases holds with
          | true =>
              have met := agrees.1 rfl
              exact ⟨by simp [orElse, met], not_or.2 ⟨clean, fun both => both.1 met⟩⟩
          | false =>
              have unmet : ¬(verdict item).met := fun met => absurd (agrees.2 met) (by decide)
              change (orElse (verdict item) (any (rest.map verdict))).TestedBy fault
                (anyM check rest)
              cases later : anyM check rest with
              | error exc =>
                  rw [later] at tail
                  exact ⟨tail.1, .inr ⟨unmet, tail.2⟩⟩
              | ok found =>
                  rw [later] at tail
                  refine ⟨?_, not_or.2 ⟨clean, fun both => tail.2 both.2⟩⟩
                  simp [orElse, unmet, tail.1]

/-- What the sum of the answers says about the branches. -/
theorem counted (tested : ∀ item ∈ items, (verdict item).TestedBy fault (check item)) :
    CountedBy fault (items.map verdict) (countM check items) := by
  induction items with
  | nil => exact ⟨id, by simp [noneMet], by simp [exactlyOne, test]⟩
  | cons item rest ih =>
      have head := tested item (by simp)
      have tail := ih fun item member => tested item (by simp [member])
      simp only [countM, List.map_cons]
      cases outcome : check item with
      | error exc =>
          rw [outcome] at head
          exact ⟨head.1, .inl head.2⟩
      | ok holds =>
          rw [outcome] at head
          obtain ⟨agrees, clean⟩ := head
          cases later : countM check rest with
          | error exc =>
              rw [later] at tail
              exact ⟨tail.1, .inr tail.2⟩
          | ok count =>
              rw [later] at tail
              obtain ⟨clean', zero, one⟩ := tail
              cases holds with
              | true =>
                  have met := agrees.1 rfl
                  exact ⟨not_or.2 ⟨clean, clean'⟩, by simp [noneMet, met],
                    by simp [exactlyOne, met, ← zero]⟩
              | false =>
                  have unmet : ¬(verdict item).met := fun met => absurd (agrees.2 met) (by decide)
                  exact ⟨not_or.2 ⟨clean, clean'⟩, by simp [noneMet, unmet, ← zero],
                    by simp [exactlyOne, unmet, ← one]⟩

theorem exactlyOne_spoiled {verdicts : List Verdict} :
    (exactlyOne verdicts).spoiled ↔ (noneMet verdicts).spoiled := by
  cases verdicts <;> rfl

/-- `if sum(...) != 1: raise exc` -/
theorem single (tested : ∀ item ∈ items, (verdict item).TestedBy fault (check item))
    (refuses : refusal exc) :
    (exactlyOne (items.map verdict)).ReportedBy refusal fault
      (countM check items >>= fun count =>
        if decide (count = 1) then .ok () else .error exc) := by
  have counts := counted tested
  cases outcome : countM check items with
  | error failed =>
      rw [outcome] at counts
      exact .inr ⟨counts.1, exactlyOne_spoiled.2 counts.2⟩
  | ok count =>
      rw [outcome] at counts
      obtain ⟨clean, -, one⟩ := counts
      change (exactlyOne (items.map verdict)).ReportedBy refusal fault
        (if decide (count = 1) then .ok () else .error exc)
      by_cases single : count = 1
      · rw [if_pos (decide_eq_true single)]
        exact ⟨one.1 single, exactlyOne_spoiled.not.2 clean⟩
      · rw [if_neg (mt of_decide_eq_true single)]
        exact .inl ⟨refuses, fun met => single (one.2 met), exactlyOne_spoiled.not.2 clean⟩

end TestedBy

end Checkers

/-! ### Two readings of one check -/

/-- The first reading of a check, spoiled also where the second one decides it in another way. -/
def against (v w : Verdict) : Verdict := ⟨v.met, v.spoiled ∨ ¬(v.met ↔ w.met)⟩

/-- Where the first reading comes to no spoiled test, the second one agrees with it. -/
def Foretells (v w : Verdict) : Prop := ¬v.spoiled → ¬w.spoiled ∧ (v.met ↔ w.met)

namespace Foretells

variable {v w v' w' : Verdict}

theorem refl : v.Foretells v := fun clean => ⟨clean, .rfl⟩

theorem against_left : (v.against w).Foretells v := fun clean => ⟨(not_or.1 clean).1, .rfl⟩

theorem against_right (sound : ¬w.spoiled) : (v.against w).Foretells w :=
  fun clean => ⟨sound, not_not.1 (not_or.1 clean).2⟩

theorem andThen (head : v.Foretells w) (tail : v'.Foretells w') :
    (v.andThen v').Foretells (w.andThen w') := by
  intro clean
  obtain ⟨clean₁, clean₂⟩ := not_or.1 clean
  obtain ⟨cleanHead, agrees⟩ := head clean₁
  by_cases met : v.met
  · obtain ⟨cleanTail, agrees'⟩ := tail fun spoiled => clean₂ ⟨met, spoiled⟩
    exact ⟨not_or.2 ⟨cleanHead, fun both => cleanTail both.2⟩, and_congr agrees agrees'⟩
  · have unmet := agrees.not.1 met
    exact ⟨not_or.2 ⟨cleanHead, fun both => unmet both.1⟩, by simp [Verdict.andThen, met, unmet]⟩

theorem orElse (head : v.Foretells w) (tail : v'.Foretells w') :
    (v.orElse v').Foretells (w.orElse w') := by
  intro clean
  obtain ⟨clean₁, clean₂⟩ := not_or.1 clean
  obtain ⟨cleanHead, agrees⟩ := head clean₁
  by_cases met : v.met
  · have met' := agrees.1 met
    exact ⟨not_or.2 ⟨cleanHead, fun both => both.1 met'⟩, by simp [Verdict.orElse, met, met']⟩
  · obtain ⟨cleanTail, agrees'⟩ := tail fun spoiled => clean₂ ⟨met, spoiled⟩
    exact ⟨not_or.2 ⟨cleanHead, fun both => cleanTail both.2⟩, or_congr agrees agrees'⟩

theorem negate (agree : v.Foretells w) : v.negate.Foretells w.negate := by
  intro clean
  obtain ⟨clean', agrees⟩ := agree clean
  exact ⟨clean', agrees.not⟩

variable {verdict verdict' : α → Verdict} {items : List α}

theorem all (agree : ∀ item ∈ items, (verdict item).Foretells (verdict' item)) :
    (Verdict.all (items.map verdict)).Foretells (Verdict.all (items.map verdict')) := by
  induction items with
  | nil => exact refl
  | cons item rest ih =>
      apply (agree item (by simp)).andThen
      apply ih
      intro item member
      exact agree item (by simp [member])

theorem any (agree : ∀ item ∈ items, (verdict item).Foretells (verdict' item)) :
    (Verdict.any (items.map verdict)).Foretells (Verdict.any (items.map verdict')) := by
  induction items with
  | nil => exact refl
  | cons item rest ih =>
      apply (agree item (by simp)).orElse
      apply ih
      intro item member
      exact agree item (by simp [member])

theorem noneMet (agree : ∀ item ∈ items, (verdict item).Foretells (verdict' item)) :
    (Verdict.noneMet (items.map verdict)).Foretells (Verdict.noneMet (items.map verdict')) := by
  induction items with
  | nil => exact refl
  | cons item rest ih =>
      intro clean
      obtain ⟨clean₁, clean₂⟩ := not_or.1 clean
      obtain ⟨cleanHead, agrees⟩ := agree item (by simp) clean₁
      obtain ⟨cleanTail, agrees'⟩ := ih (fun item member => agree item (by simp [member])) clean₂
      exact ⟨not_or.2 ⟨cleanHead, cleanTail⟩, and_congr agrees.not agrees'⟩

theorem exactlyOne (agree : ∀ item ∈ items, (verdict item).Foretells (verdict' item)) :
    (Verdict.exactlyOne (items.map verdict)).Foretells
      (Verdict.exactlyOne (items.map verdict')) := by
  induction items with
  | nil => exact refl
  | cons item rest ih =>
      have later : ∀ item ∈ rest, (verdict item).Foretells (verdict' item) :=
        fun item member => agree item (by simp [member])
      intro clean
      obtain ⟨clean₁, clean₂⟩ := not_or.1 clean
      obtain ⟨cleanHead, agrees⟩ := agree item (by simp) clean₁
      obtain ⟨cleanTail, agreesNone⟩ := noneMet later clean₂
      obtain ⟨-, agreesOne⟩ := ih later (TestedBy.exactlyOne_spoiled.not.2 clean₂)
      refine ⟨not_or.2 ⟨cleanHead, cleanTail⟩, ?_⟩
      exact or_congr (and_congr agrees agreesNone) (and_congr agrees.not agreesOne)

end Foretells

end Verdict

end PreActive.Foundation
