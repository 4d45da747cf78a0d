/-
Module: PreActive.Bridge.Markup
Purpose: What the two patterns of the native markup match: one complete tool-call element, and the
  parameter elements inside it.
Trusted boundary: human-reviewed spec of the markup
Main exports: IsParameter, Contents, Envelope, parameter_match, toolCall_match, contents_of_scanned,
  envelope_matches
-/
import PreActive.Bridge.Protocol
import PreActive.Python.Strip

namespace PreActive.Bridge

open PreActive.Foundation PreActive.Python

/-! ### Elements -/

/-- Nothing but whitespace. -/
def Blank (text : List Char) : Prop := ∀ c ∈ text, isPySpace c = true

/-- The name in a tag: not empty, and without `>` and line breaks. -/
def IsName (name : List Char) : Prop := name ≠ [] ∧ ∀ c ∈ name, isNameChar c = true

instance (text : List Char) : Decidable (Blank text) :=
  decidable_of_iff (text.all isPySpace = true) List.all_eq_true

instance (name : List Char) : Decidable (IsName name) :=
  decidable_of_iff (name ≠ [] ∧ name.all isNameChar = true) (and_congr_right' List.all_eq_true)

/-- `<parameter=name> raw </parameter>` -/
def IsParameter (name raw element : List Char) : Prop :=
  IsName name ∧ ∃ leading trailing, Blank leading ∧ Blank trailing ∧
    element = "<parameter=".toList ++ (name ++ (">".toList ++ (leading ++ (raw ++ (trailing ++
      "</parameter>".toList)))))

/-- Whitespace and parameter elements, with their trimmed names. -/
inductive Contents : List Char → List String → Prop where
  | blank {text : List Char} (blank : Blank text) : Contents text []
  | parameter {gap name raw element rest : List Char} {names : List String} (blank : Blank gap)
      (isParameter : IsParameter name raw element) (others : Contents rest names) :
      Contents (gap ++ (element ++ rest)) (pyStrip (String.ofList name) :: names)

/-- `<tool_call> <function=name> contents </function> </tool_call>`, with distinct parameters. -/
def Envelope (envelope : List Char) : Prop :=
  ∃ beforeFunction name contents names afterFunction,
    Blank beforeFunction ∧ IsName name ∧ Contents contents names ∧ names.Nodup ∧
      Blank afterFunction ∧
        envelope = "<tool_call>".toList ++ (beforeFunction ++ ("<function=".toList ++ (name ++
          (">".toList ++ (contents ++ ("</function>".toList ++ (afterFunction ++
            "</tool_call>".toList)))))))

theorem Blank.append {a b : List Char} (first : Blank a) (second : Blank b) : Blank (a ++ b) :=
  fun c member => (List.mem_append.1 member).elim (first c) (second c)

theorem blank_nil : Blank [] := fun _ => nofun

theorem Blank.contents {gap text : List Char} {names : List String} (blank : Blank gap)
    (contents : Contents text names) : Contents (gap ++ text) names := by
  cases contents with
  | blank rest => exact .blank (blank.append rest)
  | parameter blank' isParameter others =>
      rw [← List.append_assoc]
      exact .parameter (blank.append blank') isParameter others

theorem Contents.append_blank {text gap : List Char} {names : List String}
    (contents : Contents text names) (blank : Blank gap) : Contents (text ++ gap) names := by
  induction contents with
  | blank first => exact .blank (first.append blank)
  | parameter first isParameter _ ih =>
      rw [List.append_assoc, List.append_assoc]
      exact .parameter first isParameter ih

/-- A text that strips to nothing is blank. -/
theorem blank_of_pyStrip {text : List Char} (empty : pyStrip (String.ofList text) = "") :
    Blank text := by
  have split := pyStrip_split (String.ofList text)
  rw [empty, String.toList_ofList] at split
  rw [split]
  intro c member
  simp only [String.toList_empty, List.append_nil, List.mem_append] at member
  exact member.elim isPySpace_of_mem_leading isPySpace_of_mem_trailing

/-! ### What the patterns match -/

/-- A match of the parameter pattern is a parameter element. -/
theorem parameter_match {text : List Char} {found : Found Char}
    (matched : matchAt parameterRe text = some found) :
    ∃ name raw element, IsParameter name raw element ∧ found.groups = [name, raw] ∧
      text = element ++ found.rest := by
  obtain ⟨_, rfl, matched1⟩ := matchAt_lit_eq_some.1 matched
  obtain ⟨name, _, _, rfl, nameChars, nonempty, matched2, rfl⟩ := matchAt_run_eq_some matched1
  obtain ⟨_, rfl, matched3⟩ := matchAt_lit_eq_some.1 matched2
  obtain ⟨leading, _, _, rfl, blank, _, matched4, rfl⟩ := matchAt_run_eq_some matched3
  obtain ⟨raw, _, _, rfl, _, _, matched5, rfl⟩ := matchAt_run_eq_some matched4
  obtain ⟨trailing, _, _, rfl, blank', _, matched6, rfl⟩ := matchAt_run_eq_some matched5
  obtain ⟨rest, rfl, matched7⟩ := matchAt_lit_eq_some.1 matched6
  rw [matchAt_nil, Option.some.injEq] at matched7
  subst matched7
  have isName : IsName name := ⟨fun empty => by simp [empty] at nonempty, nameChars⟩
  refine ⟨name, raw, _, ⟨isName, leading, trailing, blank, blank', rfl⟩, ?_, ?_⟩
  · simp [Found.capture]
  · simp only [Found.capture_rest, List.append_assoc]

/-- A match of the tool-call pattern is an element with a function element in it. -/
theorem toolCall_match {text : List Char} {found : Found Char}
    (matched : matchAt toolCallRe text = some found) :
    ∃ beforeFunction name leading body trailing afterFunction, Blank beforeFunction ∧ IsName name ∧
      Blank leading ∧ Blank trailing ∧ Blank afterFunction ∧ found.groups = [name, body] ∧
        text = "<tool_call>".toList ++ (beforeFunction ++ ("<function=".toList ++ (name ++
          (">".toList ++ (leading ++ (body ++ (trailing ++ ("</function>".toList ++
            (afterFunction ++ ("</tool_call>".toList ++ found.rest)))))))))) := by
  obtain ⟨_, rfl, matched1⟩ := matchAt_lit_eq_some.1 matched
  obtain ⟨beforeFunction, _, _, rfl, blank₁, _, matched2, rfl⟩ := matchAt_run_eq_some matched1
  obtain ⟨_, rfl, matched3⟩ := matchAt_lit_eq_some.1 matched2
  obtain ⟨name, _, _, rfl, nameChars, nonempty, matched4, rfl⟩ := matchAt_run_eq_some matched3
  obtain ⟨_, rfl, matched5⟩ := matchAt_lit_eq_some.1 matched4
  obtain ⟨leading, _, _, rfl, blank₂, _, matched6, rfl⟩ := matchAt_run_eq_some matched5
  obtain ⟨body, _, _, rfl, _, _, matched7, rfl⟩ := matchAt_run_eq_some matched6
  obtain ⟨trailing, _, _, rfl, blank₃, _, matched8, rfl⟩ := matchAt_run_eq_some matched7
  obtain ⟨_, rfl, matched9⟩ := matchAt_lit_eq_some.1 matched8
  obtain ⟨afterFunction, _, _, rfl, blank₄, _, matched10, rfl⟩ := matchAt_run_eq_some matched9
  obtain ⟨rest, rfl, matched11⟩ := matchAt_lit_eq_some.1 matched10
  rw [matchAt_nil, Option.some.injEq] at matched11
  subst matched11
  have isName : IsName name := ⟨fun empty => by simp [empty] at nonempty, nameChars⟩
  refine ⟨beforeFunction, name, leading, body, trailing, afterFunction, blank₁, isName, blank₂,
    blank₃, blank₄, ?_, ?_⟩
  · simp [Found.capture]
  · simp only [Found.capture_rest]

/-- An envelope is matched where it stands, whatever follows it. -/
theorem envelope_matches {envelope : List Char} (isEnvelope : Envelope envelope)
    (rest : List Char) : (matchAt toolCallRe (envelope ++ rest)).isSome = true := by
  obtain ⟨beforeFunction, name, contents, names, afterFunction, blank, isName, _, _, blank', rfl⟩ :=
    isEnvelope
  simp only [List.append_assoc]
  rw [toolCallRe, matchAt_lit]
  refine matchAt_run_isSome blank (Nat.zero_le _) ?_
  rw [matchAt_lit]
  refine matchAt_run_isSome isName.2 (List.length_pos_of_ne_nil isName.1) ?_
  rw [matchAt_lit]
  refine matchAt_run_isSome_nil ?_
  refine matchAt_run_isSome (fun _ _ => rfl) (Nat.zero_le _) ?_
  refine matchAt_run_isSome_nil ?_
  rw [matchAt_lit]
  refine matchAt_run_isSome blank' (Nat.zero_le _) ?_
  rw [matchAt_lit]
  rfl

/-- The trimmed name of a parameter element that was found. -/
def parameterName (found : Found Char) : String := pyStrip (group found 1)

/-- A body without anything but whitespace beside its parameter elements. -/
theorem contents_of_scanned {body left : List Char} {founds : List (Found Char)}
    (scanned : Scanned parameterRe body founds left) (blank : Blank left) :
    Contents body (founds.map parameterName) := by
  induction scanned with
  | nothing fails => exact .blank blank
  | @found before here left found more fails matched advances later ih =>
      obtain ⟨name, raw, element, isParameter, groups, same⟩ := parameter_match matched
      have gap : Blank before := fun c member => blank c (List.mem_append_left _ member)
      have others := ih fun c member => blank c (List.mem_append_right _ member)
      have named : parameterName found = pyStrip (String.ofList name) := by
        simp [parameterName, group, groups]
      rw [List.map_cons, named, same]
      exact .parameter gap isParameter others

theorem advances_toolCallRe : Advances toolCallRe := advances_lit '<' _ _

theorem advances_parameterRe : Advances parameterRe := advances_lit '<' _ _

end PreActive.Bridge
