/-
Module: PreActive.Bridge.RoundTrip
Purpose: A call that is written in the native markup is read back as it was meant.
Trusted boundary: human-reviewed spec of how a call is written
Main exports: Element, WrittenCall, Spells, parameter_matches, toolCall_matches, parse_written
-/
import PreActive.Bridge.FailClosed

namespace PreActive.Bridge

open PreActive.Foundation PreActive.Python

/-! ### Trimmed texts -/

/-- A text that neither starts nor ends in whitespace. -/
structure Trimmed (text : List Char) : Prop where
  first : ∀ c ∈ text.head?, isPySpace c = false
  last : ∀ c ∈ text.getLast?, isPySpace c = false

theorem trimmed_of_pyStrip {text : String} (same : pyStrip text = text) : Trimmed text.toList := by
  have split := pyStrip_split text
  rw [same] at split
  have lengths := congrArg List.length split
  simp only [List.length_append] at lengths
  have noLeading : leading text = [] := List.length_eq_zero_iff.1 (by omega)
  have noTrailing : trailing text = [] := List.length_eq_zero_iff.1 (by omega)
  have whole : text.toList.dropWhile isPySpace = text.toList := by
    have parts := List.takeWhile_append_dropWhile (p := isPySpace) (l := text.toList)
    rwa [show text.toList.takeWhile isPySpace = [] from noLeading, List.nil_append] at parts
  have stops : ∀ {chars : List Char}, chars.takeWhile isPySpace = [] →
      ∀ c ∈ chars.head?, isPySpace c = false := by
    intro chars none c head
    obtain ⟨rest, rfl⟩ := List.head?_eq_some_iff.1 head
    by_contra blank
    rw [Bool.not_eq_false] at blank
    rw [List.takeWhile_cons_of_pos blank] at none
    cases none
  refine ⟨stops noLeading, fun c last => ?_⟩
  rw [trailing, whole, List.reverse_eq_nil_iff] at noTrailing
  exact stops noTrailing c (by rwa [List.head?_reverse])

theorem trimmed_nil : Trimmed [] := ⟨fun _ => nofun, fun _ => nofun⟩

/-- Whitespace around a trimmed text; beside an empty one it is all before the text. -/
theorem spaced_split {core before after : List Char} (trimmed : Trimmed core)
    (blank : Blank before) (blank' : Blank after) :
    ∃ run gap, Blank run ∧ Blank gap ∧ (core = [] → gap = []) ∧
      ∀ rest, before ++ (core ++ (after ++ rest)) = run ++ (core ++ (gap ++ rest)) := by
  cases core with
  | nil => exact ⟨before ++ after, [], blank.append blank', blank_nil, fun _ => rfl, by simp⟩
  | cons c core => exact ⟨before, after, blank, blank', nofun, fun _ => rfl⟩

/-- The lazy group takes a trimmed text between its whitespace if the closing tag is found after it
and not in it. -/
theorem matchAt_spaced {pieces : List (Piece Char)} {mark core before after rest : List Char}
    {found : Found Char} (trimmed : Trimmed core) (blank : Blank before) (blank' : Blank after)
    (matched : matchAt pieces rest = some found)
    (refuses : ∀ gap, Blank gap →
      Refuses (.lit ('<' :: mark) :: pieces) core (gap ++ ('<' :: mark ++ rest))) :
    matchAt (spaces :: lazyGroup :: spaces :: .lit ('<' :: mark) :: pieces)
      (before ++ (core ++ (after ++ ('<' :: mark ++ rest)))) = some (found.capture true core) := by
  obtain ⟨run, gap, blankRun, blankGap, settled, same⟩ := spaced_split trimmed blank blank'
  have closed : matchAt (spaces :: .lit ('<' :: mark) :: pieces) (gap ++ ('<' :: mark ++ rest)) =
      some found := by
    refine matchAt_greedy blankGap ?_ (Nat.zero_le _) ?_
    · rw [List.cons_append]
      exact fun c head => by
        obtain rfl : '<' = c := by simpa using head
        decide
    · rw [matchAt_lit, matched]
  have taken : matchAt (lazyGroup :: spaces :: .lit ('<' :: mark) :: pieces)
      (core ++ (gap ++ ('<' :: mark ++ rest))) = some (found.capture true core) := by
    refine matchAt_lazy (fun _ _ => rfl) (Nat.zero_le _) closed fun n _ short => ?_
    exact (refuses gap blankGap).run trimmed.last n short
  rw [same]
  refine matchAt_greedy blankRun ?_ (Nat.zero_le _) taken
  cases core with
  | nil =>
      rw [settled rfl]
      exact fun c head => by
        obtain rfl : '<' = c := by simpa using head
        decide
  | cons c core => exact trimmed.first

/-! ### Parameter elements -/

/-- A parameter element as it is written: whitespace before it and around its text. -/
structure Element where
  gap : List Char
  name : String
  leading : List Char
  text : String
  trailing : List Char
  blank_gap : Blank gap
  blank_leading : Blank leading
  blank_trailing : Blank trailing
  isName : IsName name.toList
  trimmed_name : pyStrip name = name
  trimmed_text : pyStrip text = text
  unmarked : hasMarker text.toList = false

namespace Element

/-- The element without the whitespace before it. -/
def tag (element : Element) : List Char :=
  "<parameter=".toList ++ (element.name.toList ++ (">".toList ++ (element.leading ++
    (element.text.toList ++ (element.trailing ++ "</parameter>".toList)))))

/-- The written element. -/
def written (element : Element) : List Char := element.gap ++ element.tag

theorem tag_append (element : Element) (rest : List Char) :
    element.tag ++ rest = "<parameter=".toList ++ (element.name.toList ++ (">".toList ++
      (element.leading ++ (element.text.toList ++ (element.trailing ++
        ("</parameter>".toList ++ rest)))))) := by
  unfold tag
  -- rewriting under the literals would evaluate them
  generalize "<parameter=".toList = opening
  generalize ">".toList = bracket
  generalize "</parameter>".toList = closing
  simp only [List.append_assoc]

/-- What is found of the element. -/
def found (element : Element) (rest : List Char) : Found Char :=
  ⟨[element.name.toList, element.text.toList], rest⟩

end Element

/-- A literal that contains a marker is in no unmarked text. -/
theorem absent_of_unmarked {mark text : List Char} (clean : hasMarker text = false)
    (known : ∃ marker ∈ toolMarkers, marker.toList <:+: mark) : ¬ mark <:+: text := by
  obtain ⟨marker, member, inside⟩ := known
  exact fun found => hasMarker_eq_false.1 clean marker member (inside.trans found)

theorem lt_of_blank_append {gap mark rest : List Char} (blank : Blank gap) :
    ∀ c ∈ (gap ++ ('<' :: mark ++ rest)).head?, c = '<' ∨ isPySpace c = true := by
  cases gap with
  | nil => exact fun c head => .inl (by simpa using head.symm)
  | cons d gap =>
      intro c head
      obtain rfl : d = c := by simpa using head
      exact .inr (blank d List.mem_cons_self)

/-- A tag of the markup, without its bracket: with a marker in it, and without other brackets and
whitespace. -/
structure IsTag (mark : List Char) : Prop where
  known : ∃ marker ∈ toolMarkers, marker.toList <:+: '<' :: mark
  solid : ∀ c ∈ mark, c ≠ '<' ∧ isPySpace c = false

/-- A tag is not in an unmarked text, nor does it start there. -/
theorem refuses_text {mark text : List Char} (isTag : IsTag mark) (clean : hasMarker text = false)
    (pieces : List (Piece Char)) {gap : List Char} (blank : Blank gap) (other rest : List Char) :
    Refuses (.lit ('<' :: mark) :: pieces) text (gap ++ ('<' :: other ++ rest)) := by
  refine refuses_lit (absent_of_unmarked clean isTag.known) fun c head inside => ?_
  have plain := isTag.solid c inside
  rcases lt_of_blank_append blank c head with rfl | space
  · exact plain.1 rfl
  · rw [plain.2] at space
    cases space

theorem solid_of_all {mark : List Char} (all : mark.all (fun c => c ≠ '<' && !isPySpace c) = true) :
    ∀ c ∈ mark, c ≠ '<' ∧ isPySpace c = false := by
  simpa using all

theorem isTag_parameterClose : IsTag "/parameter>".toList :=
  ⟨⟨"</parameter", by decide, by decide⟩, solid_of_all (by decide)⟩

theorem isTag_functionClose : IsTag "/function>".toList :=
  ⟨⟨"</function", by decide, by decide⟩, solid_of_all (by decide)⟩

theorem isTag_toolCallClose : IsTag "/tool_call>".toList :=
  ⟨⟨"</tool_call", by decide, by decide⟩, solid_of_all (by decide)⟩

theorem isTag_toolCall : IsTag "tool_call>".toList :=
  ⟨⟨"<tool_call", by decide, by decide⟩, solid_of_all (by decide)⟩

theorem parameterOpen : "<parameter=".toList = '<' :: "parameter=".toList := by decide

theorem parameterClose : "</parameter>".toList = '<' :: "/parameter>".toList := by decide

theorem functionClose : "</function>".toList = '<' :: "/function>".toList := by decide

theorem toolCallClose : "</tool_call>".toList = '<' :: "/tool_call>".toList := by decide

theorem toolCallOpen : "<tool_call>".toList = '<' :: "tool_call>".toList := by decide

theorem not_lt_of_blank {gap : List Char} (blank : Blank gap) : '<' ∉ gap := by
  intro member
  have space := blank '<' member
  revert space
  decide

/-- Another tag is not the beginning of a tag. -/
theorem refuses_tag {mark other : List Char} (differs : ¬ mark <+: other)
    (short : mark.length ≤ other.length) (plain : '<' ∉ other) (pieces : List (Piece Char))
    (after : List Char) : Refuses (.lit ('<' :: mark) :: pieces) ('<' :: other) after := by
  rw [refuses_cons]
  refine ⟨matchAt_lit_eq_none fun isPrefix => differs ?_, refuses_of_not_mem plain⟩
  rw [List.cons_prefix_cons] at isPrefix
  exact List.prefix_of_prefix_length_le isPrefix.2 (List.prefix_append other after) short

/-- A name ends where its tag does. -/
theorem nameEnd (rest : List Char) : ∀ c ∈ (">".toList ++ rest).head?, isNameChar c = false := by
  have opens : ">".toList = ['>'] := by decide
  intro c head
  rw [opens, List.singleton_append, List.head?_cons, Option.mem_some_iff] at head
  subst head
  decide

theorem name_cancel {name name' rest rest' : List Char} (chars : ∀ c ∈ name, isNameChar c = true)
    (chars' : ∀ c ∈ name', isNameChar c = true)
    (same : name ++ (">".toList ++ rest) = name' ++ (">".toList ++ rest')) : rest = rest' := by
  have runs := congrArg (List.takeWhile isNameChar) same
  rw [takeWhile_run chars (nameEnd rest), takeWhile_run chars' (nameEnd rest')] at runs
  rw [runs] at same
  exact List.append_cancel_left (List.append_cancel_left same)

/-- A written parameter is matched as a whole. -/
theorem parameter_matches (element : Element) (rest : List Char) :
    matchAt parameterRe (element.tag ++ rest) = some (element.found rest) := by
  have value := matchAt_spaced (trimmed_of_pyStrip element.trimmed_text) element.blank_leading
    element.blank_trailing (matchAt_nil rest) fun gap blank =>
      refuses_text isTag_parameterClose element.unmarked [] blank "/parameter>".toList rest
  rw [← parameterClose] at value
  have tagged := (matchAt_lit ">".toList _).trans value
  have named := @matchAt_greedy _ _ _ isNameChar 1 true _ _ _ element.isName.2 (nameEnd _)
    (List.length_pos_of_ne_nil element.isName.1) tagged
  rw [element.tag_append]
  exact (matchAt_lit "<parameter=".toList _).trans named

/-! ### The end of the call -/

/-- The text of a parameter and its closing tag. -/
def Element.value (element : Element) : List Char :=
  element.leading ++ (element.text.toList ++ (element.trailing ++ "</parameter>".toList))

/-- Another closing tag does not start in a parameter after its name. -/
theorem value_refuses (element : Element) {mark : List Char} (isTag : IsTag mark)
    (differs : ¬ mark <+: "/parameter>".toList) (short : mark.length ≤ "/parameter>".toList.length)
    (pieces : List (Piece Char)) (after : List Char) :
    Refuses (.lit ('<' :: mark) :: pieces) element.value after := by
  have closing := refuses_tag differs short (by decide) pieces after
  rw [Element.value, parameterClose]
  refine (refuses_of_not_mem (not_lt_of_blank element.blank_leading)).append ?_
  refine Refuses.append ?_ ?_
  · rw [List.append_assoc]
    exact refuses_text isTag element.unmarked pieces element.blank_trailing _ _
  · exact (refuses_of_not_mem (not_lt_of_blank element.blank_trailing)).append closing

theorem value_ends (element : Element) : element.value.getLast? = some '>' := by
  have last : "</parameter>".toList.getLast? = some '>' := by decide
  unfold Element.value
  generalize "</parameter>".toList = closing at last
  simp only [List.getLast?_append, last, Option.some_or]

theorem value_last (element : Element) : ∀ c ∈ element.value.getLast?, isPySpace c = false := by
  intro c isLast
  rw [value_ends, Option.mem_some_iff] at isLast
  subst isLast
  decide

theorem value_pos (element : Element) : 0 < element.value.length := by
  rw [Element.value, parameterClose]
  simp only [List.length_append, List.length_cons]
  omega

/-- The end of the call: what a match takes after the contents of the function element. -/
def closePieces : List (Piece Char) :=
  [.lit ('<' :: "/function>".toList), spaces, .lit "</tool_call>".toList]

/-- A name may end like the tag that closes the function, but then no closing tag follows. -/
theorem name_refuses (element : Element) (after : List Char) :
    Refuses closePieces element.name.toList (">".toList ++ (element.value ++ after)) := by
  intro n short
  rw [Option.eq_none_iff_forall_ne_some]
  intro found matched
  obtain ⟨rest, same, inner⟩ := matchAt_lit_eq_some.1 matched
  have ending : '<' :: "/function>".toList = "</function".toList ++ ">".toList := by decide
  rw [ending, List.append_assoc] at same
  have nameChars : ∀ c ∈ element.name.toList.drop n, isNameChar c = true := fun c member =>
    element.isName.2 c (List.mem_of_mem_drop member)
  obtain rfl := name_cancel nameChars (List.all_eq_true.1 (by decide)) same
  have refuses := value_refuses element isTag_toolCallClose (by decide) (by decide) [] after
  have spaced : Refuses [spaces, .lit ('<' :: "/tool_call>".toList)] element.value after :=
    refuses.run (value_last element)
  have none := spaced 0 (value_pos element)
  rw [List.drop_zero, ← toolCallClose] at none
  cases none.symm.trans inner

theorem tag_split (element : Element) : element.tag =
    "<parameter=".toList ++ (element.name.toList ++ (">".toList ++ element.value)) := rfl

/-- The call does not end inside a parameter element. -/
theorem tag_refuses (element : Element) (after : List Char) :
    Refuses closePieces element.tag after := by
  have value := value_refuses element isTag_functionClose (by decide) (by decide)
    [spaces, .lit "</tool_call>".toList] after
  have bracket : Refuses closePieces ">".toList (element.value ++ after) :=
    refuses_of_not_mem (by decide)
  have named : Refuses closePieces element.name.toList (">".toList ++ element.value ++ after) := by
    rw [List.append_assoc]
    exact name_refuses element after
  have opening := @refuses_tag "/function>".toList "parameter=".toList (by decide) (by decide)
    (by decide) [spaces, .lit "</tool_call>".toList]
    (element.name.toList ++ (">".toList ++ element.value) ++ after)
  rw [← parameterOpen] at opening
  rw [tag_split]
  exact Refuses.append opening (named.append (bracket.append value))

/-- The written elements. -/
def writeElements (elements : List Element) : List Char := elements.flatMap Element.written

theorem elements_refuse (elements : List Element) (after : List Char) :
    Refuses closePieces (writeElements elements) after := by
  induction elements with
  | nil => exact refuses_nil after
  | cons element rest ih =>
      have gap : Refuses closePieces element.gap (element.tag ++ (writeElements rest ++ after)) :=
        refuses_of_not_mem (not_lt_of_blank element.blank_gap)
      rw [writeElements, List.flatMap_cons, Element.written, List.append_assoc]
      refine Refuses.append ?_ (Refuses.append (tag_refuses element _) ih)
      rwa [List.append_assoc]

/-- The whitespace before the first element. -/
def firstGap : List Element → List Char
  | [] => []
  | element :: _ => element.gap

/-- The elements without that whitespace. -/
def core : List Element → List Char
  | [] => []
  | element :: rest => element.tag ++ writeElements rest

theorem writeElements_split (elements : List Element) :
    writeElements elements = firstGap elements ++ core elements := by
  cases elements with
  | nil => rfl
  | cons element rest =>
      rw [writeElements, List.flatMap_cons, Element.written, List.append_assoc]
      rfl

theorem blank_firstGap (elements : List Element) : Blank (firstGap elements) := by
  cases elements with
  | nil => exact blank_nil
  | cons element rest => exact element.blank_gap

theorem core_refuses (elements : List Element) (after : List Char) :
    Refuses closePieces (core elements) after := by
  cases elements with
  | nil => exact refuses_nil after
  | cons element rest => exact (tag_refuses element _).append (elements_refuse rest after)

theorem tag_ends (element : Element) (rest : List Element) :
    (element.tag ++ writeElements rest).getLast? = some '>' := by
  induction rest generalizing element with
  | nil =>
      have none : writeElements [] = [] := rfl
      rw [none, List.append_nil, tag_split, List.getLast?_append, List.getLast?_append,
        List.getLast?_append, value_ends]
      rfl
  | cons next rest ih =>
      rw [writeElements, List.flatMap_cons, Element.written, List.append_assoc]
      have later : (next.tag ++ rest.flatMap Element.written).getLast? = some '>' := ih next
      rw [List.getLast?_append, List.getLast?_append, later]
      rfl

theorem trimmed_core (elements : List Element) : Trimmed (core elements) := by
  cases elements with
  | nil => exact trimmed_nil
  | cons element rest =>
      constructor
      · intro c head
        rw [core, tag_split, parameterOpen, List.cons_append, List.cons_append, List.head?_cons,
          Option.mem_some_iff] at head
        subst head
        decide
      · intro c last
        rw [core, tag_ends, Option.mem_some_iff] at last
        subst last
        decide

/-! ### The call -/

/-- A call as it is written, and the text around it. -/
structure WrittenCall where
  before : List Char
  beforeFunction : List Char
  name : String
  elements : List Element
  gap : List Char
  afterFunction : List Char
  after : List Char
  unmarked_before : hasMarker before = false
  unmarked_after : hasMarker after = false
  blank_beforeFunction : Blank beforeFunction
  blank_gap : Blank gap
  blank_afterFunction : Blank afterFunction
  isName : IsName name.toList
  trimmed_name : pyStrip name = name
  distinct : (elements.map Element.name).Nodup

namespace WrittenCall

/-- The tool-call element. -/
def element (call : WrittenCall) : List Char :=
  "<tool_call>".toList ++ (call.beforeFunction ++ ("<function=".toList ++ (call.name.toList ++
    (">".toList ++ (writeElements call.elements ++ (call.gap ++ ("</function>".toList ++
      (call.afterFunction ++ "</tool_call>".toList))))))))

/-- The text of the model. -/
def text (call : WrittenCall) : String :=
  String.ofList (call.before ++ (call.element ++ call.after))

/-- What is found of the call. -/
def found (call : WrittenCall) : Found Char :=
  ⟨[call.name.toList, core call.elements], call.after⟩

theorem element_append (call : WrittenCall) (rest : List Char) :
    call.element ++ rest = "<tool_call>".toList ++ (call.beforeFunction ++ ("<function=".toList ++
      (call.name.toList ++ (">".toList ++ (firstGap call.elements ++ (core call.elements ++
        (call.gap ++ ("</function>".toList ++ (call.afterFunction ++
          ("</tool_call>".toList ++ rest)))))))))) := by
  unfold element
  -- rewriting under the literals would evaluate them
  generalize "<tool_call>".toList = opening
  generalize "<function=".toList = function
  generalize ">".toList = bracket
  generalize "</function>".toList = closeFunction
  generalize "</tool_call>".toList = closing
  simp only [writeElements_split, List.append_assoc]

end WrittenCall

theorem lt_stops (mark rest : List Char) :
    ∀ c ∈ ('<' :: mark ++ rest).head?, isPySpace c = false := by
  intro c head
  rw [List.cons_append, List.head?_cons, Option.mem_some_iff] at head
  subst head
  decide

/-- A written call is matched as a whole. -/
theorem toolCall_matches (call : WrittenCall) :
    matchAt toolCallRe (call.element ++ call.after) = some call.found := by
  have functionOpen : "<function=".toList = '<' :: "function=".toList := by decide
  have closing : matchAt [spaces, .lit "</tool_call>".toList]
      (call.afterFunction ++ ("</tool_call>".toList ++ call.after)) = some ⟨[], call.after⟩ := by
    refine matchAt_greedy call.blank_afterFunction ?_ (Nat.zero_le _) ?_
    · rw [toolCallClose]
      exact lt_stops _ _
    · rw [matchAt_lit, matchAt_nil]
  have body := matchAt_spaced (trimmed_core call.elements) (blank_firstGap call.elements)
    call.blank_gap closing fun gap _ => core_refuses call.elements _
  rw [← functionClose] at body
  have tagged := (matchAt_lit ">".toList _).trans body
  have named := @matchAt_greedy _ _ _ isNameChar 1 true _ _ _ call.isName.2 (nameEnd _)
    (List.length_pos_of_ne_nil call.isName.1) tagged
  have function := (matchAt_lit "<function=".toList _).trans named
  have opened := @matchAt_greedy _ _ _ isPySpace 0 false _ _ _ call.blank_beforeFunction
    (by rw [functionOpen]; exact lt_stops _ _) (Nat.zero_le _) function
  rw [call.element_append]
  exact (matchAt_lit "<tool_call>".toList _).trans opened

theorem toolCallRe_split :
    toolCallRe = .lit ('<' :: "tool_call>".toList) :: toolCallRe.tail := by
  rw [← toolCallOpen]
  rfl

/-- It is the only one. -/
theorem onlyCall_written (call : WrittenCall) :
    OnlyCall call.text.toList call.before call.element call.found where
  split := String.toList_ofList
  matched := toolCall_matches call
  first := by
    have opened : ∃ rest, call.element ++ call.found.rest = '<' :: "tool_call>".toList ++ rest := by
      rw [call.element_append, toolCallOpen]
      exact ⟨_, rfl⟩
    obtain ⟨rest, same⟩ := opened
    rw [same, toolCallRe_split]
    exact refuses_text isTag_toolCall call.unmarked_before toolCallRe.tail blank_nil
      "tool_call>".toList rest
  last n short := by
    have refuses : Refuses toolCallRe call.after [] := by
      rw [toolCallRe_split]
      exact refuses_lit (absent_of_unmarked call.unmarked_after isTag_toolCall.known) fun _ => nofun
    have none := refuses n short
    rwa [List.append_nil] at none

/-! ### The parameters -/

/-- What is found of the elements. -/
def foundElements : List Element → List (Found Char)
  | [] => []
  | element :: rest => element.found (writeElements rest) :: foundElements rest

theorem foundElements_names (elements : List Element) :
    (foundElements elements).map parameterName = elements.map Element.name := by
  induction elements with
  | nil => rfl
  | cons element rest ih =>
      have named : parameterName (element.found (writeElements rest)) = element.name := by
        rw [parameterName, group, Element.found]
        exact (congrArg pyStrip String.ofList_toList).trans element.trimmed_name
      rw [foundElements, List.map_cons, List.map_cons, ih, named]

theorem scanned_element (element : Element) {gap left : List Char} {rest : List Element}
    {founds : List (Found Char)} (blank : Blank gap)
    (later : Scanned parameterRe (writeElements rest) founds left) :
    Scanned parameterRe (gap ++ (element.tag ++ writeElements rest))
      (element.found (writeElements rest) :: founds) (gap ++ left) := by
  have refuses : Refuses parameterRe gap (element.tag ++ writeElements rest) := by
    rw [parameterRe, parameterOpen]
    exact refuses_of_not_mem (not_lt_of_blank blank)
  have nonempty : element.tag ≠ [] := by
    rw [tag_split, parameterOpen]
    exact List.cons_ne_nil _ _
  exact @Scanned.found _ _ parameterRe gap element.tag left (element.found (writeElements rest))
    founds refuses (parameter_matches element (writeElements rest)) nonempty later

/-- The elements are found one by one, with nothing but whitespace between them. -/
theorem scanned_elements (elements : List Element) : ∃ left, Blank left ∧
    Scanned parameterRe (writeElements elements) (foundElements elements) left := by
  induction elements with
  | nil => exact ⟨[], blank_nil, .nothing fun n short => absurd short (Nat.not_lt_zero n)⟩
  | cons element rest ih =>
      obtain ⟨left, blank, later⟩ := ih
      refine ⟨element.gap ++ left, element.blank_gap.append blank, ?_⟩
      rw [writeElements, List.flatMap_cons, Element.written, List.append_assoc]
      exact scanned_element element element.blank_gap later

theorem scanned_core (elements : List Element) : ∃ left, Blank left ∧
    Scanned parameterRe (core elements) (foundElements elements) left := by
  cases elements with
  | nil => exact ⟨[], blank_nil, .nothing fun n short => absurd short (Nat.not_lt_zero n)⟩
  | cons element rest =>
      obtain ⟨left, blank, later⟩ := scanned_elements rest
      exact ⟨left, blank, scanned_element element blank_nil later⟩

/-! ### The values -/

/-- The text says a value of a declared type.  Ints are written in decimal, the words in any case;
the texts of floats and of JSON values are those that the interpreter reads as the value. -/
inductive Spells (interpreter : Interpreter) : String → String → PyVal → Prop where
  | string (text : String) : Spells interpreter "string" text (.str text)
  | integer {value : Int} (reads : interpreter.int (String.ofList (writeInt value)) = .ok value) :
      Spells interpreter "integer" (String.ofList (writeInt value)) (.int value)
  | number {text : String} {value : PyFloat} (reads : interpreter.float text = .ok value)
      (finite : value.toDouble.isFinite = true) : Spells interpreter "number" text (.float value)
  | true {text : String} (word : interpreter.lower text = "true") :
      Spells interpreter "boolean" text (.bool true)
  | false {text : String} (word : interpreter.lower text = "false") :
      Spells interpreter "boolean" text (.bool false)
  | null {text : String} (word : interpreter.lower text = "null") :
      Spells interpreter "null" text .none
  | object {text : String} {fields : List (PyKey × PyVal)}
      (reads : interpreter.loads text = .ok (.dict fields)) :
      Spells interpreter "object" text (.dict fields)
  | array {text : String} {items : List PyVal} (reads : interpreter.loads text = .ok (.list items)) :
      Spells interpreter "array" text (.list items)

variable {interpreter : Interpreter}

theorem isIntegerText_writeInt (value : Int) : isIntegerText interpreter (writeInt value) = true := by
  have digits : ∀ c ∈ Nat.toDigits 10 value.natAbs, interpreter.isDecimal c = true := fun c member =>
    interpreter.decimal_digit (toDigits_isDigit member)
  have nonempty : Nat.toDigits 10 value.natAbs ≠ [] := Nat.toDigits_ne_nil
  unfold writeInt
  split
  · simp only [isIntegerText, Bool.and_eq_true, decide_eq_true_eq, List.all_eq_true]
    exact ⟨nonempty, digits⟩
  · obtain ⟨c, rest, same⟩ := List.exists_cons_of_ne_nil nonempty
    have digit : c.isDigit = true := toDigits_isDigit (same ▸ List.mem_cons_self)
    rw [same] at digits ⊢
    unfold isIntegerText
    split
    · rename_i plus
      obtain ⟨rfl, _⟩ := List.cons.inj plus
      exact absurd digit (by decide)
    · rename_i minus
      obtain ⟨rfl, _⟩ := List.cons.inj minus
      exact absurd digit (by decide)
    · simp only [Bool.and_eq_true, decide_eq_true_eq, List.all_eq_true]
      exact ⟨List.cons_ne_nil _ _, digits⟩

/-- What is spelled is read. -/
theorem Spells.coerceAs {declared text : String} {value : PyVal}
    (spells : Spells interpreter declared text value) (name : String) :
    coerceAs interpreter name text (.str declared) = .ok value := by
  cases spells with
  | string => rfl
  | integer reads =>
      simp only [Bridge.coerceAs, String.toList_ofList, isIntegerText_writeInt, if_true, reads]
      rfl
  | number reads finite => simp only [Bridge.coerceAs, reads, finite, if_true]
  | true word => simp only [Bridge.coerceAs, word, if_true]
  | false word => simp [Bridge.coerceAs, word]
  | null word => simp only [Bridge.coerceAs, word, if_true]
  | object reads => simp only [Bridge.coerceAs, coerceJson, reads]
  | array reads => simp only [Bridge.coerceAs, coerceJson, reads]

/-- A parameter element for a declared parameter, and the value that its text says. -/
structure Argument (interpreter : Interpreter) (properties : List (PyKey × PyVal)) extends
    Element where
  declared : String
  value : PyVal
  schema : List (PyKey × PyVal)
  listed : PyVal.lookup (.str name) properties = some (.dict schema)
  typed : (PyVal.lookup (.str "type") schema).getD (.str "string") = .str declared
  spells : Spells interpreter declared text value

/-- A function with its declared parameters, and the names of those it requires. -/
structure Declares (function : PyVal) (properties : List (PyKey × PyVal)) (required : List String) :
    Prop where
  parameters : (declaredParameters function).isDict = true
  properties : declaredProperties (declaredParameters function) = .dict properties
  required : orDefault ((declaredParameters function).get? "required") (.list []) =
    .list (required.map .str)

section Arguments

variable {function : PyVal} {properties : List (PyKey × PyVal)} {required : List String}

theorem Argument.converts (argument : Argument interpreter properties) (schema : PyVal)
    (rest : List Char) :
    Converts interpreter schema (.dict properties) (argument.found rest) argument.value := by
  have named : parameterName (argument.found rest) = argument.name := by
    rw [parameterName, group, Element.found]
    exact (congrArg pyStrip String.ofList_toList).trans argument.trimmed_name
  have raw : group (argument.found rest) 2 = argument.text := String.ofList_toList
  refine ⟨.dict argument.schema, ?_, ?_⟩
  · simp only [named, parameterSchema, PyVal.get?, argument.listed]
  · rw [named, raw, coerceParameter, PyVal.get?, argument.typed, coerceDeclared,
      argument.trimmed_text]
    · exact argument.spells.coerceAs argument.name
    · intro _ impossible
      cases impossible

theorem converts_elements (arguments : List (Argument interpreter properties)) (schema : PyVal) :
    List.Forall₂ (Converts interpreter schema (.dict properties))
      (foundElements (arguments.map Argument.toElement)) (arguments.map Argument.value) := by
  induction arguments with
  | nil => exact .nil
  | cons argument rest ih => exact .cons (argument.converts schema _) ih

/-- A written call to a declared function is read. -/
theorem readable_written (declares : Declares function properties required)
    (arguments : List (Argument interpreter properties))
    (distinct : (arguments.map fun argument => argument.name).Nodup)
    (covers : ∀ name ∈ required, name ∈ arguments.map fun argument => argument.name) :
    Readable interpreter function (core (arguments.map Argument.toElement))
      (arguments.map Argument.value) := by
  obtain ⟨left, blank, scanned⟩ := scanned_core (arguments.map Argument.toElement)
  obtain ⟨isFound, isLeft⟩ := scanned.unique
  have names : (foundElements (arguments.map Argument.toElement)).map parameterName =
      arguments.map fun argument => argument.name := by
    rw [foundElements_names, List.map_map]
    rfl
  exact
    { parameters := declares.parameters
      properties := by rw [declares.properties]; rfl
      residue := isLeft ▸ blank
      distinct := by rwa [isFound, names]
      converts := by
        rw [isFound, declares.properties]
        exact converts_elements arguments _
      required := ⟨required, declares.required, by rwa [isFound, names]⟩ }

/-- What a written call to an offered tool is parsed as. -/
theorem parse_members {hex : String} {tools messages : List PyVal} (call : WrittenCall)
    (arguments : List (Argument interpreter properties))
    (written : call.elements = arguments.map Argument.toElement)
    (offered : Offered tools call.name function)
    (declares : Declares function properties required)
    (covers : ∀ name ∈ required, name ∈ arguments.map fun argument => argument.name) :
    parseQwenResponse interpreter hex call.text tools messages =
      .ok (callResult hex call.name (insertFields []
        (arguments.map fun argument => (argument.name, argument.value)))) := by
  have names : (arguments.map Argument.toElement).map Element.name =
      arguments.map fun argument => argument.name := List.map_map
  have distinct : (arguments.map fun argument => argument.name).Nodup := by
    rw [← names, ← written]
    exact call.distinct
  have readable := readable_written declares arguments distinct covers
  have isName : pyStrip (group call.found 1) = call.name :=
    (congrArg pyStrip String.ofList_toList).trans call.trimmed_name
  have isBody : (group call.found 2).toList = core (arguments.map Argument.toElement) := by
    rw [← written]
    exact String.toList_ofList
  have parsed := @parse_offered interpreter hex call.text tools messages _ _ _
    (onlyCall_written call) call.unmarked_after function (by rw [isName]; exact offered)
  rw [isName, isBody, readArguments_eq_ok.2 ⟨_, readable, rfl⟩] at parsed
  obtain ⟨left, _, scanned⟩ := scanned_core (arguments.map Argument.toElement)
  have members : argumentsOf (finditer parameterRe (core (arguments.map Argument.toElement)) 0)
      (arguments.map Argument.value) =
        arguments.map fun argument => (argument.name, argument.value) := by
    rw [scanned.unique.1, argumentsOf, foundElements_names, names, List.zip_map']
  rw [members] at parsed
  exact parsed

/-- A written call to an offered tool is parsed as that call, with exactly the arguments that were
written. -/
theorem parse_written {hex : String} {tools messages : List PyVal} (call : WrittenCall)
    (arguments : List (Argument interpreter properties))
    (written : call.elements = arguments.map Argument.toElement)
    (offered : Offered tools call.name function)
    (declares : Declares function properties required)
    (covers : ∀ name ∈ required, name ∈ arguments.map fun argument => argument.name) :
    ∃ fields, parseQwenResponse interpreter hex call.text tools messages =
        .ok (callResult hex call.name fields) ∧
      ∀ key value, PyVal.lookup key fields = some value ↔
        ∃ argument ∈ arguments, key = .str argument.name ∧ value = argument.value := by
  refine ⟨_, parse_members call arguments written offered declares covers, fun key value => ?_⟩
  rw [lookup_members]
  · simp only [List.mem_map, Prod.mk.injEq]
    constructor
    · rintro ⟨_, rfl, argument, member, rfl, rfl⟩
      exact ⟨argument, member, rfl, rfl⟩
    · rintro ⟨argument, member, rfl, rfl⟩
      exact ⟨_, rfl, argument, member, rfl, rfl⟩
  · have distinct := call.distinct
    rw [written, List.map_map] at distinct
    rw [List.map_map]
    exact distinct

end Arguments

/-- The parameters of a tool that takes a text and an int. -/
def noteProperties : List (PyKey × PyVal) :=
  [(.str "text", .ofFields [("type", .str "string")]),
    (.str "times", .ofFields [("type", .str "integer")])]

/-- Two lines with a comparison, which are no markup. -/
def noteText : Argument plainInterpreter noteProperties where
  gap := ['\n']
  name := "text"
  leading := ['\n']
  text := "a < b\nb > c"
  trailing := ['\n']
  blank_gap := by decide
  blank_leading := by decide
  blank_trailing := by decide
  isName := by decide
  trimmed_name := by decide
  trimmed_text := by decide
  unmarked := by decide
  declared := "string"
  value := .str "a < b\nb > c"
  schema := [(.str "type", .str "string")]
  listed := rfl
  typed := rfl
  spells := .string _

def noteTimes : Argument plainInterpreter noteProperties where
  gap := []
  name := "times"
  leading := []
  text := String.ofList (writeInt (-6))
  trailing := [' ']
  blank_gap := by decide
  blank_leading := by decide
  blank_trailing := by decide
  isName := by decide
  trimmed_name := by decide
  trimmed_text := by decide
  unmarked := by decide
  declared := "integer"
  value := .int (-6)
  schema := [(.str "type", .str "integer")]
  listed := rfl
  typed := rfl
  spells := .integer (by decide)

/-- The call of the tool between some prose. -/
def noteCall : WrittenCall where
  before := "Let me see.\n".toList
  beforeFunction := ['\n']
  name := "notes.add"
  elements := [noteText.toElement, noteTimes.toElement]
  gap := ['\n']
  afterFunction := ['\n']
  after := " <end>".toList
  unmarked_before := by decide
  unmarked_after := by decide
  blank_beforeFunction := by decide
  blank_gap := by decide
  blank_afterFunction := by decide
  isName := by decide
  trimmed_name := by decide
  distinct := by decide

/-- A tool that requires the text. -/
def noteFunction : PyVal :=
  .ofFields [("name", .str "notes.add"), ("parameters", .ofFields
    [("additionalProperties", .bool false), ("properties", .dict noteProperties),
      ("required", .list [.str "text"]), ("type", .str "object")])]

theorem parse_written_note :
    ∃ fields, parseQwenResponse plainInterpreter "0" noteCall.text
        [.ofFields [("function", noteFunction), ("type", .str "function")]] [] =
          .ok (callResult "0" "notes.add" fields) ∧
      ∀ key value, PyVal.lookup key fields = some value ↔
        ∃ argument ∈ [noteText, noteTimes], key = .str argument.name ∧ value = argument.value :=
  @parse_written _ _ _ ["text"] _ _ _ noteCall [noteText, noteTimes] rfl
    ⟨[("notes.add", noteFunction)], rfl, rfl⟩ ⟨rfl, rfl, rfl⟩ (by decide)

end PreActive.Bridge
