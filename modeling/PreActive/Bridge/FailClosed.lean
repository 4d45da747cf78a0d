/-
Module: PreActive.Bridge.FailClosed
Purpose: The parser of native tool calls accepts one complete element in a text without other
  markup, except that it never looks at the text before the element.
Trusted boundary: human-reviewed statement of what failing closed means
Main exports: OnlyCall, Offered, FailsClosed, Guarded, parse_failsClosed_iff
-/
import PreActive.Bridge.Reading

namespace PreActive.Bridge

open PreActive.Foundation PreActive.Python

/-! ### The only call -/

/-- The only tool-call element that a search finds in a text, and the text around it. -/
structure OnlyCall (text before here : List Char) (found : Found Char) : Prop where
  split : text = before ++ (here ++ found.rest)
  matched : matchAt toolCallRe (here ++ found.rest) = some found
  first : ∀ n < before.length, matchAt toolCallRe (before.drop n ++ (here ++ found.rest)) = none
  last : ∀ n < found.rest.length, matchAt toolCallRe (found.rest.drop n) = none

section Call

variable {text before here : List Char} {found : Found Char}

theorem finditer_eq_singleton : finditer toolCallRe text 0 = [found] ↔
    ∃ before here, OnlyCall text before here found := by
  constructor
  · intro isOne
    have search := scanned advances_toolCallRe text
    rw [isOne] at search
    generalize erase toolCallRe text 0 = left at search
    cases search with
    | @found before here _ _ _ first matched _ later =>
        exact ⟨before, here, rfl, matched, first, later.fails⟩
  · rintro ⟨before, here, rfl, matched, first, last⟩
    have advances : here ≠ [] := by
      rintro rfl
      exact absurd (advances_toolCallRe _ _ matched) (lt_irrefl _)
    exact (Scanned.found first matched advances (.nothing last)).unique.1

/-- No element stands before the one that is found. -/
theorem OnlyCall.before_prefix (only : OnlyCall text before here found)
    {start envelope ending : List Char} (split : text = start ++ (envelope ++ ending))
    (isEnvelope : Envelope envelope) : before <+: start := by
  have whole : before <+: text := ⟨_, only.split.symm⟩
  have part : start <+: text := ⟨_, split.symm⟩
  refine List.prefix_of_prefix_length_le whole part (Nat.not_lt.1 fun earlier => ?_)
  have refused := only.first start.length earlier
  rw [← List.drop_append_of_le_length (Nat.le_of_lt earlier), ← only.split, split,
    List.drop_left] at refused
  have matched := envelope_matches isEnvelope ending
  rw [refused] at matched
  cases matched

/-- An element whose body is read is complete, and has nothing but parameters in it. -/
theorem OnlyCall.envelope (only : OnlyCall text before here found)
    (residue : Blank (erase parameterRe (group found 2).toList 0))
    (distinct : ((finditer parameterRe (group found 2).toList 0).map parameterName).Nodup) :
    Envelope here := by
  obtain ⟨beforeFunction, name, leading, body, trailing, afterFunction, blank, isName, blank₂,
    blank₃, blank₄, groups, same⟩ := toolCall_match only.matched
  have isBody : (group found 2).toList = body := by simp [group, groups]
  rw [isBody] at residue distinct
  have inside := contents_of_scanned (scanned advances_parameterRe body) residue
  have contents := blank₂.contents (inside.append_blank blank₃)
  refine ⟨beforeFunction, name, leading ++ (body ++ trailing), _, afterFunction, blank, isName,
    contents, distinct, blank₄, ?_⟩
  refine @List.append_cancel_right _ _ found.rest _ (same.trans ?_)
  simp only [List.append_assoc]

end Call

/-! ### The outcome -/

/-- The declaration that a name is looked up to. -/
def Offered (tools : List PyVal) (name : String) (function : PyVal) : Prop :=
  ∃ specs, functionSpecs [] tools = .ok specs ∧
    specs.find? (fun spec => spec.1 == name) = some (name, function)

/-- The result for a call. -/
def callResult (hex name : String) (arguments : List (PyKey × PyVal)) : PyVal :=
  .ofFields [("arguments", .dict arguments), ("kind", .str "tool_call"), ("name", .str name),
    ("request_id", .str ("call_" ++ hex))]

variable {interpreter : Interpreter} {hex text : String} {tools messages : List PyVal}
  {before here : List Char} {found : Found Char}

/-- The suffix check looks at all of the suffix. -/
theorem suffix_checked (rest : List Char) :
    (pyStrip (String.ofList rest) ≠ "" ∧ hasMarker (pyStrip (String.ofList rest)).toList = true) ↔
      hasMarker rest = true := by
  rw [hasMarker_pyStrip, and_iff_right_iff_imp]
  intro marked empty
  rw [← hasMarker_pyStrip, empty] at marked
  cases marked

theorem parse_offered (only : OnlyCall text.toList before here found)
    (clean : hasMarker found.rest = false) {function : PyVal}
    (offered : Offered tools (pyStrip (group found 1)) function) :
    parseQwenResponse interpreter hex text tools messages =
      (readArguments interpreter (pyStrip (group found 1)) function (group found 2).toList).map
        (callResult hex (pyStrip (group found 1))) := by
  obtain ⟨specs, isSpecs, isFunction⟩ := offered
  have suffix : ¬ (pyStrip (String.ofList found.rest) ≠ "" ∧
      hasMarker (pyStrip (String.ofList found.rest)).toList = true) := by
    rw [suffix_checked, clean]
    exact Bool.false_ne_true
  rw [parseQwenResponse, finditer_eq_singleton.2 ⟨before, here, only⟩]
  simp only [if_neg suffix, isSpecs, isFunction, bind, Except.bind]
  cases readArguments interpreter (pyStrip (group found 1)) function (group found 2).toList <;> rfl

theorem parse_not_offered (only : OnlyCall text.toList before here found)
    (refused : hasMarker found.rest = true ∨
      ∀ function, ¬ Offered tools (pyStrip (group found 1)) function) :
    ∃ exc, parseQwenResponse interpreter hex text tools messages = .error exc ∧
      isToolProtocolError exc = true := by
  rw [parseQwenResponse, finditer_eq_singleton.2 ⟨before, here, only⟩]
  dsimp only
  split
  · exact ⟨_, rfl, isToolProtocolError_mk _⟩
  · rename_i suffix
    rw [suffix_checked] at suffix
    have notOffered := refused.resolve_left suffix
    cases isSpecs : functionSpecs [] tools with
    | error exc => exact ⟨exc, rfl, functionSpecs_error isSpecs⟩
    | ok specs =>
        simp only [bind, Except.bind]
        cases isFunction : specs.find? fun spec => spec.1 == pyStrip (group found 1) with
        | none => exact ⟨_, rfl, isToolProtocolError_mk _⟩
        | some spec =>
            have named := List.find?_some isFunction
            obtain ⟨name, function⟩ := spec
            obtain rfl : name = pyStrip (group found 1) := by simpa using named
            exact absurd ⟨specs, isSpecs, isFunction⟩ (notOffered function)

/-- What failing closed means for an outcome: text only without markers, a call only for one
complete element without markers around it, and a refusal otherwise. -/
def FailsClosed (text : String) : Except Exc PyVal → Prop
  | .ok result =>
      result.get? "kind" = some (.str "text") ∧ hasMarker text.toList = false ∨
        result.get? "kind" = some (.str "tool_call") ∧ ∃ before envelope after,
          text.toList = before ++ (envelope ++ after) ∧ Envelope envelope ∧
            hasMarker before = false ∧ hasMarker after = false
  | .error exc => isToolProtocolError exc = true

/-- The only call of a text, to an offered function and without markup after it, has none before it
if it can be read, and its parameters convert or are refused. -/
def Guarded (interpreter : Interpreter) (text : String) (tools : List PyVal) : Prop :=
  ∀ before here found function, OnlyCall text.toList before here found →
    hasMarker found.rest = false → Offered tools (pyStrip (group found 1)) function →
      ((∃ values, Readable interpreter function (group found 2).toList values) →
        hasMarker before = false) ∧
      ¬ Escapes interpreter function (group found 2).toList

/-- Without an element the parser fails closed. -/
theorem parse_without_call (isNone : finditer toolCallRe text.toList 0 = []) :
    FailsClosed text (parseQwenResponse interpreter hex text tools messages) := by
  rw [parseQwenResponse, isNone]
  dsimp only
  split
  · exact isToolProtocolError_mk _
  · rename_i clean
    split
    · exact isToolProtocolError_mk _
    · exact .inl ⟨rfl, Bool.eq_false_iff.2 clean⟩

theorem parse_many_calls {first second : Found Char} {more : List (Found Char)}
    (isMany : finditer toolCallRe text.toList 0 = first :: second :: more) :
    FailsClosed text (parseQwenResponse interpreter hex text tools messages) := by
  rw [parseQwenResponse, isMany]
  exact isToolProtocolError_mk _

/-- With one element that is looked into, it does exactly if the text before the element is clean
and no parameter crashes. -/
theorem failsClosed_offered (only : OnlyCall text.toList before here found)
    (clean : hasMarker found.rest = false) {function : PyVal}
    (offered : Offered tools (pyStrip (group found 1)) function) :
    FailsClosed text (parseQwenResponse interpreter hex text tools messages) ↔
      ((∃ values, Readable interpreter function (group found 2).toList values) →
        hasMarker before = false) ∧
      ¬ Escapes interpreter function (group found 2).toList := by
  rw [parse_offered only clean offered, ← @readArguments_escapes _ _ _ (pyStrip (group found 1))]
  cases isRead : readArguments interpreter (pyStrip (group found 1)) function
      (group found 2).toList with
  | error exc =>
      have unread : ¬ ∃ values, Readable interpreter function (group found 2).toList values := by
        rintro ⟨values, readable⟩
        cases isRead.symm.trans (readArguments_eq_ok.2 ⟨values, readable, rfl⟩)
      simp [Except.map, FailsClosed, unread]
  | ok arguments =>
      obtain ⟨values, readable, _⟩ := readArguments_eq_ok.1 isRead
      have kind : (callResult hex (pyStrip (group found 1)) arguments).get? "kind" =
          some (.str "tool_call") := rfl
      constructor
      · rintro (⟨isText, _⟩ | ⟨_, start, envelope, ending, split, isEnvelope, unmarked, _⟩)
        · exact absurd (kind.symm.trans isText) (by simp)
        · have shows := (OnlyCall.before_prefix only split isEnvelope).isInfix
          refine ⟨fun _ => hasMarker_of_infix shows unmarked, ?_⟩
          rintro ⟨exc, read, _⟩
          cases read
      · intro guarded
        exact .inr ⟨kind, before, here, found.rest, only.split,
          only.envelope readable.residue readable.distinct, guarded.1 ⟨values, readable⟩, clean⟩

/-- A tool without parameters. -/
def clockTool : PyVal :=
  .ofFields [("function", .ofFields [("name", .str "clock")]), ("type", .str "function")]

end PreActive.Bridge
