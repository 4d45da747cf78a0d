/-
Module: PreActive.Kernel.SchemaMeaning
Purpose: What a schema means for a value, by recursion on the schema and for any reading of its
  primitive tests, and that the validator reports this meaning for the tests that Python makes.
Trusted boundary: human-reviewed spec of the keywords
Main exports: Reading, meaning, pythonReading, Strains, validateSchemaValue_reported
-/
import PreActive.Kernel.Subschemas
import Mathlib.Data.List.Dedup

namespace PreActive.Kernel

open PreActive.Foundation PreActive.Python

/-! ### The meaning of a schema -/

/-- How the primitive tests of the keywords are read. -/
structure Reading where
  /-- The value is of one of the named types. -/
  typed : PyVal → List String → Verdict
  /-- The value is one of the options. -/
  among : PyVal → List PyVal → Verdict
  /-- The value is the constant. -/
  equal : PyVal → PyVal → Verdict
  /-- The items of an array are pairwise different. -/
  distinct : List PyVal → Verdict
  /-- The pattern is found in the text. -/
  finds : String → String → Verdict
  /-- The number can be compared and divided. -/
  usable : PyVal → Verdict
  /-- The first number is less than the second. -/
  less : PyVal → PyVal → Verdict
  /-- The first number is at most the second. -/
  atMost : PyVal → PyVal → Verdict
  /-- The first number is a multiple of the second. -/
  multiple : PyVal → PyVal → Verdict

/-- What a keyword asks, where the schema has it. -/
def asked (schema : PyVal) (keyword : String) (verdict : PyVal → Verdict) : Verdict :=
  match schema.get? keyword with
  | some found => verdict found
  | none => .pass

/-- The types a `type` keyword names. -/
def typeNames : PyVal → List String
  | .str name => [name]
  | other => (listItems other).filterMap PyVal.asStr?

/-- The bound that a counting keyword carries. -/
def countNamed : PyVal → Int
  | .int count => count
  | _ => 0

section Keywords

variable (reading : Reading)

-- the meaning of the subschemas of a keyword
variable (below : String → PyVal → PyVal → Verdict)

/-- One of the named types. -/
def typeMeaning (value : PyVal) : PyVal → Verdict
  | .none => .pass
  | declared => reading.typed value (typeNames declared)

/-- The keywords that hold for values of every kind. -/
def anyMeaning (schema value : PyVal) : Verdict :=
  .all [
    asked schema "type" (typeMeaning reading value),
    asked schema "enum" fun options => reading.among value (listItems options),
    asked schema "const" fun constant => reading.equal value constant,
    asked schema "allOf" fun branches =>
      .all ((listItems branches).map fun child => below "allOf" child value),
    asked schema "anyOf" fun branches =>
      .any ((listItems branches).map fun child => below "anyOf" child value),
    asked schema "oneOf" fun branches =>
      .exactlyOne ((listItems branches).map fun child => below "oneOf" child value),
    asked schema "not" fun child => (below "not" child value).negate]

/-- The size is at least the bound of the keyword. -/
def leastMeaning (schema : PyVal) (keyword : String) (size : Nat) : Verdict :=
  asked schema keyword fun bound => .test (countNamed bound ≤ size)

/-- The size is at most the bound of the keyword. -/
def mostMeaning (schema : PyVal) (keyword : String) (size : Nat) : Verdict :=
  asked schema keyword fun bound => .test (size ≤ countNamed bound)

/-- The members that `properties` does not name. -/
def additionalMeaning (schema value : PyVal) : PyVal → Verdict
  | .bool false => .test (extraItems schema value = [])
  | .dict fields =>
      .all ((extraItems schema value).map fun item =>
        below "additionalProperties" (.dict fields) item.2)
  | _ => .pass

/-- The keywords that constrain objects. -/
def objectMeaning (schema value : PyVal) : Verdict :=
  .all [
    asked schema "required" fun required =>
      .test (∀ key ∈ (listItems required).filterMap PyVal.asStr?, (value.get? key).isSome),
    leastMeaning schema "minProperties" (dictItems value).length,
    mostMeaning schema "maxProperties" (dictItems value).length,
    asked schema "properties" fun properties =>
      .all ((dictItems properties).map fun property =>
        asked value property.1 fun member => below "properties" property.2 member),
    asked schema "additionalProperties" (additionalMeaning below schema value)]

/-- Where it is asked for, no two items are the same. -/
def uniqueMeaning (items : List PyVal) : PyVal → Verdict
  | .bool true => reading.distinct items
  | _ => .pass

/-- The keywords that constrain arrays. -/
def arrayMeaning (schema : PyVal) (items : List PyVal) : Verdict :=
  .all [
    leastMeaning schema "minItems" items.length,
    mostMeaning schema "maxItems" items.length,
    asked schema "uniqueItems" (uniqueMeaning reading items),
    asked schema "items" fun child => .all (items.map (below "items" child))]

/-- The keywords that constrain strings. -/
def stringMeaning (schema : PyVal) (text : String) : Verdict :=
  .all [
    leastMeaning schema "minLength" text.length,
    mostMeaning schema "maxLength" text.length,
    asked schema "pattern" fun pattern => reading.finds (pattern.asStr?.getD "") text]

/-- The keywords that constrain numbers. -/
def numberMeaning (schema value : PyVal) : Verdict :=
  .all [
    reading.usable value,
    asked schema "minimum" fun limit => (reading.less value limit).negate,
    asked schema "maximum" fun limit => (reading.less limit value).negate,
    asked schema "exclusiveMinimum" fun limit => (reading.atMost value limit).negate,
    asked schema "exclusiveMaximum" fun limit => (reading.atMost limit value).negate,
    asked schema "multipleOf" fun divisor => reading.multiple value divisor]

/-- Each of the object, array, string and number keywords constrains only values of that kind. -/
def kindMeaning (schema : PyVal) : PyVal → Verdict
  | .dict fields => objectMeaning below schema (.dict fields)
  | .list items => arrayMeaning reading below schema items
  | .str text => stringMeaning reading schema text
  | .int value => numberMeaning reading schema (.int value)
  | .float value => numberMeaning reading schema (.float value)
  | _ => .pass

-- whether there is room for the subschemas that are nested under these keywords
variable (room : List String → Bool)

/-- What the schema says of the value, for subschemas nested as deep as the fuel, as far as there is
room for them. -/
def meaning : Nat → List String → PyVal → PyVal → Verdict
  | 0, _, _, _ => .test False
  | fuel + 1, route, schema, value =>
      if !room route then ⟨False, True⟩
      else
        (anyMeaning reading (fun keyword => meaning fuel (keyword :: route)) schema value).andThen
          (kindMeaning reading (fun keyword => meaning fuel (keyword :: route)) schema value)

end Keywords

/-! ### The tests that Python makes -/

/-- The double nearest to a number. -/
def doubleOf : PyVal → Double
  | .int value => Double.round value
  | .float value => value.toDouble
  | _ => .nan

/-- An int that no finite double is nearest to. -/
def Overflows : PyVal → Prop
  | .int value => (Double.round value).isFinite = false
  | _ => False

theorem toFloat_overflows {value : PyVal} (overflows : Overflows value) :
    toFloat value = .error ⟨.overflowError, "int too large to convert to float"⟩ := by
  cases value with
  | int value =>
      have infinite : (Double.round value).isFinite = false := overflows
      rw [toFloat]
      cases rounded : Double.round value with
      | finite size =>
          rw [rounded] at infinite
          cases infinite
      | _ => rfl
  | _ => cases overflows

theorem toFloat_fits {value : PyVal} (number : value.isNumber = true)
    (fits : ¬Overflows value) : toFloat value = .ok (doubleOf value) := by
  cases value with
  | int value =>
      rw [toFloat, doubleOf]
      cases rounded : Double.round value with
      | finite size => rfl
      | _ =>
          have infinite : Overflows (.int value) := by simp [Overflows, rounded, Double.isFinite]
          exact absurd infinite fits
  | float value => rfl
  | _ => cases number

/-- The test of one type fails on an int that overflows. -/
def typeTest (value : PyVal) (name : String) : Verdict :=
  ⟨jsonTypeMatches value name = .ok true, name = "number" ∧ Overflows value⟩

/-- Equality and order as Python decides them on the doubles that the numbers are converted to. -/
def pythonReading (reSearch : String → String → Bool) : Reading where
  typed value names := .any (names.map (typeTest value))
  among value options := .test (∃ option ∈ options, pyEq value option = true)
  equal value constant := .test (pyEq value constant = true)
  distinct items := .test (items.map (dumps canonicalStyle)).Nodup
  finds pattern text := .test (reSearch pattern text = true)
  usable value := ⟨True, Overflows value⟩
  less value limit := .test ((doubleOf value).lt (doubleOf limit) = true)
  atMost value limit := .test ((doubleOf value).le (doubleOf limit) = true)
  multiple value divisor :=
    ⟨isCloseToInteger ((doubleOf value).divide (doubleOf divisor)) = .ok true,
      ∃ negative, (doubleOf value).divide (doubleOf divisor) = .infinity negative⟩

/-- The walk of the validator over the schema and the value, keyword by keyword in its order and up
to the first keyword that is not met, comes to an int that has no double, to a quotient that is
infinite, or to a subschema that there is no room for. -/
def Strains (reSearch : String → String → Bool) (room : List String → Bool)
    (schema value : PyVal) : Prop :=
  (meaning (pythonReading reSearch) room (depth schema) [] schema value).spoiled

/-! ### The validator reports the meaning -/

/-- The exceptions of a validation that could not be carried out. -/
def IsStrain (exc : Exc) : Prop := exc.cls = .overflowError ∨ exc.cls = .other "RecursionError"

/-- A ValueError refuses; an OverflowError reports a number that could not be handled, and a
RecursionError a subschema that could not be entered. -/
def Reported (verdict : Verdict) (result : Except Exc Unit) : Prop :=
  verdict.ReportedBy (fun exc => exc.isValueError = true) IsStrain result

theorem not_refusal_of_strain (exc : Exc) (strain : IsStrain exc) : ¬exc.isValueError = true := by
  rcases strain with overflow | recursion
  · simp [Exc.isValueError, overflow]
  · simp [Exc.isValueError, recursion]

section Rules

variable {verdict : Verdict} {rest : List Verdict} {first second : Except Exc Unit}

theorem Reported.next (head : Reported verdict first)
    (tail : verdict.met → Reported (.all rest) second) :
    Reported (.all (verdict :: rest)) (first >>= fun _ => second) :=
  Verdict.ReportedBy.next head tail

theorem Reported.last (reported : Reported verdict first) : Reported (.all [verdict]) first :=
  Verdict.ReportedBy.last reported

theorem reported_demand {holds : Bool} {text : String} {met : Prop} (agrees : holds = true ↔ met) :
    Reported (.test met) (demand holds text) := by
  cases holds with
  | true => exact ⟨agrees.1 rfl, id⟩
  | false => exact .inl ⟨rfl, fun holds => absurd (agrees.2 holds) (by decide), id⟩

theorem reported_asked {schema : PyVal} {keyword : String} {verdict : PyVal → Verdict}
    {check : PyVal → Except Exc Unit}
    (reported : ∀ found, schema.get? keyword = some found → Reported (verdict found) (check found)) :
    Reported (asked schema keyword verdict) (whenPresent schema keyword check) := by
  unfold asked whenPresent
  cases found : schema.get? keyword with
  | none => exact Verdict.ReportedBy.pass
  | some value => exact reported value found

end Rules

section Shapes

variable {value : PyVal} {keyword : String}

theorem itemsOf_list (isList : isNonemptyList value = true) :
    itemsOf keyword value = .ok (listItems value) := by
  cases value with
  | list items => rfl
  | _ => cases isList

theorem stringsOf_strings (areStrings : isListOf isStr value = true) :
    stringsOf keyword value = .ok ((listItems value).filterMap PyVal.asStr?) := if_pos areStrings

theorem fieldsOf_dict (isDict : value.isDict = true) :
    fieldsOf keyword value = .ok (dictItems value) := if_pos isDict

theorem countOf_count (isNat : isCount value = true) :
    countOf keyword value = .ok (countNamed value) := by
  cases value with
  | int count => rfl
  | _ => cases isNat

theorem declaredTypes_names (named : namesJsonTypes value = true) :
    declaredTypes value = .ok (typeNames value) := by
  cases value with
  | str name => rfl
  | list names =>
      apply stringsOf_strings
      have known := (Bool.and_eq_true _ _ ▸ named : (!names.isEmpty) = true ∧ _).2
      refine List.all_eq_true.2 fun name member => ?_
      have isName := List.all_eq_true.1 known name member
      cases name with
      | str text => rfl
      | _ => cases isName
  | _ => cases named

end Shapes

section Keywords

variable {reSearch : String → String → Bool} {schema value : PyVal}

theorem jsonTypeMatches_total {name : String} (other : name ≠ "number") :
    ∃ answer, jsonTypeMatches value name = .ok answer := by
  unfold jsonTypeMatches
  split <;> first | exact ⟨_, rfl⟩ | exact absurd rfl other

theorem typed_tested (name : String) :
    (typeTest value name).TestedBy IsStrain (jsonTypeMatches value name) := by
  by_cases overflows : name = "number" ∧ Overflows value
  · obtain ⟨rfl, overflows⟩ := overflows
    have number : value.isNumber = true := by
      cases value with
      | int value => rfl
      | _ => cases overflows
    have raised : jsonTypeMatches value "number" =
        .error ⟨.overflowError, "int too large to convert to float"⟩ := by
      simp [jsonTypeMatches, number, toFloat_overflows overflows, Except.map]
    rw [raised]
    exact ⟨.inl rfl, rfl, overflows⟩
  · have answered : ∃ answer, jsonTypeMatches value name = .ok answer := by
      by_cases isNumber : name = "number"
      · subst isNumber
        by_cases number : value.isNumber = true
        · have fits : ¬Overflows value := fun overflow => overflows ⟨rfl, overflow⟩
          exact ⟨(doubleOf value).isFinite,
            by simp [jsonTypeMatches, number, toFloat_fits number fits, Except.map]⟩
        · exact ⟨false, by simp [jsonTypeMatches, number]⟩
      · exact jsonTypeMatches_total isNumber
    obtain ⟨answer, matched⟩ := answered
    rw [matched]
    refine ⟨?_, overflows⟩
    change answer = true ↔ jsonTypeMatches value name = .ok true
    rw [matched, Except.ok.injEq]

theorem reported_type {path : String} {declared : PyVal}
    (shape : declared = .none ∨ namesJsonTypes declared = true) :
    Reported (typeMeaning (pythonReading reSearch) value declared)
      (validateType value path declared) := by
  rcases shape with rfl | named
  · exact Verdict.ReportedBy.pass
  · have tests := Verdict.TestedBy.some fun name (_ : name ∈ typeNames declared) =>
      @typed_tested value name
    have demanded : Reported ((pythonReading reSearch).typed value (typeNames declared))
        (declaredTypes declared >>= fun names =>
          anyM (jsonTypeMatches value) names >>= fun holds =>
            demand holds (path ++ " has wrong type")) := by
      rw [declaredTypes_names named]
      exact tests.demanded rfl
    cases declared with
    | none => cases named
    | _ => exact demanded

theorem reported_enum {path : String} {options : PyVal} (shape : isNonemptyList options = true) :
    Reported ((pythonReading reSearch).among value (listItems options))
      (itemsOf "enum" options >>= fun items =>
        demand (items.any (pyEq value)) (path ++ " is not in enum")) := by
  rw [itemsOf_list shape]
  exact reported_demand List.any_eq_true

variable {below : String → PyVal → PyVal → Verdict}
variable {visit : String → PyVal → PyVal → String → Except Exc Unit}

theorem accepts_tested {keyword : String} {child : PyVal} {path : String}
    (reported : Reported (below keyword child value) (visit keyword child value path)) :
    (below keyword child value).TestedBy IsStrain
      (schemaAccepts visit keyword child value path) :=
  Verdict.ReportedBy.caught (fun _ => .rfl) not_refusal_of_strain reported

/-- The keywords that hold for values of every kind are reported in their order. -/
theorem validateAny_reported {path : String} (shaped : Shaped schema)
    (reported : ∀ keyword child, Subschema schema child →
      Reported (below keyword child value) (visit keyword child value path)) :
    Reported (anyMeaning (pythonReading reSearch) below schema value)
      (validateAny visit schema value path) := by
  have branch : ∀ {keyword branches}, keyword ∈ ["allOf", "anyOf", "oneOf"] →
      schema.get? keyword = some branches → itemsOf keyword branches = .ok (listItems branches) ∧
        ∀ child ∈ listItems branches,
          Reported (below keyword child value) (visit keyword child value path) := by
    intro keyword branches known found
    exact ⟨itemsOf_list (shaped.branches known found),
      fun child member => reported keyword child (.branch known found member)⟩
  unfold anyMeaning validateAny
  refine .next (reported_asked fun declared found => reported_type (shaped.type found)) fun _ => ?_
  refine .next (reported_asked fun options found => reported_enum (shaped.enum found)) fun _ => ?_
  refine .next (reported_asked fun constant _ => reported_demand .rfl) fun _ => ?_
  refine .next (reported_asked fun branches found => ?_) fun _ => ?_
  · obtain ⟨listed, children⟩ := branch (by simp) found
    rw [listed]
    exact Verdict.ReportedBy.each children
  refine .next (reported_asked fun branches found => ?_) fun _ => ?_
  · obtain ⟨listed, children⟩ := branch (by simp) found
    rw [listed]
    exact (Verdict.TestedBy.some fun child member =>
      accepts_tested (children child member)).demanded rfl
  refine .next (reported_asked fun branches found => ?_) fun _ => ?_
  · obtain ⟨listed, children⟩ := branch (by simp) found
    rw [listed]
    exact Verdict.TestedBy.single (fun child member => accepts_tested (children child member)) rfl
  refine .last (reported_asked fun child found => ?_)
  exact (accepts_tested (reported "not" child (.negated found))).forbidden rfl

theorem validateLeast_reported {keyword text : String} {size : Nat} (shaped : Shaped schema)
    (known : keyword ∈ ["minProperties", "maxProperties", "minItems", "maxItems", "minLength",
      "maxLength"]) :
    Reported (leastMeaning schema keyword size) (validateLeast schema keyword size text) := by
  refine reported_asked fun bound found => ?_
  rw [countOf_count (shaped.counts known found)]
  exact reported_demand decide_eq_true_iff

theorem validateMost_reported {keyword text : String} {size : Nat} (shaped : Shaped schema)
    (known : keyword ∈ ["minProperties", "maxProperties", "minItems", "maxItems", "minLength",
      "maxLength"]) :
    Reported (mostMeaning schema keyword size) (validateMost schema keyword size text) := by
  refine reported_asked fun bound found => ?_
  rw [countOf_count (shaped.counts known found)]
  exact reported_demand decide_eq_true_iff

theorem missing_isEmpty {keys : List String} :
    (keys.filter fun key => (value.get? key).isNone).isEmpty = true ↔
      ∀ key ∈ keys, (value.get? key).isSome = true := by
  rw [List.isEmpty_iff, List.filter_eq_nil_iff]
  refine forall₂_congr fun key _ => ?_
  cases value.get? key <;> simp

/-- The members of a value are reported by the subschemas that are applied to them. -/
theorem validateAdditional_reported {path : String} {additional : PyVal}
    (reported : additional.isDict = true → ∀ item ∈ dictItems value, ∀ path,
      Reported (below "additionalProperties" additional item.2)
        (visit "additionalProperties" additional item.2 path)) :
    Reported (additionalMeaning below schema value additional)
      (validateAdditional visit schema value path additional) := by
  cases additional with
  | bool allowed =>
      cases allowed with
      | true => exact Verdict.ReportedBy.pass
      | false => exact reported_demand List.isEmpty_iff
  | dict fields =>
      refine Verdict.ReportedBy.each fun item member => ?_
      exact reported rfl item (List.mem_of_mem_filter member) _
  | _ => exact Verdict.ReportedBy.pass

theorem mem_of_get {member : PyVal} {name : String} (found : value.get? name = some member) :
    (name, member) ∈ dictItems value := by
  cases value with
  | dict fields => exact mem_dictItems.2 (mem_of_lookup found)
  | _ => cases found

theorem validateObject_reported {path : String} (shaped : Shaped schema)
    (reported : ∀ keyword child, Subschema schema child → ∀ item ∈ dictItems value, ∀ path,
      Reported (below keyword child item.2) (visit keyword child item.2 path)) :
    Reported (objectMeaning below schema value) (validateObject visit schema value path) := by
  unfold objectMeaning validateObject
  refine .next (reported_asked fun required found => ?_) fun _ => ?_
  · rw [stringsOf_strings (shaped.required found)]
    exact reported_demand missing_isEmpty
  refine .next (validateLeast_reported shaped (by simp)) fun _ => ?_
  refine .next (validateMost_reported shaped (by simp)) fun _ => ?_
  refine .next (reported_asked fun properties found => ?_) fun _ => ?_
  · rw [fieldsOf_dict (shaped.properties found)]
    refine Verdict.ReportedBy.each fun property member => ?_
    exact reported_asked fun member' isMember =>
      reported _ property.2 (.property found member) _ (mem_of_get isMember) _
  refine .last (reported_asked fun additional found => ?_)
  exact validateAdditional_reported fun isDict => reported _ additional (.additional found isDict)

/-- Texts of JSON values exist, and tell the values apart as far as `dumps` does. -/
theorem mapM_dumps {items : List PyVal} (plain : ∀ item ∈ items, isPlain item = true) :
    ∃ texts, items.mapM (dumps canonicalStyle) = .ok texts ∧
      items.map (dumps canonicalStyle) = texts.map .ok := by
  induction items with
  | nil => exact ⟨[], rfl, rfl⟩
  | cons item rest ih =>
      obtain ⟨text, printed⟩ := dumps_isPlain canonicalStyle (plain item (by simp))
      obtain ⟨texts, all, same⟩ := ih fun item member => plain item (by simp [member])
      refine ⟨text :: texts, ?_, by rw [List.map_cons, List.map_cons, printed, same]⟩
      rw [List.mapM_cons, printed, all]
      rfl

theorem validateUnique_reported {items : List PyVal} {path : String} {unique : PyVal}
    (shape : isBool unique = true) (plain : ∀ item ∈ items, isPlain item = true) :
    Reported (uniqueMeaning (pythonReading reSearch) items unique)
      (validateUnique items path unique) := by
  cases unique with
  | bool asked =>
      cases asked with
      | false => exact Verdict.ReportedBy.pass
      | true =>
          obtain ⟨texts, printed, same⟩ := mapM_dumps plain
          have nodup : texts.Nodup ↔ (items.map (dumps canonicalStyle)).Nodup := by
            rw [same, List.nodup_map_iff (fun _ _ => Except.ok.inj)]
          unfold validateUnique
          rw [printed]
          refine reported_demand ?_
          rw [decide_eq_true_iff, ← nodup, ← List.dedup_eq_self]
          constructor
          · intro length
            exact (List.dedup_sublist texts).eq_of_length length.symm
          · intro same
            rw [same]
  | _ => cases shape

theorem validateArray_reported {items : List PyVal} {path : String} (shaped : Shaped schema)
    (plain : ∀ item ∈ items, isPlain item = true)
    (reported : ∀ keyword child, Subschema schema child → ∀ item ∈ items, ∀ path,
      Reported (below keyword child item) (visit keyword child item path)) :
    Reported (arrayMeaning (pythonReading reSearch) below schema items)
      (validateArray visit schema items path) := by
  unfold arrayMeaning validateArray
  refine .next (validateLeast_reported shaped (by simp)) fun _ => ?_
  refine .next (validateMost_reported shaped (by simp)) fun _ => ?_
  refine .next (reported_asked fun unique found =>
    validateUnique_reported (shaped.unique found) plain) fun _ => ?_
  refine .last (reported_asked fun child found => ?_)
  have indexed : ((List.range items.length).zip items).map Prod.snd = items :=
    List.map_snd_zip (by simp)
  have same : items.map (below "items" child) =
      ((List.range items.length).zip items).map fun item => below "items" child item.2 := by
    conv_lhs => rw [← indexed, List.map_map]
    rfl
  rw [same]
  exact Verdict.ReportedBy.each fun item member =>
    reported _ child (.items found) item.2 (List.of_mem_zip member).2 _

theorem validateString_reported {text path : String} (shaped : Shaped schema) :
    Reported (stringMeaning (pythonReading reSearch) schema text)
      (validateString reSearch schema text path) := by
  unfold stringMeaning validateString
  refine .next (validateLeast_reported shaped (by simp)) fun _ => ?_
  refine .next (validateMost_reported shaped (by simp)) fun _ => ?_
  refine .last (reported_asked fun pattern found => ?_)
  have isText := shaped.pattern found
  cases pattern with
  | str pattern => exact reported_demand .rfl
  | _ => cases isText

theorem doubleOf_of_toFloat {converted : Double} (isFloat : toFloat value = .ok converted) :
    doubleOf value = converted := by
  cases value with
  | int value =>
      rw [toFloat] at isFloat
      split at isFloat
      · rename_i size rounded
        cases isFloat
        exact rounded
      · cases isFloat
  | float value => exact Except.ok.inj isFloat
  | _ => cases isFloat

/-- One numeric bound is reported, whatever the comparison. -/
theorem validateBound_reported {keyword text : String} {violates : Double → Bool}
    {violated : PyVal → Prop} (shaped : Shaped schema)
    (known : keyword ∈ ["minimum", "maximum", "exclusiveMinimum", "exclusiveMaximum",
      "multipleOf"]) (agrees : ∀ limit, violates (doubleOf limit) = true ↔ violated limit) :
    Reported (asked schema keyword fun limit => (Verdict.test (violated limit)).negate)
      (validateBound schema keyword violates text) := by
  refine reported_asked fun limit found => ?_
  obtain ⟨-, bound, converted⟩ := shaped.numbers known found
  rw [converted, ← doubleOf_of_toFloat converted]
  have holds : (!violates (doubleOf limit)) = true ↔ ¬violated limit := by
    rw [← agrees limit]
    simp
  exact reported_demand holds

theorem multiple_reported {quotient : Double} {text : String} :
    Reported ⟨isCloseToInteger quotient = .ok true, ∃ negative, quotient = .infinity negative⟩
      (isCloseToInteger quotient >>= fun holds => demand holds text) := by
  cases quotient with
  | infinity negative => exact .inr ⟨.inl rfl, negative, rfl⟩
  | nan => exact .inl ⟨rfl, by simp [isCloseToInteger], by simp⟩
  | finite size =>
      cases close : isCloseToInteger (.finite size) with
      | error exc => cases close
      | ok holds =>
          cases holds with
          | true => exact ⟨rfl, by simp⟩
          | false => exact .inl ⟨rfl, by simp, by simp⟩

theorem validateNumber_reported {path : String} (shaped : Shaped schema)
    (number : value.isNumber = true) :
    Reported (numberMeaning (pythonReading reSearch) schema value)
      (validateNumber schema value path) := by
  unfold numberMeaning validateNumber
  by_cases overflows : Overflows value
  · rw [toFloat_overflows overflows]
    exact .inr ⟨.inl rfl, .inl overflows⟩
  rw [toFloat_fits number overflows]
  have usable : Reported ((pythonReading reSearch).usable value) (.ok ()) := ⟨trivial, overflows⟩
  refine usable.next fun _ => ?_
  refine .next (validateBound_reported shaped (by simp) fun _ => .rfl) fun _ => ?_
  refine .next (validateBound_reported shaped (by simp) fun _ => .rfl) fun _ => ?_
  refine .next (validateBound_reported shaped (by simp) fun _ => .rfl) fun _ => ?_
  refine .next (validateBound_reported shaped (by simp) fun _ => .rfl) fun _ => ?_
  refine .last (reported_asked fun divisor found => ?_)
  obtain ⟨size, -, converted⟩ := shaped.divisor found
  rw [converted, ← doubleOf_of_toFloat converted]
  exact multiple_reported

/-- All the keywords are reported, when they are for every subschema. -/
theorem validateKeywords_reported {path : String} (shaped : Shaped schema)
    (plain : isPlain value = true)
    (reported : ∀ keyword child, Subschema schema child → ∀ value path, isPlain value = true →
      Reported (below keyword child value) (visit keyword child value path)) :
    Reported ((anyMeaning (pythonReading reSearch) below schema value).andThen
        (kindMeaning (pythonReading reSearch) below schema value))
      (validateAny visit schema value path >>= fun _ =>
        validateKind reSearch visit schema path value) := by
  refine Verdict.ReportedBy.andThen (validateAny_reported shaped
    fun keyword child sub => reported keyword child sub value path plain) fun _ => ?_
  cases value with
  | dict fields =>
      refine validateObject_reported shaped fun keyword child sub item member path => ?_
      exact reported keyword child sub _ _ ((isPlain_dict.1 plain).2 _ (mem_dictItems.1 member))
  | list items =>
      refine validateArray_reported shaped (isPlain_list.1 plain)
        fun keyword child sub item member path => ?_
      exact reported keyword child sub _ _ (isPlain_list.1 plain item member)
  | str text => exact validateString_reported shaped
  | int value => exact validateNumber_reported shaped rfl
  | float value => exact validateNumber_reported shaped rfl
  | _ => exact Verdict.ReportedBy.pass

/-- On a supported schema the validator reports the meaning of the schema for the value; the
induction is on the fuel, which the depth of the schema never uses up. -/
theorem validateSchemaValue_reported {room : List String → Bool} :
    ∀ {fuel route schema value path}, Supported schema → depth schema ≤ fuel →
      isPlain value = true →
        Reported (meaning (pythonReading reSearch) room fuel route schema value)
          (validateSchemaValue reSearch room fuel route schema value path) := by
  intro fuel
  induction fuel with
  | zero =>
      intro route schema value path _ enough _
      exact absurd enough (not_le.2 (depth_pos schema))
  | succ fuel ih =>
      intro route schema value path supported enough plain
      have shaped := supported.shaped
      rw [meaning, validateSchemaValue]
      cases hasRoom : room route with
      | false => exact .inr ⟨.inr rfl, trivial⟩
      | true =>
          rw [if_neg (by decide), if_neg (by decide), if_pos shaped.isDict]
          refine validateKeywords_reported shaped plain fun keyword child sub value path plain => ?_
          exact ih (supported.visited sub) (Nat.le_of_lt_succ (sub.depth_lt.trans_le enough)) plain

end Keywords

end PreActive.Kernel
