/-
Module: PreActive.Kernel.SchemaReading
Purpose: The validator against JSON Schema: the keywords read with JSON equality and the exact
  values of numbers, and the tests that Python decides in another way.
Trusted boundary: human-reviewed spec
Main exports: jsonEq, Satisfies, Misreads, validator_meaning
-/
import PreActive.Kernel.SchemaMeaning

namespace PreActive.Kernel

open PreActive.Foundation PreActive.Python

/-! ### Two readings of a schema -/

section Congruence

variable {reading reading' : Reading} {below below' : String → PyVal → PyVal → Verdict}
variable {schema value : PyVal}

/-- Each primitive test of the first reading foretells the test of the second. -/
structure Reading.Foretells (reading reading' : Reading) : Prop where
  typed : ∀ value names, (reading.typed value names).Foretells (reading'.typed value names)
  among : ∀ value options, (reading.among value options).Foretells (reading'.among value options)
  equal : ∀ value constant, (reading.equal value constant).Foretells (reading'.equal value constant)
  distinct : ∀ items, (reading.distinct items).Foretells (reading'.distinct items)
  finds : ∀ pattern text, (reading.finds pattern text).Foretells (reading'.finds pattern text)
  usable : ∀ value, (reading.usable value).Foretells (reading'.usable value)
  less : ∀ value limit, (reading.less value limit).Foretells (reading'.less value limit)
  atMost : ∀ value limit, (reading.atMost value limit).Foretells (reading'.atMost value limit)
  multiple : ∀ value divisor,
    (reading.multiple value divisor).Foretells (reading'.multiple value divisor)

theorem asked_foretells {keyword : String} {verdict verdict' : PyVal → Verdict}
    (agree : ∀ found, (verdict found).Foretells (verdict' found)) :
    (asked schema keyword verdict).Foretells (asked schema keyword verdict') := by
  unfold asked
  cases schema.get? keyword with
  | none => exact .refl
  | some found => exact agree found

theorem anyMeaning_foretells (agree : reading.Foretells reading')
    (children : ∀ keyword child value,
      (below keyword child value).Foretells (below' keyword child value)) :
    (anyMeaning reading below schema value).Foretells
      (anyMeaning reading' below' schema value) := by
  unfold anyMeaning
  refine .andThen (asked_foretells fun declared => ?_) ?_
  · cases declared with
    | none => exact .refl
    | _ => exact agree.typed value _
  refine .andThen (asked_foretells fun options => agree.among value _) ?_
  refine .andThen (asked_foretells fun constant => agree.equal value constant) ?_
  refine .andThen (asked_foretells fun branches => .all fun child _ => children _ child value) ?_
  refine .andThen (asked_foretells fun branches => .any fun child _ => children _ child value) ?_
  refine .andThen
    (asked_foretells fun branches => .exactlyOne fun child _ => children _ child value) ?_
  exact .andThen (asked_foretells fun child => (children _ child value).negate) .refl

theorem objectMeaning_foretells
    (children : ∀ keyword child value,
      (below keyword child value).Foretells (below' keyword child value)) :
    (objectMeaning below schema value).Foretells (objectMeaning below' schema value) := by
  unfold objectMeaning
  refine .andThen .refl (.andThen .refl (.andThen .refl ?_))
  refine .andThen (asked_foretells fun properties => .all fun property _ =>
    asked_foretells fun member => children _ property.2 member) ?_
  refine .andThen (asked_foretells fun additional => ?_) .refl
  cases additional with
  | bool allowed => cases allowed <;> exact .refl
  | dict fields => exact .all fun item _ => children _ (.dict fields) item.2
  | _ => exact .refl

theorem arrayMeaning_foretells {items : List PyVal} (agree : reading.Foretells reading')
    (children : ∀ keyword child value,
      (below keyword child value).Foretells (below' keyword child value)) :
    (arrayMeaning reading below schema items).Foretells
      (arrayMeaning reading' below' schema items) := by
  unfold arrayMeaning
  refine .andThen .refl (.andThen .refl ?_)
  refine .andThen (asked_foretells fun unique => ?_) ?_
  · cases unique with
    | bool asked =>
        cases asked with
        | false => exact .refl
        | true => exact agree.distinct items
    | _ => exact .refl
  exact .andThen (asked_foretells fun child => .all fun item _ => children _ child item) .refl

theorem stringMeaning_foretells {text : String} (agree : reading.Foretells reading') :
    (stringMeaning reading schema text).Foretells (stringMeaning reading' schema text) := by
  unfold stringMeaning
  refine .andThen .refl (.andThen .refl ?_)
  exact .andThen (asked_foretells fun pattern => agree.finds _ text) .refl

theorem numberMeaning_foretells (agree : reading.Foretells reading') :
    (numberMeaning reading schema value).Foretells (numberMeaning reading' schema value) := by
  unfold numberMeaning
  refine .andThen (agree.usable value) ?_
  refine .andThen (asked_foretells fun limit => (agree.less value limit).negate) ?_
  refine .andThen (asked_foretells fun limit => (agree.less limit value).negate) ?_
  refine .andThen (asked_foretells fun limit => (agree.atMost value limit).negate) ?_
  refine .andThen (asked_foretells fun limit => (agree.atMost limit value).negate) ?_
  exact .andThen (asked_foretells fun divisor => agree.multiple value divisor) .refl

theorem kindMeaning_foretells (agree : reading.Foretells reading')
    (children : ∀ keyword child value,
      (below keyword child value).Foretells (below' keyword child value)) :
    (kindMeaning reading below schema value).Foretells
      (kindMeaning reading' below' schema value) := by
  cases value with
  | dict fields => exact objectMeaning_foretells children
  | list items => exact arrayMeaning_foretells agree children
  | str text => exact stringMeaning_foretells agree
  | int value => exact numberMeaning_foretells agree
  | float value => exact numberMeaning_foretells agree
  | _ => exact .refl

/-- A schema means the same under two readings where the tests on its way do, and where the second
reading has room whenever the first one has. -/
theorem meaning_foretells {room room' : List String → Bool} (agree : reading.Foretells reading')
    (roomier : ∀ route, room route = true → room' route = true) : ∀ {fuel route schema value},
    (meaning reading room fuel route schema value).Foretells
      (meaning reading' room' fuel route schema value) := by
  intro fuel
  induction fuel with
  | zero => exact .refl
  | succ fuel ih =>
      intro route schema value
      rw [meaning, meaning]
      cases hasRoom : room route with
      | false => exact fun clean => absurd trivial clean
      | true =>
          rw [roomier route hasRoom, if_neg (by decide), if_neg (by decide)]
          exact .andThen (anyMeaning_foretells agree fun _ _ _ => ih)
            (kindMeaning_foretells agree fun _ _ _ => ih)

end Congruence

/-! ### JSON Schema -/

/-- The value of a number as it is written. -/
def exactNumber : PyVal → Option ℚ
  | .int value => some value
  | .float (.finite text _) => some (decimalValue text.toList)
  | _ => none

/-- Two numbers of the same value. -/
def sameNumber (a b : PyVal) : Bool :=
  match exactNumber a, exactNumber b with
  | some x, some y => x == y
  | _, _ => false

mutual

/-- JSON equality: a boolean never equals a number, and objects are compared without regard to
order. -/
def jsonEq : PyVal → PyVal → Bool
  | .none, .none => true
  | .bool a, .bool b => a == b
  | .str a, .str b => a == b
  | .list a, .list b => jsonEqItems a b
  | .dict a, .dict b => a.length == b.length && jsonEqFields a b
  | .int a, b => sameNumber (.int a) b
  | .float a, b => sameNumber (.float a) b
  | _, _ => false

def jsonEqItems : List PyVal → List PyVal → Bool
  | [], [] => true
  | a :: as, b :: bs => jsonEq a b && jsonEqItems as bs
  | _, _ => false

def jsonEqFields : List (PyKey × PyVal) → List (PyKey × PyVal) → Bool
  | [], _ => true
  | (key, a) :: rest, other =>
      (PyVal.lookup key other).any (jsonEq a) && jsonEqFields rest other

end

/-- The value is of the JSON type; an integer is written without fraction and exponent. -/
def IsOfType (value : PyVal) (name : String) : Prop :=
  match name with
  | "object" => value.isDict = true
  | "array" => ∃ items, value = .list items
  | "string" => ∃ text, value = .str text
  | "integer" => ∃ number, value = .int number
  | "number" => (exactNumber value).isSome = true
  | "boolean" => ∃ truth, value = .bool truth
  | "null" => value = .none
  | _ => False

/-- Both are numbers, and their exact values are in the relation. -/
def Compares (relation : ℚ → ℚ → Prop) (a b : PyVal) : Prop :=
  ∃ x y, exactNumber a = some x ∧ exactNumber b = some y ∧ relation x y

/-- The number is a whole multiple of the divisor. -/
def IsMultiple (value divisor : ℚ) : Prop := ∃ factor : Int, value = factor * divisor

section JsonSchema

-- the reading of `pattern`
variable (reSearch : String → String → Bool)

/-- The keywords that hold for values of every kind, as JSON Schema reads them. -/
def SatisfiesAny (below : PyVal → PyVal → Prop) (schema value : PyVal) : Prop :=
  (∀ declared, schema.get? "type" = some declared → declared ≠ .none →
    ∃ name ∈ typeNames declared, IsOfType value name) ∧
  (∀ options, schema.get? "enum" = some options →
    ∃ option ∈ listItems options, jsonEq value option = true) ∧
  (∀ constant, schema.get? "const" = some constant → jsonEq value constant = true) ∧
  (∀ branches, schema.get? "allOf" = some branches →
    ∀ child ∈ listItems branches, below child value) ∧
  (∀ branches, schema.get? "anyOf" = some branches →
    ∃ child ∈ listItems branches, below child value) ∧
  (∀ branches, schema.get? "oneOf" = some branches →
    ∃ before child after, listItems branches = before ++ child :: after ∧ below child value ∧
      ∀ other ∈ before ++ after, ¬below other value) ∧
  ∀ child, schema.get? "not" = some child → ¬below child value

/-- The size of the value keeps to the bounds of two keywords. -/
def SatisfiesSize (schema : PyVal) (least most : String) (size : Nat) : Prop :=
  (∀ bound, schema.get? least = some bound → countNamed bound ≤ size) ∧
    ∀ bound, schema.get? most = some bound → size ≤ countNamed bound

/-- The keywords that constrain objects. -/
def SatisfiesObject (below : PyVal → PyVal → Prop) (schema value : PyVal) : Prop :=
  (∀ required, schema.get? "required" = some required →
    ∀ key ∈ (listItems required).filterMap PyVal.asStr?, (value.get? key).isSome = true) ∧
  SatisfiesSize schema "minProperties" "maxProperties" (dictItems value).length ∧
  (∀ properties, schema.get? "properties" = some properties →
    ∀ property ∈ dictItems properties, ∀ member, value.get? property.1 = some member →
      below property.2 member) ∧
  (schema.get? "additionalProperties" = some (.bool false) → extraItems schema value = []) ∧
  ∀ fields, schema.get? "additionalProperties" = some (.dict fields) →
    ∀ item ∈ extraItems schema value, below (.dict fields) item.2

/-- The keywords that constrain arrays. -/
def SatisfiesArray (below : PyVal → PyVal → Prop) (schema : PyVal) (items : List PyVal) : Prop :=
  SatisfiesSize schema "minItems" "maxItems" items.length ∧
  (schema.get? "uniqueItems" = some (.bool true) →
    items.Pairwise fun a b => jsonEq a b = false) ∧
  ∀ child, schema.get? "items" = some child → ∀ item ∈ items, below child item

/-- The keywords that constrain strings. -/
def SatisfiesString (schema : PyVal) (text : String) : Prop :=
  SatisfiesSize schema "minLength" "maxLength" text.length ∧
  ∀ pattern, schema.get? "pattern" = some pattern →
    reSearch (pattern.asStr?.getD "") text = true

/-- The keywords that constrain numbers, by exact comparison. -/
def SatisfiesNumber (schema value : PyVal) : Prop :=
  (∀ limit, schema.get? "minimum" = some limit → ¬Compares (· < ·) value limit) ∧
  (∀ limit, schema.get? "maximum" = some limit → ¬Compares (· < ·) limit value) ∧
  (∀ limit, schema.get? "exclusiveMinimum" = some limit → ¬Compares (· ≤ ·) value limit) ∧
  (∀ limit, schema.get? "exclusiveMaximum" = some limit → ¬Compares (· ≤ ·) limit value) ∧
  ∀ divisor, schema.get? "multipleOf" = some divisor → Compares IsMultiple value divisor

/-- The keywords of one kind constrain only values of that kind. -/
def SatisfiesKind (below : PyVal → PyVal → Prop) (schema : PyVal) : PyVal → Prop
  | .dict fields => SatisfiesObject below schema (.dict fields)
  | .list items => SatisfiesArray below schema items
  | .str text => SatisfiesString reSearch schema text
  | .int value => SatisfiesNumber schema (.int value)
  | .float value => SatisfiesNumber schema (.float value)
  | _ => True

/-- The value satisfies a schema whose subschemas are nested less deep than the fuel. -/
def SatisfiesWithin : Nat → PyVal → PyVal → Prop
  | 0, _, _ => False
  | fuel + 1, schema, value =>
      SatisfiesAny (SatisfiesWithin fuel) schema value ∧
        SatisfiesKind reSearch (SatisfiesWithin fuel) schema value

/-- The value satisfies the schema, as JSON Schema reads it. -/
def Satisfies (schema value : PyVal) : Prop :=
  SatisfiesWithin reSearch (depth schema) schema value

/-- The tests that JSON Schema makes. -/
def jsonReading : Reading where
  typed value names := .test (∃ name ∈ names, IsOfType value name)
  among value options := .test (∃ option ∈ options, jsonEq value option = true)
  equal value constant := .test (jsonEq value constant = true)
  distinct items := .test (items.Pairwise fun a b => jsonEq a b = false)
  finds pattern text := .test (reSearch pattern text = true)
  usable _ := .pass
  less value limit := .test (Compares (· < ·) value limit)
  atMost value limit := .test (Compares (· ≤ ·) value limit)
  multiple value divisor := .test (Compares IsMultiple value divisor)

end JsonSchema

section Meaning

variable {reSearch : String → String → Bool} {schema value : PyVal}
variable {child : PyVal → PyVal → Verdict}

theorem asked_met {keyword : String} {verdict : PyVal → Verdict} :
    (asked schema keyword verdict).met ↔
      ∀ found, schema.get? keyword = some found → (verdict found).met := by
  unfold asked
  cases schema.get? keyword <;> simp

theorem map_met {α : Type} {verdict : α → Verdict} {items : List α} :
    (Verdict.all (items.map verdict)).met ↔ ∀ item ∈ items, (verdict item).met := by
  rw [Verdict.all_met, List.forall_mem_map]

theorem exists_met {α : Type} {verdict : α → Verdict} {items : List α} :
    (Verdict.any (items.map verdict)).met ↔ ∃ item ∈ items, (verdict item).met := by
  simp [Verdict.any_met]

theorem exactlyOne_map_met {α : Type} {verdict : α → Verdict} {items : List α} :
    (Verdict.exactlyOne (items.map verdict)).met ↔ ∃ before item after,
      items = before ++ item :: after ∧ (verdict item).met ∧
        ∀ other ∈ before ++ after, ¬(verdict other).met := by
  rw [Verdict.exactlyOne_met]
  constructor
  · rintro ⟨before, one, after, split, met, others⟩
    obtain ⟨before, rest, rfl, rfl, tail⟩ := List.map_eq_append_iff.1 split
    obtain ⟨item, after, rfl, rfl, rfl⟩ := List.map_eq_cons_iff.1 tail
    refine ⟨before, item, after, rfl, met, fun other member => ?_⟩
    apply others
    rw [← List.map_append]
    exact List.mem_map_of_mem member
  · rintro ⟨before, item, after, rfl, met, others⟩
    refine ⟨before.map verdict, verdict item, after.map verdict, by simp, met, ?_⟩
    rw [← List.map_append]
    exact List.forall_mem_map.2 others

theorem size_met {least most : String} {size : Nat} :
    (leastMeaning schema least size).met ∧ (mostMeaning schema most size).met ↔
      SatisfiesSize schema least most size := by
  rw [leastMeaning, mostMeaning, asked_met, asked_met]
  rfl

theorem typeMeaning_met {declared : PyVal} :
    (typeMeaning (jsonReading reSearch) value declared).met ↔
      (declared ≠ .none → ∃ name ∈ typeNames declared, IsOfType value name) := by
  cases declared with
  | none => simp [typeMeaning]
  | _ => simp [typeMeaning, jsonReading]

theorem anyMeaning_met : (anyMeaning (jsonReading reSearch) (fun _ => child) schema value).met ↔
    SatisfiesAny (fun schema value => (child schema value).met) schema value := by
  simp only [anyMeaning, Verdict.all_cons_met, Verdict.all_nil_met, asked_met, typeMeaning_met,
    exists_met, map_met, exactlyOne_map_met, Verdict.negate_met, and_true, SatisfiesAny]
  rfl

theorem objectMeaning_met : (objectMeaning (fun _ => child) schema value).met ↔
    SatisfiesObject (fun schema value => (child schema value).met) schema value := by
  have additional :
      (asked schema "additionalProperties"
        (additionalMeaning (fun _ => child) schema value)).met ↔
      (schema.get? "additionalProperties" = some (.bool false) → extraItems schema value = []) ∧
        ∀ fields, schema.get? "additionalProperties" = some (.dict fields) →
          ∀ item ∈ extraItems schema value, (child (.dict fields) item.2).met := by
    rw [asked_met]
    constructor
    · intro each
      exact ⟨fun found => each _ found, fun fields found => map_met.1 (each _ found)⟩
    · rintro ⟨none, some⟩ found isFound
      cases found with
      | bool allowed =>
          cases allowed with
          | true => trivial
          | false => exact none isFound
      | dict fields => exact map_met.2 (some fields isFound)
      | _ => trivial
  simp only [objectMeaning, Verdict.all_cons_met, Verdict.all_nil_met, additional, asked_met,
    map_met, and_true, SatisfiesObject, ← size_met, leastMeaning, mostMeaning, Verdict.test_met,
    and_assoc]

theorem arrayMeaning_met {items : List PyVal} :
    (arrayMeaning (jsonReading reSearch) (fun _ => child) schema items).met ↔
      SatisfiesArray (fun schema value => (child schema value).met) schema items := by
  have unique : (asked schema "uniqueItems" (uniqueMeaning (jsonReading reSearch) items)).met ↔
      (schema.get? "uniqueItems" = some (.bool true) →
        items.Pairwise fun a b => jsonEq a b = false) := by
    rw [asked_met]
    constructor
    · exact fun each found => each _ found
    · intro distinct found isFound
      cases found with
      | bool asked =>
          cases asked with
          | true => exact distinct isFound
          | false => trivial
      | _ => trivial
  simp only [arrayMeaning, Verdict.all_cons_met, Verdict.all_nil_met, unique, asked_met, map_met,
    and_true, SatisfiesArray, ← size_met,
    leastMeaning, mostMeaning, Verdict.test_met, and_assoc]

theorem stringMeaning_met {text : String} :
    (stringMeaning (jsonReading reSearch) schema text).met ↔
      SatisfiesString reSearch schema text := by
  simp only [stringMeaning, Verdict.all_cons_met, Verdict.all_nil_met, asked_met, and_true,
    SatisfiesString, ← size_met, leastMeaning, mostMeaning, Verdict.test_met, jsonReading,
    and_assoc]

theorem numberMeaning_met : (numberMeaning (jsonReading reSearch) schema value).met ↔
    SatisfiesNumber schema value := by
  simp only [numberMeaning, Verdict.all_cons_met, Verdict.all_nil_met, asked_met, and_true,
    SatisfiesNumber, Verdict.test_met, Verdict.negate_met, Verdict.pass_met, true_and, jsonReading]

theorem kindMeaning_met : (kindMeaning (jsonReading reSearch) (fun _ => child) schema value).met ↔
    SatisfiesKind reSearch (fun schema value => (child schema value).met) schema value := by
  cases value with
  | dict fields => exact objectMeaning_met
  | list items => exact arrayMeaning_met
  | str text => exact stringMeaning_met
  | int value => exact numberMeaning_met
  | float value => exact numberMeaning_met
  | _ => exact .rfl

/-- With room for everything the route makes no difference. -/
theorem meaning_route {reading : Reading} : ∀ {fuel route},
    meaning reading (fun _ => true) fuel route = meaning reading (fun _ => true) fuel [] := by
  intro fuel
  induction fuel with
  | zero => exact fun {_} => rfl
  | succ fuel ih =>
      intro route
      funext schema value
      have same : ∀ route,
          (fun keyword => meaning reading (fun _ => true) fuel (keyword :: route)) =
            fun _ => meaning reading (fun _ => true) fuel [] := fun route => funext fun _ => ih
      rw [meaning, meaning, same, same]

/-- The meaning of a schema in the JSON reading is what JSON Schema says, keyword by keyword. -/
theorem meaning_met : ∀ {fuel schema value},
    (meaning (jsonReading reSearch) (fun _ => true) fuel [] schema value).met ↔
      SatisfiesWithin reSearch fuel schema value := by
  intro fuel
  induction fuel with
  | zero => exact .rfl
  | succ fuel ih =>
      intro schema value
      have same : (fun schema value =>
          (meaning (jsonReading reSearch) (fun _ => true) fuel [] schema value).met) =
            SatisfiesWithin reSearch fuel := funext fun _ => funext fun _ => propext ih
      have children :
          (fun keyword => meaning (jsonReading reSearch) (fun _ => true) fuel [keyword]) =
            fun _ => meaning (jsonReading reSearch) (fun _ => true) fuel [] :=
        funext fun _ => meaning_route
      rw [meaning, SatisfiesWithin, ← same, children]
      exact and_congr anyMeaning_met kindMeaning_met

end Meaning

/-! ### Where the validator agrees -/

/-- The tests of the first reading, spoiled also where the second one decides them in another
way. -/
def Reading.against (reading reading' : Reading) : Reading where
  typed value names := (reading.typed value names).against (reading'.typed value names)
  among value options := (reading.among value options).against (reading'.among value options)
  equal value constant := (reading.equal value constant).against (reading'.equal value constant)
  distinct items := (reading.distinct items).against (reading'.distinct items)
  finds pattern text := (reading.finds pattern text).against (reading'.finds pattern text)
  usable value := (reading.usable value).against (reading'.usable value)
  less value limit := (reading.less value limit).against (reading'.less value limit)
  atMost value limit := (reading.atMost value limit).against (reading'.atMost value limit)
  multiple value divisor :=
    (reading.multiple value divisor).against (reading'.multiple value divisor)

section Agreement

variable {reSearch : String → String → Bool} {room : List String → Bool} {schema value : PyVal}

theorem against_python :
    ((pythonReading reSearch).against (jsonReading reSearch)).Foretells
      (pythonReading reSearch) where
  typed _ _ := .against_left
  among _ _ := .against_left
  equal _ _ := .against_left
  distinct _ := .against_left
  finds _ _ := .against_left
  usable _ := .against_left
  less _ _ := .against_left
  atMost _ _ := .against_left
  multiple _ _ := .against_left

theorem against_json :
    ((pythonReading reSearch).against (jsonReading reSearch)).Foretells
      (jsonReading reSearch) where
  typed _ _ := .against_right id
  among _ _ := .against_right id
  equal _ _ := .against_right id
  distinct _ := .against_right id
  finds _ _ := .against_right id
  usable _ := .against_right id
  less _ _ := .against_right id
  atMost _ _ := .against_right id
  multiple _ _ := .against_right id

/-- The walk of the validator over the schema and the value comes to a test that Python decides in
another way than JSON Schema, to a number that strains it, or to a subschema that there is no room
for. -/
def Misreads (reSearch : String → String → Bool) (room : List String → Bool)
    (schema value : PyVal) : Prop :=
  (meaning ((pythonReading reSearch).against (jsonReading reSearch)) room (depth schema) [] schema
    value).spoiled

/-- The tests that Python decides in another way make no difference to what the schema says of the
value, and nothing in a value that satisfies the schema strains the validator. -/
def Undistorted (reSearch : String → String → Bool) (room : List String → Bool)
    (schema value : PyVal) : Prop :=
  (meaning (pythonReading reSearch) room (depth schema) [] schema value).met ∧
      ¬Strains reSearch room schema value ↔
    Satisfies reSearch schema value

theorem undistorted_of_not_misreads (clean : ¬Misreads reSearch room schema value) :
    Undistorted reSearch room schema value := by
  obtain ⟨calm, sameAsPython⟩ := meaning_foretells against_python (fun _ => id) clean
  obtain ⟨-, sameAsJson⟩ := meaning_foretells against_json (fun _ _ => rfl) clean
  rw [meaning_met] at sameAsJson
  rw [Undistorted, ← sameAsPython, sameAsJson]
  exact and_iff_left calm

/-- What the validator accepts of a checked schema. -/
theorem accepts_iff {compileError : String → Option String} {path : String}
    (checked : checkSupportedSchema compileError (depth schema) schema "$schema" = .ok ())
    (json : isPlain value = true) :
    validateSchemaValue reSearch room (depth schema) [] schema value path = .ok () ↔
      (meaning (pythonReading reSearch) room (depth schema) [] schema value).met ∧
        ¬Strains reSearch room schema value := by
  have reported := @validateSchemaValue_reported reSearch room (depth schema) [] schema value path
    (supported_of_checked checked) le_rfl json
  cases result : validateSchemaValue reSearch room (depth schema) [] schema value path with
  | ok accepted =>
      rw [result] at reported
      exact iff_of_true rfl reported
  | error exc =>
      rw [result] at reported
      refine iff_of_false (by simp) fun both => ?_
      rcases reported with ⟨-, unmet, -⟩ | ⟨-, strains⟩
      · exact unmet both.1
      · exact both.2 strains

/-- For every schema that the registration check accepts and every JSON value, the validator accepts
what JSON Schema accepts, as long as it comes to no test that Python decides in another way and does
not run out of frames; and in general exactly when all this makes no difference to the whole. -/
theorem validator_meaning (reSearch : String → String → Bool) (room : List String → Bool)
    {compileError : String → Option String} {schema value : PyVal} (path : String)
    (checked : checkSupportedSchema compileError (depth schema) schema "$schema" = .ok ())
    (json : isPlain value = true) :
    (¬Misreads reSearch room schema value →
      (validateSchemaValue reSearch room (depth schema) [] schema value path = .ok () ↔
        Satisfies reSearch schema value)) ∧
      ((validateSchemaValue reSearch room (depth schema) [] schema value path = .ok () ↔
        Satisfies reSearch schema value) ↔ Undistorted reSearch room schema value) := by
  have exact : (validateSchemaValue reSearch room (depth schema) [] schema value path = .ok () ↔
      Satisfies reSearch schema value) ↔ Undistorted reSearch room schema value := by
    rw [accepts_iff checked json, Undistorted]
  exact ⟨fun clean => exact.2 (undistorted_of_not_misreads clean), exact⟩

end Agreement

/-! ### A boolean for a number -/

def retriesSchema : PyVal :=
  .ofFields [("properties", .ofFields [("retries", .ofFields [("const", .int 1)])])]

def retriesArguments (retries : PyVal) : PyVal := .ofFields [("retries", retries)]

theorem retriesSchema_checked :
    checkSupportedSchema (fun _ => none) (depth retriesSchema) retriesSchema "$schema" = .ok () := by
  decide +kernel

section Samples

variable {reading : Reading} {fuel : Nat} {route : List String}

theorem asked_single {keyword other : String} {found : PyVal} {verdict : PyVal → Verdict} :
    asked (.ofFields [(keyword, found)]) other verdict =
      if keyword = other then verdict found else .pass := by
  unfold asked PyVal.ofFields PyVal.get?
  by_cases same : keyword = other <;> simp [PyVal.lookup, same]

/-- A schema with nothing but a constant, on an int. -/
theorem meaning_const {constant : PyVal} {value : Int} :
    meaning reading (fun _ => true) (fuel + 1) route (.ofFields [("const", constant)])
        (.int value) =
      (reading.equal (.int value) constant).andThen (reading.usable (.int value)) := by
  rw [meaning, if_neg (by decide)]
  simp only [anyMeaning, kindMeaning, numberMeaning, asked_single, String.reduceEq, if_false,
    if_true, Verdict.all, Verdict.pass_andThen, Verdict.andThen_pass]

/-- A schema with nothing but one property, on an object with that member. -/
theorem meaning_property {name : String} {child member : PyVal} :
    meaning reading (fun _ => true) (fuel + 1) route
        (.ofFields [("properties", .ofFields [(name, child)])]) (.ofFields [(name, member)]) =
      meaning reading (fun _ => true) fuel ("properties" :: route) child member := by
  have properties : dictItems (.ofFields [(name, child)]) = [(name, child)] := rfl
  have object : ∀ below, kindMeaning reading below
      (.ofFields [("properties", .ofFields [(name, child)])]) (.ofFields [(name, member)]) =
        objectMeaning below (.ofFields [("properties", .ofFields [(name, child)])])
          (.ofFields [(name, member)]) := fun _ => rfl
  rw [meaning, if_neg (by decide), object]
  simp only [anyMeaning, objectMeaning, leastMeaning, mostMeaning, asked_single, properties,
    String.reduceEq, if_false, if_true, List.map_cons, List.map_nil, Verdict.all,
    Verdict.pass_andThen, Verdict.andThen_pass]

end Samples

theorem retries_read :
    ¬Misreads (fun _ _ => false) (fun _ => true) retriesSchema (retriesArguments (.int 1)) := by
  have deep : depth retriesSchema = 2 + 1 + 1 := rfl
  have equal : pyEq (.int 1) (.int 1) = true := by decide +kernel
  have same : jsonEq (.int 1) (.int 1) = true := by decide +kernel
  have fits : ¬Overflows (.int 1) := by
    unfold Overflows
    decide +kernel
  rw [Misreads, deep, retriesSchema, retriesArguments, meaning_property, meaning_const]
  simp [Reading.against, Verdict.against, Verdict.andThen, pythonReading, jsonReading, equal, same,
    fits]

/-- The number that the schema asks for is accepted, and satisfies the schema. -/
theorem validator_meaning_number :
    validateSchemaValue (fun _ _ => false) (fun _ => true) (depth retriesSchema) [] retriesSchema
        (retriesArguments (.int 1)) "$arguments" = .ok () ↔
      Satisfies (fun _ _ => false) retriesSchema (retriesArguments (.int 1)) :=
  (validator_meaning (fun _ _ => false) (fun _ => true) "$arguments" retriesSchema_checked
    (by decide)).1 retries_read

/-- `True` is accepted where the checked schema asks for the number 1. -/
theorem validator_accepts_true :
    checkSupportedSchema (fun _ => none) (depth retriesSchema) retriesSchema "$schema" = .ok () ∧
      validateSchemaValue (fun _ _ => false) (fun _ => true) (depth retriesSchema) [] retriesSchema
        (retriesArguments (.bool true)) "$arguments" = .ok () ∧
      ¬Satisfies (fun _ _ => false) retriesSchema (retriesArguments (.bool true)) := by
  refine ⟨retriesSchema_checked, by decide +kernel, fun satisfied => ?_⟩
  have deep : depth retriesSchema = 2 + 1 + 1 := rfl
  rw [Satisfies, deep, SatisfiesWithin] at satisfied
  obtain ⟨-, -, -, properties, -⟩ := satisfied
  have child := properties (.ofFields [("retries", .ofFields [("const", .int 1)])]) rfl
    ("retries", .ofFields [("const", .int 1)]) (List.mem_singleton.2 rfl) (.bool true) rfl
  obtain ⟨⟨-, -, constant, -⟩, -⟩ := child
  cases constant (.int 1) rfl

end PreActive.Kernel
