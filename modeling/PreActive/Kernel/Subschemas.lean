/-
Module: PreActive.Kernel.Subschemas
Purpose: What a schema that passes `_check_supported_schema` is known to look like, for itself and
  for every subschema that the validator can visit.
Trusted boundary: none (fully proved)
Main exports: Subschema, Shaped, Supported, supported_of_checked, Subschema.depth_lt
-/
import PreActive.Kernel.Tools
import PreActive.Python.JsonOrder

namespace PreActive.Kernel

open PreActive.Foundation PreActive.Python

/-! ### Sequences of checks that return -/

theorem seq_eq_ok {first second : Except Exc Unit} :
    (first >>= fun _ => second) = .ok () ↔ first = .ok () ∧ second = .ok () := by
  cases first with
  | ok value => simp [bind, Except.bind]
  | error exc => simp [bind, Except.bind]

theorem demand_eq_ok {holds : Bool} {text : String} :
    demand holds text = .ok () ↔ holds = true := by
  cases holds <;> simp [demand, valueError]

theorem whenPresent_eq_ok {schema : PyVal} {keyword : String} {check : PyVal → Except Exc Unit} :
    whenPresent schema keyword check = .ok () ↔
      ∀ found, schema.get? keyword = some found → check found = .ok () := by
  unfold whenPresent
  cases schema.get? keyword <;> simp

theorem forEach_eq_ok {α : Type} {check : α → Except Exc Unit} {items : List α} :
    forEach check items = .ok () ↔ ∀ item ∈ items, check item = .ok () := by
  induction items with
  | nil => simp [forEach]
  | cons item rest ih => rw [forEach, seq_eq_ok, ih, List.forall_mem_cons]

/-! ### The subschemas of a schema -/

/-- The schemas that `_validate_schema_value` applies while it is at a schema. -/
inductive Subschema (schema : PyVal) : PyVal → Prop where
  | branch {keyword : String} {branches child : PyVal} :
      keyword ∈ ["allOf", "anyOf", "oneOf"] → schema.get? keyword = some branches →
        child ∈ listItems branches → Subschema schema child
  | negated {child : PyVal} : schema.get? "not" = some child → Subschema schema child
  | property {properties child : PyVal} {name : String} :
      schema.get? "properties" = some properties → (name, child) ∈ dictItems properties →
        Subschema schema child
  | additional {extra : PyVal} :
      schema.get? "additionalProperties" = some extra → extra.isDict = true →
        Subschema schema extra
  | items {child : PyVal} : schema.get? "items" = some child → Subschema schema child

theorem depth_le_items {item : PyVal} : ∀ {items : List PyVal}, item ∈ items →
    depth item ≤ depthItems items
  | first :: rest, member => by
      rw [depthItems]
      rcases List.mem_cons.1 member with rfl | later
      · exact le_max_left _ _
      · exact (depth_le_items later).trans (le_max_right _ _)

theorem depth_le_fields {key : PyKey} {value : PyVal} : ∀ {fields : List (PyKey × PyVal)},
    (key, value) ∈ fields → depth value ≤ depthFields fields
  | (_, first) :: rest, member => by
      rw [depthFields]
      rcases List.mem_cons.1 member with same | later
      · cases same
        exact le_max_left _ _
      · exact (depth_le_fields later).trans (le_max_right _ _)

theorem depth_pos (value : PyVal) : 0 < depth value := by
  cases value <;> simp [depth]

/-- The value of a keyword is less deep than the schema. -/
theorem depth_get_lt {schema found : PyVal} {keyword : String}
    (isFound : schema.get? keyword = some found) : depth found < depth schema := by
  cases schema with
  | dict fields =>
      rw [depth]
      exact Nat.lt_succ_of_le (depth_le_fields (mem_of_lookup isFound))
  | _ => cases isFound

theorem depth_item_lt {value item : PyVal} (member : item ∈ listItems value) :
    depth item < depth value := by
  cases value with
  | list items =>
      rw [depth]
      exact Nat.lt_succ_of_le (depth_le_items member)
  | _ => cases member

theorem mem_dictItems {name : String} {member : PyVal} {fields : List (PyKey × PyVal)} :
    (name, member) ∈ dictItems (.dict fields) ↔ (.str name, member) ∈ fields := by
  rw [dictItems, List.mem_filterMap]
  constructor
  · rintro ⟨⟨key, value⟩, inside, same⟩
    cases key with
    | str text =>
        cases same
        exact inside
    | _ => cases same
  · intro inside
    exact ⟨_, inside, rfl⟩

theorem depth_member_lt {value member : PyVal} {name : String}
    (inside : (name, member) ∈ dictItems value) : depth member < depth value := by
  cases value with
  | dict fields =>
      rw [depth]
      exact Nat.lt_succ_of_le (depth_le_fields (mem_dictItems.1 inside))
  | _ => cases inside

/-- The recursion of the validator goes down. -/
theorem Subschema.depth_lt {schema child : PyVal} (sub : Subschema schema child) :
    depth child < depth schema := by
  cases sub with
  | branch _ found member => exact (depth_item_lt member).trans (depth_get_lt found)
  | negated found => exact depth_get_lt found
  | property found member => exact (depth_member_lt member).trans (depth_get_lt found)
  | additional found _ => exact depth_get_lt found
  | items found => exact depth_get_lt found

/-! ### Checked schemas -/

/-- The keywords of a schema have the values that the validator can use. -/
structure Shaped (schema : PyVal) : Prop where
  isDict : schema.isDict = true
  type : ∀ {declared}, schema.get? "type" = some declared →
    declared = .none ∨ namesJsonTypes declared = true
  enum : ∀ {options}, schema.get? "enum" = some options → isNonemptyList options = true
  branches : ∀ {keyword branches}, keyword ∈ ["allOf", "anyOf", "oneOf"] →
    schema.get? keyword = some branches → isNonemptyList branches = true
  required : ∀ {required}, schema.get? "required" = some required →
    isListOf isStr required = true
  properties : ∀ {properties}, schema.get? "properties" = some properties →
    properties.isDict = true
  counts : ∀ {keyword count}, keyword ∈ ["minProperties", "maxProperties", "minItems", "maxItems",
    "minLength", "maxLength"] → schema.get? keyword = some count → isCount count = true
  unique : ∀ {unique}, schema.get? "uniqueItems" = some unique → isBool unique = true
  pattern : ∀ {pattern}, schema.get? "pattern" = some pattern → isStr pattern = true
  numbers : ∀ {keyword limit}, keyword ∈ ["minimum", "maximum", "exclusiveMinimum",
    "exclusiveMaximum", "multipleOf"] → schema.get? keyword = some limit →
      limit.isNumber = true ∧ ∃ bound, toFloat limit = .ok (.finite bound)
  divisor : ∀ {divisor}, schema.get? "multipleOf" = some divisor →
    ∃ size, 0 < size ∧ toFloat divisor = .ok (.finite size)

/-- A schema that is well shaped with every subschema below it. -/
inductive Supported : PyVal → Prop where
  | intro {schema : PyVal} : Shaped schema → (∀ child, Subschema schema child → Supported child) →
      Supported schema

theorem Supported.shaped {schema : PyVal} (supported : Supported schema) : Shaped schema := by
  cases supported with
  | intro shaped _ => exact shaped

theorem Supported.visited {schema child : PyVal} (supported : Supported schema)
    (sub : Subschema schema child) : Supported child := by
  cases supported with
  | intro _ below => exact below child sub

section Checked

variable {compileError : String → Option String} {schema : PyVal} {path : String}

theorem checkCount_ok {keyword : String} (checked : checkCount schema path keyword = .ok ())
    {count : PyVal} (found : schema.get? keyword = some count) : isCount count = true :=
  demand_eq_ok.1 (whenPresent_eq_ok.1 checked count found)

theorem checkNumber_ok {keyword : String} (checked : checkNumber schema path keyword = .ok ())
    {limit : PyVal} (found : schema.get? keyword = some limit) :
    limit.isNumber = true ∧ ∃ bound, toFloat limit = .ok (.finite bound) := by
  have tested := whenPresent_eq_ok.1 checked limit found
  by_cases number : limit.isNumber = true
  · simp only [number, if_true] at tested
    cases converted : toFloat limit with
    | error exc =>
        rw [converted] at tested
        cases tested
    | ok bound =>
        rw [converted] at tested
        have finite : bound.isFinite = true := demand_eq_ok.1 tested
        cases bound with
        | finite size => exact ⟨number, size, rfl⟩
        | _ => cases finite
  · simp only [number] at tested
    cases tested

theorem checkPattern_ok (checked : checkPattern compileError schema path = .ok ())
    {pattern : PyVal} (found : schema.get? "pattern" = some pattern) : isStr pattern = true := by
  have tested := whenPresent_eq_ok.1 checked pattern found
  cases pattern with
  | str text => rfl
  | _ => cases tested

/-- The checks that a returning `_check_supported_schema` has made, in its order. -/
theorem checkSupportedSchema_ok {fuel : Nat}
    (checked : checkSupportedSchema compileError fuel schema path = .ok ()) :
    Shaped schema ∧ ∀ child, Subschema schema child →
      ∃ fuel' path', checkSupportedSchema compileError fuel' child path' = .ok () := by
  cases fuel with
  | zero => cases checked
  | succ fuel =>
      rw [checkSupportedSchema] at checked
      obtain ⟨isDict, checked⟩ := seq_eq_ok.1 checked
      obtain ⟨-, checked⟩ := seq_eq_ok.1 checked
      obtain ⟨type, checked⟩ := seq_eq_ok.1 checked
      obtain ⟨required, checked⟩ := seq_eq_ok.1 checked
      obtain ⟨properties, checked⟩ := seq_eq_ok.1 checked
      obtain ⟨additional, checked⟩ := seq_eq_ok.1 checked
      obtain ⟨items, checked⟩ := seq_eq_ok.1 checked
      obtain ⟨branches, checked⟩ := seq_eq_ok.1 checked
      obtain ⟨negated, checked⟩ := seq_eq_ok.1 checked
      obtain ⟨pattern, checked⟩ := seq_eq_ok.1 checked
      obtain ⟨counts, checked⟩ := seq_eq_ok.1 checked
      obtain ⟨numbers, checked⟩ := seq_eq_ok.1 checked
      obtain ⟨divisor, checked⟩ := seq_eq_ok.1 checked
      obtain ⟨unique, enum⟩ := seq_eq_ok.1 checked
      have branchesOf : ∀ {keyword branches}, keyword ∈ ["allOf", "anyOf", "oneOf"] →
          schema.get? keyword = some branches → isNonemptyList branches = true ∧
            ∀ child ∈ listItems branches,
              ∃ fuel' path', checkSupportedSchema compileError fuel' child path' = .ok () := by
        intro keyword branches' known found
        have each := whenPresent_eq_ok.1 (forEach_eq_ok.1 branches keyword known) branches' found
        obtain ⟨nonempty, children⟩ := seq_eq_ok.1 each
        refine ⟨demand_eq_ok.1 nonempty, fun child member => ?_⟩
        obtain ⟨index, below, rfl⟩ := List.mem_iff_getElem.1 member
        have listed : (index, (listItems branches')[index]) ∈
            (List.range (listItems branches').length).zip (listItems branches') := by
          rw [List.mem_iff_getElem]
          exact ⟨index, by simpa using below, by simp⟩
        exact ⟨fuel, _, forEach_eq_ok.1 children _ listed⟩
      have propertiesOf : ∀ {found}, schema.get? "properties" = some found →
          found.isDict = true ∧ ∀ item ∈ dictItems found,
            ∃ fuel' path', checkSupportedSchema compileError fuel' item.2 path' = .ok () := by
        intro found isFound
        have each := whenPresent_eq_ok.1 properties found isFound
        cases found with
        | dict fields =>
            obtain ⟨-, children⟩ := seq_eq_ok.1 each
            exact ⟨rfl, fun item member => ⟨fuel, _, forEach_eq_ok.1 children item member⟩⟩
        | _ => cases each
      refine ⟨⟨demand_eq_ok.1 isDict, ?_, ?_, ?_, ?_, ?_, ?_, ?_, ?_, ?_, ?_⟩, ?_⟩
      · intro declared found
        have tested := whenPresent_eq_ok.1 type declared found
        cases declared with
        | none => exact .inl rfl
        | _ => exact .inr (demand_eq_ok.1 tested)
      · exact fun found => demand_eq_ok.1 (whenPresent_eq_ok.1 enum _ found)
      · exact fun known found => (branchesOf known found).1
      · exact fun found => demand_eq_ok.1 (whenPresent_eq_ok.1 required _ found)
      · exact fun found => (propertiesOf found).1
      · exact fun known found => checkCount_ok (forEach_eq_ok.1 counts _ known) found
      · exact fun found => demand_eq_ok.1 (whenPresent_eq_ok.1 unique _ found)
      · exact fun found => checkPattern_ok pattern found
      · exact fun known found => checkNumber_ok (forEach_eq_ok.1 numbers _ known) found
      · intro divisor' found
        obtain ⟨-, size, converted⟩ := checkNumber_ok
          (forEach_eq_ok.1 numbers "multipleOf" (by simp)) found
        have positive := whenPresent_eq_ok.1 divisor divisor' found
        rw [converted] at positive
        have above : (Double.finite 0).lt (.finite size) = true := demand_eq_ok.1 positive
        exact ⟨size, by simpa [Double.lt] using above, converted⟩
      · intro child sub
        cases sub with
        | branch known found member => exact (branchesOf known found).2 child member
        | negated found => exact ⟨fuel, _, whenPresent_eq_ok.1 negated child found⟩
        | property found member => exact (propertiesOf found).2 _ member
        | additional found isDict =>
            have tested := whenPresent_eq_ok.1 additional child found
            cases child with
            | dict fields => exact ⟨fuel, _, tested⟩
            | _ => cases isDict
        | items found => exact ⟨fuel, _, whenPresent_eq_ok.1 items child found⟩

end Checked

/-- Every subschema that the validator can visit has been checked. -/
theorem supported_of_checked {compileError : String → Option String} : ∀ {fuel schema path},
    checkSupportedSchema compileError fuel schema path = .ok () → Supported schema := by
  intro fuel schema
  induction size : depth schema using Nat.strong_induction_on generalizing fuel schema with
  | _ size ih =>
      intro path checked
      obtain ⟨shaped, below⟩ := checkSupportedSchema_ok checked
      refine .intro shaped fun child sub => ?_
      obtain ⟨fuel', path', checkedChild⟩ := below child sub
      exact ih (depth child) (size ▸ sub.depth_lt) rfl checkedChild

end PreActive.Kernel
