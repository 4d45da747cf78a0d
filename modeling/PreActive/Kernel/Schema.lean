/-
Module: PreActive.Kernel.Schema
Purpose: The JSON-Schema subset that tool arguments are validated against: the checker that a
  schema passes when its tool is registered, and the validator (`_check_supported_schema`,
  `_json_type_matches`, `_schema_accepts`, `_validate_schema_value` of tools.py).
Trusted boundary: human-reviewed spec
Main exports: jsonTypeMatches, checkSupportedSchema, validateSchemaValue
-/
import PreActive.Foundation.Verdict
import PreActive.Python.Json
import PreActive.Python.Number

namespace PreActive.Kernel

open PreActive.Foundation PreActive.Python

/-- `raise ValueError(text)` -/
def valueError {α : Type} (text : String) : Except Exc α := .error ⟨.valueError, text⟩

/-- `if not holds: raise ValueError(text)` -/
def demand (holds : Bool) (text : String) : Except Exc Unit :=
  if holds then .ok () else valueError text

/-- `if keyword in schema: ...` -/
def whenPresent (schema : PyVal) (keyword : String) (check : PyVal → Except Exc Unit) :
    Except Exc Unit :=
  match schema.get? keyword with
  | some found => check found
  | none => .ok ()

/-- The exception of a recursion without an end. -/
def recursionError {α : Type} : Except Exc α :=
  .error ⟨.other "RecursionError", "maximum recursion depth exceeded"⟩

/-- `_json_type_matches`; converting a huge int for `"number"` raises. -/
def jsonTypeMatches (value : PyVal) (declared : String) : Except Exc Bool :=
  match declared with
  | "object" => .ok value.isDict
  | "array" => .ok (match value with | .list _ => true | _ => false)
  | "string" => .ok value.asStr?.isSome
  | "integer" => .ok (match value with | .int _ => true | _ => false)
  | "number" => if value.isNumber then (toFloat value).map Double.isFinite else .ok false
  | "boolean" => .ok (match value with | .bool _ => true | _ => false)
  | "null" => .ok (match value with | .none => true | _ => false)
  | _ => .ok false

/-- The items of a list value. -/
def listItems : PyVal → List PyVal
  | .list items => items
  | _ => []

/-- The items of a dict value with string keys. -/
def dictItems : PyVal → List (String × PyVal)
  | .dict items => items.filterMap fun item =>
      match item.1 with
      | .str key => some (key, item.2)
      | _ => none
  | _ => []

mutual

/-- The nesting depth of a value, which bounds the recursion of a validator over a schema. -/
def depth : PyVal → Nat
  | .list items => depthItems items + 1
  | .dict items => depthFields items + 1
  | _ => 1

def depthItems : List PyVal → Nat
  | [] => 0
  | item :: rest => max (depth item) (depthItems rest)

def depthFields : List (PyKey × PyVal) → Nat
  | [] => 0
  | (_, value) :: rest => max (depth value) (depthFields rest)

end

/-! ### Registration -/

/-- `_SUPPORTED_SCHEMA_KEYS` -/
def supportedSchemaKeys : List String :=
  ["$schema", "$id", "title", "description", "default", "examples",
    "type", "enum", "const",
    "properties", "required", "additionalProperties", "minProperties", "maxProperties",
    "items", "minItems", "maxItems", "uniqueItems",
    "minLength", "maxLength", "pattern",
    "minimum", "maximum", "exclusiveMinimum", "exclusiveMaximum", "multipleOf",
    "allOf", "anyOf", "oneOf", "not"]

/-- `_JSON_TYPES` -/
def jsonTypes : List String :=
  ["object", "array", "string", "integer", "number", "boolean", "null"]

/-- `isinstance(v, str)` -/
def isStr (value : PyVal) : Bool := value.asStr?.isSome

/-- `isinstance(v, str) and v in _JSON_TYPES` -/
def isJsonType (value : PyVal) : Bool := value.asStr?.any fun name => jsonTypes.contains name

/-- The value of the `type` keyword names supported types. -/
def namesJsonTypes : PyVal → Bool
  | .str name => jsonTypes.contains name
  | .list names => !names.isEmpty && names.all isJsonType
  | _ => false

/-- `isinstance(v, list)` with a test of every item. -/
def isListOf (test : PyVal → Bool) : PyVal → Bool
  | .list items => items.all test
  | _ => false

/-- A non-empty list. -/
def isNonemptyList : PyVal → Bool
  | .list items => !items.isEmpty
  | _ => false

/-- A non-negative int that is not a bool. -/
def isCount : PyVal → Bool
  | .int value => 0 ≤ value
  | _ => false

def isBool : PyVal → Bool
  | .bool _ => true
  | _ => false

section Registration

-- the text of the `re.error` that `re.compile(pattern)` raises, if it does
variable (compileError : String → Option String)

/-- One of the six keywords that count. -/
def checkCount (schema : PyVal) (path keyword : String) : Except Exc Unit :=
  whenPresent schema keyword fun count =>
    demand (isCount count) (path ++ "." ++ keyword ++ " must be a non-negative integer")

/-- One of the five keywords that carry a number. -/
def checkNumber (schema : PyVal) (path keyword : String) : Except Exc Unit :=
  whenPresent schema keyword fun limit => do
    let finite ← if limit.isNumber then (toFloat limit).map Double.isFinite else .ok false
    demand finite (path ++ "." ++ keyword ++ " must be a finite number")

/-- The pattern keyword. -/
def checkPattern (schema : PyVal) (path : String) : Except Exc Unit :=
  whenPresent schema "pattern" fun pattern =>
    match pattern with
    | .str text =>
        match compileError text with
        | none => .ok ()
        | some problem => valueError (path ++ ".pattern is invalid: " ++ problem)
    | _ => valueError (path ++ ".pattern must be a string")

/-- `_check_supported_schema`; the fuel is the nesting depth of the schema. -/
def checkSupportedSchema : Nat → PyVal → String → Except Exc Unit
  | 0, _, _ => recursionError
  | fuel + 1, schema, path => do
      demand schema.isDict (path ++ " must be an object")
      let unknown := ((dictItems schema).map Prod.fst).filter
        fun key => !supportedSchemaKeys.contains key
      demand unknown.isEmpty
        (path ++ " uses unsupported keyword(s): " ++
          pyJoin ", " (unknown.insertionSort (· ≤ ·)))
      whenPresent schema "type" fun declared =>
        match declared with
        | .none => .ok ()
        | declared =>
            demand (namesJsonTypes declared) (path ++ ".type must name supported JSON type(s)")
      whenPresent schema "required" fun required =>
        demand (isListOf isStr required) (path ++ ".required must be an array of strings")
      whenPresent schema "properties" fun properties =>
        match properties with
        | .dict items => do
            demand (items.all fun item => item.1.isStr) (path ++ ".properties must be an object")
            forEach (fun (item : String × PyVal) =>
              checkSupportedSchema fuel item.2 (path ++ ".properties." ++ item.1))
              (dictItems properties)
        | _ => valueError (path ++ ".properties must be an object")
      whenPresent schema "additionalProperties" fun extra =>
        match extra with
        | .bool _ => .ok ()
        | .dict _ => checkSupportedSchema fuel extra (path ++ ".additionalProperties")
        | _ => valueError (path ++ ".additionalProperties must be boolean or schema")
      whenPresent schema "items" fun items => checkSupportedSchema fuel items (path ++ ".items")
      forEach (fun keyword =>
        whenPresent schema keyword fun branches => do
          demand (isNonemptyList branches) (path ++ "." ++ keyword ++ " must be a non-empty array")
          forEach (fun (branch : Nat × PyVal) =>
            checkSupportedSchema fuel branch.2
              (path ++ "." ++ keyword ++ "[" ++ toString branch.1 ++ "]"))
            ((List.range (listItems branches).length).zip (listItems branches)))
        ["allOf", "anyOf", "oneOf"]
      whenPresent schema "not" fun child => checkSupportedSchema fuel child (path ++ ".not")
      checkPattern compileError schema path
      forEach (checkCount schema path)
        ["minProperties", "maxProperties", "minItems", "maxItems", "minLength", "maxLength"]
      forEach (checkNumber schema path)
        ["minimum", "maximum", "exclusiveMinimum", "exclusiveMaximum", "multipleOf"]
      whenPresent schema "multipleOf" fun divisor => do
        demand ((Double.finite 0).lt (← toFloat divisor)) (path ++ ".multipleOf must be > 0")
      whenPresent schema "uniqueItems" fun unique =>
        demand (isBool unique) (path ++ ".uniqueItems must be boolean")
      whenPresent schema "enum" fun options =>
        demand (isNonemptyList options) (path ++ ".enum must be a non-empty array")

end Registration

/-! ### Validation

Python meets a keyword of another shape than the checker asks for in many ways, an iteration over
the keys of a dict among them.  Here each one is a TypeError. -/

/-- A keyword of a shape that no registered schema has. -/
def misshapen {α : Type} (keyword : String) : Except Exc α :=
  .error ⟨.typeError, keyword ++ " has an unusable value"⟩

/-- The children or options a keyword lists. -/
def itemsOf (keyword : String) : PyVal → Except Exc (List PyVal)
  | .list items => .ok items
  | _ => misshapen keyword

/-- The strings a keyword lists. -/
def stringsOf (keyword : String) (value : PyVal) : Except Exc (List String) :=
  if isListOf isStr value then .ok ((listItems value).filterMap PyVal.asStr?)
  else misshapen keyword

/-- The names a type keyword declares. -/
def declaredTypes : PyVal → Except Exc (List String)
  | .str name => .ok [name]
  | other => stringsOf "type" other

/-- The named children of a keyword. -/
def fieldsOf (keyword : String) (value : PyVal) : Except Exc (List (String × PyVal)) :=
  if value.isDict then .ok (dictItems value) else misshapen keyword

/-- The bound a keyword carries. -/
def countOf (keyword : String) : PyVal → Except Exc Int
  | .int count => .ok count
  | _ => misshapen keyword

/-- `len(value) < schema[keyword]` raises. -/
def validateLeast (schema : PyVal) (keyword : String) (size : Nat) (text : String) :
    Except Exc Unit :=
  whenPresent schema keyword fun least => do
    demand ((← countOf keyword least) ≤ size) text

/-- `len(value) > schema[keyword]` raises. -/
def validateMost (schema : PyVal) (keyword : String) (size : Nat) (text : String) :
    Except Exc Unit :=
  whenPresent schema keyword fun most => do
    demand (size ≤ (← countOf keyword most)) text

/-- The `type` keyword. -/
def validateType (value : PyVal) (path : String) : PyVal → Except Exc Unit
  | .none => .ok ()
  | declared => do
      demand (← anyM (jsonTypeMatches value) (← declaredTypes declared)) (path ++ " has wrong type")

section Validation

-- `re.search(pattern, text) is not None`
variable (reSearch : String → String → Bool)

/-- The `pattern` keyword. -/
def validatePattern (text path : String) : PyVal → Except Exc Unit
  | .str pattern => demand (reSearch pattern text) (path ++ " does not match pattern")
  | _ => misshapen "pattern"

/-- The keywords that constrain strings. -/
def validateString (schema : PyVal) (text path : String) : Except Exc Unit := do
  validateLeast schema "minLength" text.length (path ++ " is shorter than minLength")
  validateMost schema "maxLength" text.length (path ++ " is longer than maxLength")
  whenPresent schema "pattern" (validatePattern reSearch text path)

/-- One numeric bound: convert the bound, then compare. -/
def validateBound (schema : PyVal) (keyword : String) (violates : Double → Bool)
    (text : String) : Except Exc Unit :=
  whenPresent schema keyword fun limit => do
    demand (!violates (← toFloat limit)) text

/-- The keywords that constrain numbers. -/
def validateNumber (schema value : PyVal) (path : String) : Except Exc Unit := do
  let number ← toFloat value
  validateBound schema "minimum" (fun limit => number.lt limit) (path ++ " is below minimum")
  validateBound schema "maximum" (fun limit => limit.lt number) (path ++ " is above maximum")
  validateBound schema "exclusiveMinimum" (fun limit => number.le limit)
    (path ++ " is not above exclusiveMinimum")
  validateBound schema "exclusiveMaximum" (fun limit => limit.le number)
    (path ++ " is not below exclusiveMaximum")
  whenPresent schema "multipleOf" fun divisor => do
    let quotient := number.divide (← toFloat divisor)
    demand (← isCloseToInteger quotient) (path ++ " is not a multipleOf value")

section Children

-- `_validate_schema_value` for the subschemas of a keyword
variable (visit : String → PyVal → PyVal → String → Except Exc Unit)

/-- `_schema_accepts` -/
def schemaAccepts (keyword : String) (child value : PyVal) (path : String) : Except Exc Bool :=
  accepted Exc.isValueError (visit keyword child value path)

/-- The keywords that hold for values of every kind. -/
def validateAny (schema value : PyVal) (path : String) : Except Exc Unit := do
  whenPresent schema "type" (validateType value path)
  whenPresent schema "enum" fun options => do
    demand ((← itemsOf "enum" options).any (pyEq value)) (path ++ " is not in enum")
  whenPresent schema "const" fun constant =>
    demand (pyEq value constant) (path ++ " does not equal const")
  whenPresent schema "allOf" fun branches => do
    forEach (fun child => visit "allOf" child value path) (← itemsOf "allOf" branches)
  whenPresent schema "anyOf" fun branches => do
    demand (← anyM (fun child => schemaAccepts visit "anyOf" child value path)
      (← itemsOf "anyOf" branches)) (path ++ " does not satisfy anyOf")
  whenPresent schema "oneOf" fun branches => do
    let count ← countM (fun child => schemaAccepts visit "oneOf" child value path)
      (← itemsOf "oneOf" branches)
    demand (count = 1) (path ++ " does not satisfy exactly one oneOf branch")
  whenPresent schema "not" fun child => do
    demand (!(← schemaAccepts visit "not" child value path)) (path ++ " matches forbidden not schema")

/-- `key not in properties` for the keys of an object. -/
def extraItems (schema value : PyVal) : List (String × PyVal) :=
  let properties := ((schema.get? "properties").map dictItems).getD []
  (dictItems value).filter fun item => !properties.any fun property => property.1 == item.1

/-- The members that `properties` does not name. -/
def validateAdditional (schema value : PyVal) (path : String) : PyVal → Except Exc Unit
  | .bool false =>
      demand (extraItems schema value).isEmpty
        (path ++ " has unexpected key(s): " ++
          pyJoin ", " (((extraItems schema value).map Prod.fst).insertionSort (· ≤ ·)))
  | .dict fields =>
      forEach (fun (item : String × PyVal) =>
        visit "additionalProperties" (.dict fields) item.2 (path ++ "." ++ item.1))
        (extraItems schema value)
  | _ => .ok ()

/-- The keywords that constrain objects. -/
def validateObject (schema value : PyVal) (path : String) : Except Exc Unit := do
  let size := (dictItems value).length
  whenPresent schema "required" fun required => do
    let missing := (← stringsOf "required" required).filter fun key => (value.get? key).isNone
    demand missing.isEmpty (path ++ " missing required key(s): " ++ pyJoin ", " missing)
  validateLeast schema "minProperties" size (path ++ " has fewer than minProperties")
  validateMost schema "maxProperties" size (path ++ " has more than maxProperties")
  whenPresent schema "properties" fun properties => do
    forEach (fun (property : String × PyVal) =>
      whenPresent value property.1 fun member =>
        visit "properties" property.2 member (path ++ "." ++ property.1))
      (← fieldsOf "properties" properties)
  whenPresent schema "additionalProperties" (validateAdditional visit schema value path)

/-- The `uniqueItems` keyword compares canonical texts. -/
def validateUnique (items : List PyVal) (path : String) : PyVal → Except Exc Unit
  | .bool true => do
      let canonical ← items.mapM (dumps canonicalStyle)
      demand (canonical.length = canonical.dedup.length) (path ++ " contains duplicate items")
  | .bool false => .ok ()
  | _ => misshapen "uniqueItems"

/-- The keywords that constrain arrays. -/
def validateArray (schema : PyVal) (items : List PyVal) (path : String) : Except Exc Unit := do
  validateLeast schema "minItems" items.length (path ++ " has fewer than minItems")
  validateMost schema "maxItems" items.length (path ++ " has more than maxItems")
  whenPresent schema "uniqueItems" (validateUnique items path)
  whenPresent schema "items" fun child =>
    forEach (fun (item : Nat × PyVal) =>
      visit "items" child item.2 (path ++ "[" ++ toString item.1 ++ "]"))
      ((List.range items.length).zip items)

/-- The keywords that constrain values of one kind; a bool is no number. -/
def validateKind (schema : PyVal) (path : String) : PyVal → Except Exc Unit
  | .dict fields => validateObject visit schema (.dict fields) path
  | .list items => validateArray visit schema items path
  | .str text => validateString reSearch schema text path
  | .int value => validateNumber schema (.int value) path
  | .float value => validateNumber schema (.float value) path
  | _ => .ok ()

end Children

-- whether the interpreter has a frame left for the call that is nested under these keywords
variable (room : List String → Bool)

/-- `_validate_schema_value`; the fuel is the nesting depth of the schema, and the route holds the
keywords for which the calls around this one were made, innermost first. -/
def validateSchemaValue : Nat → List String → PyVal → PyVal → String → Except Exc Unit
  | 0, _, _, _, _ => recursionError
  | fuel + 1, route, schema, value, path =>
      if !room route then recursionError
      else if schema.isDict then do
        validateAny (fun keyword => validateSchemaValue fuel (keyword :: route)) schema value path
        validateKind reSearch (fun keyword => validateSchemaValue fuel (keyword :: route)) schema
          path value
      else .error ⟨.other "AttributeError", "the schema has no attribute 'get'"⟩

end Validation

end PreActive.Kernel
