/-
Module: PreActive.Python.Json
Purpose: `json.dumps(..., sort_keys=True)` and `json.loads` on Python values, character by
  character, for the three styles the kernel uses.
Trusted boundary: human-reviewed reading of the standard library
Main exports: JsonStyle, dumps, loads, isJson, JsonObject
-/
import PreActive.Python.Number
import Mathlib.Data.List.Sort
import Mathlib.Data.String.Basic

namespace PreActive.Python

/-! ### Printing -/

/-- The keyword arguments of `json.dumps` that vary: `spaced` is the default pair of separators,
otherwise `separators=(",", ":")`. -/
structure JsonStyle where
  spaced : Bool
  ensureAscii : Bool

/-- `json.dumps(value, sort_keys=True, separators=(",", ":"))` -/
def compactStyle : JsonStyle := { spaced := false, ensureAscii := true }

/-- `_canonical_json`: compact and with `ensure_ascii=False` -/
def canonicalStyle : JsonStyle := { spaced := false, ensureAscii := false }

/-- `json.dumps(value, sort_keys=True)` -/
def defaultStyle : JsonStyle := { spaced := true, ensureAscii := true }

/-- What follows a comma or a colon. -/
def JsonStyle.gap (style : JsonStyle) : List Char := if style.spaced then [' '] else []

/-- One lower-case hexadecimal digit. -/
def hexDigit (value : Nat) : Char :=
  if value < 10 then Char.ofNat (48 + value) else Char.ofNat (87 + value)

/-- `\uXXXX` -/
def unicodeEscape (code : Nat) : List Char :=
  ['\\', 'u', hexDigit (code / 4096 % 16), hexDigit (code / 256 % 16),
    hexDigit (code / 16 % 16), hexDigit (code % 16)]

/-- The escaped form of one character; characters beyond the basic plane become a surrogate pair
when only ASCII may be written. -/
def escapeChar (ensureAscii : Bool) (c : Char) : List Char :=
  if c = '"' then ['\\', '"']
  else if c = '\\' then ['\\', '\\']
  else if c = '\n' then ['\\', 'n']
  else if c = '\r' then ['\\', 'r']
  else if c = '\t' then ['\\', 't']
  else if c.toNat = 8 then ['\\', 'b']
  else if c.toNat = 12 then ['\\', 'f']
  else if c.toNat < 32 ∨ (ensureAscii ∧ 127 ≤ c.toNat) then
    if c.toNat < 65536 then unicodeEscape c.toNat
    else unicodeEscape (55296 + (c.toNat - 65536) / 1024) ++
      unicodeEscape (56320 + (c.toNat - 65536) % 1024)
  else [c]

/-- A JSON string literal. -/
def writeString (style : JsonStyle) (text : String) : List Char :=
  '"' :: (text.toList.flatMap (escapeChar style.ensureAscii) ++ ['"'])

/-- `str(value)` of an int -/
def writeInt (value : Int) : List Char :=
  if value < 0 then '-' :: Nat.toDigits 10 value.natAbs else Nat.toDigits 10 value.natAbs

/-- The JSON spelling of a float. -/
def writeFloat : PyFloat → List Char
  | .finite repr _ => repr.toList
  | .infinity false => "Infinity".toList
  | .infinity true => "-Infinity".toList
  | .nan => "NaN".toList

/-- How a key is written as a JSON member name. -/
def PyKey.memberName : PyKey → String
  | .str text => text
  | .int value => String.ofList (writeInt value)
  | .float value _ => String.ofList (writeFloat value)
  | .bool true => "true"
  | .bool false => "false"
  | .none => "null"

/-- The number a numeric key is ordered by. -/
def PyKey.number? : PyKey → Option Double
  | .int value => some (.finite value)
  | .float value _ => some value.toDouble
  | .bool value => some (.finite (if value then 1 else 0))
  | _ => Option.none

/-- The text a string key is ordered by. -/
def PyKey.text : PyKey → String
  | .str text => text
  | _ => ""

/-- `isinstance(key, str)` -/
def PyKey.isStr : PyKey → Bool
  | .str _ => true
  | _ => false

/-- `sorted(items)`: keys must be all strings or all numbers, unless nothing is compared. -/
def sortFields {β : Type} (fields : List (PyKey × β)) : Except Exc (List (PyKey × β)) :=
  if fields.all (fun field => field.1.isStr) then
    .ok (fields.insertionSort (fun a b => a.1.text ≤ b.1.text))
  else if fields.all (fun field => field.1.number?.isSome) then
    .ok (fields.insertionSort fun a b =>
      ((a.1.number?.getD .nan).le (b.1.number?.getD .nan) : Prop))
  else if fields.length ≤ 1 then .ok fields
  else .error ⟨.typeError, "'<' not supported between instances of the keys"⟩

/-- Separated elements and the closing bracket. -/
def writeRest (style : JsonStyle) (close : Char) : List (List Char) → List Char
  | [] => [close]
  | text :: rest => ',' :: (style.gap ++ text ++ writeRest style close rest)

/-- A bracketed, separated sequence. -/
def writeSequence (style : JsonStyle) (opening close : Char) : List (List Char) → List Char
  | [] => [opening, close]
  | text :: rest => opening :: (text ++ writeRest style close rest)

/-- One object member. -/
def writeMember (style : JsonStyle) (field : PyKey × List Char) : List Char :=
  writeString style field.1.memberName ++ (':' :: (style.gap ++ field.2))

mutual

/-- The text of a value, or the exception of the encoder. -/
def write (style : JsonStyle) : PyVal → Except Exc (List Char)
  | .none => .ok "null".toList
  | .bool true => .ok "true".toList
  | .bool false => .ok "false".toList
  | .int value => .ok (writeInt value)
  | .float value => .ok (writeFloat value)
  | .str text => .ok (writeString style text)
  | .list items =>
      match writeItems style items with
      | .ok texts => .ok (writeSequence style '[' ']' texts)
      | .error exc => .error exc
  | .dict items =>
      match writeFields style items with
      | .ok fields =>
          match sortFields fields with
          | .ok sorted => .ok (writeSequence style '{' '}' (sorted.map (writeMember style)))
          | .error exc => .error exc
      | .error exc => .error exc
  | .object className =>
      .error ⟨.typeError, "Object of type " ++ className ++ " is not JSON serializable"⟩

/-- The texts of a list of values. -/
def writeItems (style : JsonStyle) : List PyVal → Except Exc (List (List Char))
  | [] => .ok []
  | item :: rest =>
      match write style item, writeItems style rest with
      | .ok text, .ok texts => .ok (text :: texts)
      | .error exc, _ => .error exc
      | .ok _, .error exc => .error exc

/-- The texts of the values of a dict, with their keys. -/
def writeFields (style : JsonStyle) :
    List (PyKey × PyVal) → Except Exc (List (PyKey × List Char))
  | [] => .ok []
  | (key, value) :: rest =>
      match write style value, writeFields style rest with
      | .ok text, .ok fields => .ok ((key, text) :: fields)
      | .error exc, _ => .error exc
      | .ok _, .error exc => .error exc

end

/-- `json.dumps(value, sort_keys=True, ...)` -/
def dumps (style : JsonStyle) (value : PyVal) : Except Exc String :=
  (write style value).map String.ofList

/-! ### Reading -/

/-- JSON whitespace. -/
def isJsonSpace (c : Char) : Bool := c == ' ' || c == '\t' || c == '\n' || c == '\r'

/-- The value of a hexadecimal digit. -/
def hexValue (c : Char) : Option Nat :=
  let code := c.toNat
  if 48 ≤ code ∧ code ≤ 57 then some (code - 48)
  else if 97 ≤ code ∧ code ≤ 102 then some (code - 87)
  else if 65 ≤ code ∧ code ≤ 70 then some (code - 55)
  else none

/-- The value of four hexadecimal digits. -/
def hexValue4 (a b c d : Char) : Option Nat :=
  match hexValue a, hexValue b, hexValue c, hexValue d with
  | some a, some b, some c, some d => some (4096 * a + 256 * b + 16 * c + d)
  | _, _, _, _ => none

/-- The one-letter escapes. -/
def escapeLetter : Char → Option Char
  | '"' => some '"'
  | '\\' => some '\\'
  | '/' => some '/'
  | 'b' => some (Char.ofNat 8)
  | 'f' => some (Char.ofNat 12)
  | 'n' => some '\n'
  | 'r' => some '\r'
  | 't' => some '\t'
  | _ => none

/-- The body of a string literal after its opening quote.  A surrogate without its partner has no
character here and is refused. -/
def readString : List Char → Option (List Char × List Char)
  | [] => none
  | '"' :: rest => some ([], rest)
  | '\\' :: 'u' :: a :: b :: c :: d :: rest =>
      match hexValue4 a b c d with
      | none => none
      | some high =>
          if high < 55296 ∨ 57344 ≤ high then
            (readString rest).map fun found => (Char.ofNat high :: found.1, found.2)
          else
            match rest with
            | '\\' :: 'u' :: e :: f :: g :: h :: rest =>
                match hexValue4 e f g h with
                | none => none
                | some low =>
                    if high < 56320 ∧ 56320 ≤ low ∧ low < 57344 then
                      (readString rest).map fun found =>
                        (Char.ofNat (65536 + (high - 55296) * 1024 + (low - 56320)) :: found.1,
                          found.2)
                    else none
            | _ => none
  | '\\' :: letter :: rest =>
      match escapeLetter letter with
      | none => none
      | some c => (readString rest).map fun found => (c :: found.1, found.2)
  | c :: rest =>
      if c = '\\' ∨ c.toNat < 32 then none
      else (readString rest).map fun found => (c :: found.1, found.2)

/-- An unsigned JSON integer: no leading zeros. -/
def readNat (digits : List Char) : Option Nat :=
  if digits ≠ [] ∧ digits.all Char.isDigit ∧ (digits = ['0'] ∨ digits.head? ≠ some '0') then
    some (Nat.ofDigitChars 10 digits 0)
  else none

/-- A JSON integer. -/
def readInt : List Char → Option Int
  | '-' :: digits => (readNat digits).map fun (value : Nat) => -(value : Int)
  | digits => (readNat digits).map fun (value : Nat) => (value : Int)

/-- A number token.  A float spelling stands for the double nearest to it and is kept as it is
written, which is its `repr` whenever the text came from `dumps`; two spellings of one double are
two values here. -/
def readNumber (token : List Char) : Option PyVal :=
  if spelled : isFloatRepr token = true then
    some (.float (.finite (String.ofList token) (by simpa using spelled)))
  else (readInt token).map .int

/-- Add a member to an object; a repeated name replaces the earlier value.  Dicts are compared
without regard to order, and are kept by ascending key. -/
def insertField (name : String) (value : PyVal) :
    List (PyKey × PyVal) → List (PyKey × PyVal)
  | [] => [(.str name, value)]
  | (key, old) :: rest =>
      if name = key.text then (.str name, value) :: rest
      else if name < key.text then (.str name, value) :: (key, old) :: rest
      else (key, old) :: insertField name value rest

/-- The dict of a parsed object. -/
def ofMembers (members : List (String × PyVal)) : PyVal :=
  .dict (members.foldl (fun fields member => insertField member.1 member.2 fields) [])

mutual

/-- Read one value, spending one unit of fuel for each bracket or element entered. -/
def readValue : Nat → List Char → Option (PyVal × List Char)
  | 0, _ => none
  | fuel + 1, text =>
      match text with
      | '"' :: rest =>
          (readString rest).map fun found => (.str (String.ofList found.1), found.2)
      | '[' :: rest =>
          match rest.dropWhile isJsonSpace with
          | ']' :: rest => some (.list [], rest)
          | rest => (readItems fuel rest).map fun found => (.list found.1, found.2)
      | '{' :: rest =>
          match rest.dropWhile isJsonSpace with
          | '}' :: rest => some (.dict [], rest)
          | rest => (readMembers fuel rest).map fun found => (ofMembers found.1, found.2)
      | 'n' :: 'u' :: 'l' :: 'l' :: rest => some (.none, rest)
      | 't' :: 'r' :: 'u' :: 'e' :: rest => some (.bool true, rest)
      | 'f' :: 'a' :: 'l' :: 's' :: 'e' :: rest => some (.bool false, rest)
      | 'N' :: 'a' :: 'N' :: rest => some (.float .nan, rest)
      | 'I' :: 'n' :: 'f' :: 'i' :: 'n' :: 'i' :: 't' :: 'y' :: rest =>
          some (.float (.infinity false), rest)
      | '-' :: 'I' :: 'n' :: 'f' :: 'i' :: 'n' :: 'i' :: 't' :: 'y' :: rest =>
          some (.float (.infinity true), rest)
      | text =>
          (readNumber (text.takeWhile isNumberChar)).map fun value =>
            (value, text.dropWhile isNumberChar)

/-- Read the elements of a non-empty array up to its closing bracket. -/
def readItems : Nat → List Char → Option (List PyVal × List Char)
  | 0, _ => none
  | fuel + 1, text =>
      match readValue fuel text with
      | none => none
      | some (item, rest) =>
          match rest.dropWhile isJsonSpace with
          | ']' :: rest => some ([item], rest)
          | ',' :: rest =>
              (readItems fuel (rest.dropWhile isJsonSpace)).map fun found =>
                (item :: found.1, found.2)
          | _ => none

/-- Read the members of a non-empty object up to its closing brace. -/
def readMembers : Nat → List Char → Option (List (String × PyVal) × List Char)
  | 0, _ => none
  | fuel + 1, text =>
      match text with
      | '"' :: rest =>
          match readString rest with
          | none => none
          | some (name, rest) =>
              match rest.dropWhile isJsonSpace with
              | ':' :: rest =>
                  match readValue fuel (rest.dropWhile isJsonSpace) with
                  | none => none
                  | some (value, rest) =>
                      match rest.dropWhile isJsonSpace with
                      | '}' :: rest => some ([(String.ofList name, value)], rest)
                      | ',' :: rest =>
                          (readMembers fuel (rest.dropWhile isJsonSpace)).map fun found =>
                            ((String.ofList name, value) :: found.1, found.2)
                      | _ => none
              | _ => none
      | _ => none

end

/-- `json.loads(text)` -/
def loads (text : String) : Except Exc PyVal :=
  match readValue (text.toList.length + 1) (text.toList.dropWhile isJsonSpace) with
  | some (value, rest) =>
      if rest.dropWhile isJsonSpace = [] then .ok value
      else .error ⟨.valueError, "Extra data"⟩
  | none => .error ⟨.valueError, "Expecting value"⟩

/-! ### JSON values -/

mutual

/-- A JSON value in the form `loads` returns: string keys, ascending, and nothing opaque. -/
def isJson : PyVal → Bool
  | .list items => isJsonItems items
  | .dict fields =>
      fields.all (fun field => field.1.isStr) &&
        decide (fields.Pairwise fun a b => a.1.text < b.1.text) && isJsonFields fields
  | .object _ => false
  | _ => true

def isJsonItems : List PyVal → Bool
  | [] => true
  | item :: rest => isJson item && isJsonItems rest

def isJsonFields : List (PyKey × PyVal) → Bool
  | [] => true
  | (_, value) :: rest => isJson value && isJsonFields rest

end

/-- A JSON object: a dict that `json.dumps` and `json.loads` carry over unchanged. -/
structure JsonObject where
  value : PyVal
  isDict : value.isDict = true
  isJson : isJson value = true

theorem isJsonFields_of_forall : ∀ {fields : List (PyKey × PyVal)},
    (∀ field ∈ fields, isJson field.2 = true) → isJsonFields fields = true
  | [], _ => rfl
  | field :: fields, json => by
      rw [isJsonFields, json field (by simp), Bool.true_and]
      exact isJsonFields_of_forall fun field member => json field (by simp [member])

/-- A JSON object from its members in ascending order. -/
def JsonObject.ofFields (fields : List (String × PyVal))
    (ascending : (fields.map Prod.fst).Pairwise (· < ·))
    (json : ∀ field ∈ fields, Python.isJson field.2 = true) : JsonObject where
  value := .ofFields fields
  isDict := rfl
  isJson := by
    have ordered := List.pairwise_map.1 ascending
    rw [PyVal.ofFields, Python.isJson, Bool.and_eq_true, Bool.and_eq_true, decide_eq_true_eq]
    refine ⟨⟨by simp [PyKey.isStr], List.pairwise_map.2 ordered⟩, isJsonFields_of_forall ?_⟩
    intro field member
    obtain ⟨source, inside, rfl⟩ := List.mem_map.1 member
    exact json source inside

/-- Recognize a JSON object. -/
def JsonObject.ofVal? (value : PyVal) : Option JsonObject :=
  if h : value.isDict = true ∧ Python.isJson value = true then some ⟨value, h.1, h.2⟩ else none

/-- The empty object. -/
def JsonObject.empty : JsonObject := ⟨.dict [], rfl, rfl⟩

end PreActive.Python
