/-
Module: PreActive.Python.Values
Purpose: The Python values the kernel passes around: JSON-like data, floats by their repr,
  exceptions by class and text, and the string operations the source applies.
Trusted boundary: human-reviewed reading of the standard library
Main exports: PyFloat, PyKey, PyVal, PyVal.get?, ExcClass, Exc, pyStrip
-/
import Mathlib.Data.Rat.Defs

namespace PreActive.Python

/-! ### Floats

A finite float is held by a spelling that reads back to it, and stands for the double nearest to
the decimal that is spelled.  The spelling that Python prints is the `repr`, the shortest such
decimal. -/

/-- Characters that can occur in a JSON number. -/
def isNumberChar (c : Char) : Bool :=
  c.isDigit || c == '+' || c == '-' || c == '.' || c == 'e' || c == 'E'

/-- Drop one or more digits. -/
def dropDigits1 : List Char → Option (List Char)
  | c :: rest => if c.isDigit then some (rest.dropWhile Char.isDigit) else none
  | [] => none

/-- Drop an integer without leading zeros. -/
def dropInteger : List Char → Option (List Char)
  | '0' :: rest => some rest
  | digits => dropDigits1 digits

/-- The optional exponent that ends a number. -/
def exponentEnds : List Char → Bool
  | [] => true
  | 'e' :: rest | 'E' :: rest =>
      let digits := match rest with
        | '+' :: digits | '-' :: digits => digits
        | digits => digits
      dropDigits1 digits == some []
  | _ => false

/-- `-?(0|[1-9]digits)(.digits)?([eE][+-]?digits)?` with a fraction or an exponent. -/
def floatGrammar (text : List Char) : Bool :=
  let unsigned := match text with
    | '-' :: rest => rest
    | rest => rest
  match dropInteger unsigned with
  | some ('.' :: fraction) =>
      match dropDigits1 fraction with
      | some rest => exponentEnds rest
      | none => false
  | some rest => rest ≠ [] && exponentEnds rest
  | none => false

/-- A spelling that Python reads as a float and not as an int. -/
def isFloatRepr (text : List Char) : Bool :=
  text.all isNumberChar && text.any (fun c => c == '.' || c == 'e' || c == 'E') &&
    floatGrammar text

/-- A Python float. -/
inductive PyFloat where
  | finite (repr : String) (spelled : isFloatRepr repr.toList = true)
  | infinity (negative : Bool)
  | nan
deriving DecidableEq

/-! ### Data -/

/-- A dictionary key that `json.dumps` accepts.  A NaN key, which has no place in a sorted order,
is left out. -/
inductive PyKey where
  | str (text : String)
  | int (value : Int)
  | float (value : PyFloat) (ordered : value ≠ .nan)
  | bool (value : Bool)
  | none
deriving DecidableEq

/-- A Python value.  `object` stands for anything `json.dumps` rejects. -/
inductive PyVal where
  | none
  | bool (value : Bool)
  | int (value : Int)
  | float (value : PyFloat)
  | str (text : String)
  | list (items : List PyVal)
  | dict (items : List (PyKey × PyVal))
  | object (className : String)

namespace PyVal

/-- `items.get(key)` on a list of items; a later item replaces an earlier one. -/
def lookup (key : PyKey) : List (PyKey × PyVal) → Option PyVal
  | [] => Option.none
  | (key', value) :: rest =>
      match lookup key rest with
      | some found => some found
      | Option.none => if key' = key then some value else Option.none

/-- `value.get(key)` for a string key, `none` also when the value is not a dict. -/
def get? (key : String) : PyVal → Option PyVal
  | dict items => lookup (.str key) items
  | _ => Option.none

/-- `isinstance(value, dict)` -/
def isDict : PyVal → Bool
  | dict _ => true
  | _ => false

/-- `isinstance(value, str)`, giving the string. -/
def asStr? : PyVal → Option String
  | str text => some text
  | _ => Option.none

/-- `isinstance(value, int)`, giving the number: a Python bool is an int. -/
def asInt? : PyVal → Option Int
  | int value => some value
  | bool value => some (if value then 1 else 0)
  | _ => Option.none

/-- A dict with string keys. -/
def ofFields (fields : List (String × PyVal)) : PyVal :=
  dict (fields.map fun field => (.str field.1, field.2))

end PyVal

/-! ### Exceptions -/

/-- The exception classes the kernel distinguishes. -/
inductive ExcClass where
  | toolError
  | capabilityDenied
  | idempotencyConflict
  | ambiguousEffect
  | valueError
  | keyError
  | typeError
  | runtimeError
  | overflowError
  | integrityError
  | operationalError
  | keyboardInterrupt
  | systemExit
  | other (name : String)
deriving DecidableEq, Repr

/-- `type(exc).__name__` -/
def ExcClass.name : ExcClass → String
  | toolError => "ToolError"
  | capabilityDenied => "CapabilityDenied"
  | idempotencyConflict => "IdempotencyConflict"
  | ambiguousEffect => "AmbiguousEffect"
  | valueError => "ValueError"
  | keyError => "KeyError"
  | typeError => "TypeError"
  | runtimeError => "RuntimeError"
  | overflowError => "OverflowError"
  | integrityError => "IntegrityError"
  | operationalError => "OperationalError"
  | keyboardInterrupt => "KeyboardInterrupt"
  | systemExit => "SystemExit"
  | other name => name

/-- A raised exception: its class and `str(exc)`. -/
structure Exc where
  cls : ExcClass
  text : String
deriving DecidableEq, Repr

namespace Exc

/-- `isinstance(exc, ToolError)` -/
def isToolError (exc : Exc) : Bool :=
  exc.cls = .toolError || exc.cls = .capabilityDenied ||
    exc.cls = .idempotencyConflict || exc.cls = .ambiguousEffect

/-- `isinstance(exc, sqlite3.IntegrityError)` -/
def isIntegrityError (exc : Exc) : Bool := exc.cls = .integrityError

/-- `isinstance(exc, ValueError)` -/
def isValueError (exc : Exc) : Bool := exc.cls = .valueError

/-- `f"{type(exc).__name__}: {exc}"` -/
def render (exc : Exc) : String := exc.cls.name ++ ": " ++ exc.text

end Exc

/-! ### Strings -/

/-- `str.isspace` for one character. -/
def isPySpace (c : Char) : Bool :=
  let code := c.toNat
  (0x09 ≤ code && code ≤ 0x0D) || (0x1C ≤ code && code ≤ 0x20) || code == 0x85 ||
    code == 0xA0 || code == 0x1680 || (0x2000 ≤ code && code ≤ 0x200A) || code == 0x2028 ||
    code == 0x2029 || code == 0x202F || code == 0x205F || code == 0x3000

/-- `text.strip()` -/
def pyStrip (text : String) : String :=
  String.ofList
    (((text.toList.dropWhile isPySpace).reverse.dropWhile isPySpace).reverse)

/-- `text.split()`: the maximal runs of non-space characters. -/
def pySplit (text : String) : List String :=
  go text.toList []
where
  flush (word : List Char) (words : List String) : List String :=
    if word = [] then words else String.ofList word.reverse :: words
  go : List Char → List Char → List String
    | [], word => flush word []
    | c :: rest, word =>
        if isPySpace c then flush word (go rest []) else go rest (c :: word)

/-- `separator.join(parts)` -/
def pyJoin (separator : String) (parts : List String) : String := separator.intercalate parts

end PreActive.Python
