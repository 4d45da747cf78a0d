/-
Module: PreActive.Python.Number
Purpose: IEEE doubles as exact rationals with round-half-even, the conversions `float(...)`
  performs, and Python equality of JSON-like values.
Trusted boundary: human-reviewed reading of the standard library
Main exports: Double, Double.round, PyFloat.toDouble, toFloat, pyEq, isCloseToInteger
-/
import PreActive.Python.Values
import Mathlib.Data.Rat.Floor
import Mathlib.Algebra.Order.Ring.Rat
import Mathlib.Tactic.Linarith

namespace PreActive.Python

/-! ### Doubles -/

/-- A double by its exact value; the two zeros are one value here. -/
inductive Double where
  | finite (value : ℚ)
  | infinity (negative : Bool)
  | nan
deriving DecidableEq

/-- The nearest integer, ties to even. -/
def roundHalfEven (value : ℚ) : Int :=
  let low := value.floor
  let part := value - low
  if part < 1 / 2 then low
  else if 1 / 2 < part then low + 1
  else if low % 2 = 0 then low else low + 1

theorem roundHalfEven_near (value : ℚ) :
    value - 1 / 2 ≤ roundHalfEven value ∧ (roundHalfEven value : ℚ) ≤ value + 1 / 2 := by
  have low := Rat.floor_le value
  have high := Rat.lt_floor_add_one value
  push_cast at high
  simp only [roundHalfEven]
  split
  · constructor <;> linarith
  · split
    · push_cast
      constructor <;> linarith
    · split
      · constructor <;> linarith
      · push_cast
        constructor <;> linarith

theorem roundHalfEven_nonneg {value : ℚ} (nonneg : 0 ≤ value) : 0 ≤ roundHalfEven value := by
  have above := (roundHalfEven_near value).1
  have low : ((-1 : Int) : ℚ) < roundHalfEven value := by
    push_cast
    linarith
  have low' := Int.cast_lt.1 low
  omega

/-- Numbers that are more than one apart are not rounded to one integer. -/
theorem roundHalfEven_separates {x y : ℚ} (apart : x + 1 < y) :
    roundHalfEven x < roundHalfEven y := by
  have below := (roundHalfEven_near x).2
  have above := (roundHalfEven_near y).1
  have between : (roundHalfEven x : ℚ) < roundHalfEven y := by linarith
  exact_mod_cast between

def twoPow (exponent : Int) : ℚ :=
  if 0 ≤ exponent then ((2 ^ exponent.toNat : Nat) : ℚ)
  else 1 / ((2 ^ (-exponent).toNat : Nat) : ℚ)

/-- The exponent `n` with `2 ^ n ≤ value < 2 ^ (n + 1)`, for a positive value. -/
def floorLog2 (value : ℚ) : Int :=
  let guess := (value.num.natAbs.log2 : Int) - value.den.log2
  if twoPow guess ≤ value then guess else guess - 1

/-- The double nearest to a rational: 53 bits, gradual underflow, overflow to infinity. -/
def Double.round (value : ℚ) : Double :=
  if value = 0 then .finite 0
  else
    let size := |value|
    let unit := twoPow (max (floorLog2 size - 52) (-1074))
    let rounded := (roundHalfEven (size / unit) : ℚ) * unit
    if twoPow 1024 ≤ rounded then .infinity (value < 0)
    else .finite (if value < 0 then -rounded else rounded)

namespace Double

def lt : Double → Double → Bool
  | .finite a, .finite b => a < b
  | .finite _, .infinity negative => !negative
  | .infinity negative, .finite _ => negative
  | .infinity a, .infinity b => a && !b
  | _, _ => false

def eq : Double → Double → Bool
  | .finite a, .finite b => a == b
  | .infinity a, .infinity b => a == b
  | _, _ => false

def le (a b : Double) : Bool := lt a b || eq a b

def isFinite : Double → Bool
  | .finite _ => true
  | _ => false

end Double

/-- The unsigned decimal `digits.fraction` times a power of ten. -/
def decimalValue (text : List Char) : ℚ :=
  let (negative, unsigned) := match text with
    | '-' :: rest => (true, rest)
    | rest => (false, rest)
  let whole := unsigned.takeWhile Char.isDigit
  let afterWhole := unsigned.dropWhile Char.isDigit
  let (fraction, afterFraction) := match afterWhole with
    | '.' :: rest => (rest.takeWhile Char.isDigit, rest.dropWhile Char.isDigit)
    | rest => ([], rest)
  let exponent : Int := match afterFraction with
    | _ :: '-' :: digits => -(Nat.ofDigitChars 10 digits 0 : Int)
    | _ :: '+' :: digits => Nat.ofDigitChars 10 digits 0
    | _ :: digits => Nat.ofDigitChars 10 digits 0
    | [] => 0
  let mantissa : ℚ := Nat.ofDigitChars 10 (whole ++ fraction) 0
  let scale := exponent - fraction.length
  let scaled := if 0 ≤ scale then mantissa * ((10 ^ scale.toNat : Nat) : ℚ)
    else mantissa / ((10 ^ (-scale).toNat : Nat) : ℚ)
  if negative then -scaled else scaled

/-- The number a float is. -/
def PyFloat.toDouble : PyFloat → Double
  | .finite repr _ => Double.round (decimalValue repr.toList)
  | .infinity negative => .infinity negative
  | .nan => .nan

/-- `isinstance(value, (int, float)) and not isinstance(value, bool)` -/
def PyVal.isNumber : PyVal → Bool
  | .int _ | .float _ => true
  | _ => false

/-- `float(value)` of an int or a float. -/
def toFloat : PyVal → Except Exc Double
  | .int value =>
      match Double.round value with
      | .finite rounded => .ok (.finite rounded)
      | _ => .error ⟨.overflowError, "int too large to convert to float"⟩
  | .float value => .ok value.toDouble
  | _ => .error ⟨.typeError, "float() argument must be a string or a real number"⟩

/-- `a / b` of two doubles with a positive finite divisor. -/
def Double.divide : Double → Double → Double
  | .finite a, .finite b => Double.round (a / b)
  | .infinity negative, .finite _ => .infinity negative
  | _, _ => .nan

/-- `math.isclose(a, round(a), rel_tol=1e-12, abs_tol=1e-12)` -/
def isCloseToInteger : Double → Except Exc Bool
  | .finite a =>
      let tolerance := Double.round (1 / ((10 ^ 12 : Nat) : ℚ))
      let b : ℚ := roundHalfEven a
      let difference := Double.round |b - a|
      let scaled := fun (x : ℚ) => match tolerance with
        | .finite t => Double.round |t * x|
        | other => other
      .ok (a == b || difference.le (scaled b) || difference.le (scaled a) ||
        difference.le tolerance)
  | .infinity _ => .error ⟨.overflowError, "cannot convert float infinity to integer"⟩
  | .nan => .error ⟨.valueError, "cannot convert float NaN to integer"⟩

/-! ### Equality -/

/-- The exact number that `==` compares: a bool is an int. -/
def PyVal.number? : PyVal → Option Double
  | .bool value => some (.finite (if value then 1 else 0))
  | .int value => some (.finite value)
  | .float value => some value.toDouble
  | _ => Option.none

mutual

/-- `a == b`; dicts are compared without regard to order. -/
def pyEq : PyVal → PyVal → Bool
  | .none, .none => true
  | .str a, .str b => a == b
  | .list a, .list b => pyEqItems a b
  | .dict a, .dict b => a.length == b.length && pyEqFields a b
  | .bool a, b => (b.number?.map (Double.eq (.finite (if a then 1 else 0)))).getD false
  | .int a, b => (b.number?.map (Double.eq (.finite a))).getD false
  | .float a, b => (b.number?.map (Double.eq a.toDouble)).getD false
  | _, _ => false

def pyEqItems : List PyVal → List PyVal → Bool
  | [], [] => true
  | a :: as, b :: bs => pyEq a b && pyEqItems as bs
  | _, _ => false

def pyEqFields : List (PyKey × PyVal) → List (PyKey × PyVal) → Bool
  | [], _ => true
  | (key, a) :: rest, other =>
      (match PyVal.lookup key other with
        | some b => pyEq a b
        | Option.none => false) && pyEqFields rest other

end

end PreActive.Python
