import Mathlib.Algebra.Order.Field.Rat
import Mathlib.Data.Rat.Floor
import McritSimilarity.Python.Text

/-!
# JSON values and numbers

The values `json.loads` returns, and the conversions, tests and subscripts that the plugin applies to
them, each with the built-in exception it raises.  A `float` is a rational, an infinity or NaN (both
zeros are `0`); converting to it rounds to the nearest double.
-/

set_option autoImplicit false

namespace Python

/-- The built-in exceptions that reading a JSON value can raise. -/
inductive BuiltinError where
  | typeError
  | valueError
  | overflowError
  | keyError
  | attributeError
  deriving DecidableEq, Repr

inductive PyFloat where
  | finite (q : ℚ)
  | posInf
  | negInf
  | nan
  deriving DecidableEq, Repr

/-- Rounding to an integer, ties to even, as `round` does. -/
def roundHalfEven (q : ℚ) : ℤ :=
  let below := q.floor
  let rest := q - below
  if rest < 1 / 2 then below
  else if 1 / 2 < rest then below + 1
  else if below % 2 = 0 then below else below + 1

/-- The nearest double. -/
def roundDouble (q : ℚ) : PyFloat :=
  if q = 0 then .finite 0
  else
    let guess : ℤ := (q.num.natAbs.log2 : ℤ) - (q.den.log2 : ℤ)
    let exponent := if |q| < 2 ^ guess then guess - 1 else guess
    let unit : ℚ := 2 ^ (max exponent (-1022) - 52)
    let rounded := roundHalfEven (q / unit) * unit
    if rounded < 2 ^ 1024 ∧ -2 ^ 1024 < rounded then .finite rounded
    else if 0 < rounded then .posInf else .negInf

/-- A decimal literal without sign: digits with an optional point and exponent. -/
def decimalValue (cs : List Char) : Option ℚ := do
  let (mantissa, hasExponent, exponent) := partition 'e' cs
  let (whole, _, fraction) := partition '.' mantissa
  if whole = [] ∧ fraction = [] then none
  else
    let w ← if whole = [] then some 0 else naturalValue whole
    let f ← if fraction = [] then some 0 else naturalValue fraction
    let places := (fraction.filter (· ≠ '_')).length
    let e ← if hasExponent then
        match exponent with
        | '-' :: ds => (naturalValue ds).map fun n => -(n : ℤ)
        | '+' :: ds => (naturalValue ds).map fun n => (n : ℤ)
        | ds => (naturalValue ds).map fun n => (n : ℤ)
      else some 0
    some ((w + f / 10 ^ places : ℚ) * 10 ^ e)

/-- `float(s)`; `none` where it raises `ValueError`. -/
def floatOfText (s : String) : Option PyFloat :=
  let cs := (stripBy isNumberSpace s.toList).map lowerChar
  let (negative, body) := match cs with
    | '-' :: rest => (true, rest)
    | '+' :: rest => (false, rest)
    | rest => (false, rest)
  if body = "inf".toList ∨ body = "infinity".toList then
    some (if negative then .negInf else .posInf)
  else if body = "nan".toList then some .nan
  else (decimalValue body).map fun q => roundDouble (if negative then -q else q)

/-- A value of `json.loads`; an object is the list of its members. -/
inductive Json where
  | null
  | bool (b : Bool)
  | int (n : ℤ)
  | float (x : PyFloat)
  | str (s : String)
  | list (xs : List Json)
  | dict (members : List (String × Json))

namespace Json

/-- `bool(value)`. -/
def truthy : Json → Bool
  | null => false
  | bool b => b
  | int n => n ≠ 0
  | float x => x ≠ .finite 0
  | str s => s ≠ ""
  | list xs => !xs.isEmpty
  | dict members => !members.isEmpty

/-- `value or default`. -/
def orElse (value default : Json) : Json := if value.truthy then value else default

/-- `value.get(key)` of a dictionary, with `None` for a missing key. -/
def get (value : Json) (key : String) : Except BuiltinError Json :=
  match value with
  | dict members => .ok ((members.lookup key).getD null)
  | _ => .error .attributeError

/-- `value[key]` for a string key. -/
def getItem (value : Json) (key : String) : Except BuiltinError Json :=
  match value with
  | dict members =>
    match members.lookup key with
    | some v => .ok v
    | none => .error .keyError
  | _ => .error .typeError

/-- `key in value` of a dictionary; `false` for other values, which the plugin never asks. -/
def hasKey (value : Json) (key : String) : Bool :=
  match value with
  | dict members => (members.lookup key).isSome
  | _ => false

/-- What `for element in value` goes through. -/
def iter : Json → Except BuiltinError (List Json)
  | list xs => .ok xs
  | dict members => .ok (members.map fun m => str m.1)
  | str s => .ok (s.toList.map fun c => str (String.ofList [c]))
  | _ => .error .typeError

/-- `int(value)`. -/
def toInt : Json → Except BuiltinError ℤ
  | bool b => .ok (if b then 1 else 0)
  | int n => .ok n
  | float (.finite q) => .ok (if 0 ≤ q then q.floor else -(-q).floor)
  | float .nan => .error .valueError
  | float _ => .error .overflowError
  | str s => match intOfText s with
    | some n => .ok n
    | none => .error .valueError
  | _ => .error .typeError

/-- `float(value)`. -/
def toFloat : Json → Except BuiltinError PyFloat
  | bool b => .ok (.finite (if b then 1 else 0))
  | int n => match roundDouble n with
    | .finite q => .ok (.finite q)
    | _ => .error .overflowError
  | float x => .ok x
  | str s => match floatOfText s with
    | some x => .ok x
    | none => .error .valueError
  | _ => .error .typeError

/-- `value == n` for an integer. -/
def eqInt (value : Json) (n : ℤ) : Bool :=
  match value with
  | bool b => (if b then 1 else 0) = n
  | int m => m = n
  | float x => x = .finite n
  | _ => false

/-- `value == s` for a string. -/
def eqStr (value : Json) (s : String) : Bool :=
  match value with
  | str t => t = s
  | _ => false

def isNull : Json → Bool
  | null => true
  | _ => false

def isDict : Json → Bool
  | dict _ => true
  | _ => false

end Json

/-- Two conversions that are kept as parameters: the value a JSON text denotes (`none` where
`json.loads` raises `ValueError`), and `str` of floats, lists and dictionaries. -/
structure Runtime where
  loads : String → Option Json
  strOther : Json → String

/-- `str(value)`. -/
def Runtime.str (rt : Runtime) : Json → String
  | .null => "None"
  | .bool b => if b then "True" else "False"
  | .int n => toString n
  | .str s => s
  | other => rt.strOther other

example : floatOfText "-1_0.25e1" = some (.finite (-205 / 2)) := by decide +kernel

example : (roundDouble (2 ^ 53 + 1) = .finite (2 ^ 53)) := by decide +kernel

example : floatOfText "1e400" = some .posInf := by decide +kernel

end Python
