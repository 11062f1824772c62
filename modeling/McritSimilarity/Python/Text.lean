import Mathlib.Data.Int.Notation
import Mathlib.Data.Nat.Notation

/-!
# Text operations

The operations of `str` that the plugin uses, on the code points of a string.
-/

set_option autoImplicit false

namespace Python

/-- `str.isspace` of one character. -/
def isSpace (c : Char) : Bool :=
  let n := c.toNat
  (9 ≤ n && n ≤ 13) || (28 ≤ n && n ≤ 32) || n = 133 || n = 160 || n = 5760 ||
    (8192 ≤ n && n ≤ 8202) || n = 8232 || n = 8233 || n = 8239 || n = 8287 || n = 12288

def stripBy (space : Char → Bool) (s : List Char) : List Char :=
  ((s.dropWhile space).reverse.dropWhile space).reverse

def stripChars (s : List Char) : List Char := stripBy isSpace s

/-- `s.strip()`. -/
def strip (s : String) : String := String.ofList (stripChars s.toList)

/-- `c.lower()` of an ASCII character.  It stands for the whole of `str.lower` where the result is
compared with ASCII words that have no `k`: the only other characters whose lower case holds an
ASCII letter are U+0130 (`i` and a combining dot) and U+212A (`k`). -/
def lowerChar (c : Char) : Char :=
  if 'A' ≤ c ∧ c ≤ 'Z' then Char.ofNat (c.toNat + 32) else c

def lower (s : String) : String := String.ofList (s.toList.map lowerChar)

/-- `s.partition(sep)` for a separator of one character: what is before its first occurrence,
whether there is one, and what is after it. -/
def partition (sep : Char) : List Char → List Char × Bool × List Char
  | [] => ([], false, [])
  | c :: cs =>
    if c = sep then ([], true, cs)
    else
      let (before, found, after) := partition sep cs
      (c :: before, found, after)

/-- `s.rpartition(sep)`: as `partition` at the last occurrence; without one, everything is after. -/
def rpartition (sep : Char) (s : List Char) : List Char × Bool × List Char :=
  let (after, found, before) := partition sep s.reverse
  if found then (before.reverse, true, after.reverse) else ([], false, s)

/-- `s.split(sep)` for a separator of one character. -/
def split (sep : Char) : List Char → List (List Char)
  | [] => [[]]
  | c :: cs =>
    if c = sep then [] :: split sep cs
    else match split sep cs with
      | [] => [[c]]
      | part :: parts => (c :: part) :: parts

/-- The zeros of the decimal digits (general category Nd); each is followed by its one to nine. -/
def digitZeros : List ℕ :=
  [48, 1632, 1776, 1984, 2406, 2534, 2662, 2790, 2918, 3046, 3174, 3302, 3430, 3558, 3664, 3792,
    3872, 4160, 4240, 6112, 6160, 6470, 6608, 6784, 6800, 6992, 7088, 7232, 7248, 42528, 43216,
    43264, 43472, 43504, 43600, 44016, 65296, 66720, 68912, 69734, 69872, 69942, 70096, 70384,
    70736, 70864, 71248, 71360, 71472, 71904, 72016, 72784, 73040, 73120, 73552, 92768, 92864,
    93008, 120782, 120792, 120802, 120812, 120822, 123200, 123632, 124144, 125264, 130032]

/-- The value of a decimal digit. -/
def digitValue (c : Char) : Option ℕ :=
  (digitZeros.find? fun z => z ≤ c.toNat && c.toNat ≤ z + 9).map fun z => c.toNat - z

/-- Digits with single underscores between them, after at least one digit was read. -/
def digitsValue (acc : ℕ) : List Char → Option ℕ
  | [] => some acc
  | [c] => (digitValue c).map fun d => acc * 10 + d
  | c :: d :: cs =>
    if c = '_' then (digitValue d).bind fun v => digitsValue (acc * 10 + v) cs
    else (digitValue c).bind fun v => digitsValue (acc * 10 + v) (d :: cs)

/-- A digit, then digits with single underscores between them. -/
def naturalValue : List Char → Option ℕ
  | [] => none
  | c :: cs => (digitValue c).bind fun v => digitsValue v cs

/-- The white space that `int` and `float` allow around a number: not U+001C to U+001F. -/
def isNumberSpace (c : Char) : Bool := isSpace c && !(28 ≤ c.toNat && c.toNat ≤ 31)

/-- The digits `int` takes by default. -/
def maxStrDigits : ℕ := 4300

/-- The value of a text of digits that are not too many. -/
def integerValue (cs : List Char) : Option ℕ :=
  if maxStrDigits < (cs.filter (· ≠ '_')).length then none else naturalValue cs

/-- `int(s)` in base ten; `none` where it raises `ValueError`. -/
def intOfText (s : String) : Option ℤ :=
  match stripBy isNumberSpace s.toList with
  | '-' :: cs => (integerValue cs).map fun n => -(n : ℤ)
  | '+' :: cs => (integerValue cs).map fun n => (n : ℤ)
  | cs => (integerValue cs).map fun n => (n : ℤ)

example : strip "  builtin\n" = "builtin" := by decide

example : intOfText " -1_000 " = some (-1000) := by decide

example : intOfText "1__0" = none := by decide

example : strip "\x1c5" = "5" ∧ intOfText "\x1c5" = none := by decide

end Python
