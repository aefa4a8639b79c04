import FoodTable.Binary64.Rounding
import FoodTable.Json.Fault
import FoodTable.Text.Numeral

/-!
# Reading numbers

A number is digits without a leading zero, then an optional fraction and an optional exponent. Its
digits are gathered into a coefficient of 64 bits; a number that leaves the range of binary64
numbers when the coefficient is scaled is refused.
-/

namespace FoodTable.Json

/-- The digits of a number, each by its value, and its exponent. -/
structure Numeral where
  whole : List Nat
  fraction : List Nat
  exponent : Int

def isDigitByte (b : UInt8) : Bool := (Char.ofUInt8 b).isDigit

/-- The value of a digit. -/
def digitValue (b : UInt8) : Nat := b.toNat - 48

/-- One or more digits. -/
def takeDigits (s : Bytes) : Except Fault (List Nat × Bytes) :=
  match s.takeWhile isDigitByte, s.dropWhile isDigitByte with
  | [], [] => .error .truncated
  | [], _ => .error .malformed
  | ds, rest => .ok (ds.map digitValue, rest)

/-- The digits before a point, of which only a lone one may be zero at the front. -/
def takeWhole (s : Bytes) : Except Fault (List Nat × Bytes) := do
  let (ds, s) ← takeDigits s
  match ds with
  | 0 :: _ :: _ => throw .malformed
  | _ => return (ds, s)

/-- The digits after a point, if one stands in front. -/
def takeFraction : Bytes → Except Fault (List Nat × Bytes)
  | [] => .ok ([], [])
  | b :: s => if Char.ofUInt8 b = '.' then takeDigits s else .ok ([], b :: s)

/-- Whether a minus sign stands in front, and the bytes after a sign. -/
def takeSign : Bytes → Bool × Bytes
  | [] => (false, [])
  | b :: s =>
    match Char.ofUInt8 b with
    | '-' => (true, s)
    | '+' => (false, s)
    | _ => (false, b :: s)

/-- The exponent, 0 if none stands in front. -/
def takeExponent : Bytes → Except Fault (Int × Bytes)
  | [] => .ok (0, [])
  | b :: s =>
    if Char.ofUInt8 b = 'e' ∨ Char.ofUInt8 b = 'E' then do
      let (negative, s) := takeSign s
      let (ds, s) ← takeDigits s
      let n : Int := (ds.foldl (fun n d => 10 * n + d) 0 : Nat)
      return (if negative then -n else n, s)
    else .ok (0, b :: s)

/-- The number without its sign. -/
def takeNumeral (s : Bytes) : Except Fault (Numeral × Bytes) := do
  let (whole, s) ← takeWhole s
  let (fraction, s) ← takeFraction s
  let (exponent, s) ← takeExponent s
  return (⟨whole, fraction, exponent⟩, s)

/-- A coefficient extended by digits while it stays below `2 ^ 64`, and how many digits are left. -/
def extend (n : Nat) : List Nat → Nat × Nat
  | [] => (n, 0)
  | d :: ds => if 10 * n + d < pow2 64 then extend (10 * n + d) ds else (n, ds.length + 1)

/-- The number as a coefficient of 64 bits and an exponent. Digits that do not fit are dropped. -/
def Numeral.decimal (n : Numeral) : Decimal :=
  let (coefficient, wholeLeft) := extend 0 n.whole
  let (coefficient, fractionLeft) := extend coefficient n.fraction
  ⟨coefficient, n.exponent + wholeLeft + fractionLeft - n.fraction.length⟩

/-- The greatest power of ten below infinity. -/
def maxScale : Nat := 308

/-- Whether the rounded coefficient times the rounded power of ten is finite. -/
def Numeral.isInRange (n : Numeral) : Bool :=
  let d := n.decimal
  d.coefficient == 0 || d.exponent < 0 ||
    (d.exponent ≤ maxScale &&
      ((Binary64.ofNat d.coefficient).product (.ofDecimal false ⟨1, d.exponent⟩)).isFinite)

/-- The bytes after a number, from after its sign. -/
def passNumber (s : Bytes) : Except Fault Bytes := do
  let (n, s) ← takeNumeral s
  if n.isInRange then return s else throw .malformed

/-- The bytes after a number that is not read, from after its sign. Its size does not count, and its
end is a fault like any other. -/
def skipNumber (s : Bytes) : Except Fault Bytes :=
  match takeNumeral s with
  | .ok (_, s) => .ok s
  | .error _ => .error .malformed

end FoodTable.Json
