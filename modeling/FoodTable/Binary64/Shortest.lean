import FoodTable.Binary64.Rounding
import FoodTable.Text.Numeral

/-!
# Shortest decimals

The decimal with the fewest digits that rounds back to a finite magnitude, and of several such the
nearest. Every answer rounds back, because an answer is only given after reading it.
-/

namespace FoodTable

/-- Which of two equally near decimals is taken. -/
inductive Tie where
  | up
  | toEven
  deriving DecidableEq, Repr

/-- The same number without trailing zeros in its coefficient. -/
def Decimal.normalize (d : Decimal) : Decimal :=
  if d.coefficient ≠ 0 ∧ d.coefficient % 10 = 0 then
    normalize ⟨d.coefficient / 10, d.exponent + 1⟩
  else d
termination_by d.coefficient
decreasing_by exact Nat.div_lt_self (Nat.pos_of_ne_zero (by assumption : _ ∧ _).1) (by decide)

namespace Binary64

/-- The position `p` of the decimal point: `units * 2 ^ -1074` is at least `10 ^ (p - 1)` and below
`10 ^ p`. -/
def pointPosition (units : Nat) : Int :=
  if pow2 1074 ≤ units then (Text.digits (units / pow2 1074)).length
  else
    let zeros := (List.range 400).find? fun k => pow2 1074 ≤ units * pow10 k
    1 - (zeros.getD 400 : Nat)

/-- The value of `units` in steps of `10 ^ e`, as a quotient. -/
def steps (units : Nat) (e : Int) : Nat × Nat :=
  (units * pow10 (-e).toNat, pow2 1074 * pow10 e.toNat)

/-- The two neighbours on the grid of `10 ^ e`, the preferred one first. -/
def neighbours (tie : Tie) (units : Nat) (e : Int) : List Decimal :=
  let (num, den) := steps units e
  let below := num / den
  let r := num % den
  let low := Decimal.normalize ⟨below, e⟩
  let high := Decimal.normalize ⟨below + 1, e⟩
  let upper := den < 2 * r || (2 * r == den && (tie == .up || below % 2 == 1))
  if upper then [high, low] else [low, high]

/-- The shortest decimal of a finite magnitude. When no grid of at most 17 digits answers, the exact
value does. -/
def shortest (tie : Tie) (m : Nat) (h : m < pow2 63) : Decimal :=
  let units := unitsOf m
  let p := pointPosition units
  let good (d : Decimal) : Bool := ofDecimal false d == ⟨false, m, h⟩
  let hit := (List.range 17).findSome? fun (n : Nat) =>
    (neighbours tie units (p - 1 - n)).find? good
  hit.getD ⟨units * Nat.pow 5 1074, -1074⟩

end Binary64

end FoodTable
