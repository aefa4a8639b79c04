import FoodTable.Binary64.Basic

/-!
# Rounding to binary64

The nearest binary64 number to a quotient or a decimal: of two equally near ones the one with the
even pattern, and infinity from half a step above the greatest finite number.
-/

namespace FoodTable

/-- The number `coefficient * 10 ^ exponent`. -/
structure Decimal where
  coefficient : Nat
  exponent : Int
  deriving DecidableEq, Repr

/-- The whole number nearest to `num / den`, the even one of two. -/
def nearestEven (num den : Nat) : Nat :=
  let q := num / den
  let r := num % den
  if den < 2 * r ∨ (2 * r = den ∧ q % 2 = 1) then q + 1 else q

namespace Binary64

/-- The pattern nearest to `num / den` units. The step between neighbours is `2 ^ shift` units, so a
number that rounds up to the next power of two lands on the first pattern of the next step. -/
def patternNearest (num den : Nat) : Nat :=
  let shift := (num / den).log2 - 52
  min (shift * pow2 52 + nearestEven num (den * pow2 shift)) infinity

theorem patternNearest_lt (num den : Nat) : patternNearest num den < pow2 63 :=
  Nat.lt_of_le_of_lt (Nat.min_le_right _ _) infinity_lt

/-- The number nearest to `num / den` units. -/
def ofUnits (negative : Bool) (num den : Nat) : Binary64 :=
  ⟨negative, patternNearest num den, patternNearest_lt num den⟩

/-- The number nearest to a signed decimal. Exponents far outside the range are settled without the
power: from `10 ^ 400` on all is infinite, and below `10 ^ -400` all is zero. -/
def ofDecimal (negative : Bool) (d : Decimal) : Binary64 :=
  if d.coefficient = 0 then { zero with negative }
  else if 400 < d.exponent then ⟨negative, infinity, infinity_lt⟩
  else if d.exponent + d.coefficient.log2 < -400 then { zero with negative }
  else ofUnits negative (d.coefficient * pow10 d.exponent.toNat * pow2 1074)
    (pow10 (-d.exponent).toNat)

/-- The number nearest to a natural number. -/
def ofNat (n : Nat) : Binary64 := ofDecimal false ⟨n, 0⟩

/-- The number nearest to the product of two finite numbers. -/
def product (x y : Binary64) : Binary64 :=
  ofUnits (x.negative != y.negative) (x.units * y.units) (pow2 1074)

end Binary64

end FoodTable
