import FoodTable.Proofs.Binary64.Rounding
import Mathlib.Order.Compare

/-!
# Exact values

The exact value of a number is a whole number of units. Magnitudes grow with their patterns, so
signed patterns are in the order of the values that they stand for, and only the two zeros stand for
the same one.
-/

namespace FoodTable.Binary64

/-- The exact value of a finite number, in units of the least positive magnitude. -/
def exact (x : Binary64) : Int := if x.negative then -(x.units : Int) else x.units

theorem unitsOf_eq_zero_iff {m : Nat} : unitsOf m = 0 ↔ m = 0 :=
  strictMono_unitsOf.injective.eq_iff' rfl

variable {x y : Binary64}

theorem index_lt_index_iff : x.index < y.index ↔ x.exact < y.exact := by
  have hlt : x.units < y.units ↔ x.magnitude < y.magnitude := strictMono_unitsOf.lt_iff_lt
  have hgt : y.units < x.units ↔ y.magnitude < x.magnitude := strictMono_unitsOf.lt_iff_lt
  have hx : x.units = 0 ↔ x.magnitude = 0 := unitsOf_eq_zero_iff
  have hy : y.units = 0 ↔ y.magnitude = 0 := unitsOf_eq_zero_iff
  unfold index exact
  -- numbers of one sign compare by their magnitudes, those of two signs unless both are zero
  cases x.negative <;> cases y.negative <;> simp only [Bool.false_eq_true, if_true, if_false] <;>
    omega

theorem index_eq_index_iff : x.index = y.index ↔ x.exact = y.exact := by
  have hlt := index_lt_index_iff (x := x) (y := y)
  have hgt := index_lt_index_iff (x := y) (y := x)
  omega

/-- Zero with a minus sign is no less than zero. -/
example : exact { zero with negative := true } = exact zero := by decide

theorem compare_index (x y : Binary64) : compare x.index y.index = compare x.exact y.exact := by
  rcases lt_trichotomy x.index y.index with h | h | h
  · rw [compare_lt_iff_lt.2 h, compare_lt_iff_lt.2 (index_lt_index_iff.1 h)]
  · rw [compare_eq_iff_eq.2 h, compare_eq_iff_eq.2 (index_eq_index_iff.1 h)]
  · rw [compare_gt_iff_gt.2 h, compare_gt_iff_gt.2 (index_lt_index_iff.1 h)]

end FoodTable.Binary64
