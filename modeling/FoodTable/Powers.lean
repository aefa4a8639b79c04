/-!
# Powers

Powers of the bases of machine words and of decimal numerals.
-/

namespace FoodTable

/-- Two to a power. -/
def pow2 (n : Nat) : Nat := Nat.pow 2 n

/-- Ten to a power. -/
def pow10 (n : Nat) : Nat := Nat.pow 10 n

theorem pow2_pos (n : Nat) : 0 < pow2 n := Nat.pow_pos (by decide)

theorem pow10_pos (n : Nat) : 0 < pow10 n := Nat.pow_pos (by decide)

theorem pow2_add (m n : Nat) : pow2 (m + n) = pow2 m * pow2 n := Nat.pow_add 2 m n

theorem pow10_add (m n : Nat) : pow10 (m + n) = pow10 m * pow10 n := Nat.pow_add 10 m n

theorem pow2_succ (n : Nat) : pow2 (n + 1) = 2 * pow2 n := Nat.pow_succ'

theorem pow10_succ (n : Nat) : pow10 (n + 1) = 10 * pow10 n := Nat.pow_succ'

theorem pow2_le_pow2_iff {m n : Nat} : pow2 m ≤ pow2 n ↔ m ≤ n :=
  Nat.pow_le_pow_iff_right (by decide)

theorem pow2_lt_pow2_iff {m n : Nat} : pow2 m < pow2 n ↔ m < n :=
  Nat.pow_lt_pow_iff_right (by decide)

/-- A power of ten is greater than the power of two with three times the exponent. -/
theorem pow2_mul_three_le_pow10 (n : Nat) : pow2 (3 * n) ≤ pow10 n := by
  have height : pow2 (3 * n) = Nat.pow 8 n := Nat.pow_mul 2 3 n
  rw [height]
  exact Nat.pow_le_pow_left (by decide) n

end FoodTable
