import FoodTable.Proofs.Binary64.WholeNumbers
import Mathlib.Algebra.Order.Field.Basic
import Mathlib.Data.Rat.Cast.Order
import Mathlib.Tactic.FieldSimp
import Mathlib.Tactic.Linarith
import Mathlib.Tactic.NormNum
import Mathlib.Tactic.Positivity

/-!
# Correct rounding

What it means that a number is rounded correctly, said with exact rational numbers and apart from
how the rounding is done: no magnitude is nearer (`Binary64.IsNearest`), and if another is as near,
the pattern is the even one of the two. For this infinity has the place `2 ^ 1024`, where the number
after the last finite one would be. A number has only one correct rounding (`IsNearest.unique`), and
all decimals are rounded correctly (`rounds_ofDecimal`).
-/

namespace FoodTable

/-- The number that a decimal denotes. -/
def Decimal.value (d : Decimal) : ℚ := d.coefficient * 10 ^ d.exponent

namespace Binary64

/-- The place of a magnitude on the number line. -/
def place (m : Nat) : ℚ := unitsOf m / pow2 1074

/-- No magnitude is nearer to `q`, and if another is as near, the last bit of this one is 0. -/
structure IsNearest (q : ℚ) (m : Nat) : Prop where
  le_infinity : m ≤ infinity
  nearest : ∀ k ≤ infinity, |place m - q| ≤ |place k - q|
  even : ∀ k ≤ infinity, k ≠ m → |place k - q| = |place m - q| → m % 2 = 0

/-- The number has the sign, and its magnitude is the one nearest to `q`. -/
structure Rounds (negative : Bool) (q : ℚ) (x : Binary64) : Prop where
  sign : x.negative = negative
  nearest : IsNearest q x.magnitude

/-! ## Places -/

variable {m k s : Nat} {q : ℚ}

theorem pow2_cast_pos (n : Nat) : (0 : ℚ) < pow2 n := Nat.cast_pos.2 (pow2_pos n)

theorem pow2_cast_ne_zero (n : Nat) : (pow2 n : ℚ) ≠ 0 := (pow2_cast_pos n).ne'

theorem place_lt_place_iff : place m < place k ↔ m < k := by
  unfold place
  rw [div_lt_div_iff_of_pos_right (pow2_cast_pos 1074), Nat.cast_lt]
  exact strictMono_unitsOf.lt_iff_lt

theorem place_le_place_iff : place m ≤ place k ↔ m ≤ k := by
  rw [← not_lt, place_lt_place_iff, Nat.not_lt]

theorem place_zero : place 0 = 0 := by
  unfold place
  rw [show unitsOf 0 = 0 from rfl, Nat.cast_zero, zero_div]

/-- The distance between neighbours on the line of `s`. -/
def step (s : Nat) : ℚ := pow2 s / pow2 1074

theorem step_pos (s : Nat) : 0 < step s := div_pos (pow2_cast_pos s) (pow2_cast_pos 1074)

theorem place_line (h : OnLine s k) : place (s * pow2 52 + k) = k * step s := by
  unfold place step
  rw [unitsOf_line h, Nat.cast_mul, mul_div_assoc]

/-! ## One correct rounding -/

theorem IsNearest.not_lt {m' : Nat} (h : IsNearest q m) (h' : IsNearest q m') : ¬ m < m' := by
  intro hlt
  have hdist : |place m' - q| = |place m - q| :=
    le_antisymm (h'.nearest m h.le_infinity) (h.nearest m' h'.le_infinity)
  have heven := h.even m' h'.le_infinity (Nat.ne_of_gt hlt) hdist
  have heven' := h'.even m h.le_infinity (Nat.ne_of_lt hlt) hdist.symm
  -- both patterns are even, so the one after the first lies between them and is nearer
  have hlt' : m + 1 < m' := by omega
  have hnext := h.nearest (m + 1) (Nat.le_trans (Nat.le_of_lt hlt') h'.le_infinity)
  have hbelow : place m < place (m + 1) := place_lt_place_iff.2 (Nat.lt_succ_self m)
  have habove : place (m + 1) < place m' := place_lt_place_iff.2 hlt'
  grind [abs_le, abs_lt]

/-- A number has only one correct rounding. -/
theorem IsNearest.unique {m' : Nat} (h : IsNearest q m) (h' : IsNearest q m') : m = m' :=
  Nat.le_antisymm (Nat.not_lt.1 (h'.not_lt h)) (Nat.not_lt.1 (h.not_lt h'))

theorem Rounds.unique {negative : Bool} {x y : Binary64} (hx : Rounds negative q x)
    (hy : Rounds negative q y) : x = y := by
  obtain ⟨b, m, hm⟩ := x
  obtain ⟨b', m', hm'⟩ := y
  rw [mk.injEq]
  exact ⟨hx.sign.trans hy.sign.symm, hx.nearest.unique hy.nearest⟩

/-! ## The ends of the line -/

/-- What lies before the midpoint of zero and the least positive magnitude is rounded to zero. -/
theorem isNearest_zero (h : 0 ≤ q) (hlt : 2 * q < place 1) : IsNearest q 0 where
  le_infinity := Nat.zero_le _
  nearest k _ := by
    rw [place_zero]
    by_cases hk : k = 0
    · rw [hk, place_zero]
    · have hplace : place 1 ≤ place k := place_le_place_iff.2 (Nat.pos_of_ne_zero hk)
      grind [abs_le]
  even _ _ _ _ := rfl

theorem place_infinity : place infinity = pow2 1024 := by
  have hline : OnLine 2046 (pow2 52) := ⟨.inl (Nat.le_refl _), by decide⟩
  have hunits : pow2 52 * pow2 2046 = pow2 1024 * pow2 1074 := by rw [← pow2_add, ← pow2_add]
  rw [show infinity = 2046 * pow2 52 + pow2 52 by decide, place_line hline, step, mul_div_assoc',
    div_eq_iff (pow2_cast_ne_zero 1074)]
  exact_mod_cast hunits

/-- The place of the greatest finite magnitude, one step before that of infinity. -/
theorem place_last : place (infinity - 1) = pow2 1024 - pow2 971 := by
  have hline : OnLine 2045 (2 * pow2 52 - 1) := ⟨.inl (by decide), by decide⟩
  have hunits : (2 * pow2 52 - 1) * pow2 2045 + pow2 971 * pow2 1074 = pow2 1024 * pow2 1074 := by
    decide +kernel
  rw [show infinity - 1 = 2045 * pow2 52 + (2 * pow2 52 - 1) by decide, place_line hline, step,
    mul_div_assoc', div_eq_iff (pow2_cast_ne_zero 1074), sub_mul, eq_sub_iff_add_eq]
  exact_mod_cast hunits

/-- Infinite is what lies from the midpoint between the last finite magnitude and infinity on. -/
theorem isNearest_infinity_iff : IsNearest q infinity ↔ (pow2 1024 - pow2 970 : ℚ) ≤ q := by
  have hhalf : (pow2 971 : ℚ) = 2 * pow2 970 := by rw [pow2_succ, Nat.cast_mul, Nat.cast_ofNat]
  have hgap := pow2_cast_pos 970
  constructor
  · intro h
    have hnear := h.nearest (infinity - 1) (Nat.sub_le _ _)
    rw [place_infinity, place_last] at hnear
    grind [abs_le]
  · intro h
    refine ⟨Nat.le_refl _, fun k hk => ?_, fun _ _ _ _ => by decide⟩
    by_cases hlast : k = infinity
    · rw [hlast]
    · have hplace : place k ≤ place (infinity - 1) := place_le_place_iff.2 (by omega)
      rw [place_last] at hplace
      rw [place_infinity]
      grind [abs_le]

/-- What is the nearest of all patterns is the nearest of those up to infinity, or else infinity
is. -/
theorem isNearest_min (hnear : ∀ k, |place m - q| ≤ |place k - q|)
    (heven : ∀ k, k ≠ m → |place k - q| = |place m - q| → m % 2 = 0) :
    IsNearest q (min m infinity) := by
  by_cases hm : m ≤ infinity
  · rw [Nat.min_eq_left hm]
    exact ⟨hm, fun k _ => hnear k, fun k _ => heven k⟩
  · rw [Nat.min_eq_right (by omega)]
    have hplace : place infinity < place m := place_lt_place_iff.2 (by omega)
    have hfar := hnear infinity
    have hhalf := pow2_cast_pos 970
    rw [isNearest_infinity_iff]
    rw [place_infinity] at hplace hfar
    grind [abs_le]

/-! ## The nearest whole number -/

theorem nearestEven_half (num : Nat) {den : Nat} (hden : 0 < den) :
    |(nearestEven num den : ℚ) - num / den| ≤ 1 / 2 ∧
      (|(nearestEven num den : ℚ) - num / den| = 1 / 2 → nearestEven num den % 2 = 0) := by
  have hpos : (0 : ℚ) < den := Nat.cast_pos.2 hden
  have hquot : (num : ℚ) / den = (num / den : Nat) + (num % den : Nat) / (den : ℚ) := by
    rw [eq_comm, ← eq_sub_iff_add_eq', div_eq_iff hpos.ne', sub_mul, div_mul_cancel₀ _ hpos.ne',
      eq_sub_iff_add_eq, ← Nat.cast_mul, ← Nat.cast_add, Nat.mod_add_div']
  have hrest : (0 : ℚ) ≤ (num % den : Nat) / (den : ℚ) := by positivity
  have hhalf : 1 / 2 < (num % den : Nat) / (den : ℚ) ↔ den < 2 * (num % den) := by
    rw [lt_div_iff₀ hpos, ← Nat.cast_lt (α := ℚ), Nat.cast_mul]
    constructor <;> intro h <;> push_cast at h ⊢ <;> linarith
  have htie : (num % den : Nat) / (den : ℚ) = 1 / 2 ↔ 2 * (num % den) = den := by
    rw [div_eq_iff hpos.ne', ← Nat.cast_inj (R := ℚ), Nat.cast_mul]
    constructor <;> intro h <;> push_cast at h ⊢ <;> linarith
  have hone : (num % den : Nat) / (den : ℚ) < 1 := by
    rw [div_lt_one hpos, Nat.cast_lt]
    exact Nat.mod_lt _ hden
  rw [hquot]
  unfold nearestEven
  dsimp only
  generalize ((num % den : Nat) : ℚ) / den = f at *
  split
  · rename_i hup
    have hf : 1 / 2 ≤ f := hup.elim (fun h => (hhalf.2 h).le) fun h => (htie.2 h.1).ge
    have hdist : |((num / den + 1 : Nat) : ℚ) - ((num / den : Nat) + f)| = 1 - f := by
      rw [Nat.cast_succ, add_sub_add_left_eq_sub, abs_of_pos (sub_pos.2 hone)]
    rw [hdist]
    refine ⟨by linarith, fun h => ?_⟩
    have := htie.1 (by linarith)
    omega
  · rename_i hdown
    have hf : f ≤ 1 / 2 := not_lt.1 fun h => hdown (.inl (hhalf.1 h))
    have hdist : |((num / den : Nat) : ℚ) - ((num / den : Nat) + f)| = f := by
      rw [sub_add_cancel_left, abs_neg, abs_of_nonneg hrest]
    rw [hdist]
    refine ⟨hf, fun h => ?_⟩
    have := htie.1 h
    omega

/-- Of the whole multiples of a step none is nearer than the one that is off by at most half a
step. -/
theorem near_of_half {x h : ℚ} (hh : 0 < h) (hhalf : |k - x| ≤ 1 / 2)
    (hodd : |k - x| = 1 / 2 → k % 2 = 0) (j : Nat) :
    |k * h - x * h| ≤ |j * h - x * h| ∧
      (j ≠ k → |j * h - x * h| = |k * h - x * h| → k % 2 = 0) := by
  rw [← sub_mul, ← sub_mul, abs_mul, abs_mul, mul_le_mul_iff_left₀ (abs_pos.2 hh.ne'),
    mul_left_inj' (abs_pos.2 hh.ne').ne']
  by_cases hj : j = k
  · rw [hj]
    exact ⟨le_refl _, fun hne => absurd rfl hne⟩
  · have hone : (1 : ℚ) ≤ |(j : ℚ) - k| := by
      have hint : (1 : ℤ) ≤ |(j : ℤ) - k| := Int.one_le_abs (by omega)
      exact_mod_cast hint
    have htriangle := abs_sub_le (j : ℚ) x k
    rw [abs_sub_comm x] at htriangle
    exact ⟨by linarith, fun _ heq => hodd (by linarith)⟩

/-! ## The nearest pattern -/

theorem mod_two_line (s k : Nat) : (s * pow2 52 + k) % 2 = k % 2 := by
  rw [pow2_succ, Nat.mul_left_comm, Nat.mul_add_mod]

/-- What is the nearest number of a line is the nearest of all, if it is sought between the ends of
the line. -/
theorem nearest_of_line (hk : OnLine s k) (hlow : s = 0 ∨ pow2 52 * step s ≤ q)
    (hhigh : q < (2 * pow2 52 : Nat) * step s)
    (hnear : ∀ j : Nat, |k * step s - q| ≤ |j * step s - q| ∧
      (j ≠ k → |j * step s - q| = |k * step s - q| → k % 2 = 0)) :
    (∀ m, |place (s * pow2 52 + k) - q| ≤ |place m - q|) ∧
      ∀ m, m ≠ s * pow2 52 + k → |place m - q| = |place (s * pow2 52 + k) - q| →
        (s * pow2 52 + k) % 2 = 0 := by
  rw [place_line hk, mod_two_line, ← forall_and]
  intro m
  have hend : OnLine s (2 * pow2 52) := ⟨.inl (by have := pow2_pos 52; omega), Nat.le_refl _⟩
  rcases Nat.lt_or_ge (s * pow2 52 + 2 * pow2 52) m with habove | hle
  · have hplace := place_lt_place_iff.2 habove
    rw [place_line hend] at hplace
    have hlt : |k * step s - q| < |place m - q| := by
      have := (hnear (2 * pow2 52)).1
      grind [abs_le]
    exact ⟨hlt.le, fun _ heq => absurd heq hlt.ne'⟩
  · by_cases hline : s = 0 ∨ s * pow2 52 + pow2 52 ≤ m
    · obtain ⟨j, rfl⟩ : ∃ j, m = s * pow2 52 + j :=
        Nat.exists_eq_add_of_le (hline.elim (fun h => by simp [h]) fun h => by omega)
      have hj : OnLine s j := ⟨hline.symm.imp (by omega) id, by omega⟩
      rw [place_line hj]
      exact ⟨(hnear j).1, fun hne heq => (hnear j).2 (by rintro rfl; exact hne rfl) heq⟩
    · have hstart : OnLine s (pow2 52) := ⟨.inl (Nat.le_refl _), by omega⟩
      have hplace := place_lt_place_iff.2 (show m < s * pow2 52 + pow2 52 by omega)
      rw [place_line hstart] at hplace
      have hlow := hlow.resolve_left fun h => hline (.inl h)
      have hlt : |k * step s - q| < |place m - q| := by
        have := (hnear (pow2 52)).1
        grind [abs_le]
      exact ⟨hlt.le, fun _ heq => absurd heq hlt.ne'⟩

/-- Quotients are rounded correctly. -/
theorem isNearest_patternNearest (num : Nat) {den : Nat} (hden : 0 < den) :
    IsNearest (num / den / pow2 1074) (patternNearest num den) := by
  obtain ⟨s, hs, hhigh, hlow⟩ := exists_shift num hden
  have hstep : 0 < den * pow2 s := Nat.mul_pos hden (pow2_pos s)
  have hq : (num : ℚ) / den / pow2 1074 = num / (den * pow2 s : Nat) * step s := by
    rw [step, Nat.cast_mul, div_mul_div_comm, mul_right_comm,
      mul_div_mul_right _ _ (pow2_cast_ne_zero s), div_div]
  obtain ⟨hhalf, heven⟩ := nearestEven_half num hstep
  have hscale (n : Nat) : (n : ℚ) ≤ num / (den * pow2 s : Nat) ↔ n * pow2 s * den ≤ num := by
    rw [le_div_iff₀ (Nat.cast_pos.2 hstep), ← Nat.cast_mul, Nat.cast_le, Nat.mul_comm den,
      Nat.mul_assoc]
  rw [hs, hq]
  obtain ⟨hnear, htie⟩ := nearest_of_line (onLine_nearestEven hden hhigh hlow)
    (hlow.imp_right fun h => mul_le_mul_of_nonneg_right ((hscale _).2 h) (step_pos s).le)
    (mul_lt_mul_of_pos_right (not_le.1 fun h => Nat.not_le.2 hhigh ((hscale _).1 h)) (step_pos s))
    (near_of_half (step_pos s) hhalf heven)
  exact isNearest_min hnear htie

/-! ## Decimals -/

theorem ofUnits_rounds (negative : Bool) (num : Nat) {den : Nat} (hden : 0 < den) :
    Rounds negative (num / den / pow2 1074) (ofUnits negative num den) :=
  ⟨rfl, isNearest_patternNearest num hden⟩

/-- What is rounded to infinity is not rounded to a finite number. -/
theorem Rounds.isNearest_infinity_iff {negative : Bool} {x : Binary64} (h : Rounds negative q x) :
    IsNearest q infinity ↔ ¬ x.isFinite = true := by
  unfold isFinite
  rw [decide_eq_true_iff, Nat.not_lt]
  constructor
  · intro hinfinity
    exact Nat.le_of_eq (hinfinity.unique h.nearest)
  · intro hle
    rw [Nat.le_antisymm hle h.nearest.le_infinity]
    exact h.nearest

end Binary64

namespace Decimal

open Binary64

variable {d : Decimal}

theorem value_eq (d : Decimal) :
    d.value = d.coefficient * pow10 d.exponent.toNat / pow10 (-d.exponent).toNat := by
  have hcast (n : Nat) : (pow10 n : ℚ) = 10 ^ n := Nat.cast_pow 10 n
  have hexp : d.exponent = (d.exponent.toNat : ℤ) - ((-d.exponent).toNat : ℤ) := by omega
  unfold value
  rw [hcast, hcast, mul_div_assoc, ← zpow_natCast, ← zpow_natCast, ← zpow_sub₀ (by norm_num),
    ← hexp]

theorem value_nonneg (d : Decimal) : 0 ≤ d.value :=
  mul_nonneg (Nat.cast_nonneg _) (zpow_nonneg (by norm_num) _)

theorem value_natural (n : Nat) : value ⟨n, 0⟩ = n := by
  unfold value
  rw [zpow_zero, mul_one]

/-- A decimal whose first digit stands far before the point is infinite. -/
theorem isNearest_value_of_lt (hd : d.coefficient ≠ 0) (hexp : 400 < d.exponent) :
    IsNearest d.value infinity := by
  have hpow : pow2 1024 ≤ d.coefficient * pow10 d.exponent.toNat :=
    calc pow2 1024 ≤ pow2 (3 * d.exponent.toNat) := pow2_le_pow2_iff.2 (by omega)
      _ ≤ pow10 d.exponent.toNat := pow2_mul_three_le_pow10 _
      _ ≤ d.coefficient * pow10 d.exponent.toNat :=
        Nat.le_mul_of_pos_left _ (Nat.pos_of_ne_zero hd)
  have hvalue : d.value = (d.coefficient * pow10 d.exponent.toNat : Nat) := by
    rw [value_eq, show (-d.exponent).toNat = 0 by omega, show pow10 0 = 1 from rfl, Nat.cast_one,
      div_one, Nat.cast_mul]
  rw [isNearest_infinity_iff, hvalue]
  have hle : (pow2 1024 : ℚ) ≤ (d.coefficient * pow10 d.exponent.toNat : Nat) :=
    Nat.cast_le.2 hpow
  have := pow2_cast_pos 970
  linarith

/-- A decimal whose first digit stands far after the point is zero. -/
theorem isNearest_value_of_log2_lt (hexp : d.exponent + d.coefficient.log2 < -400) :
    IsNearest d.value 0 := by
  have hpow : 2 * d.coefficient * pow2 1074 < pow10 (-d.exponent).toNat :=
    calc 2 * d.coefficient * pow2 1074
        < 2 * pow2 (d.coefficient.log2 + 1) * pow2 1074 :=
          Nat.mul_lt_mul_of_pos_right
            (Nat.mul_lt_mul_of_pos_left Nat.lt_log2_self (by decide)) (pow2_pos _)
      _ = pow2 (d.coefficient.log2 + 1 + 1 + 1074) := by
        rw [pow2_add (d.coefficient.log2 + 1 + 1) 1074, pow2_succ (d.coefficient.log2 + 1)]
      _ ≤ pow2 (3 * (-d.exponent).toNat) := pow2_le_pow2_iff.2 (by omega)
      _ ≤ pow10 (-d.exponent).toNat := pow2_mul_three_le_pow10 _
  have hten : (0 : ℚ) < pow10 (-d.exponent).toNat := Nat.cast_pos.2 (pow10_pos _)
  apply isNearest_zero d.value_nonneg
  rw [value_eq, show d.exponent.toNat = 0 by omega, show pow10 0 = 1 from rfl, Nat.cast_one,
    mul_one, place, show unitsOf 1 = 1 by decide, Nat.cast_one, mul_div_assoc',
    div_lt_div_iff₀ hten (pow2_cast_pos 1074), one_mul]
  exact_mod_cast hpow

end Decimal

namespace Binary64

/-- Decimals are rounded correctly. -/
theorem rounds_ofDecimal (negative : Bool) (d : Decimal) :
    Rounds negative d.value (ofDecimal negative d) := by
  unfold ofDecimal
  split
  · rename_i hzero
    refine ⟨rfl, ?_⟩
    have hvalue : d.value = 0 := by rw [Decimal.value, hzero, Nat.cast_zero, zero_mul]
    rw [hvalue]
    apply isNearest_zero (le_refl _)
    rw [mul_zero, ← place_zero]
    exact place_lt_place_iff.2 Nat.one_pos
  · rename_i hd
    split
    · rename_i hhigh
      exact ⟨rfl, Decimal.isNearest_value_of_lt hd hhigh⟩
    · split
      · rename_i hlow
        exact ⟨rfl, Decimal.isNearest_value_of_log2_lt hlow⟩
      · have hvalue : d.value = (d.coefficient * pow10 d.exponent.toNat * pow2 1074 : Nat) /
            pow10 (-d.exponent).toNat / pow2 1074 := by
          rw [Decimal.value_eq, Nat.cast_mul, Nat.cast_mul, div_right_comm,
            mul_div_cancel_right₀ _ (pow2_cast_ne_zero 1074)]
        rw [hvalue]
        exact ofUnits_rounds negative _ (pow10_pos _)

/-- Natural numbers are rounded correctly. -/
theorem rounds_ofNat (n : Nat) : Rounds false n (ofNat n) := by
  rw [← Decimal.value_natural n]
  exact rounds_ofDecimal false ⟨n, 0⟩

end Binary64

end FoodTable
