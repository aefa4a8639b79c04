import FoodTable.Binary64.Rounding
import Mathlib.Order.Monotone.Basic

/-!
# Rounding to the nearest magnitude

Patterns lie on lines: on the line of `s` the pattern `s * 2 ^ 52 + k` stands for `k * 2 ^ s` units
(`unitsOf_line`), and neighbouring lines share an end. So magnitudes grow with their patterns, and
the gap before a magnitude is at least `2 ^ -53` of it. Whatever lies between the midpoints of a
finite magnitude with its two neighbours is rounded to it, and so is whatever is off by less than
`2 ^ -54` of it.
-/

namespace FoodTable

/-! ## Nearest whole numbers -/

theorem nearestEven_eq {num den k : Nat} (hbelow : 2 * (k * den) < 2 * num + den)
    (habove : 2 * num < 2 * (k * den) + den) : nearestEven num den = k := by
  have hsplit : num / den * den + num % den = num := Nat.div_add_mod' num den
  have hmod : num % den < den := Nat.mod_lt _ (by omega)
  unfold nearestEven
  dsimp only
  -- the quotient is `k` or the number before it, and only then is more than half a step left over
  rcases Nat.lt_trichotomy (num / den) k with hlt | heq | hgt
  · have hk : num / den + 1 = k := by
      by_contra hne
      have hle : (num / den + 2) * den ≤ k * den := Nat.mul_le_mul_right _ (by omega)
      rw [Nat.add_mul] at hle
      omega
    subst hk
    rw [Nat.add_mul] at hbelow
    rw [if_pos (.inl (by omega))]
  · subst heq
    rw [if_neg (by omega)]
  · have hle : (k + 1) * den ≤ num / den * den := Nat.mul_le_mul_right _ hgt
    rw [Nat.add_mul] at hle
    omega

namespace Binary64

/-! ## Lines of patterns -/

/-- The pattern of the number `k` on the line of `s`: between `2 ^ 52` and `2 ^ 53`, or smaller on
the first line. -/
structure OnLine (s k : Nat) : Prop where
  low : pow2 52 ≤ k ∨ s = 0
  high : k ≤ 2 * pow2 52

theorem unitsOf_line {s k : Nat} (h : OnLine s k) : unitsOf (s * pow2 52 + k) = k * pow2 s := by
  have hpos := pow2_pos 52
  unfold unitsOf
  rcases Nat.lt_or_ge k (pow2 52) with hk | hk
  · obtain rfl : s = 0 := h.low.resolve_left (Nat.not_le.2 hk)
    rw [Nat.zero_mul, Nat.zero_add, if_pos hk]
    exact (Nat.mul_one k).symm
  · rw [if_neg (by omega)]
    obtain ⟨f, rfl⟩ := Nat.exists_eq_add_of_le hk
    have hsum : s * pow2 52 + (pow2 52 + f) = f + (s + 1) * pow2 52 := by
      rw [Nat.add_mul]
      omega
    rw [hsum, Nat.add_mul_mod_self_right, Nat.add_mul_div_right _ _ hpos]
    rcases Nat.lt_or_ge f (pow2 52) with hf | hf
    · rw [Nat.mod_eq_of_lt hf, Nat.div_eq_of_lt hf, Nat.zero_add, Nat.add_sub_cancel]
    · -- the upper end is the lower end of the next line
      obtain rfl : f = pow2 52 := Nat.le_antisymm (by have := h.high; omega) hf
      rw [Nat.mod_self, Nat.div_self hpos, Nat.add_zero, ← Nat.add_assoc, Nat.add_sub_cancel,
        Nat.add_comm 1, pow2_succ s, ← Nat.two_mul, Nat.mul_left_comm, Nat.mul_assoc]

/-- Every pattern lies on a line, below its upper end. -/
theorem exists_line (m : Nat) : ∃ s k, m = s * pow2 52 + k ∧ OnLine s k ∧ k < 2 * pow2 52 := by
  have hpos := pow2_pos 52
  have hsplit : m / pow2 52 * pow2 52 + m % pow2 52 = m := Nat.div_add_mod' m (pow2 52)
  have hmod : m % pow2 52 < pow2 52 := Nat.mod_lt _ hpos
  cases hs : m / pow2 52 with
  | zero =>
    rw [hs] at hsplit
    exact ⟨0, m, by omega, ⟨.inr rfl, by omega⟩, by omega⟩
  | succ s =>
    rw [hs, Nat.add_mul] at hsplit
    exact ⟨s, pow2 52 + m % pow2 52, by omega, ⟨.inl (by omega), by omega⟩, by omega⟩

/-- The gap between neighbours, which is at least `2 ^ -53` of the greater one. -/
theorem exists_gap (m : Nat) :
    ∃ gap, unitsOf (m + 1) = unitsOf m + gap ∧ unitsOf (m + 1) ≤ pow2 53 * gap ∧ 0 < gap := by
  obtain ⟨s, k, rfl, hk, hlt⟩ := exists_line m
  have hk' : OnLine s (k + 1) := ⟨hk.low.imp_left (by omega), hlt⟩
  refine ⟨pow2 s, ?_, ?_, pow2_pos s⟩
  · rw [Nat.add_assoc, unitsOf_line hk, unitsOf_line hk', Nat.add_one_mul]
  · rw [Nat.add_assoc, unitsOf_line hk', pow2_succ]
    exact Nat.mul_le_mul_right _ hlt

theorem strictMono_unitsOf : StrictMono unitsOf := by
  refine strictMono_nat_of_lt_succ fun m => ?_
  obtain ⟨gap, hgap, -, hpos⟩ := exists_gap m
  omega

/-! ## The nearest pattern -/

/-- The line on which a number is rounded. -/
theorem exists_shift (num : Nat) {den : Nat} (hden : 0 < den) :
    ∃ s, patternNearest num den = min (s * pow2 52 + nearestEven num (den * pow2 s)) infinity ∧
      num < 2 * pow2 52 * pow2 s * den ∧ (s = 0 ∨ pow2 52 * pow2 s * den ≤ num) := by
  refine ⟨(num / den).log2 - 52, rfl, ?_, ?_⟩
  · rw [← Nat.div_lt_iff_lt_mul hden, ← pow2_succ, ← pow2_add]
    exact Nat.lt_of_lt_of_le Nat.lt_log2_self (pow2_le_pow2_iff.2 (by omega))
  · rw [← Nat.le_div_iff_mul_le hden, ← pow2_add]
    rcases Nat.lt_or_ge 52 (num / den).log2 with hlog | hlog
    · refine .inr ?_
      rw [Nat.add_sub_cancel' (Nat.le_of_lt hlog)]
      refine Nat.log2_self_le fun hzero => ?_
      rw [hzero] at hlog
      exact absurd hlog (by decide)
    · exact .inl (Nat.sub_eq_zero_of_le hlog)

section Between

variable {num den m s k : Nat}

/-- A number between the midpoints of a magnitude with its neighbours is rounded on one of the lines
that have the magnitude. -/
theorem onLine_of_between (hbelow : (unitsOf m + unitsOf (m + 1)) * den < 2 * num)
    (habove : 2 * num < (unitsOf (m + 1) + unitsOf (m + 2)) * den)
    (hhigh : num < 2 * pow2 52 * pow2 s * den) (hlow : s = 0 ∨ pow2 52 * pow2 s * den ≤ num) :
    ∃ k, m + 1 = s * pow2 52 + k ∧ OnLine s k := by
  have hmono : unitsOf m < unitsOf (m + 1) := strictMono_unitsOf (Nat.lt_succ_self m)
  have hmono' : unitsOf (m + 1) < unitsOf (m + 2) := strictMono_unitsOf (Nat.lt_succ_self _)
  have htop : m < s * pow2 52 + 2 * pow2 52 := by
    rw [← strictMono_unitsOf.lt_iff_lt, unitsOf_line ⟨.inl (by omega), Nat.le_refl _⟩]
    refine Nat.lt_of_mul_lt_mul_right (a := den) ?_
    have hle : (unitsOf m + unitsOf m) * den ≤ (unitsOf m + unitsOf (m + 1)) * den :=
      Nat.mul_le_mul_right _ (by omega)
    rw [Nat.add_mul (unitsOf m) (unitsOf m)] at hle
    omega
  rcases hlow with rfl | hlow
  · exact ⟨m + 1, by omega, .inr rfl, by omega⟩
  · have hbottom : s * pow2 52 + pow2 52 < m + 2 := by
      rw [← strictMono_unitsOf.lt_iff_lt, unitsOf_line ⟨.inl (Nat.le_refl _), by omega⟩]
      refine Nat.lt_of_mul_lt_mul_right (a := den) ?_
      have hle : (unitsOf (m + 1) + unitsOf (m + 2)) * den ≤
          (unitsOf (m + 2) + unitsOf (m + 2)) * den := Nat.mul_le_mul_right _ (by omega)
      rw [Nat.add_mul (unitsOf (m + 2)) (unitsOf (m + 2))] at hle
      omega
    exact ⟨m + 1 - s * pow2 52, by omega, .inl (by omega), by omega⟩

variable (hm : m + 1 = s * pow2 52 + k) (hk : OnLine s k)

include hm hk

theorem unitsOf_mul_of_line (den : Nat) : unitsOf (m + 1) * den = k * (den * pow2 s) := by
  rw [hm, unitsOf_line hk, Nat.mul_assoc, Nat.mul_comm den]

/-- The midpoint before a magnitude is half a step away, unless a line begins there. But no number
before the beginning of a line is rounded on the line. -/
theorem step_below_lt (hden : 0 < den) (hbelow : (unitsOf m + unitsOf (m + 1)) * den < 2 * num)
    (hlow : s = 0 ∨ pow2 52 * pow2 s * den ≤ num) :
    2 * (k * (den * pow2 s)) < 2 * num + den * pow2 s := by
  rw [Nat.add_mul, unitsOf_mul_of_line hm hk] at hbelow
  rcases Nat.eq_zero_or_pos k with rfl | hpos
  · omega
  · by_cases hbegin : pow2 52 ≤ k - 1 ∨ s = 0
    · have hprev : unitsOf m * den + den * pow2 s = k * (den * pow2 s) := by
        rw [show m = s * pow2 52 + (k - 1) by omega,
          unitsOf_line ⟨hbegin, by have := hk.high; omega⟩, Nat.mul_assoc, Nat.mul_comm (pow2 s),
          ← Nat.add_one_mul, Nat.sub_add_cancel hpos]
      omega
    · have hend : k = pow2 52 := by have := hk.low; omega
      have hnum : k * (den * pow2 s) ≤ num := by
        rw [hend, Nat.mul_comm den, ← Nat.mul_assoc]
        exact hlow.resolve_left fun h => hbegin (.inr h)
      have hstep : 0 < den * pow2 s := Nat.mul_pos hden (pow2_pos s)
      omega

/-- The midpoint after a magnitude is half a step away, unless a line ends there. But no number
after the end of a line is rounded on the line. -/
theorem lt_step_above (habove : 2 * num < (unitsOf (m + 1) + unitsOf (m + 2)) * den)
    (hhigh : num < 2 * pow2 52 * pow2 s * den) :
    2 * num < 2 * (k * (den * pow2 s)) + den * pow2 s := by
  rw [Nat.add_mul, unitsOf_mul_of_line hm hk] at habove
  rcases Nat.lt_or_ge k (2 * pow2 52) with hlt | hge
  · have hnext : unitsOf (m + 2) * den = k * (den * pow2 s) + den * pow2 s := by
      rw [show m + 2 = s * pow2 52 + (k + 1) by omega,
        unitsOf_line ⟨hk.low.imp_left (by omega), hlt⟩, Nat.mul_assoc, Nat.mul_comm (pow2 s),
        Nat.add_one_mul]
    omega
  · have hnum : num < k * (den * pow2 s) := by
      refine Nat.lt_of_lt_of_le hhigh ?_
      rw [Nat.mul_assoc, Nat.mul_comm (pow2 s)]
      exact Nat.mul_le_mul_right _ hge
    omega

end Between

/-- What lies between the midpoints of a finite magnitude with its neighbours is rounded to it. -/
theorem patternNearest_eq {num den m : Nat} (hfinite : m + 1 < infinity)
    (hbelow : (unitsOf m + unitsOf (m + 1)) * den < 2 * num)
    (habove : 2 * num < (unitsOf (m + 1) + unitsOf (m + 2)) * den) :
    patternNearest num den = m + 1 := by
  have hden : 0 < den := Nat.pos_of_ne_zero fun h => by simp [h] at habove
  obtain ⟨s, hs, hhigh, hlow⟩ := exists_shift num hden
  obtain ⟨k, hm, hk⟩ := onLine_of_between hbelow habove hhigh hlow
  rw [hs, nearestEven_eq (step_below_lt hm hk hden hbelow hlow)
    (lt_step_above hm hk habove hhigh), ← hm, Nat.min_eq_left (Nat.le_of_lt hfinite)]

/-- What is off from a finite magnitude by less than `2 ^ -54` of it is rounded to it. -/
theorem patternNearest_of_near {num den m : Nat} (hm : 0 < m) (hfinite : m < infinity)
    (hbelow : pow2 54 * (unitsOf m * den - num) < unitsOf m * den)
    (habove : pow2 54 * (num - unitsOf m * den) < unitsOf m * den) :
    patternNearest num den = m := by
  obtain ⟨m, rfl⟩ := Nat.exists_eq_add_one.2 hm
  -- the error is less than half of either gap
  have hgap {gap error : Nat} (hle : unitsOf (m + 1) ≤ pow2 53 * gap)
      (herror : pow2 54 * error < unitsOf (m + 1) * den) : 2 * error < gap * den := by
    refine Nat.lt_of_mul_lt_mul_left (a := pow2 53) ?_
    rw [← Nat.mul_assoc, Nat.mul_comm (pow2 53) 2, ← pow2_succ, ← Nat.mul_assoc]
    exact Nat.lt_of_lt_of_le herror (Nat.mul_le_mul_right _ hle)
  obtain ⟨gap, hprev, hle, -⟩ := exists_gap m
  obtain ⟨gap', hnext, hle', -⟩ := exists_gap (m + 1)
  have hbelow' := hgap hle hbelow
  have habove' := hgap (Nat.le_trans (by omega) hle') habove
  apply patternNearest_eq hfinite
  · rw [hprev, Nat.add_mul] at hbelow'
    rw [hprev, Nat.add_mul, Nat.add_mul]
    omega
  · rw [hnext, Nat.add_mul, Nat.add_mul]
    omega

end Binary64

end FoodTable
