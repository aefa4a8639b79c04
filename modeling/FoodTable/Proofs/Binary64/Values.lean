import FoodTable.Proofs.Binary64.ExactValue
import FoodTable.Proofs.Binary64.Nearest

/-!
# Values and rounded numbers

Numbers compare as their values on the number line do (`Binary64.less_eq_true_iff`). No value lies
strictly between a number that is not negative and its correct rounding, so a value is on the same
side of both, unless it is the rounding itself (`Rounds.lt_value_iff`, `Rounds.value_lt_iff`).
Natural numbers up to `2 ^ 53` are values and not rounded at all.
-/

namespace FoodTable.Binary64

variable {x y t : Binary64} {q : ℚ} {n : Nat}

/-! ## Values -/

/-- The place of a number on the number line. Infinity has the one after the last finite number. -/
def value (x : Binary64) : ℚ := x.exact / pow2 1074

theorem value_of_nonnegative (h : x.negative = false) : x.value = place x.magnitude := by
  unfold value exact place units
  rw [if_neg (by simp [h]), Int.cast_natCast]

theorem value_nonpos (h : x.negative = true) : x.value ≤ 0 := by
  unfold value exact
  rw [if_pos h, Int.cast_neg, neg_div, neg_nonpos]
  exact div_nonneg (by positivity) (pow2_cast_pos 1074).le

theorem value_lt_value_iff : x.value < y.value ↔ x.index < y.index := by
  unfold value
  rw [div_lt_div_iff_of_pos_right (pow2_cast_pos 1074), Int.cast_lt, index_lt_index_iff]

theorem value_eq_value_iff : x.value = y.value ↔ x.index = y.index := by
  unfold value
  rw [div_left_inj' (pow2_cast_ne_zero 1074), Int.cast_inj, index_eq_index_iff]

/-- The zeros have the value 0, and no other number has it. -/
theorem value_eq_zero_iff : x.value = 0 ↔ x.isZero = true := by
  have hzero : zero.value = 0 := by rw [value_of_nonnegative rfl, zero, place_zero]
  rw [← hzero, value_eq_value_iff]
  unfold index isZero zero
  rw [beq_iff_eq]
  cases x.negative <;> simp

/-- Only the zeros have their value in common. -/
theorem eq_of_value_eq (h : x.value = y.value) (hx : x.value ≠ 0) : x = y := by
  rw [ne_eq, value_eq_zero_iff] at hx
  rw [value_eq_value_iff] at h
  obtain ⟨b, m, hm⟩ := x
  obtain ⟨b', m', hm'⟩ := y
  unfold index at h
  unfold isZero at hx
  rw [mk.injEq]
  cases b <;> cases b' <;> simp_all

theorem less_eq_true_iff (hx : x.isNan = false) (hy : y.isNan = false) :
    x.less y = true ↔ x.value < y.value := by
  unfold less compare?
  rw [hx, hy, value_lt_value_iff, ← compare_lt_iff_lt]
  simp

/-! ## Correct roundings -/

/-- No value is nearer to a number than its correct rounding. -/
theorem Rounds.abs_sub_le (h : Rounds false q t) (hq : 0 ≤ q) (hx : x.isNan = false) :
    |t.value - q| ≤ |x.value - q| := by
  rw [value_of_nonnegative h.sign]
  cases hsign : x.negative with
  | false =>
    rw [value_of_nonnegative hsign]
    exact h.nearest.nearest _ (Nat.not_lt.1 (of_decide_eq_false hx))
  | true =>
    -- zero is nearer than anything below it
    have hzero := h.nearest.nearest 0 (Nat.zero_le _)
    have hneg := value_nonpos hsign
    rw [place_zero, zero_sub, abs_neg, abs_of_nonneg hq] at hzero
    rw [abs_sub_comm x.value, abs_of_nonneg (sub_nonneg.2 (hneg.trans hq))]
    linarith

/-- What is at least as far from `q` as `b` is on the same side of both, or else it is `b`. -/
theorem lt_iff_of_near {a b : ℚ} (h : |b - q| ≤ |a - q|) : a < b ↔ a < q ∧ a ≠ b := by
  constructor
  · intro hlt
    refine ⟨?_, hlt.ne⟩
    by_contra hle
    rw [abs_of_nonneg (by linarith), abs_of_nonneg (by linarith)] at h
    linarith
  · rintro ⟨hlt, hne⟩
    refine lt_of_le_of_ne ?_ hne
    by_contra hgt
    rw [abs_of_neg (by linarith), abs_of_neg (by linarith)] at h
    linarith

theorem Rounds.value_lt_iff (h : Rounds false q t) (hq : 0 ≤ q) (hx : x.isNan = false) :
    x.value < t.value ↔ x.value < q ∧ x.value ≠ t.value :=
  lt_iff_of_near (h.abs_sub_le hq hx)

theorem Rounds.lt_value_iff (h : Rounds false q t) (hq : 0 ≤ q) (hx : x.isNan = false) :
    t.value < x.value ↔ q < x.value ∧ x.value ≠ t.value := by
  have hnear : |-t.value - -q| ≤ |-x.value - -q| := by
    simpa only [neg_sub_neg, abs_sub_comm q] using h.abs_sub_le hq hx
  rw [← neg_lt_neg_iff, lt_iff_of_near hnear, neg_lt_neg_iff, ne_eq, neg_inj]

/-- A value other than zero is that of a rounded number only if it is the rounding itself. -/
theorem Rounds.value_eq_value_iff (h : Rounds false q t) (hx : x.value ≠ 0) :
    x.value = t.value ↔ Rounds false q x :=
  ⟨fun heq => eq_of_value_eq heq hx ▸ h, fun hrounds => by rw [hrounds.unique h]⟩

/-! ## Representable numbers -/

/-- The number is the value of a finite number. -/
def IsRepresentable (q : ℚ) : Prop := ∃ y : Binary64, y.isFinite = true ∧ y.value = q

/-- A representable number is rounded to itself. -/
theorem Rounds.value_eq (h : Rounds false q t) (hq : 0 ≤ q) (hrep : IsRepresentable q) :
    t.value = q := by
  obtain ⟨y, hy, rfl⟩ := hrep
  have hnear := h.abs_sub_le hq (isNan_eq_false_of_isFinite hy)
  rwa [sub_self, abs_zero, abs_nonpos_iff, sub_eq_zero] at hnear

/-- A natural number up to `2 ^ 53`, with zeros behind its bits, is a number of a line whose step is
no greater than 1. -/
theorem exists_onLine (hn : n ≠ 0) (h : n ≤ pow2 53) :
    ∃ s k, s ≤ 1074 ∧ OnLine s k ∧ k * pow2 s = n * pow2 1074 := by
  have hlow : pow2 n.log2 ≤ n := Nat.log2_self_le hn
  have hhigh : n < pow2 (n.log2 + 1) := Nat.lt_log2_self
  refine ⟨1074 - (52 - n.log2), n * pow2 (52 - n.log2), Nat.sub_le _ _, ⟨.inl ?low, ?high⟩, ?units⟩
  case low =>
    calc pow2 52 ≤ pow2 (n.log2 + (52 - n.log2)) := pow2_le_pow2_iff.2 (by omega)
      _ = pow2 n.log2 * pow2 (52 - n.log2) := pow2_add _ _
      _ ≤ n * pow2 (52 - n.log2) := Nat.mul_le_mul_right _ hlow
  case high =>
    rw [← pow2_succ]
    rcases Nat.lt_or_ge 52 n.log2 with hlog | hlog
    · rw [Nat.sub_eq_zero_of_le hlog.le]
      exact (Nat.mul_one n).trans_le h
    · calc n * pow2 (52 - n.log2) ≤ pow2 (n.log2 + 1) * pow2 (52 - n.log2) :=
            Nat.mul_le_mul_right _ hhigh.le
        _ = pow2 (52 + 1) := by rw [← pow2_add, Nat.add_right_comm, Nat.add_sub_cancel' hlog]
  case units =>
    rw [Nat.mul_assoc, ← pow2_add, Nat.add_sub_cancel' (by omega)]

/-- Natural numbers up to `2 ^ 53` are values. -/
theorem isRepresentable_of_le (h : n ≤ pow2 53) : IsRepresentable n := by
  by_cases hn : n = 0
  · refine ⟨zero, rfl, ?_⟩
    rw [value_of_nonnegative rfl, zero, place_zero, hn, Nat.cast_zero]
  · obtain ⟨s, k, hs, hline, hunits⟩ := exists_onLine hn h
    have hfinite : s * pow2 52 + k < infinity := by
      have hpos := pow2_pos 52
      have hk := hline.high
      have hsteps : s * pow2 52 ≤ 1074 * pow2 52 := Nat.mul_le_mul_right _ hs
      unfold infinity
      omega
    refine ⟨⟨false, s * pow2 52 + k, hfinite.trans infinity_lt⟩, decide_eq_true hfinite, ?_⟩
    rw [value_of_nonnegative rfl, place, unitsOf_line hline, hunits, Nat.cast_mul,
      mul_div_cancel_right₀ _ (pow2_cast_ne_zero 1074)]

end FoodTable.Binary64
