import FoodTable.Binary64.Layout
import FoodTable.Proofs.Binary64.Rounding
import FoodTable.Proofs.Text.Numeral

/-!
# Texts of whole numbers

A finite number without sign and fraction is written in digits alone, and the number nearest to
what the digits denote is the number itself (`Binary64.IsWhole.exists_text`). The digits need not
denote it exactly: above `2 ^ 53` the shortest decimal that is read back ends in zeros. The grid of
17 digits always has such a decimal, because a number of more than `2 ^ 53` steps of a grid is off
from its neighbour on the grid by less than `2 ^ -54` of it.
-/

namespace FoodTable

open Text

/-! ## Decimals without a fraction -/

namespace Decimal

variable {d : Decimal}

/-- The natural number that a decimal without a fraction denotes. -/
def whole (d : Decimal) : Nat := d.coefficient * pow10 d.exponent.toNat

theorem exponent_le_normalize (d : Decimal) : d.exponent ≤ d.normalize.exponent := by
  fun_induction normalize d with
  | case1 d h ih =>
    dsimp only at ih
    omega
  | case2 d h => exact Int.le_refl _

/-- Trailing zeros go into the exponent. -/
theorem whole_normalize (hd : 0 ≤ d.exponent) : d.normalize.whole = d.whole := by
  fun_induction normalize d with
  | case1 d h ih =>
    rw [ih (by dsimp only; omega)]
    unfold whole
    dsimp only
    rw [show (d.exponent + 1).toNat = d.exponent.toNat + 1 by omega, pow10_succ, ← Nat.mul_assoc,
      Nat.div_mul_cancel (Nat.dvd_of_mod_eq_zero h.2)]
  | case2 d h => rfl

theorem isDecimal_positional (hd : 0 ≤ d.exponent) : IsDecimal (d.positional false) d.whole := by
  unfold positional
  dsimp only
  rw [if_pos hd, if_neg Bool.false_ne_true, List.append_nil]
  exact (isDecimal_digits _).append_zeros _

end Decimal

namespace Binary64

/-! ## Reading decimals without a fraction -/

theorem div_le_nearestEven (num den : Nat) : num / den ≤ nearestEven num den := by
  unfold nearestEven
  dsimp only
  split
  · exact Nat.le_succ _
  · exact Nat.le_refl _

/-- From `2 ^ 1024` on everything is infinite. -/
theorem patternNearest_eq_infinity {num : Nat} (h : pow2 1024 * pow2 1074 ≤ num) :
    patternNearest num 1 = infinity := by
  obtain ⟨s, hs, hhigh, hlow⟩ := exists_shift num Nat.one_pos
  have hshift : 2046 ≤ s := by
    have hlt : pow2 (1024 + 1074) < pow2 (53 + s) := by
      rw [pow2_add, pow2_add 53 s, show pow2 53 = 2 * pow2 52 from rfl]
      omega
    have := pow2_lt_pow2_iff.1 hlt
    omega
  have hnear : pow2 52 ≤ nearestEven num (1 * pow2 s) := by
    refine Nat.le_trans ?_ (div_le_nearestEven _ _)
    rw [Nat.one_mul, Nat.le_div_iff_mul_le (pow2_pos s)]
    have := hlow.resolve_left (by omega)
    omega
  rw [hs, Nat.min_eq_right]
  calc infinity = 2046 * pow2 52 + pow2 52 := rfl
    _ ≤ s * pow2 52 + nearestEven num (1 * pow2 s) :=
      Nat.add_le_add (Nat.mul_le_mul_right _ hshift) hnear

/-- A decimal without a fraction is read as the natural number that it denotes. -/
theorem ofDecimal_whole (negative : Bool) {d : Decimal} (hd : 0 ≤ d.exponent) :
    ofDecimal negative d = ofUnits negative (d.whole * pow2 1074) 1 := by
  unfold ofDecimal
  split
  · rename_i hzero
    unfold Decimal.whole
    rw [hzero, Nat.zero_mul, Nat.zero_mul]
    rfl
  · rename_i hpos
    split
    · rename_i hlarge
      have hpow : pow2 1024 ≤ d.whole := by
        calc pow2 1024 ≤ pow2 (3 * d.exponent.toNat) := pow2_le_pow2_iff.2 (by omega)
          _ ≤ pow10 d.exponent.toNat := pow2_mul_three_le_pow10 _
          _ ≤ d.whole := Nat.le_mul_of_pos_left _ (Nat.pos_of_ne_zero hpos)
      unfold ofUnits
      rw [mk.injEq]
      exact ⟨rfl, (patternNearest_eq_infinity (Nat.mul_le_mul_right _ hpow)).symm⟩
    · rw [if_neg (by omega), show (-d.exponent).toNat = 0 by omega, show pow10 0 = 1 from rfl,
        Decimal.whole]

theorem ofNat_whole {d : Decimal} (hd : 0 ≤ d.exponent) : ofNat d.whole = ofDecimal false d := by
  unfold ofNat
  rw [ofDecimal_whole false hd, ofDecimal_whole false (Int.le_refl 0)]
  unfold Decimal.whole
  exact congrArg (fun n => ofUnits false (n * pow2 1074) 1) (Nat.mul_one _)

/-! ## Neighbours on a grid -/

variable {m : Nat} {tie : Tie} {e : Int} {d : Decimal}

theorem mem_neighbours_iff {units : Nat} : d ∈ neighbours tie units e ↔
    d = Decimal.normalize ⟨(steps units e).1 / (steps units e).2, e⟩ ∨
      d = Decimal.normalize ⟨(steps units e).1 / (steps units e).2 + 1, e⟩ := by
  unfold neighbours
  dsimp only
  split
  · rw [List.mem_cons, List.mem_singleton, or_comm]
  · rw [List.mem_cons, List.mem_singleton]

/-- A grid has a point that is off by at most half a step, and by nothing if there is one that
hits. -/
theorem exists_point (num : Nat) {den : Nat} (hden : 0 < den) :
    ∃ c, (c = num / den ∨ c = num / den + 1) ∧ 2 * (num - c * den) ≤ den ∧
      2 * (c * den - num) ≤ den ∧ (den ∣ num → c * den = num) := by
  have hsplit : num / den * den + num % den = num := Nat.div_add_mod' num den
  have hmod : num % den < den := Nat.mod_lt _ hden
  by_cases hhalf : 2 * (num % den) ≤ den
  · exact ⟨num / den, .inl rfl, by omega, by omega, Nat.div_mul_cancel⟩
  · refine ⟨num / den + 1, .inr rfl, ?_, ?_, fun hdvd => ?_⟩
    · rw [Nat.add_one_mul (num / den)]
      omega
    · rw [Nat.add_one_mul (num / den)]
      omega
    · rw [Nat.mod_eq_zero_of_dvd hdvd] at hhalf
      omega

theorem steps_natCast (units k : Nat) : steps units k = (units, pow2 1074 * pow10 k) := by
  unfold steps
  rw [Int.toNat_natCast, Int.toNat_neg_natCast]
  exact congrArg (Prod.mk · _) (Nat.mul_one _)

/-- A point of a grid of natural numbers that is off from a finite magnitude by less than `2 ^ -54`
of it is read as the magnitude. -/
theorem ofDecimal_point (h : m < pow2 63) (hfinite : m < infinity) (hpos : 0 < unitsOf m)
    {c k : Nat} (hbelow : pow2 54 * (unitsOf m - c * (pow2 1074 * pow10 k)) < unitsOf m)
    (habove : pow2 54 * (c * (pow2 1074 * pow10 k) - unitsOf m) < unitsOf m) :
    ofDecimal false (Decimal.normalize ⟨c, k⟩) = ⟨false, m, h⟩ := by
  have hexp : (0 : Int) ≤ k := Int.natCast_nonneg k
  have hpoint : Decimal.whole ⟨c, k⟩ * pow2 1074 = c * (pow2 1074 * pow10 k) := by
    unfold Decimal.whole
    rw [Int.toNat_natCast, Nat.mul_assoc, Nat.mul_comm (pow10 k)]
  have hm : 0 < m := Nat.pos_of_ne_zero fun hzero => by
    rw [hzero] at hpos
    exact absurd hpos (by decide)
  rw [ofDecimal_whole false (Int.le_trans hexp (Decimal.exponent_le_normalize ⟨c, k⟩)),
    Decimal.whole_normalize hexp, ofUnits, mk.injEq, hpoint]
  refine ⟨rfl, ?_⟩
  rw [← Nat.mul_one (unitsOf m)] at hbelow habove
  exact patternNearest_of_near hm hfinite hbelow habove

/-- A magnitude on the grid of `10 ^ k`, or of more than `2 ^ 53` of its steps, has a neighbour on
the grid that is read back. -/
theorem exists_neighbour (tie : Tie) (h : m < pow2 63) (hfinite : m < infinity)
    (hpos : 0 < unitsOf m) {k : Nat}
    (hgrid : pow2 1074 * pow10 k ∣ unitsOf m ∨ pow2 53 * (pow2 1074 * pow10 k) < unitsOf m) :
    ∃ d ∈ neighbours tie (unitsOf m) k, ofDecimal false d = ⟨false, m, h⟩ := by
  have hden : 0 < pow2 1074 * pow10 k := Nat.mul_pos (pow2_pos _) (pow10_pos _)
  obtain ⟨c, hc, hbelow, habove, hexact⟩ := exists_point (unitsOf m) hden
  -- the error of the point nearest to the magnitude is small enough, or nothing
  have herror {error : Nat} (hle : 2 * error ≤ pow2 1074 * pow10 k)
      (hzero : pow2 1074 * pow10 k ∣ unitsOf m → error = 0) : pow2 54 * error < unitsOf m := by
    rcases hgrid with hdvd | hsteps
    · rw [hzero hdvd, Nat.mul_zero]
      exact hpos
    · refine Nat.lt_of_le_of_lt ?_ hsteps
      rw [pow2_succ 53, Nat.mul_comm 2, Nat.mul_assoc]
      exact Nat.mul_le_mul_left _ hle
  refine ⟨Decimal.normalize ⟨c, k⟩, ?_, ofDecimal_point h hfinite hpos ?_ ?_⟩
  · rw [mem_neighbours_iff, steps_natCast]
    exact hc.imp (congrArg fun c => Decimal.normalize ⟨c, k⟩)
      (congrArg fun c => Decimal.normalize ⟨c, k⟩)
  · exact herror hbelow fun hdvd => by rw [hexact hdvd, Nat.sub_self]
  · exact herror habove fun hdvd => by rw [hexact hdvd, Nat.sub_self]

/-! ## The shortest decimal of a whole number -/

/-- A search that has an answer at `n` answers at `n` or before. -/
theorem exists_findSome?_range {α : Type} {f : Nat → Option α} {n count : Nat} (hn : n < count)
    (hf : (f n).isSome = true) :
    ∃ i ≤ n, ∃ a, f i = some a ∧ (List.range count).findSome? f = some a := by
  induction count with
  | zero => exact absurd hn (Nat.not_lt_zero n)
  | succ count ih =>
    rw [List.range_succ, List.findSome?_append, List.findSome?_singleton]
    rcases Nat.lt_succ_iff_lt_or_eq.1 hn with hlt | rfl
    · obtain ⟨i, hi, a, ha, hfind⟩ := ih hlt
      exact ⟨i, hi, a, ha, by rw [hfind, Option.some_or]⟩
    · cases hfind : (List.range n).findSome? f with
      | none =>
        obtain ⟨a, ha⟩ := Option.isSome_iff_exists.1 hf
        exact ⟨n, Nat.le_refl n, a, ha, by rw [ha, Option.none_or]⟩
      | some a =>
        obtain ⟨i, hi, ha⟩ := List.exists_of_findSome?_eq_some hfind
        exact ⟨i, Nat.le_of_lt (List.mem_range.1 hi), a, ha, Option.some_or⟩

theorem pointPosition_whole {x : Nat} (hx : 0 < x) :
    pointPosition (pow2 1074 * x) = (digits x).length := by
  unfold pointPosition
  rw [if_pos (Nat.le_mul_of_pos_right _ hx), Nat.mul_div_cancel_left x (pow2_pos 1074)]

/-- Of the grids of at most 17 digits, one without places after the point has a decimal that is
read back as the whole number: the grid of ones, or that of 17 digits. -/
theorem exists_grid {x : Nat} (hx : 0 < x) :
    ∃ n < (17 : Nat), ∃ k : Nat, pointPosition (pow2 1074 * x) - 1 - n = k ∧
      (pow2 1074 * pow10 k ∣ pow2 1074 * x ∨
        pow2 53 * (pow2 1074 * pow10 k) < pow2 1074 * x) := by
  have hlength : 0 < (digits x).length := List.length_pos_iff.2 (isDecimal_digits x).1
  rw [pointPosition_whole hx]
  rcases Nat.lt_or_ge 17 (digits x).length with hlong | hshort
  · refine ⟨16, by decide, (digits x).length - 17, by omega, .inr ?_⟩
    have hlow : pow10 ((digits x).length - 17) * pow10 16 ≤ x := by
      rw [← pow10_add, show (digits x).length - 17 + 16 = (digits x).length - 1 by omega]
      exact pow10_length_digits_le hx
    rw [Nat.mul_left_comm]
    refine Nat.mul_lt_mul_of_pos_left (Nat.lt_of_lt_of_le ?_ hlow) (pow2_pos _)
    rw [Nat.mul_comm]
    exact Nat.mul_lt_mul_of_pos_left (by decide) (pow10_pos _)
  · refine ⟨(digits x).length - 1, by omega, 0, by omega, .inl ?_⟩
    exact Nat.mul_dvd_mul_left _ (Nat.one_dvd x)

/-- A decimal of at most `n + 1` digits that is read back as a magnitude, if there is one. -/
def readBack? (tie : Tie) (m : Nat) (h : m < pow2 63) (n : Nat) : Option Decimal :=
  (neighbours tie (unitsOf m) (pointPosition (unitsOf m) - 1 - n)).find?
    fun d => ofDecimal false d == ⟨false, m, h⟩

theorem shortest_of_findSome? {h : m < pow2 63}
    (hfind : (List.range 17).findSome? (readBack? tie m h) = some d) : shortest tie m h = d := by
  unfold shortest
  unfold readBack? at hfind
  dsimp only
  rw [hfind, Option.getD_some]

/-- The shortest decimal of a whole number has no fraction and is read back as the number. -/
theorem ofDecimal_shortest (h : m < pow2 63) (hfinite : m < infinity) {x : Nat} (hx : 0 < x)
    (hwhole : unitsOf m = pow2 1074 * x) (tie : Tie) :
    0 ≤ (shortest tie m h).exponent ∧ ofDecimal false (shortest tie m h) = ⟨false, m, h⟩ := by
  have hpos : 0 < unitsOf m := by
    rw [hwhole]
    exact Nat.mul_pos (pow2_pos _) hx
  obtain ⟨n, hn, k, hk, hgrid⟩ := exists_grid hx
  rw [← hwhole] at hk hgrid
  obtain ⟨d, hd, hgood⟩ := exists_neighbour tie h hfinite hpos hgrid
  have hfound : (readBack? tie m h n).isSome = true := by
    unfold readBack?
    rw [hk, List.find?_isSome]
    exact ⟨d, hd, by rw [beq_iff_eq, hgood]⟩
  obtain ⟨i, hi, d', hd', hfind⟩ := exists_findSome?_range hn hfound
  rw [shortest_of_findSome? hfind]
  unfold readBack? at hd'
  have hread := List.find?_some hd'
  rw [beq_iff_eq] at hread
  refine ⟨?_, hread⟩
  -- the decimal is of an earlier grid, so it has no places after the point either
  have hexp : pointPosition (unitsOf m) - 1 - i ≤ d'.exponent := by
    rcases mem_neighbours_iff.1 (List.mem_of_find?_eq_some hd') with rfl | rfl
    · exact Decimal.exponent_le_normalize ⟨_, _⟩
    · exact Decimal.exponent_le_normalize ⟨_, _⟩
  omega

/-! ## Texts -/

/-- A finite number without sign and fraction. -/
structure IsWhole (x : Binary64) : Prop where
  nonnegative : x.negative = false
  finite : x.isFinite = true
  whole : pow2 1074 ∣ x.units

theorem IsWhole.text_eq {x : Binary64} (hx : x.IsWhole) : x.text .plain =
    if x.isZero then Decimal.positional false ⟨0, 0⟩
    else (shortest .up x.magnitude x.magnitude_lt).positional false := by
  unfold text magnitudeText Decimal.text Layout.plain
  rw [hx.nonnegative, isNan_eq_false_of_isFinite hx.finite, hx.finite]
  simp only [Bool.false_and, Bool.false_eq_true, if_false, Bool.not_true, or_true, if_true]

/-- The text of a whole number is digits, and the number is the one nearest to what they denote. -/
theorem IsWhole.exists_text {x : Binary64} (hx : x.IsWhole) :
    ∃ n, IsDecimal (x.text .plain) n ∧ ofNat n = x := by
  rw [hx.text_eq]
  obtain ⟨negative, m, hm⟩ := x
  obtain rfl : negative = false := hx.nonnegative
  have hfinite : m < infinity := of_decide_eq_true hx.finite
  split
  · rename_i hzero
    obtain rfl : m = 0 := beq_iff_eq.1 hzero
    exact ⟨_, Decimal.isDecimal_positional (Int.le_refl 0), rfl⟩
  · rename_i hzero
    obtain ⟨n, hn⟩ := hx.whole
    have hpos : 0 < n := by
      refine Nat.pos_of_ne_zero fun h => hzero (beq_iff_eq.2 ?_)
      rw [h, Nat.mul_zero] at hn
      exact strictMono_unitsOf.injective hn
    obtain ⟨hexp, hread⟩ := ofDecimal_shortest hm hfinite hpos hn .up
    exact ⟨_, Decimal.isDecimal_positional hexp, (ofNat_whole hexp).trans hread⟩

/-! ## Rounded natural numbers -/

theorem nearestEven_le (num den : Nat) : nearestEven num den ≤ num / den + 1 := by
  unfold nearestEven
  dsimp only
  split
  · exact Nat.le_refl _
  · exact Nat.le_succ _

theorem nearestEven_mul_right {den : Nat} (hden : 0 < den) (k : Nat) :
    nearestEven (k * den) den = k :=
  nearestEven_eq (by omega) (by omega)

theorem pow2_dvd_pow2 {m n : Nat} (h : m ≤ n) : pow2 m ∣ pow2 n := Nat.pow_dvd_pow 2 h

/-- The number to which a quotient is rounded is on the line on which it is rounded. -/
theorem onLine_nearestEven {num den s : Nat} (hden : 0 < den)
    (hhigh : num < 2 * pow2 52 * pow2 s * den) (hlow : s = 0 ∨ pow2 52 * pow2 s * den ≤ num) :
    OnLine s (nearestEven num (den * pow2 s)) where
  low := by
    rcases hlow with hs | hlow
    · exact .inr hs
    · refine .inl (Nat.le_trans ?_ (div_le_nearestEven _ _))
      rwa [Nat.le_div_iff_mul_le (Nat.mul_pos hden (pow2_pos s)), Nat.mul_comm den,
        ← Nat.mul_assoc]
  high := by
    have hdiv : num / (den * pow2 s) < 2 * pow2 52 := by
      rwa [Nat.div_lt_iff_lt_mul (Nat.mul_pos hden (pow2_pos s)), Nat.mul_comm den,
        ← Nat.mul_assoc]
    have := nearestEven_le num (den * pow2 s)
    omega

/-- The finite magnitude nearest to a natural number is a natural number. A line has only natural
numbers, or so fine a step that the number itself is on it. -/
theorem dvd_unitsOf_patternNearest {num : Nat} (hnum : pow2 1074 ∣ num)
    (hfinite : patternNearest num 1 < infinity) : pow2 1074 ∣ unitsOf (patternNearest num 1) := by
  obtain ⟨s, hs, hhigh, hlow⟩ := exists_shift num Nat.one_pos
  have hline := onLine_nearestEven Nat.one_pos hhigh hlow
  rw [Nat.one_mul] at hs hline
  have hmin := hs ▸ hfinite
  rw [hs, Nat.min_eq_left (by omega), unitsOf_line hline]
  rcases Nat.le_total 1074 s with hcoarse | hfine
  · exact Nat.dvd_mul_left_of_dvd (pow2_dvd_pow2 hcoarse) _
  · obtain ⟨k, rfl⟩ := Nat.dvd_trans (pow2_dvd_pow2 hfine) hnum
    rwa [Nat.mul_comm (pow2 s), nearestEven_mul_right (pow2_pos s), Nat.mul_comm]

/-- The number nearest to a natural number is a whole number without sign, or infinite. -/
theorem isWhole_ofNat_or_infinite (n : Nat) :
    (ofNat n).IsWhole ∨ ofNat n = ⟨false, infinity, infinity_lt⟩ := by
  have hunits : ofNat n = ofUnits false (n * pow2 1074) 1 := by
    rw [ofNat, ofDecimal_whole false (Int.le_refl 0), Decimal.whole]
    exact congrArg (fun n => ofUnits false (n * pow2 1074) 1) (Nat.mul_one n)
  rw [hunits]
  by_cases hfinite : patternNearest (n * pow2 1074) 1 < infinity
  · exact .inl ⟨rfl, decide_eq_true hfinite,
      dvd_unitsOf_patternNearest (Nat.dvd_mul_left _ n) hfinite⟩
  · refine .inr ?_
    unfold ofUnits
    rw [mk.injEq]
    exact ⟨rfl, Nat.le_antisymm (Nat.min_le_right _ _) (Nat.not_lt.1 hfinite)⟩

example : ofNat (pow10 400) = ⟨false, infinity, infinity_lt⟩ := by decide +kernel

end Binary64

end FoodTable
