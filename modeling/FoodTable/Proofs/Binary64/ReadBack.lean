import FoodTable.Proofs.Binary64.WholeNumbers

/-!
# Decimals that are read back

The shortest decimal of a finite magnitude is read as the magnitude (`ofDecimal_shortest_eq`). What
the search finds has been read already, and what is taken if it finds nothing is exact.
-/

namespace FoodTable

open Text

/-! ## Quotients -/

theorem nearestEven_mul (num den : Nat) {k : Nat} (hk : 0 < k) :
    nearestEven (num * k) (den * k) = nearestEven num den := by
  unfold nearestEven
  dsimp only
  rw [Nat.mul_div_mul_right _ _ hk, Nat.mul_mod_mul_right, ← Nat.mul_assoc]
  simp only [Nat.mul_lt_mul_right hk, Nat.mul_left_inj (Nat.ne_of_gt hk)]

namespace Binary64

theorem patternNearest_mul (num den : Nat) {k : Nat} (hk : 0 < k) :
    patternNearest (num * k) (den * k) = patternNearest num den := by
  unfold patternNearest
  dsimp only
  rw [Nat.mul_div_mul_right _ _ hk, Nat.mul_right_comm, nearestEven_mul _ _ hk]

theorem ofUnits_mul (negative : Bool) (num den : Nat) {k : Nat} (hk : 0 < k) :
    ofUnits negative (num * k) (den * k) = ofUnits negative num den := by
  unfold ofUnits
  rw [mk.injEq]
  exact ⟨rfl, patternNearest_mul num den hk⟩

/-- A finite magnitude is the nearest one to its units. -/
theorem patternNearest_unitsOf {m : Nat} (hm : 0 < m) (hfinite : m < infinity) :
    patternNearest (unitsOf m) 1 = m := by
  have hpos : 0 < unitsOf m := by
    have := strictMono_unitsOf hm
    omega
  refine patternNearest_of_near hm hfinite ?_ ?_
  · rw [Nat.mul_one, Nat.sub_self]
    exact hpos
  · rw [Nat.mul_one, Nat.sub_self]
    exact hpos

/-! ## Signs -/

theorem ofDecimal_negative (negative : Bool) (d : Decimal) :
    ofDecimal negative d = { ofDecimal false d with negative } := by
  unfold ofDecimal
  split_ifs <;> rfl

/-! ## Decimals -/

theorem ofDecimal_of_le (negative : Bool) {d : Decimal} (hd : d.coefficient ≠ 0)
    (hhigh : d.exponent ≤ 400) (hlow : -400 ≤ d.exponent + d.coefficient.log2) :
    ofDecimal negative d = ofUnits negative
      (d.coefficient * pow10 d.exponent.toNat * pow2 1074) (pow10 (-d.exponent).toNat) := by
  unfold ofDecimal
  rw [if_neg hd, if_neg (Int.not_lt.2 hhigh), if_neg (Int.not_lt.2 hlow)]

/-- A zero more after the point does not change what is read. -/
theorem ofDecimal_tenths (negative : Bool) (n : Nat) :
    ofDecimal negative ⟨10 * n, -1⟩ = ofDecimal negative ⟨n, 0⟩ := by
  by_cases hn : n = 0
  · rw [hn]
    unfold ofDecimal
    rw [if_pos rfl, if_pos rfl]
  · have hscale := ofUnits_mul negative (n * pow2 1074) 1 (k := 10) (by decide)
    have hone : pow10 0 = 1 := rfl
    have hten : pow10 1 = 10 := rfl
    rw [ofDecimal_of_le negative (Nat.mul_ne_zero (by decide) hn) (by dsimp only; omega)
        (by dsimp only; omega),
      ofDecimal_of_le negative hn (by dsimp only; omega) (by dsimp only; omega)]
    dsimp only
    rw [show (-1 : Int).toNat = 0 by decide, show (-(-1) : Int).toNat = 1 by decide,
      show (0 : Int).toNat = 0 by decide, show (-0 : Int).toNat = 0 by decide, hone, hten,
      Nat.mul_one, Nat.mul_one, ← hscale, Nat.one_mul, Nat.mul_comm 10, Nat.mul_right_comm]

/-! ## Shortest decimals -/

variable {m n : Nat}

theorem pow10_eq (n : Nat) : pow10 n = Nat.pow 5 n * pow2 n := Nat.mul_pow 5 2 n

theorem le_log2_mul_pow (hm : 0 < m) (n : Nat) : n ≤ (m * Nat.pow 5 n).log2 := by
  have hfive : 0 < Nat.pow 5 n := Nat.pow_pos (by decide)
  rw [Nat.le_log2 (Nat.ne_of_gt (Nat.mul_pos hm hfive))]
  exact Nat.le_trans (Nat.pow_le_pow_left (by decide) n) (Nat.le_mul_of_pos_left _ hm)

/-- All digits of a magnitude, as many after the point as the least positive magnitude has. -/
theorem ofDecimal_exact (h : m < pow2 63) (hm : 0 < m) (hfinite : m < infinity) (hn : n = 1074) :
    ofDecimal false ⟨unitsOf m * Nat.pow 5 n, -n⟩ = ⟨false, m, h⟩ := by
  have hunits : 0 < unitsOf m := by
    have := strictMono_unitsOf hm
    omega
  have hfive : Nat.pow 5 n ≠ 0 := Nat.ne_of_gt (Nat.pow_pos (by decide))
  have hlog := le_log2_mul_pow hunits n
  rw [ofDecimal_of_le false (Nat.mul_ne_zero (Nat.ne_of_gt hunits) hfive) (by dsimp only; omega)
    (by dsimp only; omega)]
  dsimp only
  rw [Int.toNat_neg_natCast, show (- -(n : Int)).toNat = n by omega, show pow10 0 = 1 from rfl,
    Nat.mul_one, ← hn, Nat.mul_assoc, ← pow10_eq, ← Nat.one_mul (pow10 n), ← Nat.mul_assoc,
    Nat.mul_one, ofUnits_mul _ _ _ (pow10_pos n), ofUnits, mk.injEq]
  exact ⟨rfl, patternNearest_unitsOf hm hfinite⟩

/-- The shortest decimal of a finite magnitude is read as the magnitude. -/
theorem ofDecimal_shortest_eq (h : m < pow2 63) (hm : 0 < m) (hfinite : m < infinity) (tie : Tie) :
    ofDecimal false (shortest tie m h) = ⟨false, m, h⟩ := by
  cases hfind : (List.range 17).findSome? (readBack? tie m h) with
  | some d =>
    rw [shortest_of_findSome? hfind]
    obtain ⟨n, -, hn⟩ := List.exists_of_findSome?_eq_some hfind
    unfold readBack? at hn
    have hread := List.find?_some hn
    rwa [beq_iff_eq] at hread
  | none =>
    unfold readBack? at hfind
    unfold shortest
    simp only [hfind, Option.getD_none]
    -- with a name for the exponent, the power of five is not computed
    generalize hn : (1074 : Nat) = n
    rw [show (-1074 : Int) = -n by omega]
    exact ofDecimal_exact h hm hfinite hn.symm

end Binary64

end FoodTable
