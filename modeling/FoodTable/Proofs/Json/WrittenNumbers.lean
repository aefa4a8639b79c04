import FoodTable.Json.Writer
import FoodTable.Proofs.Binary64.ReadBack
import FoodTable.Proofs.Json.Grammar

/-!
# Written numbers

The text of a finite number is a number of JSON that is read as the number itself, its sign
included (`spellsNumber_numberText`, `ofDecimal_written`). A whole number in positional form is
written with a zero after the point, all other decimals are written as they are.
-/

namespace FoodTable

open Text Json

/-! ## Written digits -/

section Digits

variable {n k : Nat} {ds : List Char}

/-- No zero is written in front of other digits. -/
theorem head?_digits (hn : 0 < n) : (digits n).head? ≠ some '0' := by
  fun_induction digits n with
  | case1 n hsmall =>
    have hall : ∀ n < 10, 0 < n → [digitChar n].head? ≠ some '0' := by decide
    exact hall n hsmall hn
  | case2 n hlarge ih =>
    obtain ⟨c, t, hct⟩ := List.exists_cons_of_ne_nil (isDecimal_digits (n / 10)).1
    have hhead := ih (by omega)
    rw [hct] at hhead ⊢
    exact hhead

theorem digits_zero : digits 0 = ['0'] := by
  unfold digits
  rfl

theorem isWhole_digits (n : Nat) : IsWhole (digits n) := by
  obtain ⟨hne, hdigits, -⟩ := isDecimal_digits n
  refine ⟨hne, hdigits, fun hhead => ?_⟩
  rcases Nat.eq_zero_or_pos n with rfl | hn
  · exact digits_zero
  · exact absurd hhead (head?_digits hn)

/-- The first digits of a number stand in front of a point. -/
theorem isWhole_take (hn : 0 < n) (hk : 0 < k) : IsWhole ((digits n).take k) := by
  obtain ⟨hne, hdigits, -⟩ := isDecimal_digits n
  have hhead := head?_digits hn
  obtain ⟨c, t, hct⟩ := List.exists_cons_of_ne_nil hne
  obtain ⟨k, rfl⟩ := Nat.exists_eq_add_one.2 hk
  refine ⟨?_, fun c hc => hdigits c (List.mem_of_mem_take hc), fun h => absurd ?_ hhead⟩
  · rw [hct]
    exact List.cons_ne_nil _ _
  · rw [hct] at h ⊢
    exact h

theorem isDecimal_zeros (h : IsDecimal ds n) (k : Nat) :
    IsDecimal (List.replicate k '0' ++ ds) n := by
  induction k with
  | zero => exact h
  | succ k ih =>
    rw [List.replicate_succ, List.cons_append]
    refine ⟨List.cons_ne_nil _ _, List.forall_mem_cons.2 ⟨by decide, ih.2.1⟩, ?_⟩
    rw [← digitsValue_eq_ofDigits]
    exact ih.eq_digitsValue

end Digits

namespace Decimal

variable {d : Decimal} {negative : Bool}

/-! ## Positional form -/

theorem spellsNumber_whole (hd : 0 ≤ d.exponent) (hzero : d.coefficient ≠ 0 ∨ d.exponent = 0) :
    SpellsNumber (signText negative ++ d.positional true) negative ⟨10 * d.whole, -1⟩ := by
  have hdigits := (isDecimal_digits d.coefficient).append_zeros d.exponent.toNat
  have hwhole : IsWhole (digits d.coefficient ++ List.replicate d.exponent.toNat '0') := by
    obtain ⟨c, t, hct⟩ := List.exists_cons_of_ne_nil (isDecimal_digits d.coefficient).1
    refine ⟨hdigits.1, hdigits.2.1, fun hhead => ?_⟩
    by_cases hc : d.coefficient = 0
    · rw [hzero.resolve_left (not_not_intro hc), hc, digits_zero]
      rfl
    · refine absurd ?_ (head?_digits (Nat.pos_of_ne_zero hc))
      rw [hct] at hhead ⊢
      exact hhead
  have hfraction : SpellsFraction ['.', '0'] ['0'] :=
    .point (by decide) (List.forall_mem_singleton.2 rfl)
  have hspells : SpellsNumber _ negative _ :=
    .mk hwhole hfraction .absent (hdigits.append_one (by decide))
  unfold positional
  rw [if_pos hd]
  exact hspells

/-- The decimal with an exponent that is found to be its own. -/
theorem mk_coefficient {e : Int} (h : e = d.exponent) : ⟨d.coefficient, e⟩ = d := by
  rw [h]

theorem spellsNumber_positional (hd : d.exponent < 0) (hpos : 0 < d.coefficient) :
    SpellsNumber (signText negative ++ d.positional true) negative d := by
  have hdigits := isDecimal_digits d.coefficient
  unfold positional
  rw [if_neg (by omega)]
  dsimp only
  split
  · rename_i hplaces
    -- the point stands among the digits
    generalize hk : (digits d.coefficient).length - (-d.exponent).toNat = k
    have hfraction : SpellsFraction ('.' :: (digits d.coefficient).drop k)
        ((digits d.coefficient).drop k) := by
      refine .point ?_ fun c hc => hdigits.2.1 c (List.mem_of_mem_drop hc)
      rw [ne_eq, List.drop_eq_nil_iff]
      omega
    have hvalue := hdigits
    rw [← List.take_append_drop k (digits d.coefficient)] at hvalue
    have hspells : SpellsNumber _ negative _ :=
      .mk (isWhole_take hpos (by omega)) hfraction .absent hvalue
    rwa [mk_coefficient (by rw [List.length_drop]; omega), List.append_nil] at hspells
  · rename_i hplaces
    -- the point stands before the digits
    have hzeros := isDecimal_zeros hdigits ((-d.exponent).toNat - (digits d.coefficient).length)
    have hwhole : IsWhole ['0'] := ⟨by decide, List.forall_mem_singleton.2 rfl, fun _ => rfl⟩
    have hspells : SpellsNumber _ negative _ :=
      .mk hwhole (.point hzeros.1 hzeros.2.1) .absent (isDecimal_zeros hzeros 1)
    rw [mk_coefficient (by rw [List.length_append, List.length_replicate]; omega),
      List.append_nil] at hspells
    exact hspells

/-! ## Scientific form -/

theorem spellsExponent_sign (e : Int) :
    SpellsExponent ('e' :: (if e < 0 then '-' else '+') :: digits e.natAbs) e := by
  refine .marked (.inl rfl) ⟨digits e.natAbs, e.natAbs, isDecimal_digits _, ?_⟩
  split
  · exact .inr ⟨rfl, by omega⟩
  · exact .inl ⟨.inr rfl, by omega⟩

theorem spellsNumber_scientific (hpos : 0 < d.coefficient) :
    SpellsNumber (signText negative ++ d.scientific) negative d := by
  have hdigits := isDecimal_digits d.coefficient
  have hlength : 0 < (digits d.coefficient).length := List.length_pos_iff.2 hdigits.1
  have hfraction : SpellsFraction
      (if (digits d.coefficient).length = 1 then [] else '.' :: (digits d.coefficient).drop 1)
      ((digits d.coefficient).drop 1) := by
    split
    · rename_i hone
      rw [List.drop_eq_nil_of_le (Nat.le_of_eq hone)]
      exact .absent
    · refine .point ?_ fun c hc => hdigits.2.1 c (List.mem_of_mem_drop hc)
      rw [ne_eq, List.drop_eq_nil_iff]
      omega
  have hvalue := hdigits
  rw [← List.take_append_drop 1 (digits d.coefficient)] at hvalue
  have hspells : SpellsNumber _ negative _ := .mk (isWhole_take hpos Nat.one_pos) hfraction
    (spellsExponent_sign (d.exponent + (digits d.coefficient).length - 1)) hvalue
  rw [mk_coefficient (by rw [List.length_drop]; omega)] at hspells
  unfold scientific
  rw [List.append_assoc]
  exact hspells

/-! ## Texts -/

/-- What the text of a decimal denotes: the same number, in tenths if it is a whole number in
positional form. -/
def written (d : Decimal) : Decimal :=
  if 0 ≤ d.exponent ∧
      (d.coefficient = 0 ∨ layout.positional ((digits d.coefficient).length + d.exponent)) then
    ⟨10 * d.whole, -1⟩
  else d

theorem spellsNumber_text (hzero : d.coefficient ≠ 0 ∨ d.exponent = 0) :
    SpellsNumber (signText negative ++ d.text layout) negative d.written := by
  unfold text
  split
  · rename_i hpositional
    by_cases hexp : 0 ≤ d.exponent
    · rw [written, if_pos ⟨hexp, hpositional⟩]
      exact spellsNumber_whole hexp hzero
    · rw [written, if_neg fun h => hexp h.1]
      have hpos : d.coefficient ≠ 0 := hzero.resolve_right (by omega)
      exact spellsNumber_positional (by omega) (Nat.pos_of_ne_zero hpos)
  · rename_i hscientific
    rw [written, if_neg fun h => hscientific h.2]
    exact spellsNumber_scientific (Nat.pos_of_ne_zero fun hc => hscientific (.inl hc))

/-- What is written is read as the decimal is. -/
theorem ofDecimal_written (negative : Bool) (d : Decimal) :
    Binary64.ofDecimal negative d.written = Binary64.ofDecimal negative d := by
  unfold written
  split
  · rename_i h
    rw [Binary64.ofDecimal_tenths, Binary64.ofDecimal_whole negative h.1,
      Binary64.ofDecimal_whole negative (Int.le_refl 0)]
    unfold whole
    exact congrArg (fun n => Binary64.ofUnits negative (n * pow2 1074) 1) (Nat.mul_one _)
  · rfl

end Decimal

namespace Binary64

variable {x : Binary64}

/-- The decimal that is written for a finite magnitude. -/
def decimal (x : Binary64) : Decimal :=
  if x.isZero then ⟨0, 0⟩ else shortest layout.tie x.magnitude x.magnitude_lt

/-- What the text of a finite number denotes, without its sign. -/
def written (x : Binary64) : Decimal := x.decimal.written

/-- The decimal of a finite number is read as the number. -/
theorem ofDecimal_decimal (hx : x.isFinite = true) : ofDecimal x.negative x.decimal = x := by
  rw [ofDecimal_negative]
  obtain ⟨negative, m, hm⟩ := x
  have hfinite : m < infinity := of_decide_eq_true hx
  unfold decimal
  by_cases hzero : m = 0
  · subst hzero
    rfl
  · have hisZero : isZero ⟨negative, m, hm⟩ = false := beq_eq_false_iff_ne.2 hzero
    rw [hisZero, if_neg Bool.false_ne_true,
      ofDecimal_shortest_eq hm (Nat.pos_of_ne_zero hzero) hfinite layout.tie]

theorem coefficient_decimal (hx : x.isFinite = true) :
    x.decimal.coefficient ≠ 0 ∨ x.decimal.exponent = 0 := by
  by_cases hzero : x.isZero = true
  · refine .inr ?_
    unfold decimal
    rw [if_pos hzero]
  · refine .inl fun hc => hzero ?_
    have hread := ofDecimal_decimal hx
    unfold ofDecimal at hread
    rw [if_pos hc] at hread
    rw [← hread]
    rfl

theorem numberText_eq (hx : x.isFinite = true) :
    numberText x = signText x.negative ++ x.decimal.text layout := by
  have hmagnitude : x.magnitudeText layout = x.decimal.text layout := by
    unfold magnitudeText decimal
    rw [isNan_eq_false_of_isFinite hx, hx, if_neg Bool.false_ne_true, Bool.not_true,
      if_neg Bool.false_ne_true]
    split <;> rfl
  unfold numberText text signText
  rw [if_pos hx, isNan_eq_false_of_isFinite hx, hmagnitude]
  cases x.negative <;> rfl

/-- The text of a finite number is a number of JSON with the same sign. -/
theorem spellsNumber_numberText (hx : x.isFinite = true) :
    SpellsNumber (numberText x) x.negative x.written := by
  rw [numberText_eq hx]
  exact Decimal.spellsNumber_text (coefficient_decimal hx)

/-- A finite number is read back from its text, its sign included. -/
theorem ofDecimal_written (hx : x.isFinite = true) : ofDecimal x.negative x.written = x := by
  unfold written
  rw [Decimal.ofDecimal_written, ofDecimal_decimal hx]

end Binary64

end FoodTable
