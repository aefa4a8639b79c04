import FoodTable.Proofs.Query.Conditions

/-!
# Printed conditions

A condition is printed with its threshold and not with the digits that the client wrote. The text is
read back as the condition if the threshold is finite, whether or not the digits denote it exactly.
From `2 ^ 1024 - 2 ^ 970` on an integer is accepted with an infinite threshold. This is printed as
`inf`, where only digits may stand, so the text is refused (`Grammar.condition_text_eq_ok_iff`).
-/

namespace FoodTable

open Binary64 Text

/-! ## Thresholds -/

namespace Binary64

variable {n : Nat}

/-- The first integer that is rounded to infinity lies halfway between the last finite number and
`2 ^ 1024`. -/
theorem isFinite_ofNat_iff : (ofNat n).isFinite = true ↔ n + pow2 970 < pow2 1024 := by
  rw [← not_iff_not, ← (rounds_ofNat n).isNearest_infinity_iff, isNearest_infinity_iff, Nat.not_lt,
    sub_le_iff_le_add, ← Nat.cast_add, Nat.cast_le]

theorem isWhole_ofNat (h : (ofNat n).isFinite = true) : (ofNat n).IsWhole := by
  refine (isWhole_ofNat_or_infinite n).resolve_right fun hinfinite => ?_
  rw [hinfinite] at h
  exact absurd h (by decide)

theorem ofNat_eq_infinite (h : ¬ (ofNat n).isFinite = true) :
    ofNat n = ⟨false, infinity, infinity_lt⟩ :=
  (isWhole_ofNat_or_infinite n).resolve_left fun hwhole => h hwhole.finite

theorem text_infinite : text .plain ⟨false, infinity, infinity_lt⟩ = "inf".toList := rfl

end Binary64

namespace Grammar

variable {v : Vocabulary} {records : List TagRecord} {token name : String} {rest : List Char}
  {c : Condition}

/-! ## Infinite thresholds -/

/-- Nothing but digits may follow the character that compares. -/
theorem condition_of_not_digits (o : Comparison) (hname : IsName name.toList)
    (hblank : ∀ d ∈ rest, isBlank d = false) (hrest : digits? rest = none) :
    condition v (name ++ String.ofList (o.toChar :: rest)) =
      .error (.invalidCondition (name ++ String.ofList (o.toChar :: rest))) := by
  have hmark : isBlank o.toChar = false := by cases o <;> decide
  have htext : TrimsTo (name.toList ++ o.toChar :: rest) (name.toList ++ o.toChar :: rest) := by
    refine trimsTo_self (List.forall_mem_append.2 ⟨fun d hd => ?_, ?_⟩)
    · exact (hname.isPlain.plain d hd).isBlank_eq_false
    · exact List.forall_mem_cons.2 ⟨hmark, hblank⟩
  rw [← toList_comparison] at htext
  refine condition_of_not_spells htext fun name' o' number hspells => ?_
  -- the text can be cut at the character alone, and then `rest` would have to be digits
  obtain ⟨hsplit, -, n, hn⟩ := spellsCondition_iff.1 hspells
  rw [toList_comparison, splitCondition?_append o hname.ofChar?_eq_none] at hsplit
  cases hsplit
  rw [hrest] at hn
  cases hn

/-- A condition with an infinite threshold is printed as a text that is refused. -/
theorem condition_text_infinite (hname : IsName c.tag.name.toList)
    (hthreshold : c.threshold = ⟨false, infinity, infinity_lt⟩) :
    c.text = c.tag.name ++ String.ofList (c.comparison.toChar :: "inf".toList) ∧
      condition v c.text = .error (.invalidCondition c.text) := by
  have htext : c.text = c.tag.name ++ String.ofList (c.comparison.toChar :: "inf".toList) := by
    unfold Condition.text
    rw [hthreshold, text_infinite]
  refine ⟨htext, ?_⟩
  rw [htext]
  exact condition_of_not_digits c.comparison hname (by simp [isBlank]) (by decide)

/-! ## Reading back -/

/-- A condition that was read is read back from its text if and only if the integer that the client
wrote is rounded to a finite number. Otherwise the text ends in `inf` and is refused. -/
theorem condition_text_eq_ok_iff (h : Vocabulary.ofRecords records = .ok v)
    (hc : condition v token = .ok c) : ∃ text name number n, TrimsTo token.toList text ∧
      SpellsCondition text name c.comparison number ∧ IsDecimal number n ∧
      (condition v c.text = .ok c ↔ n + pow2 970 < pow2 1024) ∧
      (pow2 1024 ≤ n + pow2 970 →
        c.text = c.tag.name ++ String.ofList (c.comparison.toChar :: "inf".toList) ∧
        condition v c.text = .error (.invalidCondition c.text)) := by
  have hv := Vocabulary.holds_of_ofRecords h
  obtain ⟨name, number, n, hsplit, hnumber, hname, htag, hthreshold⟩ := condition_eq_ok_iff.1 hc
  have hspells := spellsCondition_iff.2 ⟨hsplit, hname, n, digits?_eq_some_iff.2 hnumber⟩
  obtain ⟨hmem, hsame⟩ := hv.lookup?_eq_some_iff.1 htag
  have htagname : IsName c.tag.name.toList := by
    rw [hsame, String.toList_ofList]
    exact hspells.name
  have hinfinite (hn : ¬ (ofNat n).isFinite = true) :=
    condition_text_infinite (v := v) htagname (hthreshold.trans (ofNat_eq_infinite hn))
  refine ⟨_, name, number, n, trimsTo_trim _, hspells, hnumber, ?_⟩
  rw [← Nat.not_lt, ← isFinite_ofNat_iff]
  refine ⟨⟨fun hok => ?refused, fun hn => ?read⟩, hinfinite⟩
  case refused =>
    by_contra hn
    rw [(hinfinite hn).2] at hok
    cases hok
  case read =>
    exact condition_text hv hmem htagname (hthreshold ▸ isWhole_ofNat hn)

/-- An integer that is no floating-point number, with a zero in front. -/
theorem condition_text_eq_ok_iff_sample : ∃ v c,
    Vocabulary.ofRecords Dataset.sampleRecords = .ok v ∧
    condition v "\u3000WATER>09007199254740993 " = .ok c ∧ c.text = "WATER>9007199254740992" ∧
    condition v c.text = .ok c := by
  obtain ⟨v, hv, hholds⟩ := Vocabulary.exists_ofRecords Dataset.wellFormedTable_sample.tags
  have hname : v.lookup? "WATER" = some ⟨"WATER", 1⟩ :=
    hholds.lookup?_eq_some_iff.2 ⟨by decide, rfl⟩
  have hdecimal : IsDecimal "09007199254740993".toList 9007199254740993 :=
    digits?_eq_some_iff.1 (by decide)
  have hsplit : splitCondition? (trim "\u3000WATER>09007199254740993 ".toList) =
      some ("WATER".toList, .above, "09007199254740993".toList) := by decide
  have hc : condition v "\u3000WATER>09007199254740993 " =
      .ok ⟨⟨"WATER", 1⟩, .above, .ofNat 9007199254740993⟩ :=
    condition_of_split hsplit hdecimal (by decide) hname
  refine ⟨v, _, hv, hc, by decide +kernel, ?_⟩
  obtain ⟨text, name, number, n, htext, hspells, hn, hread, -⟩ := condition_text_eq_ok_iff hv hc
  obtain rfl := trim_of_trimsTo htext
  have hcut := hsplit.symm.trans (spellsCondition_iff.1 hspells).1
  obtain ⟨-, -, rfl⟩ : _ ∧ _ ∧ _ := by simpa only [Option.some.injEq, Prod.mk.injEq] using hcut
  obtain rfl : n = 9007199254740993 := hn.eq_digitsValue.trans (by decide)
  exact hread.2 (by decide +kernel)

/-- Twice the 308th power of ten is accepted, and what is printed for it is refused. -/
theorem infinite_threshold_not_read_back : ∃ v c,
    Vocabulary.ofRecords [⟨"WATER", "g", ""⟩] = .ok v ∧
    condition v ("WATER" ++ String.ofList ('>' :: '2' :: List.replicate 308 '0')) = .ok c ∧
    c.text = "WATER>inf" ∧ condition v "WATER>inf" = .error (.invalidCondition "WATER>inf") := by
  obtain ⟨v, hv, hholds⟩ := @Vocabulary.exists_ofRecords [⟨"WATER", "g", ""⟩] (by decide)
  have hname : IsName "WATER".toList := isConditionName_iff.1 (by decide)
  have htwo : IsDecimal ['2'] 2 := digits?_eq_some_iff.1 (by decide)
  have hinfinite : ofNat (2 * pow10 308) = ⟨false, infinity, infinity_lt⟩ := by decide +kernel
  have hc := condition_comparison (htwo.append_zeros 308) .above hholds (t := ⟨"WATER", 0⟩)
    (by decide) hname
  rw [hinfinite] at hc
  obtain ⟨htext, hrefused⟩ := condition_text_infinite (v := v)
    (c := ⟨⟨"WATER", 0⟩, .above, ⟨false, infinity, infinity_lt⟩⟩) hname rfl
  rw [htext] at hrefused
  exact ⟨v, _, hv, hc, htext, hrefused⟩

end Grammar

end FoodTable
