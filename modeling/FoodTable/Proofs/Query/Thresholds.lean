import FoodTable.Proofs.Binary64.Values
import FoodTable.Proofs.Query.Conditions
import FoodTable.Query.Selection

/-!
# Thresholds as they are written

A condition keeps the number nearest to the integer that the client wrote, but it compares with the
integer itself: whatever satisfies it has an amount that is strictly below or above the integer, and
only one amount for which this is true is turned away, the rounding of an integer that is no
floating-point number (`Condition.satisfiedBy_iff_compares`).
-/

namespace FoodTable

open Binary64 Text

/-- The strict comparison of exact numbers. -/
def Comparison.Compares : Comparison → ℚ → ℚ → Prop
  | below, a, b => a < b
  | above, a, b => b < a

/-- The food has a measurement of the tag with the amount. -/
def Food.HasAmount (f : Food) (t : Tag) (x : Binary64) : Prop :=
  ∃ m ∈ f.measurements, m.tag = t ∧ m.reading.value = some x

/-- An amount that is lost: the integer is no floating-point number, and the amount is its
rounding. -/
def Binary64.IsLost (n : Nat) (x : Binary64) : Prop := ¬ IsRepresentable n ∧ Rounds false n x

variable {o : Comparison} {c : Condition} {f : Food} {x t : Binary64} {q : ℚ} {n : Nat}

/-! ## Comparing -/

theorem Comparison.not_compares_self : ¬ o.Compares q q := by
  cases o <;> exact lt_irrefl q

theorem Comparison.holds_iff_compares (hx : x.isNan = false) (ht : t.isNan = false) :
    o.holds x t = true ↔ o.Compares x.value t.value := by
  cases o with
  | below => exact less_eq_true_iff hx ht
  | above => exact less_eq_true_iff ht hx

theorem Binary64.Rounds.compares_iff (h : Rounds false q t) (hq : 0 ≤ q) (hx : x.isNan = false) :
    o.Compares x.value t.value ↔ o.Compares x.value q ∧ x.value ≠ t.value := by
  cases o with
  | below => exact h.value_lt_iff hq hx
  | above => exact h.lt_value_iff hq hx

theorem Binary64.Rounds.isNan_eq_false (h : Rounds false q t) : t.isNan = false :=
  decide_eq_false (Nat.not_lt.2 h.nearest.le_infinity)

/-- Comparing with a rounded integer is comparing with the integer, but for the amount that is
lost. -/
theorem Comparison.holds_iff_of_rounds (h : Rounds false n t) (hx : x.isFinite = true)
    (hzero : x.value ≠ 0) : o.holds x t = true ↔ o.Compares x.value n ∧ ¬ IsLost n x := by
  have hnonneg : (0 : ℚ) ≤ n := Nat.cast_nonneg n
  have hnan := isNan_eq_false_of_isFinite hx
  rw [holds_iff_compares hnan h.isNan_eq_false, h.compares_iff hnonneg hnan, ne_eq,
    h.value_eq_value_iff hzero]
  refine and_congr_right fun hcompares => not_congr ⟨fun hrounds => ⟨fun hrep => ?_, hrounds⟩,
    And.right⟩
  -- a representable integer is its own rounding
  rw [hrounds.value_eq hnonneg hrep] at hcompares
  exact not_compares_self hcompares

/-- No amount is lost if the integer is exact or is so great that its rounding is infinite. -/
theorem Binary64.not_isLost (hn : n ≤ pow2 53 ∨ IsNearest n infinity) (hx : x.isFinite = true) :
    ¬ IsLost n x := by
  rintro ⟨hrep, hrounds⟩
  rcases hn with hn | hn
  · exact hrep (isRepresentable_of_le hn)
  · rw [isFinite, decide_eq_true_eq, hrounds.nearest.unique hn] at hx
    exact Nat.lt_irrefl _ hx

/-- The first integer for which an amount is lost. -/
theorem Binary64.isLost_succ_pow2 : IsLost (pow2 53 + 1) (ofNat (pow2 53)) := by
  have hsame : ofNat (pow2 53 + 1) = ofNat (pow2 53) := by decide +kernel
  have hrounds := rounds_ofNat (pow2 53 + 1)
  rw [hsame] at hrounds
  refine ⟨fun hrep => ?_, hrounds⟩
  have hexact := (rounds_ofNat (pow2 53)).value_eq (Nat.cast_nonneg _)
    (isRepresentable_of_le (Nat.le_refl _))
  have hvalue := hrounds.value_eq (Nat.cast_nonneg _) hrep
  rw [hexact, Nat.cast_inj] at hvalue
  omega

/-! ## Conditions -/

theorem Condition.satisfiedBy_eq_true_iff (hf : f.Sound) : c.satisfiedBy f = true ↔
    ∃ x, f.HasAmount c.tag x ∧ x.value ≠ 0 ∧ c.comparison.holds x c.threshold = true := by
  unfold satisfiedBy Food.HasAmount
  simp only [← Food.value?_eq_some_iff hf.nodup, ne_eq, value_eq_zero_iff]
  cases f.value? c.tag <;> simp

theorem Food.HasAmount.isFinite {tag : Tag} (h : f.HasAmount tag x) (hf : f.Sound) :
    x.isFinite = true := by
  obtain ⟨m, hm, -, hx⟩ := h
  exact hf.finite m hm x hx

theorem Condition.satisfiedBy_iff_of_rounds (hf : f.Sound) (h : Rounds false n c.threshold) :
    c.satisfiedBy f = true ↔ ∃ x, f.HasAmount c.tag x ∧ x.value ≠ 0 ∧
      c.comparison.Compares x.value n ∧ ¬ IsLost n x := by
  rw [satisfiedBy_eq_true_iff hf]
  refine exists_congr fun x => and_congr_right fun hx => and_congr_right fun hzero => ?_
  exact Comparison.holds_iff_of_rounds h (hx.isFinite hf) hzero

/-- With a threshold up to `2 ^ 53` no amount is lost. -/
theorem Condition.satisfiedBy_ofNat_iff (hf : f.Sound) {tag : Tag} (hn : n ≤ pow2 53) :
    Condition.satisfiedBy ⟨tag, o, .ofNat n⟩ f = true ↔
      ∃ x, f.value? tag = some x ∧ x.value ≠ 0 ∧ o.Compares x.value n := by
  rw [satisfiedBy_iff_of_rounds hf (rounds_ofNat n)]
  refine exists_congr fun x => ?_
  rw [Food.value?_eq_some_iff hf.nodup]
  refine and_congr_right fun hx => and_congr_right fun _ => and_iff_left ?_
  exact not_isLost (.inl hn) (Food.HasAmount.isFinite hx hf)

variable {v : Vocabulary} {d : Dataset} {rows : List Row} {records records' : List TagRecord}
  {token : String}

/-- A food satisfies a condition exactly if it has an amount other than zero that is strictly on the
stated side of the integer that the client wrote, however great, unless the integer is no
floating-point number and the amount is its rounding. There is no such exception up to `2 ^ 53`, and
none if the rounding is infinite. -/
theorem Condition.satisfiedBy_iff_compares (hv : Vocabulary.ofRecords records' = .ok v)
    (hc : Grammar.condition v token = .ok c) (hd : Dataset.ofTable rows records = .ok d)
    (hf : d.Narrowed f) : ∃ text name number n, TrimsTo token.toList text ∧
      Grammar.SpellsCondition text name c.comparison number ∧
      String.ofList name = c.tag.name ∧ IsDecimal number n ∧
      (c.satisfiedBy f = true ↔ ∃ x, f.HasAmount c.tag x ∧ x.value ≠ 0 ∧
        c.comparison.Compares x.value n ∧ ¬ IsLost n x) ∧
      (n ≤ pow2 53 ∨ IsNearest n infinity →
        (c.satisfiedBy f = true ↔ ∃ x, f.HasAmount c.tag x ∧ x.value ≠ 0 ∧
          c.comparison.Compares x.value n)) := by
  have hsound := hf.sound hd
  obtain ⟨name, number, n, hsplit, hnumber, hname, htag, hthreshold⟩ :=
    Grammar.condition_eq_ok_iff.1 hc
  have hspells := Grammar.spellsCondition_iff.2 ⟨hsplit, hname, n, digits?_eq_some_iff.2 hnumber⟩
  have htagname := ((Vocabulary.holds_of_ofRecords hv).lookup?_eq_some_iff.1 htag).2
  have hrounds : Rounds false n c.threshold := hthreshold ▸ rounds_ofNat n
  have hsatisfied := satisfiedBy_iff_of_rounds hsound hrounds
  refine ⟨_, name, number, n, trimsTo_trim _, hspells, htagname.symm, hnumber, hsatisfied,
    fun hn => hsatisfied.trans ?_⟩
  refine exists_congr fun x => and_congr_right fun hx => and_congr_right fun _ => ?_
  exact and_iff_left (not_isLost hn (hx.isFinite hsound))

/-- A narrowed food with an estimate of 20, and the condition that it has more than 19. -/
theorem Condition.satisfiedBy_iff_compares_sample : ∃ v c d f,
    Vocabulary.ofRecords Dataset.sampleRecords = .ok v ∧
    Grammar.condition v "\u3000WATER>019 " = .ok c ∧
    Dataset.ofTable Dataset.sampleRows Dataset.sampleRecords = .ok d ∧ d.Narrowed f ∧
    f.HasAmount ⟨"WATER", 1⟩ (.ofNat 20) ∧ c.satisfiedBy f = true := by
  obtain ⟨v, hv, hholds⟩ := Vocabulary.exists_ofRecords Dataset.wellFormedTable_sample.tags
  obtain ⟨d, hd⟩ := Dataset.exists_ofTable_sample
  have hname : v.lookup? "WATER" = some ⟨"WATER", 1⟩ :=
    hholds.lookup?_eq_some_iff.2 ⟨by decide, rfl⟩
  have hdecimal : IsDecimal "019".toList 19 := digits?_eq_some_iff.1 (by decide)
  have hc : Grammar.condition v "\u3000WATER>019 " = .ok ⟨⟨"WATER", 1⟩, .above, .ofNat 19⟩ :=
    Grammar.condition_eq_ok_iff.2
      ⟨"WATER".toList, "019".toList, 19, by decide, hdecimal, by decide, hname, rfl⟩
  obtain ⟨food, hfood, hgives⟩ := exists_of_forall₂ (Dataset.gives_of_ofTable hd)
    (x := [some "8", some "08001", some "3", some "enoki", some "1e999", some "(20)"])
    (by decide)
  have hf : d.Narrowed (food.narrow [⟨"WATER", 1⟩]) :=
    .narrow (.whole (Array.mem_toList_iff.1 hfood)) _
  have hvalue : (food.narrow [⟨"WATER", 1⟩]).value? ⟨"WATER", 1⟩ = some (.ofNat 20) := by
    rw [Food.value?_narrow hgives.sound, if_pos (by decide)]
    exact (hgives.value?_eq (j := 1) rfl rfl).trans (by decide +kernel)
  have hamount := (Food.value?_eq_some_iff (hf.sound hd).nodup).1 hvalue
  refine ⟨v, _, d, _, hv, hc, hd, hf, hamount, ?_⟩
  obtain ⟨text, name, number, n, htext, hspells, -, hn, -, hsmall⟩ :=
    Condition.satisfiedBy_iff_compares hv hc hd hf
  obtain rfl : text = "WATER>019".toList := (trim_of_trimsTo htext).symm.trans (by decide)
  have hcut : some ("WATER".toList, .above, "019".toList) = some (name, Comparison.above, number) :=
    .trans (by decide) (Grammar.spellsCondition_iff.1 hspells).1
  obtain ⟨rfl, -, rfl⟩ : _ ∧ _ ∧ _ := by simpa only [Option.some.injEq, Prod.mk.injEq] using hcut
  obtain rfl : n = 19 := hn.eq_digitsValue.trans (by decide)
  have htwenty : (ofNat 20).value = 20 :=
    (rounds_ofNat 20).value_eq (Nat.cast_nonneg _) (isRepresentable_of_le (by decide))
  refine (hsmall (.inl (by decide))).2 ⟨_, hamount, ?nonzero, ?above⟩
  case nonzero =>
    rw [htwenty]
    norm_num
  case above =>
    show (19 : ℚ) < (ofNat 20).value
    rw [htwenty]
    norm_num

end FoodTable
