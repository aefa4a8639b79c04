import FoodTable.Proofs.Binary64.Nearest
import FoodTable.Proofs.Query.Writing

/-!
# The grammar of conditions

A token states a condition if, without the blanks around it, it is a name, a character that compares
and digits (`Grammar.SpellsCondition`). The first character that compares is the one after the name,
so there is no other way to cut the token. A token of another form is refused for its form before
any name is looked up, and one of this form only for a name that the vocabulary does not have.
-/

namespace FoodTable

open Binary64 Text

theorem Comparison.ofChar?_eq_some_iff {c : Char} {o : Comparison} :
    ofChar? c = some o ↔ c = o.toChar := by
  constructor
  · intro h
    unfold ofChar? at h
    split at h
    · obtain rfl := Option.some.inj h
      rfl
    · obtain rfl := Option.some.inj h
      rfl
    · cases h
  · rintro rfl
    exact ofChar?_toChar o

theorem Comparison.ofChar?_eq_none_iff {c : Char} : ofChar? c = none ↔ c ≠ '<' ∧ c ≠ '>' := by
  unfold ofChar?
  split <;> simp_all

namespace Grammar

variable {s text name name' number number' : List Char} {o o' : Comparison} {n : Nat}
  {v : Vocabulary} {records : List TagRecord} {token : String}

/-! ## Cutting -/

/-- No character of the text compares. -/
def NothingCompares (s : List Char) : Prop := '<' ∉ s ∧ '>' ∉ s

theorem nothingCompares_iff : NothingCompares s ↔ ∀ c ∈ s, Comparison.ofChar? c = none := by
  simp only [NothingCompares, Comparison.ofChar?_eq_none_iff, forall_and, List.forall_mem_ne']

/-- A text is cut at the first character that compares, and nothing of it is lost. -/
theorem splitCondition?_eq_some_iff : splitCondition? s = some (name, o, number) ↔
    s = name ++ o.toChar :: number ∧ NothingCompares name := by
  rw [nothingCompares_iff]
  constructor
  · intro h
    unfold splitCondition? at h
    dsimp only at h
    have hcut : s.takeWhile (fun c => (Comparison.ofChar? c).isNone) ++
        s.dropWhile (fun c => (Comparison.ofChar? c).isNone) = s := List.takeWhile_append_dropWhile
    split at h
    · cases h
    · rename_i c rest hrest
      obtain ⟨o', ho, heq⟩ := Option.map_eq_some_iff.1 h
      obtain ⟨rfl, rfl, rfl⟩ : _ ∧ _ ∧ _ := by simpa using heq
      rw [hrest, Comparison.ofChar?_eq_some_iff.1 ho] at hcut
      refine ⟨hcut.symm, fun c hc => ?_⟩
      have hother := List.mem_takeWhile_imp hc
      exact Option.isNone_iff_eq_none.1 hother
  · rintro ⟨rfl, hname⟩
    exact splitCondition?_append o hname

/-- Only a text in which nothing compares cannot be cut. -/
theorem splitCondition?_eq_none_iff : splitCondition? s = none ↔ NothingCompares s := by
  rw [nothingCompares_iff]
  unfold splitCondition?
  dsimp only
  split
  · rename_i hnil
    simpa using hnil
  · rename_i c rest hrest
    have hcompares := List.head?_dropWhile_not (fun c => (Comparison.ofChar? c).isNone) s
    have hmem : c ∈ s := (List.dropWhile_sublist _).subset (hrest ▸ List.mem_cons_self)
    simp only [hrest, List.head?_cons, Option.isNone_eq_false_iff, Option.isSome_iff_ne_none]
      at hcompares
    exact iff_of_false (fun h => hcompares (Option.map_eq_none_iff.1 h))
      fun h => hcompares (h c hmem)

/-! ## Conditions -/

/-- The text is a name, a character that compares, and one or more digits. -/
structure SpellsCondition (text name : List Char) (o : Comparison) (number : List Char) : Prop where
  parts : text = name ++ o.toChar :: number
  name : IsName name
  nonempty : number ≠ []
  digits : ∀ c ∈ number, c.isDigit = true

/-- The digits of a condition are read as the number that they denote. -/
theorem SpellsCondition.exists_isDecimal (h : SpellsCondition text name o number) :
    ∃ n, IsDecimal number n :=
  ⟨_, h.nonempty, h.digits, rfl⟩

theorem spellsCondition_iff : SpellsCondition text name o number ↔
    splitCondition? text = some (name, o, number) ∧ isConditionName name = true ∧
      ∃ n, digits? number = some n := by
  simp only [isConditionName_iff, digits?_eq_some_iff]
  constructor
  · intro h
    refine ⟨?_, h.name, h.exists_isDecimal⟩
    rw [h.parts]
    exact splitCondition?_append o h.name.ofChar?_eq_none
  · rintro ⟨hsplit, hname, n, hn⟩
    exact ⟨(splitCondition?_eq_some_iff.1 hsplit).1, hname, hn.1, hn.2.1⟩

/-- A text is a condition in one way only. -/
theorem SpellsCondition.unique (h : SpellsCondition text name o number)
    (h' : SpellsCondition text name' o' number') : name' = name ∧ o' = o ∧ number' = number := by
  have hsplit := (spellsCondition_iff.1 h').1.symm.trans (spellsCondition_iff.1 h).1
  simpa only [Option.some.injEq, Prod.mk.injEq] using hsplit

/-- A token of another form is refused for its form, whatever the vocabulary. -/
theorem condition_of_not_spells (htext : TrimsTo token.toList text)
    (h : ∀ name o number, ¬ SpellsCondition text name o number) :
    condition v token = .error (.invalidCondition token) := by
  unfold condition
  dsimp only
  rw [trim_of_trimsTo htext]
  split
  · rfl
  rename_i name o number hsplit
  split
  · rfl
  rename_i n hnumber
  split
  · rfl
  rename_i hname
  exact absurd (spellsCondition_iff.2 ⟨hsplit, by simpa using hname, n, hnumber⟩) (h name o number)

/-- A token of the right form is refused only for its name. -/
theorem condition_of_unknown (htext : TrimsTo token.toList text)
    (h : SpellsCondition text name o number) (hname : v.lookup? (String.ofList name) = none) :
    condition v token =
      .error (.unknownConditionTag (String.ofList text) (String.ofList name)) := by
  obtain ⟨hsplit, hform, n, hnumber⟩ := spellsCondition_iff.1 h
  unfold condition
  dsimp only
  rw [trim_of_trimsTo htext, hsplit]
  dsimp only
  rw [hnumber]
  dsimp only
  rw [hform, hname]
  rfl

theorem exists_condition_of_known {tag : Tag} (htext : TrimsTo token.toList text)
    (h : SpellsCondition text name o number) (htag : v.lookup? (String.ofList name) = some tag) :
    ∃ n x, IsDecimal number n ∧ Rounds false n x ∧ condition v token = .ok ⟨tag, o, x⟩ := by
  obtain ⟨hsplit, hform, -⟩ := spellsCondition_iff.1 h
  obtain ⟨n, hn⟩ := h.exists_isDecimal
  rw [← trim_of_trimsTo htext] at hsplit
  exact ⟨n, _, hn, rounds_ofNat n, condition_of_split hsplit hn hform htag⟩

/-- A token is a condition exactly if, without the blanks around it, it is a name of the vocabulary,
a character that compares, and digits. It can be cut in one way only, and its threshold is the
number nearest to what the digits denote. Of the other tokens those of this form are refused for
their names and all others for their form. Cutting at what compares is possible whenever something
does. -/
theorem condition_grammar (h : Vocabulary.ofRecords records = .ok v) (token : String) :
    ∃ text, TrimsTo token.toList text ∧
      ((∃ c, condition v token = .ok c) ↔ ∃ name o number,
        SpellsCondition text name o number ∧ String.ofList name ∈ records.map (·.name)) ∧
      (∀ name o number, SpellsCondition text name o number →
        (∀ name' o' number', SpellsCondition text name' o' number' →
          name' = name ∧ o' = o ∧ number' = number) ∧
        (∀ tag, v.lookup? (String.ofList name) = some tag →
          ∃ n x, IsDecimal number n ∧ Rounds false n x ∧ condition v token = .ok ⟨tag, o, x⟩) ∧
        (String.ofList name ∉ records.map (·.name) → condition v token =
          .error (.unknownConditionTag (String.ofList text) (String.ofList name)))) ∧
      ((∀ name o number, ¬ SpellsCondition text name o number) →
        condition v token = .error (.invalidCondition token)) ∧
      (splitCondition? text = none ↔ NothingCompares text) ∧
      ∀ name o number, splitCondition? text = some (name, o, number) ↔
        text = name ++ o.toChar :: number ∧ NothingCompares name := by
  have hv := Vocabulary.holds_of_ofRecords h
  have htext := trimsTo_trim token.toList
  refine ⟨_, htext, ?accepted, fun name o number hspells => ?spelled,
    condition_of_not_spells htext, splitCondition?_eq_none_iff, fun _ _ _ =>
    splitCondition?_eq_some_iff⟩
  case spelled =>
    exact ⟨fun _ _ _ => hspells.unique, fun _ => exists_condition_of_known htext hspells,
      fun hname => condition_of_unknown htext hspells (hv.lookup?_eq_none_iff.2 hname)⟩
  case accepted =>
    constructor
    · rintro ⟨c, hc⟩
      obtain ⟨name, number, n, hsplit, hn, hname, htag, -⟩ := condition_eq_ok_iff.1 hc
      have hspells := spellsCondition_iff.2 ⟨hsplit, hname, n, digits?_eq_some_iff.2 hn⟩
      refine ⟨name, _, number, hspells, ?_⟩
      by_contra hunknown
      rw [hv.lookup?_eq_none_iff.2 hunknown] at htag
      cases htag
    · rintro ⟨name, o, number, hspells, hknown⟩
      obtain ⟨tag, htag⟩ : ∃ tag, v.lookup? (String.ofList name) = some tag :=
        Option.ne_none_iff_exists'.1 fun hnone => hv.lookup?_eq_none_iff.1 hnone hknown
      obtain ⟨n, x, -, -, hx⟩ := exists_condition_of_known htext hspells htag
      exact ⟨_, hx⟩

/-- One condition among wide blanks, a name that ends with a minus sign and is not in the
vocabulary, and a name that is in it before two characters that compare. -/
theorem condition_grammar_sample : ∃ v, Vocabulary.ofRecords Dataset.sampleRecords = .ok v ∧
    (∃ x, Rounds false 90 x ∧
      condition v "\u3000WATER>090 " = .ok ⟨⟨"WATER", 1⟩, .above, x⟩) ∧
    condition v " WATER-<2" = .error (.unknownConditionTag "WATER-<2" "WATER-") ∧
    condition v " WATER>>9" = .error (.invalidCondition " WATER>>9") := by
  obtain ⟨v, hv, hholds⟩ := Vocabulary.exists_ofRecords Dataset.wellFormedTable_sample.tags
  have hname : IsName "WATER".toList := isConditionName_iff.1 (by decide)
  refine ⟨v, hv, ?known, ?unknown, ?form⟩
  case known =>
    obtain ⟨text, htext, -, hspelled, -⟩ := condition_grammar hv "\u3000WATER>090 "
    obtain rfl : text = "WATER>090".toList := (trim_of_trimsTo htext).symm.trans (by decide)
    have htag : v.lookup? "WATER" = some ⟨"WATER", 1⟩ :=
      hholds.lookup?_eq_some_iff.2 ⟨by decide, rfl⟩
    obtain ⟨hne, hdigits⟩ := isDigits_iff.1 (show isDigits "090".toList = true by decide)
    obtain ⟨-, hok, -⟩ := hspelled "WATER".toList .above "090".toList
      ⟨by decide, hname, hne, hdigits⟩
    obtain ⟨n, x, hn, hx, hcondition⟩ := hok _ htag
    obtain rfl : n = 90 := hn.eq_digitsValue.trans (by decide)
    exact ⟨x, hx, hcondition⟩
  case unknown =>
    obtain ⟨text, htext, -, hspelled, -⟩ := condition_grammar hv " WATER-<2"
    obtain rfl : text = "WATER-<2".toList := (trim_of_trimsTo htext).symm.trans (by decide)
    obtain ⟨hne, hdigits⟩ := isDigits_iff.1 (show isDigits "2".toList = true by decide)
    obtain ⟨-, -, hunknown⟩ := hspelled "WATER-".toList .below "2".toList
      ⟨by decide, isConditionName_iff.1 (by decide), hne, hdigits⟩
    exact hunknown (by decide)
  case form =>
    obtain ⟨text, htext, -, -, hform, -⟩ := condition_grammar hv " WATER>>9"
    obtain rfl : text = "WATER>>9".toList := (trim_of_trimsTo htext).symm.trans (by decide)
    refine hform fun name o number h => ?_
    have hdigits : digits? ">9".toList = none := by decide
    have hcut : splitCondition? "WATER>>9".toList = some ("WATER".toList, .above, ">9".toList) :=
      splitCondition?_append .above hname.ofChar?_eq_none
    obtain ⟨hsplit, -, n, hn⟩ := spellsCondition_iff.1 h
    rw [hcut] at hsplit
    cases hsplit
    rw [hdigits] at hn
    cases hn

end Grammar

end FoodTable
