import FoodTable.Proofs.Query.Writing

/-!
# Tags that a client can name

A client names a tag in texts, and not every name can be written in every parameter. A name with a
comma can be written nowhere; blanks around a name are lost in an order, and so is a minus sign in
front, but only for a key that ascends; conditions know the names `[A-Z][A-Z0-9_-]*` alone. These
are the only limits (`Vocabulary.nameable_by_name`).
-/

namespace FoodTable

open Grammar Text

namespace Vocabulary

/-- Some value of `nutrients` is read as a set with the tag. -/
def CanShow (v : Vocabulary) (t : Tag) : Prop :=
  ∃ s tags, Grammar.nutrients v s = .ok tags ∧ t ∈ tags

/-- Some value of `order` is read as the one key. -/
def CanSortBy (v : Vocabulary) (k : SortKey) : Prop :=
  ∃ s, Grammar.order v { order := some s } = .ok (some [k])

/-- Some value of `where` is read as one condition on the tag. -/
def CanCompare (v : Vocabulary) (t : Tag) : Prop :=
  ∃ s c, Grammar.conditions v s = .ok [c] ∧ c.tag = t

/-- The tag can be shown, sorted by in both directions, and compared. -/
structure Nameable (v : Vocabulary) (t : Tag) : Prop where
  shown : v.CanShow t
  ascending : v.CanSortBy ⟨t, false⟩
  descending : v.CanSortBy ⟨t, true⟩
  compared : v.CanCompare t

end Vocabulary

variable {v : Vocabulary} {records : List TagRecord} {t : Tag} {k : SortKey} {s : String}
  {c : Condition}

/-! ## Values with one token -/

namespace Grammar

theorem mapM_tokens_eq_singleton_iff {α : Type} {read : String → Except QueryError α} {x : α} :
    (tokens s).mapM read = .ok [x] ↔ ',' ∉ s.toList ∧ read s = .ok x := by
  rw [mapM_eq_ok_iff, List.forall₂_cons_right_iff]
  simp only [List.forall₂_nil_right_iff]
  constructor
  · rintro ⟨token, _, hread, rfl, htokens⟩
    obtain ⟨rfl, hcomma⟩ := tokens_eq_singleton_iff.1 htokens
    exact ⟨hcomma, hread⟩
  · rintro ⟨hcomma, hread⟩
    exact ⟨s, [], hread, rfl, tokens_eq_singleton_iff.2 ⟨rfl, hcomma⟩⟩

theorem order_eq_singleton_iff (hv : v.Holds records) :
    order v { order := some s } = .ok (some [k]) ↔ ',' ∉ s.toList ∧ StatesKey records s k := by
  have htokens : orderTokens { order := some s } = tokens s := List.flatMap_singleton _ _
  rw [order_of_ne_nil (by rw [htokens]; exact tokens_ne_nil s), htokens, map_eq_ok_iff,
    ← sortKey_eq_ok_iff hv, ← mapM_tokens_eq_singleton_iff]
  simp only [Option.some.injEq, exists_eq_right]

end Grammar

/-! ## Names -/

namespace Vocabulary.Holds

variable (hv : v.Holds records) (ht : t ∈ tagsOf records)

include hv ht

theorem canShow_iff : v.CanShow t ↔ ',' ∉ t.name.toList := by
  constructor
  · rintro ⟨s, tags, hs, hmem⟩
    obtain ⟨ts, hts, -, -, hiff⟩ := (nutrients_eq_ok_iff hv).1 hs
    obtain ⟨token, htoken, -, rfl⟩ := (hiff t).1 hmem
    exact hts.free _ (List.mem_map_of_mem htoken)
  · exact fun hcomma => ⟨t.name, [t], nutrients_name hv ht hcomma, List.mem_singleton_self t⟩

/-- A key that ascends is written as its name. -/
theorem canSortBy_ascending_iff : v.CanSortBy ⟨t, false⟩ ↔
    t.name ≠ "" ∧ ',' ∉ t.name.toList ∧ t.name.toList.head? ≠ some '-' ∧
      Trimmed t.name.toList := by
  unfold CanSortBy
  simp only [order_eq_singleton_iff hv]
  constructor
  · rintro ⟨s, hcomma, text, name, htext, hdirected, hne, -, hname⟩
    rcases hdirected with ⟨-, hfalse⟩ | ⟨rfl, -, hhead⟩
    · cases hfalse
    dsimp only at hname
    rw [hname, String.toList_ofList]
    refine ⟨?_, fun hmem => hcomma (htext.subset hmem), hhead, htext.1⟩
    exact fun hempty => hne (by simpa using congrArg String.toList hempty)
  · rintro ⟨hne, hcomma, hhead, htrimmed⟩
    refine ⟨t.name, hcomma, t.name.toList, t.name.toList, htrimmed.trimsTo, .inr ⟨rfl, rfl, hhead⟩,
      ?_, ht, String.ofList_toList.symm⟩
    simpa using hne

/-- A key that descends is written as its name behind a minus sign, which is no blank. -/
theorem canSortBy_descending_iff : v.CanSortBy ⟨t, true⟩ ↔
    t.name ≠ "" ∧ ',' ∉ t.name.toList ∧
      ∀ c, t.name.toList.getLast? = some c → isBlank c = false := by
  have hminus : isBlank '-' = false := by decide
  unfold CanSortBy
  simp only [order_eq_singleton_iff hv]
  constructor
  · rintro ⟨s, hcomma, text, name, htext, hdirected, hne, -, hname⟩
    rcases hdirected with ⟨rfl, -⟩ | ⟨-, htrue, -⟩
    case inr => cases htrue
    dsimp only at hname
    rw [hname, String.toList_ofList]
    refine ⟨?_, fun hmem => hcomma (htext.subset (List.mem_cons_of_mem _ hmem)),
      (trimmed_cons_iff hminus).1 htext.1⟩
    exact fun hempty => hne (by simpa using congrArg String.toList hempty)
  · rintro ⟨hne, hcomma, hlast⟩
    have htext : ("-" ++ t.name).toList = '-' :: t.name.toList := String.toList_append
    refine ⟨"-" ++ t.name, ?_, '-' :: t.name.toList, t.name.toList, ?_, .inl ⟨rfl, rfl⟩, ?_, ht,
      String.ofList_toList.symm⟩
    · rw [htext, List.mem_cons, not_or]
      exact ⟨by decide, hcomma⟩
    · rw [htext]
      exact ((trimmed_cons_iff hminus).2 hlast).trimsTo
    · simpa using hne

theorem canCompare_iff : v.CanCompare t ↔ IsName t.name.toList := by
  unfold CanCompare Grammar.conditions
  simp only [mapM_tokens_eq_singleton_iff]
  constructor
  · rintro ⟨s, c, ⟨-, hc⟩, rfl⟩
    obtain ⟨name, number, n, -, -, hname, htag, -⟩ := condition_eq_ok_iff.1 hc
    rw [(hv.lookup?_eq_some_iff.1 htag).2, String.toList_ofList]
    exact isConditionName_iff.1 hname
  · intro hname
    have hzero : IsDecimal ['0'] 0 := digits?_eq_some_iff.1 (by decide)
    exact ⟨_, _, ⟨(isPlain_comparison hzero .above hname).comma_not_mem,
      condition_comparison hzero .above hv ht hname⟩, rfl⟩

/-- A name that conditions know can be written everywhere. -/
theorem nameable (hname : IsName t.name.toList) : v.Nameable t where
  shown := (hv.canShow_iff ht).2 hname.isPlain.comma_not_mem
  ascending := by
    refine (hv.canSortBy_ascending_iff ht).2 ⟨?_, hname.isPlain.comma_not_mem,
      hname.head?_ne_minus, hname.isPlain.trimsTo.1⟩
    simpa using hname.isPlain.nonempty
  descending := by
    refine (hv.canSortBy_descending_iff ht).2 ⟨?_, hname.isPlain.comma_not_mem,
      hname.isPlain.trimsTo.1.last⟩
    simpa using hname.isPlain.nonempty
  compared := (hv.canCompare_iff ht).2 hname

end Vocabulary.Holds

namespace Vocabulary

theorem Holds.mem_tags_iff (hv : v.Holds records) : t ∈ v.tags ↔ t ∈ tagsOf records := by
  rw [← Array.mem_toList_iff, hv.tags]

/-- What a client can do with a tag depends on the name of the tag alone. With a vocabulary in which
all names match `[A-Z][A-Z0-9_-]*` every tag can be named everywhere, and with every other one some
tag cannot be compared. -/
theorem nameable_by_name (h : ofRecords records = .ok v) :
    (∀ t ∈ v.tags,
      (v.CanShow t ↔ ',' ∉ t.name.toList) ∧
      (v.CanSortBy ⟨t, false⟩ ↔ t.name ≠ "" ∧ ',' ∉ t.name.toList ∧
        t.name.toList.head? ≠ some '-' ∧ Trimmed t.name.toList) ∧
      (v.CanSortBy ⟨t, true⟩ ↔ t.name ≠ "" ∧ ',' ∉ t.name.toList ∧
        ∀ c, t.name.toList.getLast? = some c → isBlank c = false) ∧
      (v.CanCompare t ↔ IsName t.name.toList)) ∧
    ((∀ r ∈ records, IsName r.name.toList) → ∀ t ∈ v.tags, v.Nameable t) ∧
    ((∃ r ∈ records, ¬ IsName r.name.toList) → ∃ t ∈ v.tags, ¬ v.CanCompare t) := by
  have hv := holds_of_ofRecords h
  simp only [hv.mem_tags_iff]
  refine ⟨fun t ht => ⟨hv.canShow_iff ht, hv.canSortBy_ascending_iff ht,
    hv.canSortBy_descending_iff ht, hv.canCompare_iff ht⟩, fun hnames t ht => ?_, ?_⟩
  · have hmem : t.name ∈ records.map (·.name) := exists_names_iff.1 ⟨t, ht, rfl⟩
    obtain ⟨r, hr, hname⟩ := List.mem_map.1 hmem
    exact hv.nameable ht (hname ▸ hnames r hr)
  · rintro ⟨r, hr, hname⟩
    obtain ⟨t, ht, hsame⟩ := exists_names_iff.2 (List.mem_map_of_mem hr)
    exact ⟨t, ht, fun hcompare => hname (hsame ▸ (hv.canCompare_iff ht).1 hcompare)⟩

/-- A name with a blank and a minus sign in front, which only a key that descends can have, and one
with a comma, which no parameter can have. -/
theorem nameable_by_name_sample : ∃ v,
    ofRecords [⟨" -NA", "mg", ""⟩, ⟨"FAT,TOTAL", "g", ""⟩, ⟨"WATER", "g", ""⟩] = .ok v ∧
    v.CanSortBy ⟨⟨" -NA", 0⟩, true⟩ ∧ ¬ v.CanSortBy ⟨⟨" -NA", 0⟩, false⟩ ∧
    v.CanShow ⟨" -NA", 0⟩ ∧ ¬ v.CanShow ⟨"FAT,TOTAL", 1⟩ ∧ v.CanCompare ⟨"WATER", 2⟩ ∧
    ∃ t ∈ v.tags, ¬ v.CanCompare t := by
  obtain ⟨v, hv, hholds⟩ := @exists_ofRecords
    [⟨" -NA", "mg", ""⟩, ⟨"FAT,TOTAL", "g", ""⟩, ⟨"WATER", "g", ""⟩] (by decide)
  have hname : isConditionName " -NA".toList = false := by decide
  obtain ⟨hexact, -, hother⟩ := nameable_by_name hv
  obtain ⟨hshow, hascending, hdescending, -⟩ :=
    hexact ⟨" -NA", 0⟩ (hholds.mem_tags_iff.2 (by decide))
  obtain ⟨hcomma, -⟩ := hexact ⟨"FAT,TOTAL", 1⟩ (hholds.mem_tags_iff.2 (by decide))
  obtain ⟨-, -, -, hcompare⟩ := hexact ⟨"WATER", 2⟩ (hholds.mem_tags_iff.2 (by decide))
  refine ⟨v, hv, hdescending.2 ⟨by decide, by decide, ?_⟩, fun h => ?_, hshow.2 (by decide),
    fun h => hcomma.1 h (by decide), hcompare.2 (isConditionName_iff.1 (by decide)),
    hother ⟨_, List.mem_cons_self, ?_⟩⟩
  · rintro c ⟨⟩
    decide
  · obtain ⟨-, -, -, htrimmed⟩ := hascending.1 h
    exact absurd (htrimmed.head ' ' rfl) (by decide)
  · rw [← isConditionName_iff, hname]
    exact Bool.false_ne_true

end Vocabulary

end FoodTable
