import FoodTable.Proofs.Query.Grammar
import FoodTable.Proofs.Query.Matched

/-!
# Category texts in tables and in queries

The category cell of a row and the category list of a query are read by different rules, one a cell
and the other a list with commas. No text that denotes a category has a comma, so where there is no
comma the two accept the same texts and read the same code from them.
-/

namespace FoodTable

open Grammar Text

/-! ## Texts without a comma -/

namespace Grammar

variable {s : String} {code : Nat}

/-- A list without a comma gives one code exactly if the text denotes it. -/
theorem categories_eq_singleton_iff (h : ',' ∉ s.toList) :
    categories s = .ok [code] ↔ Category.Denotes s.toList code := by
  rw [categories_eq_ok_iff]
  constructor
  · rintro ⟨ts, hts, -, -, hmem⟩
    obtain rfl : [s] = ts := (tokens_eq_iff.2 (isTokens_singleton h)).symm.trans
      (tokens_eq_iff.2 hts)
    obtain ⟨t, ht, hcode⟩ := (hmem code).1 List.mem_cons_self
    obtain rfl := List.mem_singleton.1 ht
    exact hcode
  · intro hcode
    exact statesSet_singleton h hcode hcode.mem_codes fun _ hx => hx.unique hcode

end Grammar

/-! ## Cells -/

section Cells

variable {before after : List Row} {cells : List Cell} {records : List TagRecord}
  {text s : String} {code : Nat} {d : Dataset}

/-- A table that is well formed with some text in a category cell is well formed with another text
there exactly if that text denotes a category. -/
theorem wellFormedTable_category_iff
    (h : WellFormedTable (before ++ (some text :: cells) :: after) records) :
    WellFormedTable (before ++ (some s :: cells) :: after) records ↔
      ∃ code, Category.Denotes s.toList code := by
  have hrow := h.wellFormed (some text :: cells) (by simp)
  constructor
  · intro hs
    obtain ⟨_, code, hcell, hcode⟩ := (hs.wellFormed (some s :: cells) (by simp)).category
    obtain rfl := Option.some.inj (Option.some.inj hcell)
    exact ⟨code, hcode⟩
  · rintro ⟨code, hcode⟩
    refine ⟨h.tags, fun row hmem => ?_, ?_⟩
    · rw [List.mem_append, List.mem_cons] at hmem
      rcases hmem with hmem | rfl | hmem
      · exact h.wellFormed row (by simp [hmem])
      · exact ⟨hrow.length, ⟨s, code, rfl, hcode⟩, hrow.id, hrow.index, hrow.name⟩
      · exact h.wellFormed row (by simp [hmem])
    · have hids := h.ids
      rw [List.map_append, List.map_cons] at hids ⊢
      exact hids

/-- The row gives the food at its own position, with what its category cell denotes. -/
theorem exists_food_of_category_cell
    (h : Dataset.ofTable (before ++ (some s :: cells) :: after) records = .ok d) :
    ∃ f, d.foods[before.length]? = some f ∧ f.category = s ∧
      Category.Denotes s.toList f.categoryCode := by
  have hrow : (before ++ (some s :: cells) :: after)[before.length]? = some (some s :: cells) := by
    rw [List.getElem?_append_right (Nat.le_refl _), Nat.sub_self, List.getElem?_cons_zero]
  obtain ⟨f, hf, hgives⟩ := exists_getElem?_of_forall₂ (Dataset.gives_of_ofTable h) hrow
  rw [Array.getElem?_toList] at hf
  obtain rfl := Option.some.inj (Option.some.inj hgives.category)
  exact ⟨f, hf, rfl, hgives.code⟩

end Cells

/-! ## Tables and queries -/

namespace Query

variable {d : Dataset} {rows : List Row} {records : List TagRecord} {f : Food} {p : Parameters}
  {q : Query}

theorem categories_category (h : Dataset.ofTable rows records = .ok d) (hf : f ∈ d.foods) :
    Grammar.categories f.category = .ok [f.categoryCode] := by
  obtain ⟨row, -, hgives⟩ :=
    exists_of_forall₂ (Dataset.gives_of_ofTable h).flip (Array.mem_toList_iff.2 hf)
  exact (categories_eq_singleton_iff hgives.code.comma_not_mem).2 hgives.code

theorem matched_perm_of_only_category {code : Nat} (hcategories : q.categories = some [code])
    (hname : q.name = none) (hconditions : q.conditions = none) :
    (q.matched d).Perm (d.foods.toList.filter fun g => g.categoryCode = code) := by
  have haccepts (g : Food) : q.accepts g = decide (g.categoryCode = code) := by
    unfold accepts
    rw [hcategories, hname, hconditions]
    simp
  have haccepted : q.accepted d = d.foods.toList.filter fun g => g.categoryCode = code :=
    List.filter_congr fun g _ => haccepts g
  exact haccepted ▸ matched_perm q d

/-- A query with the category text of a food and no other filter matches the foods of the same
code. -/
theorem matched_perm_of_category (h : Dataset.ofTable rows records = .ok d) (hf : f ∈ d.foods)
    (hcategory : p.category = some f.category) (hname : p.name = none)
    (hconditions : p.conditions = none) (hq : ofParameters d.vocabulary p = .ok q) :
    (q.matched d).Perm (d.foods.toList.filter fun g => g.categoryCode = f.categoryCode) := by
  obtain ⟨hcategories, -, hnone, -, -, -, hfilter⟩ := ofParameters_eq_ok_iff.1 hq
  rw [hcategory] at hcategories
  rw [hconditions] at hnone
  rw [hname] at hfilter
  have hcode : some [f.categoryCode] = q.categories := Except.ok.inj <|
    (congrArg (some <$> ·) (categories_category h hf)).symm.trans hcategories
  exact matched_perm_of_only_category hcode.symm hfilter.symm (Except.ok.inj hnone).symm

theorem categories_iff_exists_ofTable {before after : List Row} {cells : List Cell}
    {text s : String} {code : Nat}
    (h : WellFormedTable (before ++ (some text :: cells) :: after) records)
    (hcomma : ',' ∉ s.toList) : Grammar.categories s = .ok [code] ↔
      ∃ d f, Dataset.ofTable (before ++ (some s :: cells) :: after) records = .ok d ∧
        d.foods[before.length]? = some f ∧ f.categoryCode = code := by
  rw [categories_eq_singleton_iff hcomma]
  constructor
  · intro hcode
    have htable := (wellFormedTable_category_iff h).2 ⟨code, hcode⟩
    obtain ⟨d, hd⟩ := Dataset.exists_ofTable_iff.2 htable
    obtain ⟨f, hf, -, hdenotes⟩ := exists_food_of_category_cell hd
    exact ⟨d, f, hd, hf, hdenotes.unique hcode⟩
  · rintro ⟨d, f, hd, hf, rfl⟩
    obtain ⟨f', hf', -, hdenotes⟩ := exists_food_of_category_cell hd
    obtain rfl := Option.some.inj (hf.symm.trans hf')
    exact hdenotes

/-- The category text of every food gives the code of the food alone, so a query with that text and
no other filter matches the foods of the same code. A text without a comma gives one code alone
exactly if a row that is well formed but for its category cell is taken in with the text in that
cell, as a food of that code. -/
theorem categories_agrees_with_ofTable :
    (∀ rows records d, Dataset.ofTable rows records = .ok d → ∀ f ∈ d.foods,
      Grammar.categories f.category = .ok [f.categoryCode] ∧
      (∃ q, ofParameters d.vocabulary (.ofPairs [("category", f.category)]) = .ok q) ∧
      ∀ p q, p.category = some f.category → p.name = none → p.conditions = none →
        ofParameters d.vocabulary p = .ok q → f ∈ q.matched d ∧
          (q.matched d).Perm (d.foods.toList.filter fun g => g.categoryCode = f.categoryCode)) ∧
    ∀ before after cells records text s code,
      WellFormedTable (before ++ (some text :: cells) :: after) records → ',' ∉ s.toList →
      (Grammar.categories s = .ok [code] ↔
        ∃ d f, Dataset.ofTable (before ++ (some s :: cells) :: after) records = .ok d ∧
          d.foods[before.length]? = some f ∧ f.categoryCode = code) := by
  refine ⟨fun rows records d h f hf => ⟨categories_category h hf, ?_, ?_⟩, ?_⟩
  · have hread := congrArg (some <$> ·) (categories_category h hf)
    exact ⟨{ categories := some [f.categoryCode] },
      ofParameters_eq_ok_iff.2 ⟨hread, rfl, rfl, rfl, rfl, rfl, rfl⟩⟩
  · intro p q hcategory hname hconditions hq
    have hperm := matched_perm_of_category h hf hcategory hname hconditions hq
    exact ⟨hperm.mem_iff.2 (List.mem_filter.2 ⟨Array.mem_toList_iff.2 hf, decide_eq_true rfl⟩),
      hperm⟩
  · exact fun before after cells records text s code h => categories_iff_exists_ofTable h

/-- A cell with blanks, a sign and a zero, and the same row with other zeros. -/
theorem categories_agrees_with_ofTable_sample :
    (∃ d f q, Dataset.ofTable Dataset.sampleRows Dataset.sampleRecords = .ok d ∧ f ∈ d.foods ∧
      f.category = " +08 " ∧ Grammar.categories f.category = .ok [f.categoryCode] ∧
      ofParameters d.vocabulary (.ofPairs [("category", f.category)]) = .ok q ∧
      f ∈ q.matched d) ∧
    ∃ d f, Dataset.ofTable ([some "0018", some "08039", some "1", some "shiitake", some "20",
        some "(Tr)"] :: Dataset.sampleRows.tail) Dataset.sampleRecords = .ok d ∧
      d.foods[0]? = some f ∧ f.categoryCode = 18 := by
  constructor
  · obtain ⟨d, hd⟩ := Dataset.exists_ofTable_sample
    obtain ⟨f, hf, hcategory, -⟩ := @exists_food_of_category_cell [] _ _ _ _ _ hd
    have hmem : f ∈ d.foods := Array.mem_of_getElem? hf
    obtain ⟨hread, ⟨q, hq⟩, hmatched⟩ := categories_agrees_with_ofTable.1 _ _ d hd f hmem
    exact ⟨d, f, q, hd, hmem, hcategory, hread, hq, (hmatched _ q rfl rfl rfl hq).1⟩
  · exact (categories_agrees_with_ofTable.2 [] Dataset.sampleRows.tail _ _ " +08 " "0018" 18
      Dataset.wellFormedTable_sample (by decide)).1 (by decide)

end Query

end FoodTable
