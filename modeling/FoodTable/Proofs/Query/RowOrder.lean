import FoodTable.Proofs.Query.Paging

/-!
# The order of the rows

A table with its rows in another order loads if the table does, and has the same foods in another
order. So an id leads to the same food, a query finds the same foods, and only foods that tie can
change places: where no two of the foods that a query finds tie, its pages are the same
(`Query.AgreesUpToTies`).
-/

namespace FoodTable

variable {rows rows' : List Row} {records : List TagRecord} {d d' : Dataset} {q : Query}

/-! ## Tables -/

theorem WellFormedTable.perm (h : WellFormedTable rows records) (hrows : rows'.Perm rows) :
    WellFormedTable rows' records where
  tags := h.tags
  wellFormed row hrow := h.wellFormed row (hrows.mem_iff.1 hrow)
  ids := (hrows.map _).nodup_iff.2 h.ids

namespace Dataset

section Perm

variable (h : ofTable rows records = .ok d) (h' : ofTable rows' records = .ok d')

include h h'

theorem exists_holds_both : ∃ v, d.Holds v rows ∧ d'.Holds v rows' := by
  obtain ⟨v, hv, hd⟩ := ofTable_eq_ok_iff.1 h
  obtain ⟨v', hv', hd'⟩ := ofTable_eq_ok_iff.1 h'
  obtain rfl := Except.ok.inj (hv.symm.trans hv')
  exact ⟨v, holds_of_foldlM hd, holds_of_foldlM hd'⟩

/-- The rows play no part in the vocabulary. -/
theorem vocabulary_eq : d'.vocabulary = d.vocabulary := by
  obtain ⟨v, hd, hd'⟩ := exists_holds_both h h'
  rw [hd.vocabulary, hd'.vocabulary]

variable (hrows : rows'.Perm rows)

include hrows

theorem foods_perm : d'.foods.toList.Perm d.foods.toList := by
  obtain ⟨v, hd, hd'⟩ := exists_holds_both h h'
  refine List.rel_perm_imp ?_ hd'.foods hd.foods hrows
  rintro row f g ⟨_, hf⟩ ⟨_, hg⟩
  exact Row.toFood_unique hf hg

theorem food?_eq_of_perm (id : String) : d'.food? id = d.food? id := by
  refine Option.ext fun f => ?_
  rw [food?_eq_some_iff h, food?_eq_some_iff h', ← Array.mem_toList_iff, ← Array.mem_toList_iff,
    (foods_perm h h' hrows).mem_iff]

end Perm

end Dataset

/-! ## Queries -/

/-- Foods of which no two tie are sorted alike in whatever order they come. -/
theorem SortKey.sort_eq_of_perm {keys : List SortKey} {foods foods' : List Food}
    (hfoods : ∀ f ∈ foods, f.Sound) (hperm : foods'.Perm foods)
    (hties : ∀ f ∈ foods, ∀ g ∈ foods, compareAll keys f g = .eq → f = g) :
    sort keys foods' = sort keys foods := by
  have hpre := totalPreorderOn_compareAll keys
  have hsort := stableSort_sort keys hfoods
  have hsort' := stableSort_sort keys fun f hf => hfoods f (hperm.mem_iff.1 hf)
  have hmem {f : Food} (hf : f ∈ sort keys foods') : f ∈ foods := hperm.mem_iff.1 (mem_sort.1 hf)
  apply List.Perm.eq_of_pairwise _ hsort'.sorted hsort.sorted
  · exact hsort'.perm.trans (hperm.trans hsort.perm.symm)
  · intro f g hf hg hfg hgf
    have hf' := hmem hf
    have hg' := mem_sort.1 hg
    exact hties f hf' g hg' (hpre.eq_of_ne_gt (hfoods f hf') (hfoods g hg') hfg hgf)

namespace Query

/-- No two of the foods that the query finds tie under its visible keys. -/
def HasNoTies (q : Query) (d : Dataset) : Prop :=
  ∀ f ∈ q.accepted d, ∀ g ∈ q.accepted d, SortKey.compareAll q.visibleKeys f g = .eq → f = g

/-- The query finds as many foods in both datasets, its pages show the same foods taken together,
whatever their size, and if no two of the foods tie, every page is the same. -/
structure AgreesUpToTies (q : Query) (d d' : Dataset) : Prop where
  total : (q.page d').total = (q.page d).total
  foods : ∀ {size size' : Nat} (hsize : 0 < size) (hsize' : 0 < size'),
    ((q.walk d' hsize' 0).flatMap (·.foods)).Perm ((q.walk d hsize 0).flatMap (·.foods))
  pages : q.HasNoTies d → ∀ offset limit, q.pageAt d' offset limit = q.pageAt d offset limit

theorem page_eq_of_matched_eq (h : q.matched d' = q.matched d) : q.page d' = q.page d := by
  unfold page
  rw [h]

section Perm

variable (h : Dataset.ofTable rows records = .ok d) (h' : Dataset.ofTable rows' records = .ok d')
  (hrows : rows'.Perm rows)

include h h' hrows

theorem accepted_perm (q : Query) : (q.accepted d').Perm (q.accepted d) :=
  (Dataset.foods_perm h h' hrows).filter _

theorem matched_eq_of_hasNoTies (hties : q.HasNoTies d) : q.matched d' = q.matched d := by
  rw [matched_eq_sort, matched_eq_sort]
  exact SortKey.sort_eq_of_perm (fun _ hf => sound_of_mem_accepted h hf)
    (accepted_perm h h' hrows q) hties

theorem agreesUpToTies (q : Query) : q.AgreesUpToTies d d' where
  total := by
    show (q.matched d').length = (q.matched d).length
    rw [length_matched, length_matched, (accepted_perm h h' hrows q).length_eq]
  foods hsize hsize' := by
    rw [flatMap_walk, flatMap_walk, List.drop_zero, List.drop_zero]
    have hmatched : (q.matched d').Perm (q.matched d) :=
      (matched_perm q d').trans ((accepted_perm h h' hrows q).trans (matched_perm q d).symm)
    exact hmatched.map _
  pages hties offset limit :=
    page_eq_of_matched_eq (matched_eq_of_hasNoTies h h' hrows hties)

end Perm

end Query

namespace Dataset

/-- A table with its rows in another order loads if the table does. It reads the same queries, finds
the same food under every id, and gives the same answers but for the places of foods that tie. -/
theorem agreesUpToTies_of_perm (h : ofTable rows records = .ok d) (hrows : rows'.Perm rows) :
    ∃ d', ofTable rows' records = .ok d' ∧ d'.vocabulary = d.vocabulary ∧
      (∀ id, d'.food? id = d.food? id) ∧ ∀ q : Query, q.AgreesUpToTies d d' := by
  obtain ⟨d', h'⟩ := exists_ofTable_iff.2 ((exists_ofTable_iff.1 ⟨d, h⟩).perm hrows)
  exact ⟨d', h', vocabulary_eq h h', food?_eq_of_perm h h' hrows,
    Query.agreesUpToTies h h' hrows⟩

/-- Three foods with different amounts of water, in either order of the rows. -/
theorem agreesUpToTies_of_perm_sample : ∃ d d',
    ofTable sampleRows sampleRecords = .ok d ∧
    ofTable sampleRows.reverse sampleRecords = .ok d' ∧
    let q : Query := { order := some [⟨⟨"WATER", 1⟩, true⟩], limit := 2 }
    q.page d' = q.page d := by
  obtain ⟨d, hd⟩ := exists_ofTable_sample
  obtain ⟨d', hd', -, -, hagrees⟩ := agreesUpToTies_of_perm hd (List.reverse_perm sampleRows)
  refine ⟨d, d', hd, hd', ?_⟩
  intro q
  have hfoods := gives_of_ofTable hd
  have hnoTies : ∀ f ∈ d.foods.toList, ∀ g ∈ d.foods.toList,
      SortKey.compareAll q.visibleKeys f g = .eq → f = g := by
    unfold sampleRows at hfoods
    generalize d.foods.toList = foods at hfoods ⊢
    obtain _ | ⟨h₁, _ | ⟨h₂, _ | ⟨h₃, _ | _⟩⟩⟩ := hfoods
    rename_i f₁ f₂ f₃
    have hwater₁ : f₁.value? ⟨"WATER", 1⟩ = (Cell.read (some "(Tr)")).value :=
      h₁.value?_eq (j := 1) rfl rfl
    have hwater₂ : f₂.value? ⟨"WATER", 1⟩ = (Cell.read (some "-1.5e1 g")).value :=
      h₂.value?_eq (j := 1) rfl rfl
    have hwater₃ : f₃.value? ⟨"WATER", 1⟩ = (Cell.read (some "(20)")).value :=
      h₃.value?_eq (j := 1) rfl rfl
    intro f hf g hg htie
    simp only [List.mem_cons, List.not_mem_nil, or_false] at hf hg
    simp only [q, Query.visibleKeys, Option.getD_some, SortKey.compareAll, List.foldr_cons,
      List.foldr_nil, SortKey.compare] at htie
    rcases hf with rfl | rfl | rfl <;> rcases hg with rfl | rfl | rfl <;>
      simp only [hwater₁, hwater₂, hwater₃] at htie <;>
      first | rfl | exact absurd htie (by decide +kernel)
  exact (hagrees q).pages
    (fun f hf g hg => hnoTies f (List.mem_of_mem_filter hf) g (List.mem_of_mem_filter hg)) 0 2

end Dataset

end FoodTable
