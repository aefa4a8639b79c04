import FoodTable.Proofs.Agreement
import FoodTable.Proofs.Dataset.Columns
import FoodTable.Proofs.Query.Matched
import FoodTable.Proofs.Query.Tokens

/-!
# Queries on rearranged columns

Tags hold the positions of their columns, so a query read by one table means nothing to a table with
the columns in another order. But the texts of a query name nutrients and no columns. Two tables
with the same names read the same texts as queries that ask for the same, each by its own tags
(`Query.SameIn`), and such queries find the same foods, in the same order.
-/

namespace FoodTable

/-! ## Tags -/

/-- The tables have the same names, each of them once. -/
structure SameNames (records records' : List TagRecord) : Prop where
  perm : (records.map (·.name)).Perm (records'.map (·.name))
  nodup : (records.map (·.name)).Nodup

/-- The tags stand for the same nutrient, each in its table. -/
structure Tag.SameIn (records records' : List TagRecord) (t t' : Tag) : Prop where
  mem : t ∈ tagsOf records
  mem' : t' ∈ tagsOf records'
  name : t.name = t'.name

/-- The lists have tags for the same nutrients, each list those of its table. -/
structure Tag.SameSet (records records' : List TagRecord) (ts ts' : List Tag) : Prop where
  subset : ts ⊆ tagsOf records
  subset' : ts' ⊆ tagsOf records'
  names : ∀ name, name ∈ ts.map (·.name) ↔ name ∈ ts'.map (·.name)

variable {records records' : List TagRecord} {t t' : Tag} {ts ts' : List Tag} {f f' g g' : Food}

theorem SameNames.nodup' (h : SameNames records records') : (records'.map (·.name)).Nodup :=
  h.perm.nodup_iff.1 h.nodup

theorem mem_iff_name_mem (hnodup : (records.map (·.name)).Nodup) (hts : ts ⊆ tagsOf records)
    (ht : t ∈ tagsOf records) : t ∈ ts ↔ t.name ∈ ts.map (·.name) := by
  rw [List.mem_map]
  constructor
  · exact fun hmem => ⟨t, hmem, rfl⟩
  · rintro ⟨t', ht', hname⟩
    rwa [← tag_eq_of_name_eq hnodup (hts ht') ht hname]

theorem Tag.SameSet.contains_eq (hnames : SameNames records records')
    (hts : SameSet records records' ts ts') (ht : t.SameIn records records' t') :
    ts.contains t = ts'.contains t' := by
  rw [Bool.eq_iff_iff, List.contains_iff_mem, List.contains_iff_mem,
    mem_iff_name_mem hnames.nodup hts.subset ht.mem,
    mem_iff_name_mem hnames.nodup' hts.subset' ht.mem', ht.name]
  exact hts.names _

/-- Every name stands for the same nutrient in both tables, or for none in both. -/
theorem lookup?_same {v v' : Vocabulary} (hnames : SameNames records records')
    (hv : v.Holds records) (hv' : v'.Holds records') (name : String) :
    (v.lookup? name = none ∧ v'.lookup? name = none) ∨
      ∃ t t', v.lookup? name = some t ∧ v'.lookup? name = some t' ∧
        t.SameIn records records' t' := by
  have hnone : v.lookup? name = none ↔ v'.lookup? name = none := by
    rw [hv.lookup?_eq_none_iff, hv'.lookup?_eq_none_iff, hnames.perm.mem_iff]
  cases ht : v.lookup? name with
  | none => exact .inl ⟨rfl, hnone.1 ht⟩
  | some t =>
    cases ht' : v'.lookup? name with
    | none =>
      rw [hnone.2 ht'] at ht
      cases ht
    | some t' =>
      obtain ⟨hmem, hname⟩ := hv.lookup?_eq_some_iff.1 ht
      obtain ⟨hmem', hname'⟩ := hv'.lookup?_eq_some_iff.1 ht'
      exact .inr ⟨t, t', rfl, rfl, hmem, hmem', hname.trans hname'.symm⟩

/-! ## Foods -/

namespace Food

/-- The amount of a tag is the one shown under its name. -/
theorem value?_eq_some_iff_shown (hnodup : (records.map (·.name)).Nodup)
    (hf : (f.measurements.map (·.tag)).Sublist (tagsOf records)) (ht : t ∈ tagsOf records)
    {x : Binary64} : f.value? t = some x ↔
      ∃ s ∈ f.measurements.map Measurement.shown, s.1 = t.name ∧ s.2.1.value = some x := by
  rw [value?_eq_some_iff (hf.nodup (nodup_tagsOf records))]
  simp only [List.mem_map, exists_exists_and_eq_and]
  -- within one table a tag is known by its name
  refine exists_congr fun m => and_congr_right fun hm => and_congr_left' ?_
  have hmem : m.tag ∈ tagsOf records := hf.subset (List.mem_map_of_mem hm)
  exact ⟨fun h => congrArg Tag.name h, tag_eq_of_name_eq hnodup hmem ht⟩

theorem map_shown_narrow (hnodup : (records.map (·.name)).Nodup)
    (hf : (f.measurements.map (·.tag)).Sublist (tagsOf records)) (hts : ts ⊆ tagsOf records) :
    (f.narrow ts).measurements.map Measurement.shown =
      (f.measurements.map Measurement.shown).filter fun s => (ts.map (·.name)).contains s.1 := by
  unfold narrow
  rw [List.filter_map]
  refine congrArg _ (List.filter_congr fun m hm => ?_)
  have hmem : m.tag ∈ tagsOf records := hf.subset (List.mem_map_of_mem hm)
  rw [Bool.eq_iff_iff, List.contains_iff_mem, Function.comp, List.contains_iff_mem]
  exact mem_iff_name_mem hnodup hts hmem

namespace SameIn

variable (hnames : SameNames records records') (hf : f.SameIn records records' g)

include hnames hf

theorem value?_eq (ht : t.SameIn records records' t') : f.value? t = g.value? t' := by
  refine Option.ext fun x => ?_
  rw [value?_eq_some_iff_shown hnames.nodup hf.order ht.mem,
    value?_eq_some_iff_shown hnames.nodup' hf.order' ht.mem', ht.name]
  simp only [hf.shown.mem_iff]

theorem narrow (hts : Tag.SameSet records records' ts ts') :
    (f.narrow ts).SameIn records records' (g.narrow ts') where
  id := hf.id
  category := hf.category
  index := hf.index
  name := hf.name
  categoryCode := hf.categoryCode
  shown := by
    have hcontains (name : String) :
        (ts.map (·.name)).contains name = (ts'.map (·.name)).contains name := by
      rw [Bool.eq_iff_iff, List.contains_iff_mem, List.contains_iff_mem]
      exact hts.names name
    rw [map_shown_narrow hnames.nodup hf.order hts.subset,
      map_shown_narrow hnames.nodup' hf.order' hts.subset']
    simp only [hcontains]
    exact hf.shown.filter _
  order := (List.filter_sublist.map _).trans hf.order
  order' := (List.filter_sublist.map _).trans hf.order'

theorem narrowTo {o o' : Option (List Tag)}
    (ho : Option.Rel (Tag.SameSet records records') o o') :
    (f.narrowTo o).SameIn records records' (g.narrowTo o') := by
  cases ho with
  | none => exact hf
  | some hts => exact hf.narrow hnames hts

end SameIn

end Food

/-! ## Queries -/

structure Condition.SameIn (records records' : List TagRecord) (c c' : Condition) : Prop where
  tag : c.tag.SameIn records records' c'.tag
  comparison : c.comparison = c'.comparison
  threshold : c.threshold = c'.threshold

structure SortKey.SameIn (records records' : List TagRecord) (k k' : SortKey) : Prop where
  tag : k.tag.SameIn records records' k'.tag
  descending : k.descending = k'.descending

/-- The queries ask for the same, each by the tags of its table. -/
structure Query.SameIn (records records' : List TagRecord) (q q' : Query) : Prop where
  categories : q.categories = q'.categories
  name : q.name = q'.name
  conditions : Option.Rel (List.Forall₂ (Condition.SameIn records records')) q.conditions
    q'.conditions
  nutrients : Option.Rel (Tag.SameSet records records') q.nutrients q'.nutrients
  order : Option.Rel (List.Forall₂ (SortKey.SameIn records records')) q.order q'.order
  offset : q.offset = q'.offset
  limit : q.limit = q'.limit

namespace Grammar

variable {v v' : Vocabulary} (hnames : SameNames records records') (hv : v.Holds records)
  (hv' : v'.Holds records')

include hnames hv hv'

theorem agree_nutrient (token : String) :
    Agree (Tag.SameIn records records') (nutrient v token) (nutrient v' token) := by
  unfold nutrient
  obtain ⟨hnone, hnone'⟩ | ⟨t, t', hsome, hsome', ht⟩ := lookup?_same hnames hv hv' token
  · rw [hnone, hnone']
    exact .error _
  · rw [hsome, hsome']
    exact .ok ht

theorem agree_condition (token : String) :
    Agree (Condition.SameIn records records') (condition v token) (condition v' token) := by
  unfold condition
  dsimp only
  split
  · exact .error _
  · rename_i name comparison number _
    split
    · exact .error _
    · split
      · exact .error _
      · obtain ⟨hnone, hnone'⟩ | ⟨t, t', hsome, hsome', ht⟩ :=
          lookup?_same hnames hv hv' (String.ofList name)
        · rw [hnone, hnone']
          exact .error _
        · rw [hsome, hsome']
          exact .ok ⟨ht, rfl, rfl⟩

theorem agree_sortKey (token : String) :
    Agree (SortKey.SameIn records records') (sortKey v token) (sortKey v' token) := by
  have ht := Text.trimsTo_trim token.toList
  obtain ⟨name, descending, hd⟩ := exists_directed (Text.trim token.toList)
  rw [sortKey_of_directed ht hd, sortKey_of_directed ht hd]
  split
  · exact .error _
  · obtain ⟨hnone, hnone'⟩ | ⟨t, t', hsome, hsome', ht⟩ :=
      lookup?_same hnames hv hv' (String.ofList name)
    · rw [hnone, hnone']
      exact .error _
    · rw [hsome, hsome']
      exact .ok ⟨ht, rfl⟩

theorem agree_order (p : Parameters) :
    Agree (Option.Rel (List.Forall₂ (SortKey.SameIn records records'))) (order v p)
      (order v' p) := by
  unfold order
  split
  · exact .ok .none
  · exact (Agree.mapM (agree_sortKey hnames hv hv') _).map fun _ _ => .some

end Grammar

theorem mem_map_name_filter (hts : ts ⊆ tagsOf records) {name : String} :
    name ∈ ((tagsOf records).filter ts.contains).map (·.name) ↔ name ∈ ts.map (·.name) := by
  simp only [List.mem_map, List.mem_filter, List.contains_iff_mem]
  exact exists_congr fun t => and_congr_left' (and_iff_right_of_imp (@hts t))

theorem sameSet_filter {v v' : Vocabulary} (hv : v.Holds records) (hv' : v'.Holds records')
    (hts : List.Forall₂ (Tag.SameIn records records') ts ts') :
    Tag.SameSet records records' (v.tags.toList.filter ts.contains)
      (v'.tags.toList.filter ts'.contains) := by
  rw [hv.tags, hv'.tags]
  have hnames : ts.map (·.name) = ts'.map (·.name) := by
    rw [← List.forall₂_eq_eq_eq, List.forall₂_map_left_iff, List.forall₂_map_right_iff]
    exact hts.imp fun _ _ ht => ht.name
  have hsubset : ts ⊆ tagsOf records := by
    intro t ht
    obtain ⟨t', -, hsame⟩ := exists_of_forall₂ hts ht
    exact hsame.mem
  have hsubset' : ts' ⊆ tagsOf records' := by
    intro t' ht'
    obtain ⟨t, -, hsame⟩ := exists_of_forall₂ hts.flip ht'
    exact hsame.mem'
  refine ⟨List.filter_subset_self _, List.filter_subset_self _, fun name => ?_⟩
  rw [mem_map_name_filter hsubset, mem_map_name_filter hsubset', hnames]

namespace Query

/-- Tables with the same names read the same parameters alike. -/
theorem agree_ofParameters {v v' : Vocabulary} (hnames : SameNames records records')
    (hv : v.Holds records) (hv' : v'.Holds records') (p : Parameters) :
    Agree (SameIn records records') (ofParameters v p) (ofParameters v' p) := by
  have hnutrients (s : String) : Agree (Tag.SameSet records records') (Grammar.nutrients v s)
      (Grammar.nutrients v' s) := by
    unfold Grammar.nutrients
    exact (Agree.mapM (Grammar.agree_nutrient hnames hv hv') _).bind fun ts ts' hts =>
      .ok (sameSet_filter hv hv' hts)
  have hconditions (s : String) : Agree (List.Forall₂ (Condition.SameIn records records'))
      (Grammar.conditions v s) (Grammar.conditions v' s) :=
    Agree.mapM (Grammar.agree_condition hnames hv hv') _
  unfold ofParameters
  -- categories, offset and limit name no nutrient, so they are read alike by any two tables
  refine (Agree.refl _).bind ?_
  rintro categories _ rfl
  refine (Agree.option_mapM hnutrients _).bind fun nutrients nutrients' hn => ?_
  refine (Agree.option_mapM hconditions _).bind fun conditions conditions' hc => ?_
  refine (Grammar.agree_order hnames hv hv' p).bind fun order order' ho => ?_
  refine (Agree.refl _).bind ?_
  rintro offset _ rfl
  refine (Agree.refl _).bind ?_
  rintro limit _ rfl
  exact .ok ⟨rfl, rfl, hc, hn, ho, rfl, rfl⟩

end Query

/-! ## Answers -/

/-- The pages show the same foods of the same selection, each by the tags of its table. -/
structure Page.SameIn (records records' : List TagRecord) (p p' : Page) : Prop where
  total : p.total = p'.total
  offset : p.offset = p'.offset
  limit : p.limit = p'.limit
  foods : List.Forall₂ (Food.SameIn records records') p.foods p'.foods

section Answers

variable {q q' : Query} {d d' : Dataset} (hnames : SameNames records records')

include hnames

theorem Condition.SameIn.satisfiedBy_eq {c c' : Condition} (hc : c.SameIn records records' c')
    (hf : f.SameIn records records' g) : c.satisfiedBy f = c'.satisfiedBy g := by
  unfold satisfiedBy
  rw [hf.value?_eq hnames hc.tag, hc.comparison, hc.threshold]

theorem SortKey.SameIn.compare_eq {k k' : SortKey} (hk : k.SameIn records records' k')
    (hf : f.SameIn records records' g) (hf' : f'.SameIn records records' g') :
    k.compare f f' = k'.compare g g' := by
  unfold SortKey.compare
  rw [hf.value?_eq hnames hk.tag, hf'.value?_eq hnames hk.tag, hk.descending]

theorem SortKey.compareAll_eq {keys keys' : List SortKey}
    (hkeys : List.Forall₂ (SortKey.SameIn records records') keys keys')
    (hf : f.SameIn records records' g) (hf' : f'.SameIn records records' g') :
    compareAll keys f f' = compareAll keys' g g' := by
  induction hkeys with
  | nil => rfl
  | cons hk _ ih => rw [compareAll_cons, compareAll_cons, hk.compare_eq hnames hf hf', ih]

namespace Query.SameIn

variable (hq : q.SameIn records records' q')

include hq

theorem accepts_eq (hf : f.SameIn records records' g) : q.accepts f = q'.accepts g := by
  have hconditions : (q.conditions.all fun cs => cs.all (·.satisfiedBy f)) =
      q'.conditions.all fun cs => cs.all (·.satisfiedBy g) := by
    refine all_eq_of_rel hq.conditions fun cs cs' hcs => ?_
    exact all_eq_of_forall₂ hcs fun c c' hc => hc.satisfiedBy_eq hnames hf
  unfold accepts
  rw [hq.categories, hq.name, hf.categoryCode, hf.name, hconditions]

theorem visibleKeys : List.Forall₂ (SortKey.SameIn records records') q.visibleKeys
    q'.visibleKeys := by
  have hkeys : List.Forall₂ (SortKey.SameIn records records') (q.order.getD [])
      (q'.order.getD []) := getD_of_rel hq.order .nil
  have hn := hq.nutrients
  unfold Query.visibleKeys
  generalize q.nutrients = o, q'.nutrients = o' at hn
  cases hn with
  | none => exact hkeys
  | some hts => exact filter_of_forall₂ hkeys fun k k' hk => hts.contains_eq hnames hk.tag

theorem matched (hfoods : List.Forall₂ (Food.SameIn records records') d.foods.toList
    d'.foods.toList) :
    List.Forall₂ (Food.SameIn records records') (q.matched d) (q'.matched d') := by
  have haccepted : List.Forall₂ (Food.SameIn records records') (q.accepted d) (q'.accepted d') :=
    filter_of_forall₂ hfoods fun f g hf => hq.accepts_eq hnames hf
  rw [matched_eq_sort, matched_eq_sort]
  refine mergeSort_of_forall₂ haccepted fun f g f' g' hf hf' => ?_
  rw [SortKey.compareAll_eq hnames (hq.visibleKeys hnames) hf hf']

theorem page (hfoods : List.Forall₂ (Food.SameIn records records') d.foods.toList
    d'.foods.toList) : (q.page d).SameIn records records' (q'.page d') where
  total := (hq.matched hnames hfoods).length_eq
  offset := hq.offset
  limit := hq.limit
  foods := by
    unfold Query.page slice
    dsimp only
    rw [hq.offset, hq.limit, List.forall₂_map_left_iff, List.forall₂_map_right_iff]
    have hslice := List.forall₂_take q'.limit
      (List.forall₂_drop q'.offset (hq.matched hnames hfoods))
    exact hslice.imp fun f g hf => hf.narrowTo hnames hq.nutrients

end Query.SameIn

end Answers

theorem sameNames_rearrange {columns : List Nat} (hnodup : (records.map (·.name)).Nodup)
    (hcolumns : columns.Perm (List.range records.length)) :
    SameNames records (rearrange columns records) where
  perm := ((rearrange_perm hcolumns).map _).symm
  nodup := hnodup

namespace Dataset

variable {d : Dataset} {rows : List Row} {columns : List Nat}

/-- A table with its nutrient columns in another order loads if the table does, and the two answer
alike: they refuse the same parameters with the same error, and give the same page otherwise. -/
theorem answers_rearranged (h : ofTable rows records = .ok d)
    (hcolumns : columns.Perm (List.range records.length)) :
    ∃ d', ofTable (rows.map (Row.rearrange columns)) (rearrange columns records) = .ok d' ∧
      ∀ pairs, Agree
        (fun q q' => (q.page d).SameIn records (rearrange columns records) (q'.page d'))
        (Query.ofParameters d.vocabulary (.ofPairs pairs))
        (Query.ofParameters d'.vocabulary (.ofPairs pairs)) := by
  have htable := exists_ofTable_iff.1 ⟨d, h⟩
  obtain ⟨d', h'⟩ := exists_ofTable_iff.2 (htable.rearrange hcolumns)
  have hnames := sameNames_rearrange htable.tags hcolumns
  refine ⟨d', h', fun pairs => ?_⟩
  have hread := Query.agree_ofParameters hnames (holds_vocabulary h) (holds_vocabulary h')
    (.ofPairs pairs)
  exact hread.imp fun q q' hq => hq.page hnames (sameIn_of_rearrange hcolumns h h')

theorem answers_rearranged_sample : ∃ d d',
    ofTable sampleRows sampleRecords = .ok d ∧
    ofTable [[some " +08 ", some "08039", some "1", some "shiitake", some "(Tr)", some "20"],
        [some "11", some "11123", some "2", some "pork", some "-1.5e1 g", none],
        [some "8", some "08001", some "3", some "enoki", some "(20)", some "1e999"]]
      [⟨"WATER", "g", ""⟩, ⟨"ENERC_KCAL", "kcal", "energy"⟩] = .ok d' ∧
    ∀ pairs, Agree
      (fun q q' => (q.page d).SameIn sampleRecords sampleRecords.reverse (q'.page d'))
      (Query.ofParameters d.vocabulary (.ofPairs pairs))
      (Query.ofParameters d'.vocabulary (.ofPairs pairs)) := by
  obtain ⟨d, hd⟩ := exists_ofTable_sample
  obtain ⟨d', hd', hpages⟩ := answers_rearranged hd (show [1, 0].Perm (List.range 2) by decide)
  exact ⟨d, d', hd, hd', hpages⟩

end Dataset

end FoodTable
