import FoodTable.Proofs.Order.ExactOrder
import FoodTable.Proofs.Query.Matched
import FoodTable.Proofs.Query.Thresholds
import Mathlib.Tactic.MkIffOfInductiveProp

/-!
# The plain pipeline

The plain way to answer a query keeps the foods that pass its tests (`Query.Passes`), narrows all of
them, puts the narrowed foods into the order of all keys, and only then takes a page of them. It is
said here without the functions that answer queries (`Query.IsPlainPage`). Answering with less work,
by sorting whole foods by the visible keys and narrowing one page, gives the same page.
-/

namespace FoodTable

open Binary64

variable {d : Dataset} {rows : List Row} {records : List TagRecord} {q : Query} {c : Condition}
  {f a b : Food}

theorem map_slice {α β : Type} (g : α → β) (offset limit : Nat) (xs : List α) :
    (slice offset limit xs).map g = slice offset limit (xs.map g) := by
  unfold slice
  rw [List.map_take, List.map_drop]

/-! ## Tests -/

/-- The food has an amount other than zero that is on the right side of the threshold, which is a
number. -/
def Condition.IsMetBy (c : Condition) (f : Food) : Prop :=
  ∃ m ∈ f.measurements, m.tag = c.tag ∧ ∃ x ∈ m.reading.value,
    x.value ≠ 0 ∧ c.threshold.isNan = false ∧ c.comparison.Compares x.value c.threshold.value

/-- The food is of a category asked for, has the text asked for in its name, and meets every
condition. What a query does not ask for it does not test. -/
@[mk_iff]
structure Query.Passes (q : Query) (f : Food) : Prop where
  category : ∀ codes ∈ q.categories, f.categoryCode ∈ codes
  name : ∀ text ∈ q.name, text.toList <:+: f.name.toList
  conditions : ∀ conditions ∈ q.conditions, ∀ c ∈ conditions, c.IsMetBy f

instance (o : Comparison) (x y : ℚ) : Decidable (o.Compares x y) :=
  match o with
  | .below => inferInstanceAs (Decidable (x < y))
  | .above => inferInstanceAs (Decidable (y < x))

instance (c : Condition) (f : Food) : Decidable (c.IsMetBy f) :=
  inferInstanceAs (Decidable (∃ m ∈ f.measurements, m.tag = c.tag ∧ ∃ x ∈ m.reading.value,
    x.value ≠ 0 ∧ c.threshold.isNan = false ∧ c.comparison.Compares x.value c.threshold.value))

instance (q : Query) (f : Food) : Decidable (q.Passes f) :=
  decidable_of_iff' _ (Query.passes_iff q f)

theorem Comparison.holds_eq_true_iff {o : Comparison} {x t : Binary64} (hx : x.isNan = false) :
    o.holds x t = true ↔ t.isNan = false ∧ o.Compares x.value t.value := by
  cases ht : t.isNan with
  | false => rw [holds_iff_compares hx ht, and_iff_right rfl]
  | true =>
    refine iff_of_false ?_ fun h => Bool.noConfusion h.1
    cases o <;> simp [holds, less, compare?, ht]

theorem Condition.satisfiedBy_iff_isMetBy (hf : f.Sound) :
    c.satisfiedBy f = true ↔ c.IsMetBy f := by
  rw [satisfiedBy_eq_true_iff hf]
  constructor
  · rintro ⟨x, ⟨m, hm, htag, hx⟩, hzero, hholds⟩
    have hnan := isNan_eq_false_of_isFinite (hf.finite m hm x hx)
    exact ⟨m, hm, htag, x, hx, hzero, (Comparison.holds_eq_true_iff hnan).1 hholds⟩
  · rintro ⟨m, hm, htag, x, hx, hzero, hcompares⟩
    have hnan := isNan_eq_false_of_isFinite (hf.finite m hm x hx)
    exact ⟨x, ⟨m, hm, htag, hx⟩, hzero, (Comparison.holds_eq_true_iff hnan).2 hcompares⟩

namespace Query

theorem accepts_iff_passes (hf : f.Sound) : q.accepts f = true ↔ q.Passes f := by
  unfold accepts
  rw [passes_iff]
  simp only [Bool.and_eq_true, Option.all_eq_true, List.contains_iff_mem, List.all_eq_true,
    Text.occursIn_eq_true_iff, Condition.satisfiedBy_iff_isMetBy hf, and_assoc]
  rfl

theorem accepted_eq_filter_passes (h : Dataset.ofTable rows records = .ok d) (q : Query) :
    q.accepted d = d.foods.toList.filter (q.Passes ·) := by
  unfold accepted
  refine List.filter_congr fun f hf => ?_
  rw [Bool.eq_iff_iff, decide_eq_true_iff,
    accepts_iff_passes (Dataset.sound_of_mem h (Array.mem_toList_iff.1 hf))]

/-! ## Pages -/

/-- The foods that pass the tests are kept in dataset order, each of them is narrowed, and the
narrowed foods are put into the order of all keys. The page has those of them that its place and its
size give, and the number of all of them. -/
def IsPlainPage (q : Query) (d : Dataset) (p : Page) : Prop :=
  ∃ sorted, SortKey.IsOrdered (q.order.getD [])
      ((d.foods.toList.filter (q.Passes ·)).map (·.keepOnly q.nutrients)) sorted ∧
    p = { foods := (sorted.drop q.offset).take q.limit
          total := sorted.length
          offset := q.offset
          limit := q.limit }

theorem compareAll_narrowTo (ha : a.Sound) (hb : b.Sound) (q : Query) :
    SortKey.compareAll (q.order.getD []) (a.narrowTo q.nutrients) (b.narrowTo q.nutrients) =
      SortKey.compareAll q.visibleKeys a b := by
  unfold visibleKeys
  cases q.nutrients with
  | none => rfl
  | some tags => exact SortKey.compareAll_narrow ha hb tags _

/-- Narrowing the sorted foods gives the stable sort of the narrowed foods. -/
theorem stableSort_map_narrowTo (h : Dataset.ofTable rows records = .ok d) (q : Query) :
    StableSort (SortKey.compareAll (q.order.getD []))
      ((q.accepted d).map (·.narrowTo q.nutrients)) ((q.matched d).map (·.narrowTo q.nutrients)) :=
  (stableSort_matched h q).map (·.narrowTo q.nutrients) fun _ ha _ hb =>
    (compareAll_narrowTo (sound_of_mem_accepted h ha) (sound_of_mem_accepted h hb) q).symm

theorem sound_of_mem_narrowed (h : Dataset.ofTable rows records = .ok d)
    (hf : f ∈ (q.accepted d).map (·.narrowTo q.nutrients)) : f.Sound := by
  obtain ⟨g, hg, rfl⟩ := List.mem_map.1 hf
  exact (sound_of_mem_accepted h hg).narrowTo _

theorem isPlainPage_iff (h : Dataset.ofTable rows records = .ok d) {p : Page} :
    q.IsPlainPage d p ↔ ∃ sorted, StableSort (SortKey.compareAll (q.order.getD []))
        ((q.accepted d).map (·.narrowTo q.nutrients)) sorted ∧
      p = { foods := slice q.offset q.limit sorted
            total := sorted.length
            offset := q.offset
            limit := q.limit } := by
  have hnarrowed : (d.foods.toList.filter (q.Passes ·)).map (·.keepOnly q.nutrients) =
      (q.accepted d).map (·.narrowTo q.nutrients) := by
    rw [accepted_eq_filter_passes h]
    exact List.map_congr_left fun f _ => (Food.narrowTo_eq_keepOnly _ f).symm
  unfold IsPlainPage
  rw [hnarrowed]
  refine exists_congr fun sorted => and_congr_left fun _ => ?_
  exact SortKey.isOrdered_iff_stableSort fun f hf => sound_of_mem_narrowed h hf

theorem isPlainPage_page (h : Dataset.ofTable rows records = .ok d) (q : Query) :
    q.IsPlainPage d (q.page d) := by
  refine (isPlainPage_iff h).2 ⟨_, stableSort_map_narrowTo h q, ?_⟩
  unfold page
  dsimp only
  rw [map_slice, List.length_map]

theorem IsPlainPage.unique (h : Dataset.ofTable rows records = .ok d) {q : Query} {p p' : Page}
    (hp : q.IsPlainPage d p) (hp' : q.IsPlainPage d p') : p = p' := by
  obtain ⟨sorted, hs, rfl⟩ := (isPlainPage_iff h).1 hp
  obtain ⟨sorted', hs', rfl⟩ := (isPlainPage_iff h).1 hp'
  rw [hs.unique (SortKey.totalPreorderOn_compareAll _) (fun f hf => sound_of_mem_narrowed h hf) hs']

/-- The page of every query is the one page of the plain pipeline. -/
theorem page_eq_iff_isPlainPage (h : Dataset.ofTable rows records = .ok d) (q : Query) (p : Page) :
    q.page d = p ↔ q.IsPlainPage d p := by
  constructor
  · rintro rfl
    exact isPlainPage_page h q
  · exact (isPlainPage_page h q).unique h

/-- Two pages of the sample: the second of three narrowed foods in the order of a hidden key and two
others, and the one food that has a text in its name and enough water. -/
theorem page_eq_iff_isPlainPage_sample : ∃ d,
    Dataset.ofTable Dataset.sampleRows Dataset.sampleRecords = .ok d ∧
    page { sampleQuery with offset := 1, limit := 1 } d =
      { foods := [⟨"08039", " +08 ", "1", "shiitake", [⟨⟨"WATER", 1⟩, .trace true, "g", ""⟩], 8⟩]
        total := 3
        offset := 1
        limit := 1 } ∧
    page { name := some "i", conditions := some [⟨⟨"WATER", 1⟩, .above, .ofNat 19⟩] } d =
      { foods := [⟨"08001", "8", "3", "enoki",
          [⟨⟨"ENERC_KCAL", 0⟩, .number .zero false, "kcal", "energy"⟩,
            ⟨⟨"WATER", 1⟩, .number (.ofNat 20) true, "g", ""⟩], 8⟩]
        total := 1
        offset := 0
        limit := 10 } := by
  obtain ⟨d, hd⟩ := Dataset.exists_ofTable_sample
  refine ⟨d, hd, ?inOrder, ?tested⟩
  case inOrder =>
    refine (page_eq_iff_isPlainPage hd _ _).2 ⟨[
      ⟨"08001", "8", "3", "enoki", [⟨⟨"WATER", 1⟩, .number (.ofNat 20) true, "g", ""⟩], 8⟩,
      ⟨"08039", " +08 ", "1", "shiitake", [⟨⟨"WATER", 1⟩, .trace true, "g", ""⟩], 8⟩,
      ⟨"11123", "11", "2", "pork",
        [⟨⟨"WATER", 1⟩, .number { ofNat 15 with negative := true } false, "g", ""⟩], 11⟩], ?_, rfl⟩
    rw [Dataset.foods_sample hd]
    decide +kernel
  case tested =>
    refine (page_eq_iff_isPlainPage hd _ _).2 ⟨[⟨"08001", "8", "3", "enoki",
      Dataset.sampleMeasurements (.number .zero false) (.number (.ofNat 20) true), 8⟩], ?_, rfl⟩
    rw [Dataset.foods_sample hd]
    decide +kernel

end Query

end FoodTable
