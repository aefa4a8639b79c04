import FoodTable.Proofs.Dataset.Loading
import FoodTable.Proofs.Order.StableSort
import FoodTable.Query.Order

/-!
# Comparing foods

A key gives every food a place (`SortKey.rank`), with missing amounts at the end whatever the
direction. Amounts of the table are finite, so any two of them compare, and comparing foods on a key
is comparing their places. Comparing on several keys breaks the ties of one total preorder by the
next, and so is a total preorder again.
-/

namespace FoodTable

theorem Binary64.compare?_of_isFinite {x y : Binary64} (hx : x.isFinite = true)
    (hy : y.isFinite = true) : x.compare? y = some (compare x.index y.index) := by
  unfold compare?
  rw [isNan_eq_false_of_isFinite hx, isNan_eq_false_of_isFinite hy]
  rfl

/-! ## Places on one key -/

theorem compare_neg (m n : ℤ) : compare (-m) (-n) = (compare m n).swap := by
  rcases lt_trichotomy m n with h | h | h
  · rw [compare_lt_iff_lt.2 h, compare_gt_iff_gt.2 (Int.neg_lt_neg h)]
    rfl
  · rw [compare_eq_iff_eq.2 h, compare_eq_iff_eq.2 (congrArg _ h)]
    rfl
  · rw [compare_gt_iff_gt.2 h, compare_lt_iff_lt.2 (Int.neg_lt_neg h)]
    rfl

namespace SortKey

/-- The place of a food in the order of a key: whether its amount is missing, and the amount. -/
def rank (k : SortKey) (f : Food) : Nat × Int :=
  match f.value? k.tag with
  | some x => (0, if k.descending then -x.index else x.index)
  | none => (1, 0)

variable {k : SortKey} {a b : Food}

theorem compare_eq_compare_rank (ha : a.Sound) (hb : b.Sound) : k.compare a b =
    (Ord.compare (k.rank a).1 (k.rank b).1).then (Ord.compare (k.rank a).2 (k.rank b).2) := by
  unfold SortKey.compare rank
  cases hx : a.value? k.tag with
  | none => cases b.value? k.tag <;> rfl
  | some x =>
    cases hy : b.value? k.tag with
    | none => rfl
    | some y =>
      have hxf := Food.isFinite_of_value? ha hx
      have hyf := Food.isFinite_of_value? hb hy
      dsimp only
      rw [Binary64.compare?_of_isFinite hxf hyf, Option.getD_some, compare_eq_iff_eq.2 rfl,
        Ordering.then]
      cases k.descending with
      | false => rfl
      | true => exact (compare_neg _ _).symm

theorem totalPreorderOn_compare (k : SortKey) : TotalPreorderOn Food.Sound k.compare := by
  have hmissing : TotalPreorderOn Food.Sound fun a b => Ord.compare (k.rank a).1 (k.rank b).1 :=
    .of_rank fun f => (k.rank f).1
  have hamount : TotalPreorderOn Food.Sound fun a b => Ord.compare (k.rank a).2 (k.rank b).2 :=
    .of_rank fun f => (k.rank f).2
  exact (hmissing.lex hamount).congr fun _ _ => compare_eq_compare_rank

/-! ## Several keys -/

theorem compareAll_cons (k : SortKey) (keys : List SortKey) (a b : Food) :
    compareAll (k :: keys) a b = (k.compare a b).then (compareAll keys a b) := rfl

theorem totalPreorderOn_compareAll (keys : List SortKey) :
    TotalPreorderOn Food.Sound (compareAll keys) := by
  induction keys with
  | nil => exact .const_eq
  | cons k keys ih => exact (totalPreorderOn_compare k).lex ih

/-! ## Sorted foods -/

theorem stableSort_sort (keys : List SortKey) {foods : List Food}
    (hfoods : ∀ f ∈ foods, f.Sound) : StableSort (compareAll keys) foods (sort keys foods) :=
  stableSort_mergeSort (totalPreorderOn_compareAll keys) hfoods

theorem mem_sort {keys : List SortKey} {foods : List Food} {f : Food} :
    f ∈ sort keys foods ↔ f ∈ foods :=
  (List.mergeSort_perm _ _).mem_iff

/-- Filtering before or after a sort comes to the same. -/
theorem filter_sort (keys : List SortKey) (test : Food → Bool) {foods : List Food}
    (hfoods : ∀ f ∈ foods, f.Sound) :
    (sort keys foods).filter test = sort keys (foods.filter test) := by
  have hsound (f : Food) (hf : f ∈ foods.filter test) : f.Sound :=
    hfoods f (List.mem_of_mem_filter hf)
  apply StableSort.unique (totalPreorderOn_compareAll keys) hsound
  · exact (stableSort_sort keys hfoods).filter test
  · exact stableSort_sort keys hsound

/-! ## Narrowed foods -/

/-- A key that narrowing hides tells no two foods apart, and any other key sees the whole foods. -/
theorem compare_narrow (ha : a.Sound) (hb : b.Sound) (tags : List Tag) (k : SortKey) :
    k.compare (a.narrow tags) (b.narrow tags) =
      if tags.contains k.tag then k.compare a b else .eq := by
  unfold SortKey.compare
  rw [Food.value?_narrow ha, Food.value?_narrow hb]
  by_cases ht : tags.contains k.tag
  · rw [if_pos ht, if_pos ht, if_pos ht]
  · rw [if_neg ht, if_neg ht, if_neg ht]

theorem compareAll_narrow (ha : a.Sound) (hb : b.Sound) (tags : List Tag) (keys : List SortKey) :
    compareAll keys (a.narrow tags) (b.narrow tags) =
      compareAll (keys.filter fun k => tags.contains k.tag) a b := by
  induction keys with
  | nil => rfl
  | cons k keys ih =>
    rw [compareAll_cons, compare_narrow ha hb, ih]
    by_cases ht : tags.contains k.tag
    · rw [if_pos ht, List.filter_cons_of_pos (by exact ht), compareAll_cons]
    · rw [if_neg ht, List.filter_cons_of_neg (by exact ht), Ordering.then]

end SortKey

/-! ## Foods of a dataset -/

namespace Dataset

variable {d : Dataset} {rows : List Row} {records : List TagRecord}

/-- Every amount of a food that comes from a loaded dataset is finite, so any two amounts compare,
and comparing such foods on any keys is a total preorder. -/
theorem totalPreorderOn_compareAll_narrowed (h : ofTable rows records = .ok d) :
    (∀ f, d.Narrowed f → ∀ m ∈ f.measurements, ∀ x, m.reading.value = some x →
      x.isFinite = true) ∧
    (∀ f g, d.Narrowed f → d.Narrowed g → ∀ t x y, f.value? t = some x → g.value? t = some y →
      (x.compare? y).isSome = true) ∧
    ∀ keys, TotalPreorderOn d.Narrowed (SortKey.compareAll keys) := by
  refine ⟨fun f hf => (hf.sound h).finite, fun f g hf hg t x y hx hy => ?_, fun keys => ?_⟩
  · have hxf := Food.isFinite_of_value? (hf.sound h) hx
    have hyf := Food.isFinite_of_value? (hg.sound h) hy
    rw [Binary64.compare?_of_isFinite hxf hyf]
    rfl
  · exact (SortKey.totalPreorderOn_compareAll keys).mono fun f hf => hf.sound h

theorem totalPreorderOn_compareAll_sample : ∃ d, ofTable sampleRows sampleRecords = .ok d ∧
    TotalPreorderOn d.Narrowed
      (SortKey.compareAll [⟨⟨"WATER", 1⟩, true⟩, ⟨⟨"ENERC_KCAL", 0⟩, false⟩]) := by
  obtain ⟨d, hd⟩ := exists_ofTable_sample
  exact ⟨d, hd, (totalPreorderOn_compareAll_narrowed hd).2.2 _⟩

end Dataset

end FoodTable
