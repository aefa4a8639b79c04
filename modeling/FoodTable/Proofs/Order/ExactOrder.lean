import FoodTable.Proofs.Binary64.ExactValue
import FoodTable.Proofs.Order.Comparison

/-!
# The order of foods

Foods in the order of some keys (`SortKey.IsOrdered`), said without the comparison that sorts them:
a key goes by the exact amount of its tag, a food without one comes last in both directions, the
first key that tells two foods apart decides, and foods that no key tells apart stand as before.
Sorting gives the one list that is ordered so.
-/

namespace FoodTable

namespace SortKey

/-! ## Places by exact amounts -/

/-- The exact amount that a key goes by, if the food has one. -/
def amount? (k : SortKey) (f : Food) : Option Int :=
  ((f.measurements.find? (·.tag = k.tag)).bind (·.reading.value)).map Binary64.exact

/-- The key puts `a` before `b`: there is an amount of `a`, and if there is one of `b`, it comes
later in the direction of the key. -/
def PutsBefore (k : SortKey) (a b : Food) : Prop :=
  ∃ x, k.amount? a = some x ∧
    ∀ y, k.amount? b = some y → if k.descending then y < x else x < y

/-- No key tells the foods apart. -/
def TieOn (keys : List SortKey) (a b : Food) : Prop := ∀ k ∈ keys, k.amount? a = k.amount? b

instance (keys : List SortKey) (a b : Food) : Decidable (TieOn keys a b) :=
  inferInstanceAs (Decidable (∀ k ∈ keys, k.amount? a = k.amount? b))

/-- The first key that tells the foods apart puts `a` before `b`. -/
def Precedes (keys : List SortKey) (a b : Food) : Prop :=
  ∃ before k after, keys = before ++ k :: after ∧ TieOn before a b ∧ k.PutsBefore a b

/-- The list `sorted` has the foods in the order of the keys: nowhere does a food stand after one
that it precedes, and foods that tie with each other stand in the order in which they came. -/
structure IsOrdered (keys : List SortKey) (foods sorted : List Food) : Prop where
  perm : sorted.Perm foods
  order : sorted.Pairwise fun a b => ¬ Precedes keys b a
  ties : ∀ a ∈ foods, sorted.filter (TieOn keys a ·) = foods.filter (TieOn keys a ·)

variable {k : SortKey} {keys : List SortKey} {a b : Food} {foods sorted : List Food}

/-! ## Deciding the order -/

theorem precedes_cons_iff : Precedes (k :: keys) a b ↔
    k.PutsBefore a b ∨ k.amount? a = k.amount? b ∧ Precedes keys a b := by
  constructor
  · rintro ⟨before, k', after, hkeys, hties, hk⟩
    cases before with
    | nil =>
      obtain ⟨rfl, -⟩ := List.cons.inj hkeys
      exact .inl hk
    | cons k₀ before =>
      obtain ⟨rfl, rfl⟩ := List.cons.inj hkeys
      obtain ⟨htie, hties⟩ := List.forall_mem_cons.1 hties
      exact .inr ⟨htie, before, k', after, rfl, hties, hk⟩
  · rintro (hk | ⟨htie, before, k', after, rfl, hties, hk⟩)
    · exact ⟨[], k, keys, rfl, List.forall_mem_nil _, hk⟩
    · exact ⟨k :: before, k', after, rfl, List.forall_mem_cons.2 ⟨htie, hties⟩, hk⟩

theorem not_precedes_nil : ¬ Precedes [] a b := by
  rintro ⟨before, k, after, hkeys, -⟩
  exact absurd hkeys.symm (by simp)

instance (k : SortKey) (a b : Food) : Decidable (k.PutsBefore a b) :=
  inferInstanceAs (Decidable (∃ x ∈ k.amount? a,
    ∀ y ∈ k.amount? b, if k.descending then y < x else x < y))

instance decidablePrecedes (a b : Food) : ∀ keys : List SortKey, Decidable (Precedes keys a b)
  | [] => isFalse not_precedes_nil
  | _ :: keys =>
    have := decidablePrecedes a b keys
    decidable_of_iff' _ precedes_cons_iff

instance (keys : List SortKey) (foods sorted : List Food) :
    Decidable (IsOrdered keys foods sorted) :=
  decidable_of_iff (sorted.Perm foods ∧ (sorted.Pairwise fun a b => ¬ Precedes keys b a) ∧
      ∀ a ∈ foods, sorted.filter (TieOn keys a ·) = foods.filter (TieOn keys a ·))
    ⟨fun ⟨hperm, horder, hties⟩ => ⟨hperm, horder, hties⟩,
      fun ⟨hperm, horder, hties⟩ => ⟨hperm, horder, hties⟩⟩

theorem amount?_eq (ha : a.Sound) (k : SortKey) :
    k.amount? a = (a.value? k.tag).map Binary64.exact := by
  unfold amount? Food.value?
  rw [Food.measurement?_eq_find? ha.nodup]

/-! ## Comparing by exact amounts -/

section Sound

variable (ha : a.Sound) (hb : b.Sound)

include ha hb

theorem compare_eq_amounts (k : SortKey) : k.compare a b =
    match k.amount? a, k.amount? b with
    | some x, some y => if k.descending then (Ord.compare x y).swap else Ord.compare x y
    | some _, none => .lt
    | none, some _ => .gt
    | none, none => .eq := by
  rw [amount?_eq ha, amount?_eq hb]
  unfold SortKey.compare
  cases hx : a.value? k.tag with
  | none => cases b.value? k.tag <;> rfl
  | some x =>
    cases hy : b.value? k.tag with
    | none => rfl
    | some y =>
      have hxf := Food.isFinite_of_value? ha hx
      have hyf := Food.isFinite_of_value? hb hy
      dsimp only [Option.map_some]
      rw [Binary64.compare?_of_isFinite hxf hyf, Binary64.compare_index, Option.getD_some]

theorem compare_eq_lt_iff : k.compare a b = .lt ↔ k.PutsBefore a b := by
  rw [compare_eq_amounts ha hb]
  unfold PutsBefore
  cases k.amount? a with
  | none => cases k.amount? b <;> simp
  | some x =>
    cases k.amount? b with
    | none => simp
    | some y =>
      simp only [Option.some.injEq, exists_eq_left', forall_eq']
      split
      · rw [Ordering.swap_eq_lt, compare_gt_iff_gt]
      · exact compare_lt_iff_lt

theorem compare_eq_eq_iff : k.compare a b = .eq ↔ k.amount? a = k.amount? b := by
  rw [compare_eq_amounts ha hb]
  cases k.amount? a with
  | none => cases k.amount? b <;> simp
  | some x =>
    cases k.amount? b with
    | none => simp
    | some y =>
      dsimp only
      split
      · rw [Ordering.swap_eq_eq, compare_eq_iff_eq, Option.some.injEq]
      · rw [compare_eq_iff_eq, Option.some.injEq]

theorem compareAll_eq_lt_iff : compareAll keys a b = .lt ↔ Precedes keys a b := by
  induction keys with
  | nil => exact iff_of_false (nomatch ·) not_precedes_nil
  | cons k keys ih =>
    rw [compareAll_cons, Ordering.then_eq_lt, compare_eq_lt_iff ha hb, compare_eq_eq_iff ha hb, ih,
      precedes_cons_iff]

theorem compareAll_eq_eq_iff : compareAll keys a b = .eq ↔ TieOn keys a b := by
  induction keys with
  | nil => exact iff_of_true rfl (List.forall_mem_nil _)
  | cons k keys ih =>
    unfold TieOn at ih ⊢
    rw [compareAll_cons, Ordering.then_eq_eq, compare_eq_eq_iff ha hb, ih, List.forall_mem_cons]

theorem compareAll_ne_gt_iff : compareAll keys a b ≠ .gt ↔ ¬ Precedes keys b a := by
  rw [← compareAll_eq_lt_iff hb ha, (totalPreorderOn_compareAll keys).swap a b ha hb,
    Ordering.swap_eq_lt]

end Sound

/-! ## Sorting -/

theorem isOrdered_iff_stableSort (hfoods : ∀ f ∈ foods, f.Sound) :
    IsOrdered keys foods sorted ↔ StableSort (compareAll keys) foods sorted := by
  have hfilter (a : Food) (ha : a ∈ foods) (fs : List Food) (hfs : fs ⊆ foods) :
      fs.filter (compareAll keys a · == .eq) = fs.filter (TieOn keys a ·) := by
    refine List.filter_congr fun b hb => ?_
    rw [Bool.eq_iff_iff, beq_iff_eq, decide_eq_true_iff,
      compareAll_eq_eq_iff (hfoods a ha) (hfoods b (hfs hb))]
  constructor
  · rintro ⟨hperm, horder, hties⟩
    refine ⟨hperm, ?_, fun a ha => ?_⟩
    · refine horder.imp_of_mem fun ha hb => ?_
      exact (compareAll_ne_gt_iff (hfoods _ (hperm.subset ha)) (hfoods _ (hperm.subset hb))).2
    · rw [hfilter a ha _ hperm.subset, hfilter a ha _ (List.Subset.refl _), hties a ha]
  · rintro ⟨hperm, hsorted, hties⟩
    refine ⟨hperm, ?_, fun a ha => ?_⟩
    · refine hsorted.imp_of_mem fun ha hb => ?_
      exact (compareAll_ne_gt_iff (hfoods _ (hperm.subset ha)) (hfoods _ (hperm.subset hb))).1
    · rw [← hfilter a ha _ hperm.subset, ← hfilter a ha _ (List.Subset.refl _), hties a ha]

theorem sort_eq_iff (hfoods : ∀ f ∈ foods, f.Sound) :
    sort keys foods = sorted ↔ IsOrdered keys foods sorted := by
  rw [isOrdered_iff_stableSort hfoods]
  constructor
  · rintro rfl
    exact stableSort_sort keys hfoods
  · exact (stableSort_sort keys hfoods).unique (totalPreorderOn_compareAll keys) hfoods

/-- Foods that are in order already stay as they are. -/
theorem sort_eq_self (hfoods : ∀ f ∈ foods, f.Sound)
    (horder : foods.Pairwise fun a b => ¬ Precedes keys b a) : sort keys foods = foods :=
  (sort_eq_iff hfoods).2 ⟨.refl foods, horder, fun _ _ => rfl⟩

theorem not_precedes_of_missing (h : ∀ k ∈ keys, k.amount? a = none) : ¬ Precedes keys a b := by
  rintro ⟨before, k, after, rfl, -, x, hx, -⟩
  rw [h k (by simp)] at hx
  cases hx

/-- Foods of tables, whole or narrowed, and any number of times each, are sorted into the one list
that has them in the order of the keys. If there is no key, or no food has an amount of any key,
they stay as they are. -/
theorem sort_eq_iff_isOrdered (keys : List SortKey)
    (hfoods : ∀ f ∈ foods, ∃ rows records d, Dataset.ofTable rows records = .ok d ∧ d.Narrowed f) :
    (∀ sorted, sort keys foods = sorted ↔ IsOrdered keys foods sorted) ∧
    sort [] foods = foods ∧
    ((∀ k ∈ keys, ∀ f ∈ foods, k.amount? f = none) → sort keys foods = foods) := by
  have hsound (f : Food) (hf : f ∈ foods) : f.Sound := by
    obtain ⟨rows, records, d, hd, hnarrowed⟩ := hfoods f hf
    exact hnarrowed.sound hd
  have hmissing (keys : List SortKey) (h : ∀ k ∈ keys, ∀ f ∈ foods, k.amount? f = none) :
      sort keys foods = foods := by
    refine sort_eq_self hsound (List.pairwise_of_forall_mem_list fun a _ b hb => ?_)
    exact not_precedes_of_missing fun k hk => h k hk b hb
  exact ⟨fun sorted => sort_eq_iff hsound, hmissing [] (List.forall_mem_nil _), hmissing keys⟩

/-- Whole foods, and the same foods once more without the amounts that the first key goes by. -/
theorem sort_eq_iff_isOrdered_sample : ∃ d,
    Dataset.ofTable Dataset.sampleRows Dataset.sampleRecords = .ok d ∧
    let foods := d.foods.toList ++ d.foods.toList.map (·.narrow [⟨"WATER", 1⟩])
    let keys : List SortKey := [⟨⟨"ENERC_KCAL", 0⟩, true⟩, ⟨⟨"WATER", 1⟩, false⟩]
    IsOrdered keys foods (sort keys foods) ∧ sort [] foods = foods := by
  obtain ⟨d, hd⟩ := Dataset.exists_ofTable_sample
  refine ⟨d, hd, ?_⟩
  intro foods keys
  have hfoods (f : Food) (hf : f ∈ foods) :
      ∃ rows records d, Dataset.ofTable rows records = .ok d ∧ d.Narrowed f := by
    refine ⟨_, _, d, hd, ?_⟩
    rcases List.mem_append.1 hf with hf | hf
    · exact .whole (Array.mem_toList_iff.1 hf)
    · obtain ⟨g, hg, rfl⟩ := List.mem_map.1 hf
      exact (Dataset.Narrowed.whole (Array.mem_toList_iff.1 hg)).narrow _
  obtain ⟨hsort, hempty, -⟩ := sort_eq_iff_isOrdered keys hfoods
  exact ⟨(hsort _).1 rfl, hempty⟩

end SortKey

end FoodTable
