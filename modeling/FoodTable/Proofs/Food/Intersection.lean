import FoodTable.Proofs.Dataset.Loading
import FoodTable.Query.Selection

/-!
# Narrowing to several sets of tags

Narrowing a food to several sets of tags, one after the other, is narrowing it once to the tags that
all of them have, so their order makes no difference. What is left of the food are the measurements
of these tags, in their order and unchanged (`Food.ShowsOnly`): a tag that some set does not have is
missing, to conditions as well, and every other tag has the amount that it had.
-/

namespace FoodTable

/-- The tags are those that all sets have. -/
def IsIntersection (sets : List (List Tag)) (tags : List Tag) : Prop :=
  ∀ t, t ∈ tags ↔ ∀ s ∈ sets, t ∈ s

theorem exists_isIntersection {sets : List (List Tag)} (h : sets ≠ []) :
    ∃ tags, IsIntersection sets tags := by
  obtain ⟨s, sets, rfl⟩ := List.exists_cons_of_ne_nil h
  refine ⟨s.filter fun t => sets.all (·.contains t), fun t => ?_⟩
  simp [List.mem_filter]

namespace Food

/-- The food narrowed to one set of tags after the other. -/
def narrowAll (sets : List (List Tag)) (f : Food) : Food :=
  sets.foldl (fun f tags => f.narrow tags) f

/-- Of the food `f` the food `g` shows what all sets of tags have, and nothing else of its
measurements. -/
structure ShowsOnly (sets : List (List Tag)) (f g : Food) : Prop where
  id : g.id = f.id
  category : g.category = f.category
  index : g.index = f.index
  name : g.name = f.name
  categoryCode : g.categoryCode = f.categoryCode
  inOrder : g.measurements.Sublist f.measurements
  kept : ∀ m, m ∈ g.measurements ↔ m ∈ f.measurements ∧ ∀ s ∈ sets, m.tag ∈ s
  value_of_mem : ∀ t, (∀ s ∈ sets, t ∈ s) → g.value? t = f.value? t
  value_of_not_mem : ∀ t, (¬ ∀ s ∈ sets, t ∈ s) → g.value? t = none
  condition : ∀ c : Condition,
    c.satisfiedBy g = true ↔ (∀ s ∈ sets, c.tag ∈ s) ∧ c.satisfiedBy f = true

variable {f : Food} {sets sets' : List (List Tag)} {tags : List Tag}

@[simp] theorem narrowAll_nil (f : Food) : f.narrowAll [] = f := rfl

@[simp] theorem narrowAll_cons (s : List Tag) (sets : List (List Tag)) (f : Food) :
    f.narrowAll (s :: sets) = (f.narrow s).narrowAll sets := rfl

/-- Only the measurements change. -/
theorem narrowAll_eq (sets : List (List Tag)) (f : Food) : f.narrowAll sets =
    { f with measurements := f.measurements.filter fun m => ∀ s ∈ sets, m.tag ∈ s } := by
  induction sets generalizing f with
  | nil => simp
  | cons s sets ih =>
    rw [narrowAll_cons, ih]
    unfold narrow
    simp [List.filter_filter, Bool.and_comm]

theorem narrowAll_eq_narrow (h : IsIntersection sets tags) : f.narrowAll sets = f.narrow tags := by
  rw [narrowAll_eq]
  unfold narrow
  congr 1
  refine List.filter_congr fun m _ => ?_
  simp [← h m.tag]

theorem narrowAll_eq_of_perm (h : sets'.Perm sets) (f : Food) :
    f.narrowAll sets' = f.narrowAll sets := by
  simp only [narrowAll_eq, h.mem_iff]

/-- A tag is missing as soon as one set does not have it. -/
theorem value?_narrowAll (h : f.Sound) (sets : List (List Tag)) (t : Tag) :
    (f.narrowAll sets).value? t = if ∀ s ∈ sets, t ∈ s then f.value? t else none := by
  induction sets generalizing f with
  | nil => simp
  | cons s sets ih =>
    rw [narrowAll_cons, ih (h.narrow s), value?_narrow h]
    by_cases hs : t ∈ s <;> simp [hs]

theorem satisfiedBy_narrowAll (h : f.Sound) (sets : List (List Tag)) (c : Condition) :
    c.satisfiedBy (f.narrowAll sets) = true ↔
      (∀ s ∈ sets, c.tag ∈ s) ∧ c.satisfiedBy f = true := by
  unfold Condition.satisfiedBy
  rw [value?_narrowAll h]
  by_cases hc : ∀ s ∈ sets, c.tag ∈ s
  · rw [if_pos hc]
    exact (and_iff_right hc).symm
  · rw [if_neg hc]
    exact iff_of_false Bool.false_ne_true fun hs => hc hs.1

theorem showsOnly_narrowAll (h : f.Sound) (sets : List (List Tag)) :
    ShowsOnly sets f (f.narrowAll sets) where
  id := by rw [narrowAll_eq]
  category := by rw [narrowAll_eq]
  index := by rw [narrowAll_eq]
  name := by rw [narrowAll_eq]
  categoryCode := by rw [narrowAll_eq]
  inOrder := by
    rw [narrowAll_eq]
    exact List.filter_sublist
  kept m := by
    rw [narrowAll_eq]
    simp [List.mem_filter]
  value_of_mem t ht := by rw [value?_narrowAll h, if_pos ht]
  value_of_not_mem t ht := by rw [value?_narrowAll h, if_neg ht]
  condition := satisfiedBy_narrowAll h sets

end Food

namespace Dataset

variable {d : Dataset} {f : Food} {rows : List Row} {records : List TagRecord}
  {sets sets' : List (List Tag)}

/-- Narrowing a food of a dataset to several sets of tags, in any order, is narrowing it once to
their intersection. The food then shows what all sets have and nothing else. -/
theorem narrowAll_intersection (h : ofTable rows records = .ok d) (hf : d.Narrowed f)
    (hsets : sets ≠ []) (hperm : sets'.Perm sets) :
    (∃ tags, IsIntersection sets tags) ∧
      (∀ tags, IsIntersection sets tags → f.narrowAll sets' = f.narrow tags) ∧
      Food.ShowsOnly sets f (f.narrowAll sets') := by
  rw [Food.narrowAll_eq_of_perm hperm]
  exact ⟨exists_isIntersection hsets, fun _ => Food.narrowAll_eq_narrow,
    Food.showsOnly_narrowAll (hf.sound h) sets⟩

/-- Two sets that have one tag in common. A trace of another nutrient is missing after narrowing,
as the second set has its name with another column. -/
theorem narrowAll_intersection_sample : ∃ d f, ofTable sampleRows sampleRecords = .ok d ∧
    f ∈ d.foods ∧ f.value? ⟨"WATER", 1⟩ = some .zero ∧
    ∃ g, f.narrowAll [[⟨"WATER", 0⟩, ⟨"ENERC_KCAL", 0⟩], [⟨"ENERC_KCAL", 0⟩, ⟨"WATER", 1⟩]] = g ∧
      g = f.narrow [⟨"ENERC_KCAL", 0⟩] ∧ g.value? ⟨"ENERC_KCAL", 0⟩ = some (.ofNat 20) ∧
      g.value? ⟨"WATER", 1⟩ = none := by
  obtain ⟨d, hd⟩ := exists_ofTable_sample
  obtain ⟨f, hf, hgives⟩ := exists_of_forall₂ (gives_of_ofTable hd)
    (x := [some " +08 ", some "08039", some "1", some "shiitake", some "20", some "(Tr)"])
    (by decide)
  have hmem : f ∈ d.foods := Array.mem_toList_iff.1 hf
  have hwater : f.value? ⟨"WATER", 1⟩ = some .zero :=
    (hgives.value?_eq (j := 1) rfl rfl).trans (by decide +kernel)
  have henergy : f.value? ⟨"ENERC_KCAL", 0⟩ = some (.ofNat 20) :=
    (hgives.value?_eq (j := 0) rfl rfl).trans (by decide +kernel)
  have hcommon : IsIntersection [[⟨"ENERC_KCAL", 0⟩, ⟨"WATER", 1⟩],
      [⟨"WATER", 0⟩, ⟨"ENERC_KCAL", 0⟩]] [⟨"ENERC_KCAL", 0⟩] := by
    intro t
    rw [List.forall_mem_cons, List.forall_mem_singleton, List.mem_singleton, List.mem_pair,
      List.mem_pair]
    constructor
    · rintro rfl
      exact ⟨.inl rfl, .inr rfl⟩
    · rintro ⟨rfl | rfl, hcolumn | hname⟩
      · rfl
      · rfl
      · exact absurd hcolumn (by decide)
      · exact hname
  obtain ⟨-, hnarrow, hshows⟩ := narrowAll_intersection hd (.whole hmem)
    (List.cons_ne_nil _ _) (List.Perm.swap _ _ _)
  refine ⟨d, f, hd, hmem, hwater, _, rfl, hnarrow _ hcommon, ?_, ?_⟩
  · rw [hshows.value_of_mem _ (by decide)]
    exact henergy
  · exact hshows.value_of_not_mem _ (by decide)

end Dataset

end FoodTable
