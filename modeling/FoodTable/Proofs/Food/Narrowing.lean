import FoodTable.Proofs.Cell.Reading
import FoodTable.Dataset.Basic
import Mathlib.Data.List.Find
import Mathlib.Data.List.Nodup

/-!
# Narrowed foods

In a food of the table every measurement stands at the column of its tag. Narrowing loses that, but
it keeps two things (`Food.Sound`): no tag is measured twice, and every amount is finite. So looking
at the column of a tag first finds nothing else than a search does, and the amount of a tag in a
narrowed food is its amount in the whole food or, if the tag is not kept, missing.
-/

namespace FoodTable

/-- No tag is measured twice, and every amount is a finite number. -/
structure Food.Sound (f : Food) : Prop where
  nodup : (f.measurements.map (·.tag)).Nodup
  finite : ∀ m ∈ f.measurements, m.reading.IsFinite

/-- The foods that come from a dataset by narrowing, any number of times. -/
inductive Dataset.Narrowed (d : Dataset) : Food → Prop where
  | whole {f : Food} (h : f ∈ d.foods) : Narrowed d f
  | narrow {f : Food} (h : Narrowed d f) (tags : List Tag) : Narrowed d (f.narrow tags)

namespace Food

variable {f g : Food} {t : Tag} {tags : List Tag}

section Search

variable (h : (f.measurements.map (·.tag)).Nodup)

include h

theorem find?_eq_of_mem {m : Measurement} (hm : m ∈ f.measurements) :
    f.measurements.find? (·.tag = m.tag) = some m := by
  cases hn : f.measurements.find? (·.tag = m.tag) with
  | none => exact absurd (List.find?_eq_none.1 hn m hm) (by simp)
  | some n =>
    have htag : n.tag = m.tag := by simpa using List.find?_some hn
    rw [List.inj_on_of_nodup_map h (List.mem_of_find?_eq_some hn) hm htag]

/-- The column of a tag gives no other measurement than a search. -/
theorem measurement?_eq_find? (t : Tag) :
    f.measurement? t = f.measurements.find? (·.tag = t) := by
  unfold measurement?
  cases hm : f.measurements[t.column]? with
  | none => rfl
  | some m =>
    dsimp only
    split
    · rename_i htag
      rw [← htag, find?_eq_of_mem h (List.mem_of_getElem? hm)]
    · rfl

theorem measurement?_eq_some_iff {m : Measurement} :
    f.measurement? t = some m ↔ m ∈ f.measurements ∧ m.tag = t := by
  rw [measurement?_eq_find? h]
  constructor
  · exact fun hm => ⟨List.mem_of_find?_eq_some hm, by simpa using List.find?_some hm⟩
  · rintro ⟨hm, rfl⟩
    exact find?_eq_of_mem h hm

theorem value?_eq_some_iff {x : Binary64} :
    f.value? t = some x ↔ ∃ m ∈ f.measurements, m.tag = t ∧ m.reading.value = some x := by
  unfold value?
  simp only [Option.bind_eq_some_iff, measurement?_eq_some_iff h, and_assoc]

end Search

theorem isFinite_of_value? (h : f.Sound) {x : Binary64} (hx : f.value? t = some x) :
    x.isFinite = true := by
  obtain ⟨m, hm, -, hv⟩ := (value?_eq_some_iff h.nodup).1 hx
  exact h.finite m hm x hv

/-! ## Narrowing -/

theorem Sound.narrow (h : f.Sound) (tags : List Tag) : (f.narrow tags).Sound where
  nodup := h.nodup.sublist (List.filter_sublist.map _)
  finite m hm := h.finite m (List.mem_of_mem_filter hm)

theorem Sound.narrowTo (h : f.Sound) (tags : Option (List Tag)) : (f.narrowTo tags).Sound := by
  cases tags with
  | none => exact h
  | some tags => exact h.narrow tags

@[simp] theorem id_narrowTo (tags : Option (List Tag)) : (f.narrowTo tags).id = f.id := by
  cases tags <;> rfl

theorem measurement?_narrow (h : f.Sound) (tags : List Tag) (t : Tag) :
    (f.narrow tags).measurement? t = if tags.contains t then f.measurement? t else none := by
  rw [measurement?_eq_find? (h.narrow tags).nodup, measurement?_eq_find? h.nodup]
  unfold narrow
  rw [List.find?_filter]
  split
  · rename_i ht
    refine List.find?_congr fun m _ => ?_
    by_cases hm : m.tag = t
    · simpa [hm] using ht
    · simp [hm]
  · rename_i ht
    rw [List.find?_eq_none]
    intro m _ hm
    simp only [decide_eq_true_eq] at hm
    exact ht (hm.2 ▸ hm.1)

theorem value?_narrow (h : f.Sound) (tags : List Tag) (t : Tag) :
    (f.narrow tags).value? t = if tags.contains t then f.value? t else none := by
  unfold value?
  rw [measurement?_narrow h]
  split <;> rfl

/-- The food with those of its measurements, in their order, whose tags are asked for. -/
def keepOnly (tags : Option (List Tag)) (f : Food) : Food :=
  { f with measurements := f.measurements.filter fun m => ∀ ts ∈ tags, m.tag ∈ ts }

theorem narrowTo_eq_keepOnly (tags : Option (List Tag)) (f : Food) :
    f.narrowTo tags = f.keepOnly tags := by
  unfold narrowTo keepOnly
  cases tags with
  | none => simp
  | some tags => simp [narrow]

end Food

end FoodTable
