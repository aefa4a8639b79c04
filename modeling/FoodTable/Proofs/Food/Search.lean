import FoodTable.Proofs.Dataset.Loading

/-!
# Finding measurements

A food looks for a tag at the column of the tag, and searches only if the tag is not there. The tags
of a food of the table are those of the vocabulary, and narrowing it any number of times leaves a
sublist of them (`Dataset.Narrowed.sublist_tags`). So no tag comes twice, and looking at the column
gives what a search from the left gives, also after narrowing has moved the measurements. A tag with
the name of one column and the position of another is never found.
-/

namespace FoodTable

variable {f : Food} {m : Measurement} {t : Tag} {d : Dataset} {rows : List Row}
  {records : List TagRecord}

/-- The measurement is that of a tag with the same name and the same column. -/
def Measurement.IsOf (m : Measurement) (t : Tag) : Prop :=
  m.tag.name = t.name ∧ m.tag.column = t.column

instance : Decidable (m.IsOf t) := inferInstanceAs (Decidable (_ ∧ _))

theorem Measurement.isOf_iff : m.IsOf t ↔ m.tag = t := by
  obtain ⟨name, column⟩ := t
  exact (Tag.mk.injEq ..).to_iff.symm

namespace Food

theorem find?_isOf (f : Food) (t : Tag) :
    f.measurements.find? (fun m => m.IsOf t) = f.measurements.find? (·.tag = t) := by
  simp only [Measurement.isOf_iff]

section Search

variable (h : (f.measurements.map (·.tag)).Nodup)

include h

/-- What is found is the only measurement of the tag. -/
theorem measurement?_eq_some_iff_append : f.measurement? t = some m ↔
    ∃ before after, f.measurements = before ++ m :: after ∧ m.IsOf t ∧
      (∀ n ∈ before, ¬ n.IsOf t) ∧ ∀ n ∈ after, ¬ n.IsOf t := by
  rw [measurement?_eq_some_iff h]
  simp only [Measurement.isOf_iff]
  constructor
  · rintro ⟨hmem, rfl⟩
    obtain ⟨before, after, heq⟩ := List.append_of_mem hmem
    rw [heq, List.map_append, List.map_cons, List.nodup_append, List.nodup_cons] at h
    obtain ⟨-, ⟨hafter, -⟩, hbefore⟩ := h
    refine ⟨before, after, heq, rfl, fun n hn htag => ?_, fun n hn htag => ?_⟩
    · exact hbefore _ (List.mem_map_of_mem hn) _ List.mem_cons_self htag
    · exact hafter (htag ▸ List.mem_map_of_mem hn)
  · rintro ⟨before, after, heq, htag, -, -⟩
    exact ⟨by simp [heq], htag⟩

theorem measurement?_eq_none_iff :
    f.measurement? t = none ↔ ∀ n ∈ f.measurements, ¬ n.IsOf t := by
  simp only [Option.eq_none_iff_forall_ne_some, ne_eq, measurement?_eq_some_iff h,
    Measurement.isOf_iff, not_and]

end Search

end Food

namespace Dataset

/-- Narrowing any number of times leaves a sublist of the tags of the vocabulary. -/
theorem Narrowed.sublist_tags (h : ofTable rows records = .ok d) (hf : d.Narrowed f) :
    (f.measurements.map (·.tag)).Sublist (tagsOf records) := by
  induction hf with
  | whole hmem =>
    obtain ⟨row, -, hrow⟩ :=
      exists_of_forall₂ (gives_of_ofTable h).flip (Array.mem_toList_iff.2 hmem)
    exact hrow.map_tag ▸ List.Sublist.refl _
  | narrow _ tags ih => exact (List.filter_sublist.map _).trans ih

/-- In every food that a dataset has or that narrowing makes of one, looking for a tag gives what
the search from the left for its name and column gives, and there is no other measurement with them.
Only a tag of the vocabulary is found. -/
theorem Narrowed.measurement?_eq_search (h : ofTable rows records = .ok d) (hf : d.Narrowed f)
    (t : Tag) :
    f.measurement? t = f.measurements.find? (fun m => m.IsOf t) ∧
      (∀ m, f.measurement? t = some m ↔
        ∃ before after, f.measurements = before ++ m :: after ∧ m.IsOf t ∧
          (∀ n ∈ before, ¬ n.IsOf t) ∧ ∀ n ∈ after, ¬ n.IsOf t) ∧
      (f.measurement? t = none ↔ ∀ m ∈ f.measurements, ¬ m.IsOf t) ∧
      f.value? t = (f.measurements.find? fun m => m.IsOf t).bind (·.reading.value) ∧
      (t ∉ tagsOf records → f.measurement? t = none) := by
  have hsub := hf.sublist_tags h
  have hnodup := (nodup_tagsOf records).sublist hsub
  have hsearch : f.measurement? t = f.measurements.find? (fun m => m.IsOf t) := by
    rw [Food.find?_isOf, Food.measurement?_eq_find? hnodup]
  refine ⟨hsearch, fun m => Food.measurement?_eq_some_iff_append hnodup,
    Food.measurement?_eq_none_iff hnodup, ?_, fun hforeign => ?_⟩
  · rw [← hsearch]
    rfl
  · rw [Food.measurement?_eq_none_iff hnodup]
    intro m hm hof
    have hmem := hsub.subset (List.mem_map_of_mem hm)
    rw [Measurement.isOf_iff.1 hof] at hmem
    exact hforeign hmem

/-- Foods narrowed twice, so that the one measurement left is not at the column of its tag. Tags
with its name or its column alone are not found. -/
theorem measurement?_eq_search_sample : ∃ d, ofTable sampleRows sampleRecords = .ok d ∧
    ∀ f ∈ d.foods, ∃ g m, d.Narrowed g ∧ g.measurements = [m] ∧
      g.measurement? ⟨"WATER", 1⟩ = some m ∧ g.measurement? ⟨"WATER", 0⟩ = none ∧
      g.measurement? ⟨"ENERC_KCAL", 1⟩ = none ∧ g.measurement? ⟨"WATER", 7⟩ = none := by
  obtain ⟨d, hd⟩ := exists_ofTable_sample
  refine ⟨d, hd, fun f hf => ?_⟩
  have hwhole := Narrowed.whole hf
  have hg := (hwhole.narrow [⟨"WATER", 1⟩, ⟨"WATER", 0⟩]).narrow [⟨"PROT-", 2⟩, ⟨"WATER", 1⟩]
  obtain ⟨row, -, hrow⟩ :=
    exists_of_forall₂ (gives_of_ofTable hd).flip (Array.mem_toList_iff.2 hf)
  obtain ⟨m, hm, htag⟩ : ∃ m, ((f.narrow [⟨"WATER", 1⟩, ⟨"WATER", 0⟩]).narrow
      [⟨"PROT-", 2⟩, ⟨"WATER", 1⟩]).measurements = [m] ∧ m.tag = ⟨"WATER", 1⟩ := by
    obtain ⟨energy, ms, hf, henergy, hms⟩ := List.map_eq_cons_iff.1 hrow.map_tag
    obtain ⟨water, hwater, hms⟩ := List.map_eq_singleton_iff.1 hms
    refine ⟨water, ?_, hms⟩
    unfold Food.narrow
    dsimp only
    rw [hf, hwater]
    simp [henergy, hms]
  have hother (t : Tag) (ht : t ≠ ⟨"WATER", 1⟩) : ∀ n ∈ [m], ¬ n.IsOf t := by
    rw [List.forall_mem_singleton, Measurement.isOf_iff, htag]
    exact ht.symm
  refine ⟨_, m, hg, hm, ?_, ?_, ?_, ?_⟩
  · exact ((hg.measurement?_eq_search hd _).2.1 m).2
      ⟨[], [], hm, Measurement.isOf_iff.2 htag, by simp, by simp⟩
  · exact (hg.measurement?_eq_search hd _).2.2.1.2 (hm ▸ hother _ (by decide))
  · exact (hg.measurement?_eq_search hd _).2.2.1.2 (hm ▸ hother _ (by decide))
  · exact (hg.measurement?_eq_search hd _).2.2.2.2 (by decide)

end Dataset

end FoodTable
