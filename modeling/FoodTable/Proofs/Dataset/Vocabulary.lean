import FoodTable.Proofs.Dataset.Index
import FoodTable.Proofs.Except
import FoodTable.Vocabulary
import Mathlib.Data.List.Induction

/-!
# Vocabularies of metadata tables

A metadata table makes a vocabulary exactly if no name repeats. The vocabulary then has the records
of the table, a tag for each of them with its position as column, and an exact index of the names
(`Vocabulary.Holds`).
-/

namespace FoodTable

/-- The tags of a metadata table. -/
def tagsOf (records : List TagRecord) : List Tag := records.mapIdx fun column r => ⟨r.name, column⟩

@[simp] theorem length_tagsOf (records : List TagRecord) :
    (tagsOf records).length = records.length :=
  List.length_mapIdx

theorem getElem?_tagsOf (records : List TagRecord) (column : Nat) :
    (tagsOf records)[column]? = records[column]?.map fun r => ⟨r.name, column⟩ :=
  List.getElem?_mapIdx

theorem map_name_tagsOf (records : List TagRecord) :
    (tagsOf records).map (·.name) = records.map (·.name) := by
  refine List.ext_getElem? fun column => ?_
  rw [List.getElem?_map, getElem?_tagsOf, List.getElem?_map, Option.map_map]
  rfl

theorem mem_tagsOf_iff {records : List TagRecord} {t : Tag} :
    t ∈ tagsOf records ↔ records[t.column]?.map (·.name) = some t.name := by
  rw [List.mem_iff_getElem?]
  simp only [getElem?_tagsOf, Option.map_eq_some_iff]
  constructor
  · rintro ⟨column, r, hr, rfl⟩
    exact ⟨r, hr, rfl⟩
  · rintro ⟨r, hr, hname⟩
    exact ⟨t.column, r, hr, by rw [hname]⟩

theorem nodup_tagsOf (records : List TagRecord) : (tagsOf records).Nodup := by
  rw [List.nodup_iff_getElem?_ne_getElem?]
  intro i j hij hj heq
  rw [length_tagsOf] at hj
  rw [getElem?_tagsOf, getElem?_tagsOf, List.getElem?_eq_getElem hj,
    List.getElem?_eq_getElem (Nat.lt_trans hij hj), Option.map_some, Option.map_some,
    Option.some.injEq, Tag.mk.injEq] at heq
  exact absurd heq.2 (Nat.ne_of_lt hij)

/-- Where no name repeats, a tag is known by its name. -/
theorem tag_eq_of_name_eq {records : List TagRecord} {t t' : Tag}
    (hnodup : (records.map (·.name)).Nodup) (ht : t ∈ tagsOf records) (ht' : t' ∈ tagsOf records)
    (hname : t.name = t'.name) : t = t' := by
  rw [← map_name_tagsOf] at hnodup
  exact List.inj_on_of_nodup_map hnodup ht ht' hname

/-- A tag is known by its column. -/
theorem tag_eq_of_column_eq {records : List TagRecord} {t t' : Tag} (ht : t ∈ tagsOf records)
    (ht' : t' ∈ tagsOf records) (hcolumn : t.column = t'.column) : t = t' := by
  rw [mem_tagsOf_iff] at ht ht'
  rw [hcolumn, ht', Option.some.injEq] at ht
  rw [Tag.mk.injEq]
  exact ⟨ht.symm, hcolumn⟩

namespace Vocabulary

/-- The vocabulary has exactly the records of a metadata table, each under its own name. -/
structure Holds (v : Vocabulary) (table : List TagRecord) : Prop where
  tags : v.tags.toList = tagsOf table
  records : v.records.toList = table
  columns : Indexes v.columns (table.map (·.name))

variable {v : Vocabulary} {records : List TagRecord} {r : TagRecord}

theorem Holds.size (h : v.Holds records) : v.size = records.length := by
  unfold Vocabulary.size
  rw [← Array.length_toList, h.tags, length_tagsOf]

theorem Holds.getElem?_entries (h : v.Holds records) (j : Nat) :
    v.entries[j]? = records[j]?.map fun r => (⟨r.name, j⟩, r) := by
  unfold entries
  rw [h.tags, h.records, List.zip, List.getElem?_zipWith', getElem?_tagsOf]
  cases records[j]? <;> rfl

theorem Holds.length_entries (h : v.Holds records) : v.entries.length = records.length := by
  unfold entries
  rw [h.tags, h.records, List.length_zip, length_tagsOf, Nat.min_self]

/-- The index finds the tag of a name. -/
theorem Holds.lookup?_eq_some_iff (h : v.Holds records) {name : String} {t : Tag} :
    v.lookup? name = some t ↔ t ∈ tagsOf records ∧ t.name = name := by
  unfold lookup?
  simp only [Option.bind_eq_some_iff, h.columns name, List.getElem?_map, ← Array.getElem?_toList,
    h.tags, getElem?_tagsOf, mem_tagsOf_iff, Option.map_eq_some_iff]
  constructor
  · rintro ⟨column, ⟨r, hr, rfl⟩, r', hr', rfl⟩
    obtain rfl := Option.some.inj (hr.symm.trans hr')
    exact ⟨⟨r, hr, rfl⟩, rfl⟩
  · rintro ⟨⟨r, hr, hname⟩, rfl⟩
    exact ⟨t.column, ⟨r, hr, hname⟩, r, hr, by rw [hname]⟩

theorem Holds.lookup?_eq_none_iff (h : v.Holds records) {name : String} :
    v.lookup? name = none ↔ name ∉ records.map (·.name) := by
  rw [Option.eq_none_iff_forall_ne_some]
  simp only [ne_eq, h.lookup?_eq_some_iff, mem_tagsOf_iff]
  constructor
  · intro hno hmem
    obtain ⟨column, hcolumn⟩ := List.mem_iff_getElem?.1 hmem
    rw [List.getElem?_map] at hcolumn
    exact hno ⟨name, column⟩ ⟨hcolumn, rfl⟩
  · rintro hno t ⟨ht, rfl⟩
    rw [← List.getElem?_map] at ht
    exact hno (List.mem_of_getElem? ht)

theorem holds_empty : empty.Holds [] := ⟨rfl, rfl, Indexes.empty⟩

theorem Holds.push_of_mem (h : v.Holds records) (hr : r.name ∈ records.map (·.name)) :
    v.push r = .error r.name := by
  unfold push
  rw [if_pos (h.columns.contains_iff.2 hr)]

theorem Holds.push_of_not_mem (h : v.Holds records) (hr : r.name ∉ records.map (·.name)) :
    ∃ v', v.push r = .ok v' ∧ v'.Holds (records ++ [r]) := by
  unfold push
  rw [if_neg fun hc => hr (h.columns.contains_iff.1 hc)]
  refine ⟨_, rfl, ?_, ?_, ?_⟩
  · have hsize : v.tags.size = records.length := h.size
    rw [Array.toList_push, h.tags, hsize]
    exact List.mapIdx_concat.symm
  · rw [Array.toList_push, h.records]
  · have hsize : v.tags.size = (records.map (·.name)).length := by
      rw [List.length_map]
      exact h.size
    rw [hsize, List.map_append]
    exact h.columns.insert hr

/-! ## Metadata tables -/

theorem exists_ofRecords (h : (records.map (·.name)).Nodup) :
    ∃ v, ofRecords records = .ok v ∧ v.Holds records := by
  unfold ofRecords
  induction records using List.reverseRecOn with
  | nil => exact ⟨empty, rfl, holds_empty⟩
  | append_singleton records r ih =>
    rw [List.map_append, List.nodup_append] at h
    obtain ⟨v, hv, hholds⟩ := ih h.1
    obtain ⟨v', hv', hholds'⟩ := hholds.push_of_not_mem (r := r) fun hr =>
      h.2.2 r.name hr r.name (List.mem_singleton_self _) rfl
    rw [foldlM_append_one, hv]
    exact ⟨v', hv', hholds'⟩

theorem holds_of_ofRecords (h : ofRecords records = .ok v) : v.Holds records := by
  unfold ofRecords at h
  induction records using List.reverseRecOn generalizing v with
  | nil =>
    obtain rfl : empty = v := Except.ok.inj h
    exact holds_empty
  | append_singleton records r ih =>
    rw [foldlM_append_one, bind_eq_ok_iff] at h
    obtain ⟨w, hw, hpush⟩ := h
    by_cases hr : r.name ∈ records.map (·.name)
    · rw [(ih hw).push_of_mem hr] at hpush
      cases hpush
    · obtain ⟨v', hv', hholds⟩ := (ih hw).push_of_not_mem hr
      rw [hv'] at hpush
      obtain rfl := Except.ok.inj hpush
      exact hholds

/-- A metadata table makes a vocabulary exactly if no name repeats. -/
theorem ofRecords_eq_ok_iff : (∃ v, ofRecords records = .ok v) ↔ (records.map (·.name)).Nodup := by
  constructor
  · rintro ⟨v, h⟩
    exact (holds_of_ofRecords h).columns.nodup
  · intro h
    obtain ⟨v, hv, -⟩ := exists_ofRecords h
    exact ⟨v, hv⟩

end Vocabulary

end FoodTable
