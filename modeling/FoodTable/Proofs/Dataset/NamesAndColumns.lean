import FoodTable.Proofs.Dataset.Faults
import Mathlib.Data.Set.Card
import Mathlib.Order.Bounds.Defs

/-!
# Names and columns

The tags of a vocabulary, its records and its index of names get one entry for each record of a
metadata table, so none of them is ever ahead of the others. The vocabulary pairs the names of the
table with its columns, one to one (`Vocabulary.PairsNames`), and a table has a vocabulary unless a
name repeats. The name that is reported is that of the first position where this is so.
-/

namespace FoodTable

/-! ## The first repetition -/

/-- The name at the position is also at a position before it. -/
def RepeatsAt (names : List String) (i : Nat) : Prop :=
  ∃ j < i, ∃ name, names[j]? = some name ∧ names[i]? = some name

section Repetitions

variable {names before after : List String} {name : String} {i : Nat}

theorem RepeatsAt.lt_length (h : RepeatsAt names i) : i < names.length := by
  obtain ⟨j, -, name, -, hi⟩ := h
  exact (List.getElem?_eq_some_iff.1 hi).1

theorem nodup_iff_forall_not_repeatsAt : names.Nodup ↔ ∀ i, ¬ RepeatsAt names i := by
  rw [List.nodup_iff_getElem?_ne_getElem?]
  constructor
  · intro h i hrepeats
    have hlt := hrepeats.lt_length
    obtain ⟨j, hj, name, hname, hi⟩ := hrepeats
    exact h j i hj hlt (hname.trans hi.symm)
  · intro h j i hj hi heq
    have hname := List.getElem?_eq_getElem hi
    exact h i ⟨j, hj, _, heq.trans hname, hname⟩

/-- Names that come later play no part. -/
theorem repeatsAt_append_iff (hi : i < before.length) :
    RepeatsAt (before ++ after) i ↔ RepeatsAt before i := by
  unfold RepeatsAt
  refine exists_congr fun j => and_congr_right fun hj => ?_
  rw [List.getElem?_append_left hi, List.getElem?_append_left (hj.trans hi)]

theorem repeatsAt_length_iff :
    RepeatsAt (before ++ name :: after) before.length ↔ name ∈ before := by
  unfold RepeatsAt
  rw [List.getElem?_append_right (Nat.le_refl _), Nat.sub_self, List.getElem?_cons_zero,
    List.mem_iff_getElem?]
  constructor
  · rintro ⟨j, hj, name', hname, hsame⟩
    rw [List.getElem?_append_left hj, ← hsame] at hname
    exact ⟨j, hname⟩
  · rintro ⟨j, hname⟩
    obtain ⟨hj, -⟩ := List.getElem?_eq_some_iff.1 hname
    exact ⟨j, hj, name, by rwa [List.getElem?_append_left hj], rfl⟩

/-- The names before a name are the only ones that decide whether it is the first to repeat. -/
theorem isLeast_repeatsAt_length_iff :
    IsLeast {i | RepeatsAt (before ++ name :: after) i} before.length ↔
      before.Nodup ∧ name ∈ before := by
  rw [nodup_iff_forall_not_repeatsAt, ← @repeatsAt_length_iff before after name]
  constructor
  · rintro ⟨hrepeats, hleast⟩
    refine ⟨fun i hi => ?_, hrepeats⟩
    have hlt := hi.lt_length
    exact absurd (hleast ((repeatsAt_append_iff hlt).2 hi)) (Nat.not_le.2 hlt)
  · rintro ⟨hbefore, hrepeats⟩
    refine ⟨hrepeats, fun i hi => Nat.not_lt.1 fun hlt => ?_⟩
    exact hbefore i ((repeatsAt_append_iff hlt).1 hi)

/-- The first name that repeats an earlier one is the name at the least position where one does. -/
theorem firstRepeat_iff_isLeast :
    FirstRepeat names name ↔ ∃ i, IsLeast {i | RepeatsAt names i} i ∧ names[i]? = some name := by
  constructor
  · rintro ⟨before, after, rfl, hnodup, hmem⟩
    exact ⟨_, isLeast_repeatsAt_length_iff.2 ⟨hnodup, hmem⟩, by simp⟩
  · rintro ⟨i, hleast, hname⟩
    obtain ⟨hlt, rfl⟩ := List.getElem?_eq_some_iff.1 hname
    have hparts : names.take i ++ names[i] :: names.drop (i + 1) = names := by
      rw [← List.drop_eq_getElem_cons hlt, List.take_append_drop]
    have hlength : (names.take i).length = i := List.length_take_of_le hlt.le
    have hleast' : IsLeast {k | RepeatsAt (names.take i ++ names[i] :: names.drop (i + 1)) k}
        (names.take i).length := by rwa [hparts, hlength]
    exact ⟨_, _, hparts.symm, isLeast_repeatsAt_length_iff.1 hleast'⟩

end Repetitions

/-! ## One to one -/

namespace Vocabulary

/-- The names of the metadata table are paired with its columns: a name of the table has the tag of
its own column, which goes with its own record, and no other text has a tag. The tags, the records,
the index and the names that have a tag are as many as there are records. -/
structure PairsNames (v : Vocabulary) (table : List TagRecord) : Prop where
  known : ∀ name, (∃ t, v.lookup? name = some t) ↔ ∃ r ∈ table, r.name = name
  own : ∀ name t, v.lookup? name = some t → ∀ (column : Nat) (r : TagRecord),
    table[column]? = some r → r.name = name →
      t.name = name ∧ t.column = column ∧ v.entries[column]? = some (t, r)
  oneToOne : ∀ name name' t t', v.lookup? name = some t → v.lookup? name' = some t' →
    (t.name = t'.name ↔ t = t') ∧ (t.column = t'.column ↔ t = t')
  size : v.size = table.length
  tags : v.tags.size = table.length
  records : v.records.size = table.length
  entries : v.entries.length = table.length
  columns : v.columns.size = table.length
  names : {name | ∃ t, v.lookup? name = some t}.ncard = table.length

variable {v : Vocabulary} {records : List TagRecord} {name : String} {t : Tag}

theorem Holds.exists_lookup?_iff (h : v.Holds records) :
    (∃ t, v.lookup? name = some t) ↔ name ∈ records.map (·.name) := by
  rw [← Option.ne_none_iff_exists', ne_eq, h.lookup?_eq_none_iff, not_not]

/-- The tag of a name is that of the column where the name stands. -/
theorem Holds.eq_of_lookup? (h : v.Holds records) (ht : v.lookup? name = some t) {column : Nat}
    (hcolumn : records[column]?.map (·.name) = some name) : t = ⟨name, column⟩ := by
  obtain ⟨hmem, hname⟩ := h.lookup?_eq_some_iff.1 ht
  exact tag_eq_of_name_eq h.columns.nodup hmem (mem_tagsOf_iff.2 hcolumn) hname

theorem Holds.ncard_names (h : v.Holds records) :
    {name | ∃ t, v.lookup? name = some t}.ncard = records.length := by
  have hnames : {name | ∃ t, v.lookup? name = some t} =
      ((records.map (·.name)).toFinset : Set String) := by
    ext name
    rw [Set.mem_ofPred_eq, h.exists_lookup?_iff, Finset.mem_coe, List.mem_toFinset]
  rw [hnames, Set.ncard_coe_finset, List.toFinset_card_of_nodup h.columns.nodup, List.length_map]

theorem Holds.pairsNames (h : v.Holds records) : v.PairsNames records where
  known name := by rw [h.exists_lookup?_iff, List.mem_map]
  own name t ht column r hr hname := by
    have hcolumn : records[column]?.map (·.name) = some name := by
      rw [hr, Option.map_some, hname]
    obtain rfl := h.eq_of_lookup? ht hcolumn
    refine ⟨rfl, rfl, ?_⟩
    rw [h.getElem?_entries, hr, Option.map_some, hname]
  oneToOne name name' t t' ht ht' := by
    have hmem := (h.lookup?_eq_some_iff.1 ht).1
    have hmem' := (h.lookup?_eq_some_iff.1 ht').1
    exact ⟨⟨tag_eq_of_name_eq h.columns.nodup hmem hmem', congrArg Tag.name⟩,
      ⟨tag_eq_of_column_eq hmem hmem', congrArg Tag.column⟩⟩
  size := h.size
  tags := h.size
  records := by rw [← Array.length_toList, h.records]
  entries := h.length_entries
  columns := by rw [h.columns.size, List.length_map]
  names := h.ncard_names

/-! ## Metadata tables -/

/-- A metadata table has a vocabulary unless a name repeats, and the vocabulary pairs its names with
its columns. Otherwise the name at the least position that repeats an earlier one is reported. -/
theorem ofRecords_pairsNames (records : List TagRecord) :
    (∀ name, ofRecords records = .error name ↔
      ∃ i, IsLeast {i | RepeatsAt (records.map (·.name)) i} i ∧
        (records.map (·.name))[i]? = some name) ∧
    ((∃ name, ofRecords records = .error name) ↔ ∃ i, RepeatsAt (records.map (·.name)) i) ∧
    ((∀ i, ¬ RepeatsAt (records.map (·.name)) i) →
      ∃ v, ofRecords records = .ok v ∧ v.PairsNames records) := by
  refine ⟨fun name => ?fault, ?fails, fun hnone => ?succeeds⟩
  case fault =>
    rw [ofRecords_eq_error_iff, firstRepeat_iff_isLeast]
  case fails =>
    rw [← not_iff_not, not_exists, ← exists_ok_iff_forall_ne_error, ofRecords_eq_ok_iff,
      nodup_iff_forall_not_repeatsAt, not_exists]
  case succeeds =>
    obtain ⟨v, hv, hholds⟩ := exists_ofRecords (nodup_iff_forall_not_repeatsAt.2 hnone)
    exact ⟨v, hv, hholds.pairsNames⟩

/-- Two names that repeat, of which the second one does so first, and a table whose names are alike
but not the same. -/
theorem ofRecords_pairsNames_sample :
    ofRecords [⟨"NA", "mg", ""⟩, ⟨"WATER", "g", ""⟩, ⟨"WATER", "mg", ""⟩, ⟨"NA", "", ""⟩] =
      .error "WATER" ∧
    ∃ v, ofRecords [⟨"PROT", "g", ""⟩, ⟨"PROT-", "g", "protein"⟩] = .ok v ∧
      v.lookup? "PROT-" = some ⟨"PROT-", 1⟩ ∧ v.lookup? "prot-" = none ∧
      v.entries[1]? = some (⟨"PROT-", 1⟩, ⟨"PROT-", "g", "protein"⟩) ∧ v.columns.size = 2 := by
  constructor
  · obtain ⟨hfault, -, -⟩ := ofRecords_pairsNames
      [⟨"NA", "mg", ""⟩, ⟨"WATER", "g", ""⟩, ⟨"WATER", "mg", ""⟩, ⟨"NA", "", ""⟩]
    rw [hfault, ← firstRepeat_iff_isLeast]
    exact ⟨["NA", "WATER"], ["NA"], rfl, by decide, by decide⟩
  · obtain ⟨-, -, hsucceeds⟩ := ofRecords_pairsNames [⟨"PROT", "g", ""⟩, ⟨"PROT-", "g", "protein"⟩]
    obtain ⟨v, hv, hpairs⟩ := hsucceeds (nodup_iff_forall_not_repeatsAt.1 (by decide))
    obtain ⟨t, ht⟩ := (hpairs.known "PROT-").2 ⟨⟨"PROT-", "g", "protein"⟩, by simp, rfl⟩
    obtain ⟨hname, hcolumn, hentry⟩ := hpairs.own "PROT-" t ht 1 _ rfl rfl
    obtain rfl : t = ⟨"PROT-", 1⟩ := by rw [Tag.mk.injEq]; exact ⟨hname, hcolumn⟩
    refine ⟨v, hv, ht, ?_, hentry, hpairs.columns⟩
    rw [Option.eq_none_iff_forall_ne_some]
    intro t' ht'
    obtain ⟨r, hr, hother⟩ := (hpairs.known "prot-").1 ⟨t', ht'⟩
    revert r
    decide

end Vocabulary

end FoodTable
