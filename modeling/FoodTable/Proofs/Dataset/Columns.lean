import FoodTable.Proofs.Dataset.Loading

/-!
# Tables with rearranged columns

The nutrient columns of a table in another order make a table again. It is well formed if the table
is, and each of its foods says the same as the food of the table that it comes from, in the order
of its own columns (`Food.SameIn`).
-/

namespace FoodTable

section Lists

variable {α β γ : Type} {columns : List Nat} {xs : List α} {ys : List β}

/-- The elements at some positions, in the order of the positions. -/
def rearrange (columns : List Nat) (xs : List α) : List α := columns.filterMap (xs[·]?)

theorem rearrange_range (xs : List α) : rearrange (List.range xs.length) xs = xs := by
  unfold rearrange
  induction xs using List.reverseRecOn with
  | nil => rfl
  | append_singleton xs x ih =>
    rw [List.length_append, List.length_singleton, List.range_succ, List.filterMap_append]
    -- the positions before the last one do not see the last element
    have hinit : (List.range xs.length).filterMap ((xs ++ [x])[·]?) = xs := by
      rw [List.filterMap_congr fun i hi => List.getElem?_append_left (List.mem_range.1 hi)]
      exact ih
    rw [hinit]
    simp

theorem rearrange_perm (h : columns.Perm (List.range xs.length)) : (rearrange columns xs).Perm xs := by
  have hperm : (rearrange columns xs).Perm (rearrange (List.range xs.length) xs) := h.filterMap _
  rwa [rearrange_range] at hperm

theorem zipWith_rearrange (f : α → β → γ) (h : ∀ i ∈ columns, i < xs.length)
    (hlength : xs.length = ys.length) :
    (rearrange columns xs).zipWith f (rearrange columns ys) =
      rearrange columns (xs.zipWith f ys) := by
  unfold rearrange
  induction columns with
  | nil => rfl
  | cons i columns ih =>
    obtain ⟨hi, hcolumns⟩ := List.forall_mem_cons.1 h
    have hi' : i < ys.length := hlength ▸ hi
    rw [List.filterMap_cons_some (List.getElem?_eq_getElem hi),
      List.filterMap_cons_some (List.getElem?_eq_getElem hi'), List.zipWith_cons_cons, ih hcolumns,
      List.filterMap_cons_some (List.getElem?_zipWith_eq_some.2
        ⟨_, _, List.getElem?_eq_getElem hi, List.getElem?_eq_getElem hi', rfl⟩)]

theorem forall₂_of_common {R : α → β → Prop} {S : α → γ → Prop} {zs : List γ}
    (h : List.Forall₂ R xs ys) (h' : List.Forall₂ S xs zs) :
    List.Forall₂ (fun y z => ∃ x ∈ xs, R x y ∧ S x z) ys zs := by
  induction h generalizing zs with
  | nil =>
    cases h'
    exact .nil
  | cons hxy _ ih =>
    cases h' with
    | cons hxz h' =>
      refine .cons ⟨_, List.mem_cons_self, hxy, hxz⟩ ((ih h').imp ?_)
      rintro y z ⟨x, hx, hR⟩
      exact ⟨x, List.mem_cons_of_mem _ hx, hR⟩

end Lists

/-- What is said about a nutrient: its name, the amount with its flags, the unit and the
description. All but the column. -/
def Measurement.shown (m : Measurement) : String × Cell.Reading × String × String :=
  (m.tag.name, m.reading, m.unit, m.description)

/-- The foods say the same about the same nutrients, each in the column order of its table. -/
structure Food.SameIn (records records' : List TagRecord) (f g : Food) : Prop where
  id : f.id = g.id
  category : f.category = g.category
  index : f.index = g.index
  name : f.name = g.name
  categoryCode : f.categoryCode = g.categoryCode
  shown : (f.measurements.map Measurement.shown).Perm (g.measurements.map Measurement.shown)
  order : (f.measurements.map (·.tag)).Sublist (tagsOf records)
  order' : (g.measurements.map (·.tag)).Sublist (tagsOf records')

variable {columns : List Nat} {rows : List Row} {records : List TagRecord} {f g : Food}

namespace Row

/-- The row with its nutrient cells in another order. -/
def rearrange (columns : List Nat) (row : Row) : Row :=
  row.take FixedColumn.count ++ FoodTable.rearrange columns row.amounts

variable {row : Row}

theorem length_take_fixed (h : row.length = 4 + records.length) :
    (row.take FixedColumn.count).length = 4 := by
  rw [List.length_take, h]
  exact Nat.min_eq_left (Nat.le_add_right _ _)

theorem getElem?_rearrange_fixed (h : row.length = 4 + records.length) {i : Nat} (hi : i < 4) :
    (row.rearrange columns)[i]? = row[i]? := by
  unfold rearrange
  rw [List.getElem?_append_left (length_take_fixed h ▸ hi)]
  exact List.getElem?_take_of_lt hi

theorem amounts_rearrange (h : row.length = 4 + records.length) :
    (row.rearrange columns).amounts = FoodTable.rearrange columns row.amounts := by
  unfold rearrange
  conv_lhs => unfold amounts
  exact List.drop_left' (length_take_fixed h)

theorem length_amounts (h : row.length = 4 + records.length) :
    row.amounts.length = records.length := by
  unfold amounts
  rw [List.length_drop, h]
  exact Nat.add_sub_cancel_left _ _

theorem WellFormed.rearrange (h : row.WellFormed records.length)
    (hcolumns : columns.Perm (List.range records.length)) :
    (row.rearrange columns).WellFormed (FoodTable.rearrange columns records).length := by
  have hlength := h.length
  have hamounts := length_amounts hlength
  constructor
  · have hlen := (rearrange_perm (hamounts ▸ hcolumns)).length_eq
    unfold Row.rearrange
    rw [List.length_append, length_take_fixed hlength, hlen, hamounts,
      (rearrange_perm hcolumns).length_eq]
  · rw [getElem?_rearrange_fixed hlength (by decide)]
    exact h.category
  · rw [getElem?_rearrange_fixed hlength (by decide)]
    exact h.id
  · rw [getElem?_rearrange_fixed hlength (by decide)]
    exact h.index
  · rw [getElem?_rearrange_fixed hlength (by decide)]
    exact h.name

/-- The measurements show the nutrient cells and the records side by side. -/
theorem Gives.map_shown (h : row.Gives records f) : f.measurements.map Measurement.shown =
    row.amounts.zipWith (fun cell r => (r.name, cell.read, r.unit, r.description)) records := by
  refine List.ext_getElem? fun j => ?_
  rw [List.getElem?_map]
  cases hr : records[j]? with
  | none =>
    have hj : f.measurements[j]? = none := by
      rw [List.getElem?_eq_none_iff, h.length, ← List.getElem?_eq_none_iff, hr]
    rw [hj, List.getElem?_zipWith, hr]
    cases row.amounts[j]? <;> rfl
  | some r =>
    obtain ⟨cell, hcell, hm⟩ := h.measurements j r hr
    have hamount : row.amounts[j]? = some cell := by
      unfold amounts
      rw [List.getElem?_drop]
      exact hcell
    rw [hm, List.getElem?_zipWith, hr, hamount]
    rfl

theorem Gives.sameIn (hcolumns : columns.Perm (List.range records.length))
    (hlength : row.length = 4 + records.length) (hf : row.Gives records f)
    (hg : (row.rearrange columns).Gives (FoodTable.rearrange columns records) g) :
    f.SameIn records (FoodTable.rearrange columns records) g := by
  have hfield {i : Nat} {s t : String} (hi : i < 4) (hs : row[i]? = some (some s))
      (ht : (row.rearrange columns)[i]? = some (some t)) : s = t := by
    rw [getElem?_rearrange_fixed hlength hi, hs] at ht
    simpa using ht
  have hcategory := hfield (by decide) hf.category hg.category
  have hamounts := length_amounts hlength
  refine ⟨hfield (by decide) hf.id hg.id, hcategory, hfield (by decide) hf.index hg.index,
    hfield (by decide) hf.name hg.name, ?_, ?_, ?_, ?_⟩
  · have hcode := Category.code?_eq_some_iff.2 hf.code
    have hcode' := Category.code?_eq_some_iff.2 hg.code
    rw [← hcategory, hcode] at hcode'
    exact Option.some.inj hcode'
  · have hzip : (row.amounts.zipWith
        (fun cell r => (r.name, Cell.read cell, r.unit, r.description)) records).length =
        records.length := by
      rw [List.length_zipWith, hamounts, Nat.min_self]
    rw [hf.map_shown, hg.map_shown, amounts_rearrange hlength,
      zipWith_rearrange _ (fun i hi => ?_) hamounts]
    · exact (rearrange_perm (hzip ▸ hcolumns)).symm
    · rw [hamounts]
      exact List.mem_range.1 (hcolumns.mem_iff.1 hi)
  · rw [hf.map_tag]
  · rw [hg.map_tag]

end Row

/-! ## Tables -/

theorem WellFormedTable.rearrange (h : WellFormedTable rows records)
    (hcolumns : columns.Perm (List.range records.length)) :
    WellFormedTable (rows.map (Row.rearrange columns)) (rearrange columns records) where
  tags := ((rearrange_perm hcolumns).map _).nodup_iff.2 h.tags
  wellFormed row' hrow' := by
    obtain ⟨row, hrow, rfl⟩ := List.mem_map.1 hrow'
    exact (h.wellFormed row hrow).rearrange hcolumns
  ids := by
    have hids : (rows.map (Row.rearrange columns)).map (·[1]?) = rows.map (·[1]?) := by
      rw [List.map_map]
      exact List.map_congr_left fun row hrow =>
        Row.getElem?_rearrange_fixed (h.wellFormed row hrow).length (by decide)
    rw [hids]
    exact h.ids

namespace Dataset

variable {d d' : Dataset}

/-- The foods of a table with rearranged columns, one for each food of the table. -/
theorem sameIn_of_rearrange (hcolumns : columns.Perm (List.range records.length))
    (h : ofTable rows records = .ok d)
    (h' : ofTable (rows.map (Row.rearrange columns)) (rearrange columns records) = .ok d') :
    List.Forall₂ (Food.SameIn records (rearrange columns records)) d.foods.toList
      d'.foods.toList := by
  have hgives' := gives_of_ofTable h'
  rw [List.forall₂_map_left_iff] at hgives'
  refine (forall₂_of_common (gives_of_ofTable h) hgives').imp ?_
  rintro f g ⟨row, hrow, hf, hg⟩
  exact hf.sameIn hcolumns ((exists_ofTable_iff.1 ⟨d, h⟩).wellFormed row hrow).length hg

end Dataset

end FoodTable
