import FoodTable.Dataset.Basic
import FoodTable.Proofs.Category
import FoodTable.Proofs.Dataset.Vocabulary
import FoodTable.Proofs.Except

/-!
# Rows and their foods

A row gives a food exactly if it is well formed: it has a cell for each column, its fixed cells are
there, the first of them denotes a category and the second is five digits. The food has the texts of
the fixed cells and, for each record of the metadata table, what the cell at its place says
(`Row.Gives`).
-/

namespace FoodTable

namespace Row

variable {row : Row} {number : Nat} {v : Vocabulary} {table : List TagRecord} {food : Food}

/-- The row has a cell for each of `tagCount` nutrients, and its fixed cells are as they must be. -/
structure WellFormed (row : Row) (tagCount : Nat) : Prop where
  length : row.length = 4 + tagCount
  category : ∃ text code, row[0]? = some (some text) ∧ Category.Denotes text.toList code
  id : ∃ text, row[1]? = some (some text) ∧ text.toList.length = 5 ∧
    ∀ c ∈ text.toList, c.isDigit = true
  index : ∃ text, row[2]? = some (some text)
  name : ∃ text, row[3]? = some (some text)

/-- The food has what the row says about it, by position. -/
structure Gives (row : Row) (table : List TagRecord) (food : Food) : Prop where
  category : row[0]? = some (some food.category)
  id : row[1]? = some (some food.id)
  index : row[2]? = some (some food.index)
  name : row[3]? = some (some food.name)
  code : Category.Denotes food.category.toList food.categoryCode
  length : food.measurements.length = table.length
  measurements : ∀ (j : Nat) (r : TagRecord), table[j]? = some r →
    ∃ cell, row[4 + j]? = some cell ∧
      food.measurements[j]? = some ⟨⟨r.name, j⟩, cell.read, r.unit, r.description⟩

theorem isFoodId_iff {text : String} :
    isFoodId text = true ↔ text.toList.length = 5 ∧ ∀ c ∈ text.toList, c.isDigit = true := by
  simp [isFoodId]

theorem field_eq_ok_iff {column : FixedColumn} {text : String} :
    row.field number column = .ok text ↔ row[column.position]? = some (some text) := by
  unfold field
  split
  · rename_i t ht
    rw [ht, Except.ok.injEq, Option.some.injEq, Option.some.injEq]
  · rename_i h
    exact iff_of_false (nomatch ·) fun ht => h text ht

/-- The measurements of a row depend on the metadata table only. -/
theorem measurements_eq (h : v.Holds table) : row.measurements v =
    row.amounts.zipWith (fun cell entry => ⟨entry.1, cell.read, entry.2.unit, entry.2.description⟩)
      ((tagsOf table).zip table) := by
  unfold measurements Vocabulary.entries
  rw [h.tags, h.records]

theorem getElem?_measurements (h : v.Holds table) {j : Nat} {cell : Cell} {r : TagRecord}
    (hcell : row[4 + j]? = some cell) (hr : table[j]? = some r) :
    (row.measurements v)[j]? = some ⟨⟨r.name, j⟩, cell.read, r.unit, r.description⟩ := by
  unfold measurements amounts
  rw [List.getElem?_zipWith_eq_some]
  refine ⟨cell, (⟨r.name, j⟩, r), ?_, ?_, rfl⟩
  · rw [List.getElem?_drop]
    exact hcell
  · rw [h.getElem?_entries, hr]
    rfl

theorem length_measurements (h : v.Holds table) (hrow : row.length = 4 + table.length) :
    (row.measurements v).length = table.length := by
  unfold measurements amounts
  rw [List.length_zipWith, List.length_drop, hrow, h.length_entries]
  exact Nat.min_eq_right (Nat.le_sub_of_add_le' (Nat.le_refl _))

theorem toFood_eq_ok_iff : row.toFood number v = .ok food ↔
    row.length = 4 + v.size ∧ row[0]? = some (some food.category) ∧
    row[1]? = some (some food.id) ∧ row[2]? = some (some food.index) ∧
    row[3]? = some (some food.name) ∧ Category.code? food.category.toList = some food.categoryCode ∧
    isFoodId food.id = true ∧ food.measurements = row.measurements v := by
  unfold toFood
  simp only [ite_throw_eq_ok_iff, bind_eq_ok_iff, field_eq_ok_iff, FixedColumn.position]
  constructor
  · rintro ⟨hlen, category, hcat, id, hid, index, hidx, name, hname, h⟩
    split at h
    · rename_i code hcode
      obtain ⟨hdigits, h⟩ := ite_throw_eq_ok_iff.1 h
      obtain rfl := Except.ok.inj h
      exact ⟨not_not.1 hlen, hcat, hid, hidx, hname, hcode, by simpa using hdigits, rfl⟩
    · cases h
  · rintro ⟨hlen, hcat, hid, hidx, hname, hcode, hdigits, hm⟩
    refine ⟨not_not.2 hlen, _, hcat, _, hid, _, hidx, _, hname, ?_⟩
    rw [hcode]
    dsimp only
    rw [hdigits, ← hm]
    rfl

/-- The number of a row plays no part in its food. -/
theorem toFood_unique {number' : Nat} {f g : Food} (hf : row.toFood number v = .ok f)
    (hg : row.toFood number' v = .ok g) : f = g := by
  have hsame : row.toFood number v = .ok g := toFood_eq_ok_iff.2 (toFood_eq_ok_iff.1 hg)
  exact Except.ok.inj (hf.symm.trans hsame)

/-- A well-formed row gives a food, and only such a row does. -/
theorem exists_toFood_iff (h : v.Holds table) :
    (∃ food, row.toFood number v = .ok food) ↔ row.WellFormed table.length := by
  constructor
  · rintro ⟨food, hfood⟩
    obtain ⟨hlen, hcat, hid, hidx, hname, hcode, hdigits, -⟩ := toFood_eq_ok_iff.1 hfood
    refine ⟨by rw [hlen, h.size], ?_, ?_, ⟨_, hidx⟩, ⟨_, hname⟩⟩
    · exact ⟨_, _, hcat, Category.code?_eq_some_iff.1 hcode⟩
    · exact ⟨_, hid, isFoodId_iff.1 hdigits⟩
  · rintro ⟨hlen, ⟨category, code, hcat, hcode⟩, ⟨id, hid, hdigits⟩, ⟨index, hidx⟩, ⟨name, hname⟩⟩
    refine ⟨⟨id, category, index, name, row.measurements v, code⟩, toFood_eq_ok_iff.2 ?_⟩
    exact ⟨by rw [hlen, h.size], hcat, hid, hidx, hname, Category.code?_eq_some_iff.2 hcode,
      isFoodId_iff.2 hdigits, rfl⟩

theorem gives_of_toFood (h : v.Holds table) (hfood : row.toFood number v = .ok food) :
    row.Gives table food := by
  obtain ⟨hlen, hcat, hid, hidx, hname, hcode, -, hm⟩ := toFood_eq_ok_iff.1 hfood
  rw [h.size] at hlen
  refine ⟨hcat, hid, hidx, hname, Category.code?_eq_some_iff.1 hcode, ?_, fun j r hr => ?_⟩
  · rw [hm, length_measurements h hlen]
  · have hj : j < table.length := (List.getElem?_eq_some_iff.1 hr).1
    have hcell : row[4 + j]? = some row[4 + j] := List.getElem?_eq_getElem (by omega)
    exact ⟨_, hcell, by rw [hm, getElem?_measurements h hcell hr]⟩

end Row

end FoodTable
