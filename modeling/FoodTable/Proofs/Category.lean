import FoodTable.Category
import FoodTable.Proofs.Text.Numeral
import FoodTable.Proofs.Text.Trimming

/-!
# Category texts

The texts that denote a category are the numerals of 1 to 18, with any blanks around them.
-/

namespace FoodTable.Category

/-- The text denotes the category `code`. -/
def Denotes (s : List Char) (code : Nat) : Prop :=
  ∃ t, Text.TrimsTo s t ∧ Text.IsUnsigned t code ∧ 1 ≤ code ∧ code ≤ 18

theorem contains_codes_iff {n : Nat} : codes.contains n = true ↔ 1 ≤ n ∧ n ≤ 18 := by
  unfold codes
  rw [List.contains_iff_mem, List.mem_map]
  constructor
  · rintro ⟨k, hk, rfl⟩
    rw [List.mem_range] at hk
    omega
  · rintro ⟨h, h'⟩
    exact ⟨n - 1, List.mem_range.2 (by omega), by omega⟩

theorem code?_eq_some_iff {s : List Char} {code : Nat} : code? s = some code ↔ Denotes s code := by
  unfold code? Denotes
  rw [Option.filter_eq_some_iff, Text.unsigned?_eq_some_iff, contains_codes_iff]
  constructor
  · exact fun h => ⟨_, Text.trimsTo_trim s, h⟩
  · rintro ⟨t, ht, h⟩
    rwa [Text.trim_of_trimsTo ht]

variable {s : List Char} {code code' : Nat}

theorem Denotes.unique (h : Denotes s code) (h' : Denotes s code') : code = code' :=
  Option.some.inj ((code?_eq_some_iff.2 h).symm.trans (code?_eq_some_iff.2 h'))

theorem Denotes.mem_codes (h : Denotes s code) : code ∈ codes := by
  obtain ⟨_, _, _, hrange⟩ := h
  exact List.contains_iff_mem.1 (contains_codes_iff.2 hrange)

/-- No text that denotes a category has a comma. -/
theorem Denotes.comma_not_mem (h : Denotes s code) : ',' ∉ s := by
  obtain ⟨t, ⟨-, before, after, rfl, hbefore, hafter⟩, ⟨ds, ht, -, hds, -⟩, -⟩ := h
  have hdigits : ',' ∉ ds := fun hc => absurd (hds ',' hc) (by decide)
  have ht : ',' ∉ t := by
    rcases ht with rfl | rfl
    · exact hdigits
    · rw [List.mem_cons, not_or]
      exact ⟨by decide, hdigits⟩
  rw [List.mem_append, List.mem_append, not_or, not_or]
  exact ⟨⟨fun hc => absurd (hbefore ',' hc) (by decide), ht⟩,
    fun hc => absurd (hafter ',' hc) (by decide)⟩

end FoodTable.Category
