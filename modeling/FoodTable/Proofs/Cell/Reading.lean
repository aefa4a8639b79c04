import FoodTable.Cell.Reading
import FoodTable.Proofs.Text.Trimming

/-!
# Amounts are finite

Whatever a cell says, the amount that is read from it is a finite number: a number out of range is
no number in front of a text, and all other amounts are zero. No amount is read from a cell without
content, from a blank one and from a lone minus sign, and from no other (`read_value_eq_none_iff`).
-/

namespace FoodTable.Cell

theorem zero_isFinite : Binary64.zero.isFinite = true := by decide

theorem isFinite_of_leadingNumber? {s : List Char} {x : Binary64} (h : leadingNumber? s = some x) :
    x.isFinite = true := by
  unfold leadingNumber? at h
  cases hd : decimalInFront? (Text.trimStart s) with
  | none => simp [hd] at h
  | some d =>
    simp only [hd] at h
    split at h
    · obtain rfl := Option.some.inj h
      assumption
    · cases h

/-- Every amount of the reading is a finite number. -/
def Reading.IsFinite (r : Reading) : Prop := ∀ x, r.value = some x → x.isFinite = true

theorem Reading.isFinite_missing : Reading.missing.IsFinite := fun _ h => nomatch h

theorem Reading.isFinite_trace (b : Bool) : (Reading.trace b).IsFinite := by
  intro x h
  obtain rfl := Option.some.inj h
  exact zero_isFinite

theorem Reading.isFinite_number {x : Binary64} (hx : x.isFinite = true) (b : Bool) :
    (Reading.number x b).IsFinite := by
  intro y h
  obtain rfl := Option.some.inj h
  exact hx

theorem isFinite_of_estimate? {inner : List Char} {r : Reading} (h : estimate? inner = some r) :
    r.IsFinite := by
  unfold estimate? at h
  split at h
  · obtain rfl := Option.some.inj h
    exact Reading.isFinite_trace true
  · obtain ⟨x, hx, rfl⟩ := Option.map_eq_some_iff.1 h
    exact Reading.isFinite_number (isFinite_of_leadingNumber? hx) true

theorem isFinite_leadingNumber?_getD (t : List Char) :
    ((leadingNumber? t).getD .zero).isFinite = true := by
  cases h : leadingNumber? t with
  | none => exact zero_isFinite
  | some x => exact isFinite_of_leadingNumber? h

theorem isFinite_readTrimmed (t : List Char) : (readTrimmed t).IsFinite := by
  unfold readTrimmed
  split
  · exact Reading.isFinite_missing
  · split
    · rename_i r hr
      obtain ⟨inner, -, hinner⟩ := Option.bind_eq_some_iff.1 hr
      exact isFinite_of_estimate? hinner
    · split
      · exact Reading.isFinite_trace false
      · exact Reading.isFinite_number (isFinite_leadingNumber?_getD t) false

theorem isFinite_read (c : Cell) : c.read.IsFinite := by
  cases c with
  | none => exact Reading.isFinite_missing
  | some s => exact isFinite_readTrimmed _

/-! ## Missing amounts -/

/-- The cell has no content, or nothing but blanks, or nothing but blanks around a minus sign. -/
def IsMissing (c : Cell) : Prop :=
  c = none ∨ ∃ text, c = some text ∧
    (Text.TrimsTo text.toList [] ∨ Text.TrimsTo text.toList ['-'])

theorem value_ne_none_of_estimate? {inner : List Char} {r : Reading}
    (h : estimate? inner = some r) : r.value ≠ none := by
  unfold estimate? at h
  split at h
  · obtain rfl := Option.some.inj h
    exact Option.some_ne_none _
  · obtain ⟨x, -, rfl⟩ := Option.map_eq_some_iff.1 h
    exact Option.some_ne_none x

theorem readTrimmed_value_eq_none_iff {t : List Char} :
    (readTrimmed t).value = none ↔ t = [] ∨ t = ['-'] := by
  unfold readTrimmed
  split
  · rename_i h
    exact iff_of_true rfl (h.imp_left List.isEmpty_iff.1)
  · rename_i h
    refine iff_of_false (fun hnone => ?_) fun ht => h (ht.imp_left List.isEmpty_iff.2)
    split at hnone
    · rename_i r hr
      obtain ⟨inner, -, hinner⟩ := Option.bind_eq_some_iff.1 hr
      exact value_ne_none_of_estimate? hinner hnone
    · split at hnone <;> cases hnone

theorem read_value_eq_none_iff {c : Cell} : c.read.value = none ↔ c.IsMissing := by
  unfold IsMissing
  cases c with
  | none => exact iff_of_true rfl (.inl rfl)
  | some text =>
    show (readTrimmed (Text.trim text.toList)).value = none ↔ _
    rw [readTrimmed_value_eq_none_iff, Text.trim_eq_iff, Text.trim_eq_iff]
    simp

end FoodTable.Cell
