import FoodTable.Text.Pieces
import Mathlib.Data.List.Basic

/-!
# Pieces between separators

The pieces of a text are the only texts without a separator that make up the text when a separator
is put between any two neighbours (`pieces_eq_iff`).
-/

namespace FoodTable.Text

variable {sep : Char} {s p : List Char} {ps : List (List Char)}

/-- The text is the pieces with a separator between any two neighbours, and no piece has one. -/
structure CutsInto (sep : Char) (s : List Char) (ps : List (List Char)) : Prop where
  nonempty : ps ≠ []
  join : [sep].intercalate ps = s
  free : ∀ p ∈ ps, sep ∉ p

theorem occursIn_eq_true_iff : occursIn p s = true ↔ p <:+: s := by
  induction s with
  | nil => rw [occursIn, List.isEmpty_iff, List.infix_nil]
  | cons c s ih =>
    rw [occursIn, Bool.or_eq_true, List.isPrefixOf_iff_prefix, ih, List.infix_cons_iff]

theorem pieces_eq_splitOn (sep : Char) (s : List Char) : pieces sep s = s.splitOn sep := by
  induction s with
  | nil => rw [pieces_nil, List.splitOn_nil]
  | cons c s ih =>
    rw [pieces_cons, List.splitOn_cons_eq_if_modifyHead, ih]
    simp only [beq_iff_eq]

theorem not_mem_of_mem_pieces (hp : p ∈ pieces sep s) : sep ∉ p := by
  induction s generalizing p with
  | nil =>
    obtain rfl : p = [] := by simpa using hp
    exact List.not_mem_nil
  | cons c s ih =>
    rw [pieces_cons] at hp
    split at hp
    · rcases List.mem_cons.1 hp with rfl | hp
      · exact List.not_mem_nil
      · exact ih hp
    · rename_i hc
      cases h : pieces sep s with
      | nil => exact absurd h (pieces_ne_nil sep s)
      | cons q qs =>
        rw [h, List.modifyHead_cons, List.mem_cons] at hp
        rcases hp with rfl | hp
        · have hq : sep ∉ q := ih (by simp [h])
          simp [hq, Ne.symm hc]
        · exact ih (by simp [h, hp])

theorem cutsInto_pieces (sep : Char) (s : List Char) : CutsInto sep s (pieces sep s) where
  nonempty := pieces_ne_nil sep s
  join := by rw [pieces_eq_splitOn, List.intercalate_splitOn]
  free _ := not_mem_of_mem_pieces

/-- A text that is joined from others has the pieces of all of them. -/
theorem pieces_intercalate {ss : List (List Char)} (h : ss ≠ []) :
    pieces sep ([sep].intercalate ss) = ss.flatMap (pieces sep) := by
  induction ss with
  | nil => exact absurd rfl h
  | cons s ss ih =>
    cases ss with
    | nil => rw [List.intercalate_singleton, List.flatMap_singleton]
    | cons t ss =>
      rw [List.intercalate_cons_cons, List.append_assoc, List.singleton_append, List.flatMap_cons,
        ← ih (List.cons_ne_nil t ss)]
      simp only [pieces_eq_splitOn, List.splitOn_append_cons_self]

theorem pieces_eq_iff : pieces sep s = ps ↔ CutsInto sep s ps := by
  constructor
  · rintro rfl
    exact cutsInto_pieces sep s
  · rintro ⟨hne, rfl, hfree⟩
    rw [pieces_eq_splitOn, List.splitOn_intercalate sep hfree hne]

end FoodTable.Text
