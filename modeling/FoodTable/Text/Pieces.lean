/-!
# Pieces of a text

A text cut at each separator, its inverse, and the search for a text inside another.
-/

namespace FoodTable.Text

/-- The pieces between separators. A text without a separator is its own only piece. -/
def pieces (sep : Char) (s : List Char) : List (List Char) :=
  s.foldr (fun c ps => if c = sep then [] :: ps else ps.modifyHead (c :: ·)) [[]]

/-- The pieces with a separator between any two neighbours. -/
def join (sep : Char) (ps : List (List Char)) : List Char := [sep].intercalate ps

/-- Whether `p` stands somewhere in `s`. The empty text stands in every text. -/
def occursIn (p : List Char) : List Char → Bool
  | [] => p.isEmpty
  | c :: s => p.isPrefixOf (c :: s) || occursIn p s

/-- The texts before and after the first `mark` in `s`. -/
def cut? (mark : List Char) : List Char → Option (List Char × List Char)
  | [] => if mark.isEmpty then some ([], []) else none
  | c :: s =>
    if mark.isPrefixOf (c :: s) then some ([], (c :: s).drop mark.length)
    else (cut? mark s).map fun (before, after) => (c :: before, after)

@[simp] theorem pieces_nil (sep : Char) : pieces sep [] = [[]] := rfl

theorem pieces_cons (sep c : Char) (s : List Char) :
    pieces sep (c :: s) =
      if c = sep then [] :: pieces sep s else (pieces sep s).modifyHead (c :: ·) := rfl

theorem pieces_ne_nil (sep : Char) (s : List Char) : pieces sep s ≠ [] := by
  induction s with
  | nil => simp
  | cons c s ih =>
    rw [pieces_cons]
    split
    · simp
    · cases h : pieces sep s with
      | nil => exact absurd h ih
      | cons p ps => simp

end FoodTable.Text
