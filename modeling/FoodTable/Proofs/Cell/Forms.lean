import FoodTable.Proofs.Cell.Reading
import Mathlib.Data.List.Basic
import Mathlib.Logic.ExistsUnique

/-!
# The forms of a cell

What a cell says depends on its text without the blanks around it: nothing or a mark, something in
brackets, or any other text (`Cell.SpellsForm`). Every cell has exactly one form, and the form gives
its reading (`Cell.read_classified`). A text in brackets with neither a mark nor a number inside is
looked at once more as a whole, but no number begins with a bracket, so it is read as a measured
zero.
-/

namespace FoodTable.Cell

open Text

/-! ## Forms -/

/-- What a cell says. -/
inductive Form where
  | missing
  | trace
  | estimatedTrace
  | estimate (x : Binary64)
  /-- Something in brackets that is neither the mark of a trace nor a number. -/
  | garbled
  /-- Any other text, with the number in front of it. -/
  | plain (number : Option Binary64)

/-- The amount that a form gives, whether it is a trace, and whether it is an estimate. -/
def Form.reading : Form → Reading
  | missing => ⟨none, false, false⟩
  | trace => ⟨some .zero, true, false⟩
  | estimatedTrace => ⟨some .zero, true, true⟩
  | estimate x => ⟨some x, false, true⟩
  | garbled => ⟨some .zero, false, false⟩
  | plain number => ⟨some (number.getD .zero), false, false⟩

/-- The text with brackets around it. -/
def inBrackets (inner : List Char) : List Char := '(' :: (inner ++ [')'])

/-- The form of a text in brackets, by what is inside. -/
inductive SpellsInside : List Char → Form → Prop
  | trace : SpellsInside ['T', 'r'] .estimatedTrace
  | number {inner : List Char} {x : Binary64} (h : leadingNumber? inner = some x) :
      SpellsInside inner (.estimate x)
  | other {inner : List Char} (hmark : inner ≠ ['T', 'r']) (h : leadingNumber? inner = none) :
      SpellsInside inner .garbled

/-- The form of a text that has no blanks at its ends. -/
inductive SpellsForm : List Char → Form → Prop
  | blank : SpellsForm [] .missing
  | mark : SpellsForm ['-'] .missing
  | trace : SpellsForm ['T', 'r'] .trace
  | brackets {inner : List Char} {form : Form} (h : SpellsInside inner form) :
      SpellsForm (inBrackets inner) form
  | plain {t : List Char} (hblank : t ≠ []) (hmark : t ≠ ['-']) (htrace : t ≠ ['T', 'r'])
      (hbrackets : ∀ inner, t ≠ inBrackets inner) : SpellsForm t (.plain (leadingNumber? t))

/-- The content of the cell is the text `t`, which has no blanks at its ends, with blanks around
it. -/
def HasText (c : Cell) (t : List Char) : Prop := ∃ text, c = some text ∧ TrimsTo text.toList t

/-- The form of a cell. One without content is like a blank one. -/
inductive HasForm : Cell → Form → Prop
  | null : HasForm none .missing
  | text {c : Cell} {t : List Char} {form : Form} (ht : c.HasText t) (h : SpellsForm t form) :
      HasForm c form

variable {c : Cell} {s t inner : List Char} {x : Binary64} {form form' : Form}

/-! ## Every cell has one form -/

theorem HasText.unique (hs : c.HasText s) (ht : c.HasText t) : s = t := by
  obtain ⟨text, rfl, hs⟩ := hs
  obtain ⟨text', htext, ht⟩ := ht
  obtain rfl := Option.some.inj htext
  rw [← trim_of_trimsTo hs, trim_of_trimsTo ht]

theorem inBrackets_inj : inBrackets s = inBrackets t ↔ s = t := by
  unfold inBrackets
  rw [List.cons_inj_right, List.append_left_inj]

/-- The mark of a trace is no number. -/
theorem leadingNumber?_traceMark : leadingNumber? ['T', 'r'] = none := rfl

theorem SpellsInside.unique (h : SpellsInside inner form) (h' : SpellsInside inner form') :
    form = form' := by
  cases h with
  | trace =>
    cases h' with
    | trace => rfl
    | number h => cases leadingNumber?_traceMark.symm.trans h
    | other hmark => exact absurd rfl hmark
  | number h =>
    cases h' with
    | trace => cases leadingNumber?_traceMark.symm.trans h
    | number h' => rw [Option.some.inj (h.symm.trans h')]
    | other hmark h' => cases h.symm.trans h'
  | other hmark h =>
    cases h' with
    | trace => exact absurd rfl hmark
    | number h' => cases h.symm.trans h'
    | other hmark h' => rfl

theorem SpellsForm.inside (h : SpellsForm (inBrackets inner) form) : SpellsInside inner form := by
  generalize ht : inBrackets inner = t at h
  cases h with
  | blank => cases ht
  | mark => cases ht
  | trace => cases ht
  | brackets h => rwa [inBrackets_inj.1 ht]
  | plain _ _ _ hbrackets => exact absurd ht.symm (hbrackets inner)

theorem SpellsForm.unique (h : SpellsForm t form) (h' : SpellsForm t form') : form = form' := by
  cases h with
  | blank =>
    cases h' with
    | blank => rfl
    | plain hblank => exact absurd rfl hblank
  | mark =>
    cases h' with
    | mark => rfl
    | plain _ hmark => exact absurd rfl hmark
  | trace =>
    cases h' with
    | trace => rfl
    | plain _ _ htrace => exact absurd rfl htrace
  | brackets h => exact h.unique h'.inside
  | plain hblank hmark htrace hbrackets =>
    cases h' with
    | blank => exact absurd rfl hblank
    | mark => exact absurd rfl hmark
    | trace => exact absurd rfl htrace
    | brackets => exact absurd rfl (hbrackets _)
    | plain => rfl

theorem exists_spellsInside (inner : List Char) : ∃ form, SpellsInside inner form := by
  cases h : leadingNumber? inner with
  | some x => exact ⟨_, .number h⟩
  | none =>
    by_cases hmark : inner = ['T', 'r']
    · rw [hmark]
      exact ⟨_, .trace⟩
    · exact ⟨_, .other hmark h⟩

theorem exists_spellsForm (t : List Char) : ∃ form, SpellsForm t form := by
  by_cases hbrackets : ∃ inner, t = inBrackets inner
  · obtain ⟨inner, rfl⟩ := hbrackets
    obtain ⟨form, h⟩ := exists_spellsInside inner
    exact ⟨form, .brackets h⟩
  · rw [not_exists] at hbrackets
    by_cases hshort : t = [] ∨ t = ['-'] ∨ t = ['T', 'r']
    · rcases hshort with rfl | rfl | rfl
      · exact ⟨_, .blank⟩
      · exact ⟨_, .mark⟩
      · exact ⟨_, .trace⟩
    · simp only [not_or] at hshort
      exact ⟨_, .plain hshort.1 hshort.2.1 hshort.2.2 hbrackets⟩

/-- Every cell has exactly one form. -/
theorem existsUnique_hasForm (c : Cell) : ∃! form, c.HasForm form := by
  cases c with
  | none =>
    refine ⟨_, .null, fun form h => ?_⟩
    cases h with
    | null => rfl
    | text ht => exact absurd ht fun ⟨_, h, _⟩ => nomatch h
  | some text =>
    obtain ⟨form, hform⟩ := exists_spellsForm (trim text.toList)
    have htext : HasText (some text) (trim text.toList) := ⟨text, rfl, trimsTo_trim _⟩
    refine ⟨form, .text htext hform, fun form' h => ?_⟩
    cases h with
    | text ht h => exact (ht.unique htext ▸ h).unique hform

/-! ## The form gives the reading -/

/-- Brackets that enclose a text are taken off, and no others. -/
theorem bracketed?_eq_some_iff : bracketed? t = some inner ↔ t = inBrackets inner := by
  unfold bracketed? inBrackets
  split
  · rename_i s
    rw [List.cons_inj_right]
    split
    · rename_i hlast
      have hsplit := List.dropLast_append_getLast? ')' hlast
      rw [Option.some.injEq, ← List.append_left_inj [')'], hsplit]
    · rename_i hlast
      refine iff_of_false (nomatch ·) ?_
      rintro rfl
      exact hlast List.getLast?_concat
  · rename_i h
    exact iff_of_false (nomatch ·) (h _)

theorem bracketed?_eq_none_iff : bracketed? t = none ↔ ∀ inner, t ≠ inBrackets inner := by
  simp only [Option.eq_none_iff_forall_ne_some, ne_eq, bracketed?_eq_some_iff]

/-- No number begins with a bracket. -/
theorem leadingNumber?_inBrackets (inner : List Char) : leadingNumber? (inBrackets inner) = none :=
  rfl

/-- What is in brackets and no estimate is a measured zero. -/
theorem readTrimmed_inBrackets (inner : List Char) :
    readTrimmed (inBrackets inner) = (estimate? inner).getD (.number .zero false) := by
  unfold readTrimmed
  rw [bracketed?_eq_some_iff.2 rfl, Option.bind_some, if_neg (by simp [inBrackets, missingMark])]
  cases estimate? inner with
  | some r => rfl
  | none =>
    dsimp only
    rw [if_neg (by simp [inBrackets, traceMark]), leadingNumber?_inBrackets]
    rfl

theorem SpellsInside.reading_eq (h : SpellsInside inner form) :
    (estimate? inner).getD (.number .zero false) = form.reading := by
  unfold estimate?
  cases h with
  | trace => rfl
  | number h =>
    have hmark : inner ≠ traceMark := by
      rintro rfl
      cases leadingNumber?_traceMark.symm.trans h
    rw [if_neg hmark, h]
    rfl
  | other hmark h =>
    rw [if_neg (show inner ≠ traceMark from hmark), h]
    rfl

theorem SpellsForm.reading_eq (h : SpellsForm t form) : readTrimmed t = form.reading := by
  cases h with
  | blank => rfl
  | mark => rfl
  | trace => rfl
  | brackets h => rw [readTrimmed_inBrackets, h.reading_eq]
  | plain hblank hmark htrace hbrackets =>
    unfold readTrimmed
    rw [if_neg (by simp [hblank, missingMark, hmark]), bracketed?_eq_none_iff.2 hbrackets]
    exact if_neg htrace

theorem HasForm.reading_eq (h : c.HasForm form) : c.read = form.reading := by
  cases h with
  | null => rfl
  | text ht h =>
    obtain ⟨text, rfl, htext⟩ := ht
    rw [← h.reading_eq, ← trim_of_trimsTo htext]
    rfl

/-! ## The flags -/

/-- What has no amount has no flag either. -/
theorem read_eq_missing (h : c.read.value = none) : c.read = .missing := by
  obtain ⟨form, hform, -⟩ := existsUnique_hasForm c
  rw [hform.reading_eq] at h ⊢
  cases form with
  | missing => rfl
  | _ => cases h

theorem read_isTrace_iff : c.read.isTrace = true ↔
    c.HasText ['T', 'r'] ∨ c.HasText (inBrackets ['T', 'r']) := by
  constructor
  · intro htrace
    obtain ⟨form, hform, -⟩ := existsUnique_hasForm c
    rw [hform.reading_eq] at htrace
    cases hform with
    | null => cases htrace
    | text ht h =>
      cases h with
      | trace => exact .inl ht
      | brackets h =>
        cases h with
        | trace => exact .inr ht
        | number => cases htrace
        | other => cases htrace
      | _ => cases htrace
  · rintro (ht | ht)
    · rw [(HasForm.text ht .trace).reading_eq]
      rfl
    · rw [(HasForm.text ht (.brackets .trace)).reading_eq]
      rfl

theorem read_isEstimate_iff : c.read.isEstimate = true ↔
    ∃ inner, c.HasText (inBrackets inner) ∧
      (inner = ['T', 'r'] ∨ ∃ x, leadingNumber? inner = some x) := by
  constructor
  · intro hestimate
    obtain ⟨form, hform, -⟩ := existsUnique_hasForm c
    rw [hform.reading_eq] at hestimate
    cases hform with
    | null => cases hestimate
    | text ht h =>
      cases h with
      | brackets h =>
        cases h with
        | trace => exact ⟨_, ht, .inl rfl⟩
        | number h => exact ⟨_, ht, .inr ⟨_, h⟩⟩
        | other => cases hestimate
      | _ => cases hestimate
  · rintro ⟨inner, ht, rfl | ⟨x, hx⟩⟩
    · rw [(HasForm.text ht (.brackets .trace)).reading_eq]
      rfl
    · rw [(HasForm.text ht (.brackets (.number hx))).reading_eq]
      rfl

/-- Every cell has exactly one form, which gives its reading. No amount is read from a cell without
content, a blank one and a lone minus sign, and from no other, and then no flag is set; only the
mark of a trace is a trace, with or without brackets around it; and only what is in brackets is an
estimate, if it is the mark of a trace or has a number in front. Every amount is finite. -/
theorem read_classified (c : Cell) :
    (∃! form, c.HasForm form) ∧ (∀ form, c.HasForm form → c.read = form.reading) ∧
      (c.read.value = none ↔ c = none ∨ c.HasText [] ∨ c.HasText ['-']) ∧
      (c.read.value = none → c.read = .missing) ∧
      (c.read.isTrace = true ↔ c.HasText ['T', 'r'] ∨ c.HasText (inBrackets ['T', 'r'])) ∧
      (c.read.isEstimate = true ↔ ∃ inner, c.HasText (inBrackets inner) ∧
        (inner = ['T', 'r'] ∨ ∃ x, leadingNumber? inner = some x)) ∧
      ∀ x, c.read.value = some x → x.isFinite = true := by
  refine ⟨existsUnique_hasForm c, fun form => HasForm.reading_eq, ?_, read_eq_missing,
    read_isTrace_iff, read_isEstimate_iff, isFinite_read c⟩
  rw [read_value_eq_none_iff]
  unfold IsMissing HasText
  simp only [and_or_left, exists_or]

/-- Brackets inside brackets and blanks around a mark inside brackets. -/
example : read (some " ((1)) ") = .number .zero false ∧
    read (some "( Tr )") = .number .zero false ∧ read (some "(") = .number .zero false := by
  decide

end FoodTable.Cell
