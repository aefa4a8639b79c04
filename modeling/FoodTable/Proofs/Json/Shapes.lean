import FoodTable.Proofs.Json.Reader

/-!
# Values of an expected shape

A value that has the shape which is expected at its place is read, with the blanks before it: a
text, a text or `null`, a list, a record by its fields' names. Of a field the name is read first,
and its value is then read or skipped.
-/

namespace FoodTable.Json

open Text

variable {α β : Type} {first : Bool} {blanks s : List Char} {bound limit : Nat}

theorem start_eq {c : Char} (hc : IsStart c) (hblanks : IsBlanks blanks) (s : List Char)
    (rest : Bytes) : skipBlank (toUtf8 (blanks ++ c :: s) ++ rest) =
      c.toNat.toUInt8 :: (toUtf8 s ++ rest) := by
  rw [skipBlank_start hblanks ⟨c, s, rfl, hc⟩, toUtf8_cons_of_lt hc.lt]

theorem reads_text {t : String} (hblanks : IsBlanks blanks) (h : SpellsText s t) :
    Reads text (blanks ++ s) t := by
  intro rest _
  obtain ⟨body, hbody, rfl⟩ := h
  unfold text
  rw [start_eq (.inr (by decide)) hblanks]
  exact quotedText_of_spellsChars hbody rest

/-- What says a text or nothing. -/
def Tree.ofOption : Option String → Tree
  | some t => .text (some t)
  | none => .null

theorem reads_optionalText {o : Option String} (hblanks : IsBlanks blanks)
    (h : Spells s (.ofOption o)) : Reads optionalText (blanks ++ s) o := by
  intro rest hrest
  cases o with
  | none =>
    cases h
    unfold optionalText
    rw [start_eq (.inr (by decide)) hblanks]
    rfl
  | some t =>
    obtain ⟨body, hbody, rfl⟩ := spells_text_iff.1 h
    unfold optionalText
    rw [start_eq (.inr (by decide)) hblanks]
    show (text (toUtf8 ('"' :: (body ++ ['"'])) ++ rest) >>= _) = _
    have hread := reads_text isBlanks_nil ⟨body, hbody, rfl⟩ rest hrest
    rw [List.nil_append] at hread
    rw [hread]
    rfl

theorem reads_list {member : List Char → α → Prop} {as : List α} {bs : List β}
    {item : Bytes → Except Fault (β × Bytes)} {R : α → β → Prop} (hblanks : IsBlanks blanks)
    (hs : Members ']' member true s as) (hR : List.Forall₂ R as bs)
    (hitem : ∀ m a b, member m a → R a b → m.length < bound → Starts m ∧ Reads item m b)
    (hbound : s.length < bound) : Reads (list bound item) (blanks ++ '[' :: s) bs := by
  intro rest _
  unfold list
  rw [start_eq (.inr (by decide)) hblanks]
  exact items_of_members hs hR hitem hbound hbound rest

theorem record_eq {byName byPlace : Bytes → Except Fault (α × Bytes)} (hblanks : IsBlanks blanks)
    (s : List Char) (rest : Bytes) :
    record byName byPlace (toUtf8 (blanks ++ '{' :: s) ++ rest) = byName (toUtf8 s ++ rest) := by
  unfold record
  rw [start_eq (.inr (by decide)) hblanks]
  rfl

/-- The name of a field is read. What is left begins with the colon, and the value comes after
it. -/
theorem Field.exists_fieldName {name : String} {t : Tree} (h : Field Spells s (some name, t)) :
    ∃ b b' v, IsBlanks b ∧ IsBlanks b' ∧ Spells v t ∧ v.length ≤ s.length ∧
      ∀ rest, fieldName (toUtf8 s ++ rest) =
        .ok (name, toUtf8 (b ++ ':' :: (b' ++ v)) ++ rest) := by
  obtain ⟨n, b, b', v, hn, hb, hb', hv, hlength, rfl⟩ := h.exists_value
  refine ⟨b, b', v, hb, hb', hv, hlength, fun rest => ?_⟩
  rw [toUtf8_append, List.append_assoc, fieldName_of_spellsText hn]

section AfterName

variable {blanks' v : List Char} (hblanks : IsBlanks blanks)

include hblanks

/-- The value of a field that was not given before is read. -/
theorem reads_once {value : Bytes → Except Fault (α × Bytes)} {a : α}
    (hvalue : Reads value (blanks' ++ v) a) :
    Reads (once none value) (blanks ++ ':' :: (blanks' ++ v)) (some a) := by
  intro rest hrest
  show (skipColon _ >>= fun s => value s >>= _) = _
  rw [skipColon_of_blanks hblanks]
  show (value _ >>= _) = _
  rw [hvalue rest hrest]
  rfl

/-- The value of a field that is not asked for is skipped. -/
theorem reads_skipped {t : Tree} (hblanks' : IsBlanks blanks') (hv : Spells v t)
    (hbound : v.length < bound) (known : α) :
    Reads (fun s => do return (known, ← skipValue bound (← skipColon s)))
      (blanks ++ ':' :: (blanks' ++ v)) known := by
  intro rest hrest
  show (skipColon _ >>= fun s => skipValue bound s >>= _) = _
  rw [← bind_assoc, skipValue_after_colon hblanks hblanks' (skipValue_of_spells hv hbound hrest)]
  rfl

end AfterName

theorem length_le_toUtf8 (s : List Char) : s.length ≤ (toUtf8 s).length := by
  induction s with
  | nil => exact Nat.le_refl _
  | cons c s ih =>
    have hpos : 0 < (encodeChar c).length := by
      unfold encodeChar
      dsimp only
      split_ifs <;> exact Nat.succ_pos _
    rw [toUtf8_cons, List.length_append, List.length_cons]
    omega

/-- A text is read if its value is, blanks around it or not. -/
theorem whole_of_spelling {value : Nat → Bytes → Except Fault (α × Bytes)} {t : Tree} {a : α}
    (h : Says s t) (hvalue : ∀ bound blanks v, IsBlanks blanks → Spells v t → v.length < bound →
      Reads (value bound) (blanks ++ v) a) : whole value (toUtf8 s) = .ok a := by
  obtain ⟨b, v, b', hb, hv, hb', rfl⟩ := says_iff.1 h
  have hlength := length_le_toUtf8 (b ++ (v ++ b'))
  rw [List.length_append, List.length_append] at hlength
  have hread := hvalue ((toUtf8 (b ++ (v ++ b'))).length + 1) b v hb hv (by omega) _
    (stops_of_isBlanks hb')
  rw [← toUtf8_append, List.append_assoc] at hread
  unfold whole
  rw [hread]
  show (if (skipBlank (toUtf8 b')).isEmpty = true then _ else _) = _
  rw [skipBlank_blanks hb']
  rfl

end FoodTable.Json
