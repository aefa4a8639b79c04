import FoodTable.Json.Quoted
import FoodTable.Proofs.Except
import FoodTable.Proofs.Json.Grammar
import FoodTable.Proofs.Text.Utf8
import Mathlib.Tactic.IntervalCases

/-!
# Reading quoted texts

However the characters of a text are spelled, the reader gets the text and stops after the closing
quote (`quotedText_of_spellsChars`). A quoted text that is skipped need not even have escapes that
make characters (`skipQuoted_of_arePieces`).
-/

namespace FoodTable.Json

open Text

variable {b : UInt8} {c letter : Char} {p s t ds : List Char} {n : Nat} {r r' rest bytes : Bytes}

/-! ## Bytes of characters -/

/-- A character below U+0080 is the byte in front. -/
theorem toUtf8_cons_of_lt (h : c.toNat < 0x80) (s : List Char) (rest : Bytes) :
    toUtf8 (c :: s) ++ rest = c.toNat.toUInt8 :: (toUtf8 s ++ rest) := by
  rw [toUtf8_cons, encodeChar_of_lt h]
  rfl

/-- A byte of a character is read as the character only if it is one byte. -/
theorem eq_of_mem_encodeChar {a : Char} (ha : a.toNat < 0x80) (hb : b ∈ encodeChar c)
    (h : Char.ofUInt8 b = a) : c = a := by
  by_cases hc : c.toNat < 0x80
  · rw [encodeChar_of_lt hc, List.mem_singleton] at hb
    rw [← h, hb, ofUInt8_toUInt8 hc]
  · have hle := le_of_mem_encodeChar (Nat.le_of_not_lt hc) hb
    have hval : b.toNat = a.toNat := congrArg Char.toNat h
    omega

/-! ## Escapes -/

theorem HexDigit.read (h : HexDigit c n) : c.toNat < 0x80 ∧ hexValue? c = some n := by
  have hn : n < 16 := by
    rcases h with h | h <;> exact (List.getElem?_eq_some_iff.1 h).1
  interval_cases n <;> rcases h with h | h <;> obtain rfl := Option.some.inj h <;> decide

theorem hexUnit_of_spellsUnit (h : SpellsUnit ds n) (rest : Bytes) :
    hexUnit (toUtf8 ds ++ rest) = .ok (n, rest) := by
  obtain ⟨ha, hb, hc, hd⟩ := h
  obtain ⟨ha, hva⟩ := ha.read
  obtain ⟨hb, hvb⟩ := hb.read
  obtain ⟨hc, hvc⟩ := hc.read
  obtain ⟨hd, hvd⟩ := hd.read
  rw [toUtf8_cons_of_lt ha, toUtf8_cons_of_lt hb, toUtf8_cons_of_lt hc, toUtf8_cons_of_lt hd]
  unfold hexUnit
  simp [ofUInt8_toUInt8, *]

/-- The number of a character is not half of a surrogate pair. -/
theorem isSurrogate_toNat (c : Char) :
    isLowSurrogate c.toNat = false ∧ isHighSurrogate c.toNat = false := by
  have hvalid := toNat_valid c
  unfold isLowSurrogate isHighSurrogate
  simp only [Bool.and_eq_false_iff, decide_eq_false_iff_not]
  omega

theorem unicodeEscape_of_spellsUnit (h : SpellsUnit ds c.toNat) (rest : Bytes) :
    unicodeEscape (toUtf8 ds ++ rest) = .ok (c, rest) := by
  obtain ⟨hlow, hhigh⟩ := isSurrogate_toNat c
  unfold unicodeEscape
  simp [hexUnit_of_spellsUnit h, hlow, hhigh, bind, Except.bind, pure, Except.pure]

theorem unicodeEscape_of_pair {ds' : List Char} {m : Nat} (h : SpellsUnit ds n)
    (h' : SpellsUnit ds' m) (hn : 0xD800 ≤ n ∧ n ≤ 0xDBFF) (hm : 0xDC00 ≤ m ∧ m ≤ 0xDFFF)
    (hc : c.toNat = 0x10000 + (n - 0xD800) * 0x400 + (m - 0xDC00)) (rest : Bytes) :
    unicodeEscape (toUtf8 (ds ++ '\\' :: 'u' :: ds') ++ rest) = .ok (c, rest) := by
  have hhigh : isHighSurrogate n = true := by simp [isHighSurrogate, hn]
  have hlow : isLowSurrogate m = true := by simp [isLowSurrogate, hm]
  have hnot : isLowSurrogate n = false := by
    simp only [isLowSurrogate, Bool.and_eq_false_iff, decide_eq_false_iff_not]
    omega
  have hpair : surrogatePair n m = c := by rw [surrogatePair, ← hc, Char.ofNat_toNat]
  have hword :
      skipWord ['\\', 'u'] (toUtf8 ('\\' :: 'u' :: ds') ++ rest) = .ok (toUtf8 ds' ++ rest) := rfl
  rw [toUtf8_append, List.append_assoc]
  unfold unicodeEscape
  simp [-toUtf8_cons, hexUnit_of_spellsUnit h, hexUnit_of_spellsUnit h', hnot, hhigh, hlow, hword,
    hpair, bind, Except.bind, pure, Except.pure]

theorem shortEscape?_of_mem (h : (letter, c) ∈ shortEscapes) :
    letter.toNat < 0x80 ∧ letter ≠ 'u' ∧ shortEscape? letter = some c := by
  have hall : ∀ e ∈ shortEscapes,
      e.1.toNat < 0x80 ∧ e.1 ≠ 'u' ∧ shortEscape? e.1 = some e.2 := by decide
  exact hall _ h

theorem escape_of_short (h : (letter, c) ∈ shortEscapes) (rest : Bytes) :
    escape (toUtf8 [letter] ++ rest) = .ok (c, rest) := by
  obtain ⟨hlt, hne, hc⟩ := shortEscape?_of_mem h
  rw [toUtf8_cons_of_lt hlt]
  simp [escape, ofUInt8_toUInt8 hlt, hne, hc]

theorem escape_of_unicode (h : unicodeEscape (toUtf8 ds ++ rest) = .ok (c, rest)) :
    escape (toUtf8 ('u' :: ds) ++ rest) = .ok (c, rest) := h

theorem skipEscape_of_short (h : (letter, c) ∈ shortEscapes) (rest : Bytes) :
    skipEscape (toUtf8 [letter] ++ rest) = .ok rest := by
  obtain ⟨hlt, hne, hc⟩ := shortEscape?_of_mem h
  rw [toUtf8_cons_of_lt hlt]
  simp [skipEscape, ofUInt8_toUInt8 hlt, hne, hc]

theorem skipEscape_of_spellsUnit (h : SpellsUnit ds n) (rest : Bytes) :
    skipEscape (toUtf8 ('u' :: ds) ++ rest) = .ok rest := by
  show (hexUnit (toUtf8 ds ++ rest)).map (·.2) = .ok rest
  rw [hexUnit_of_spellsUnit h]
  rfl

/-! ## Reading piece by piece -/

theorem quotedBytes_quote (rest : Bytes) : quotedBytes (toUtf8 ['"'] ++ rest) = .ok ([], rest) := by
  show quotedBytes (34 :: rest) = _
  rw [quotedBytes]
  rfl

theorem skipQuoted_quote (rest : Bytes) : skipQuoted (toUtf8 ['"'] ++ rest) = .ok rest := by
  show skipQuoted (34 :: rest) = _
  rw [skipQuoted]
  rfl

/-- An escape is replaced by the bytes of its character. -/
theorem quotedBytes_backslash (h : escape (toUtf8 p ++ rest) = .ok (c, rest)) :
    quotedBytes (toUtf8 ('\\' :: p) ++ rest) =
      (quotedBytes rest).map fun (bs, r) => (encodeChar c ++ bs, r) := by
  show quotedBytes (92 :: (toUtf8 p ++ rest)) = _
  rw [quotedBytes, if_neg (by decide), if_pos (by decide)]
  split
  · rename_i e he
    rw [h] at he
    cases he
  · rename_i c' r' hr
    rw [h] at hr
    cases hr
    rfl

theorem skipQuoted_backslash (h : skipEscape (toUtf8 p ++ rest) = .ok rest) :
    skipQuoted (toUtf8 ('\\' :: p) ++ rest) = skipQuoted rest := by
  show skipQuoted (92 :: (toUtf8 p ++ rest)) = _
  rw [skipQuoted, if_neg (by decide), if_pos (by decide)]
  split
  · rename_i e he
    rw [h] at he
    cases he
  · rename_i r' hr
    rw [h] at hr
    cases hr
    rfl

/-- A byte that is no quote, backslash or control character stands for itself. -/
def IsPlain (b : UInt8) : Prop :=
  Char.ofUInt8 b ≠ '"' ∧ Char.ofUInt8 b ≠ '\\' ∧ isControl b = false

theorem isPlain_of_mem_encodeChar (hc : MayStand c) (hb : b ∈ encodeChar c) : IsPlain b := by
  obtain ⟨hquote, hbackslash, hcontrol⟩ := hc
  refine ⟨fun h => hquote (eq_of_mem_encodeChar (by decide) hb h),
    fun h => hbackslash (eq_of_mem_encodeChar (by decide) hb h), ?_⟩
  have hle : 0x20 ≤ b.toNat := by
    by_cases hlt : c.toNat < 0x80
    · rw [encodeChar_of_lt hlt, List.mem_singleton] at hb
      rw [hb, toNat_toUInt8 (by omega)]
      exact hcontrol
    · exact Nat.le_trans (by decide) (le_of_mem_encodeChar (Nat.le_of_not_lt hlt) hb)
  simpa [isControl, UInt8.lt_iff_toNat_lt] using hle

theorem quotedBytes_append (h : ∀ b ∈ bytes, IsPlain b) (rest : Bytes) :
    quotedBytes (bytes ++ rest) = (quotedBytes rest).map fun (bs, r) => (bytes ++ bs, r) := by
  induction bytes with
  | nil => cases h : quotedBytes rest <;> simp [h, Except.map]
  | cons b bytes ih =>
    obtain ⟨⟨hquote, hbackslash, hcontrol⟩, hbytes⟩ := List.forall_mem_cons.1 h
    rw [List.cons_append, quotedBytes, if_neg hquote, if_neg hbackslash, hcontrol, ih hbytes]
    cases quotedBytes rest <;> rfl

theorem skipQuoted_append (h : ∀ b ∈ bytes, IsPlain b) (rest : Bytes) :
    skipQuoted (bytes ++ rest) = skipQuoted rest := by
  induction bytes with
  | nil => rfl
  | cons b bytes ih =>
    obtain ⟨⟨hquote, hbackslash, hcontrol⟩, hbytes⟩ := List.forall_mem_cons.1 h
    rw [List.cons_append, skipQuoted, if_neg hquote, if_neg hbackslash, hcontrol]
    exact ih hbytes

theorem toUtf8_singleton (c : Char) : toUtf8 [c] = encodeChar c := List.append_nil _

/-- However a character is spelled, its bytes are read. -/
theorem quotedBytes_of_spellsChar (h : SpellsChar p c) (rest : Bytes) :
    quotedBytes (toUtf8 p ++ rest) =
      (quotedBytes rest).map fun (bs, r) => (encodeChar c ++ bs, r) := by
  cases h with
  | self hc =>
    rw [toUtf8_singleton]
    exact quotedBytes_append (fun b => isPlain_of_mem_encodeChar hc) rest
  | short h => exact quotedBytes_backslash (escape_of_short h rest)
  | unit h => exact quotedBytes_backslash (escape_of_unicode (unicodeEscape_of_spellsUnit h rest))
  | pair h h' hn hm hc =>
    exact quotedBytes_backslash (escape_of_unicode (unicodeEscape_of_pair h h' hn hm hc rest))

theorem skipQuoted_of_isPiece (h : IsPiece p) (rest : Bytes) :
    skipQuoted (toUtf8 p ++ rest) = skipQuoted rest := by
  cases h with
  | self hc =>
    rw [toUtf8_singleton]
    exact skipQuoted_append (fun b => isPlain_of_mem_encodeChar hc) rest
  | short h => exact skipQuoted_backslash (skipEscape_of_short h rest)
  | unit h => exact skipQuoted_backslash (skipEscape_of_spellsUnit h rest)

/-! ## Whole texts -/

theorem quotedBytes_of_spellsChars (h : SpellsChars s t) (rest : Bytes) :
    quotedBytes (toUtf8 (s ++ ['"']) ++ rest) = .ok (toUtf8 t, rest) := by
  induction h with
  | nil => exact quotedBytes_quote rest
  | cons hp _ ih =>
    rw [List.append_assoc, toUtf8_append, List.append_assoc, quotedBytes_of_spellsChar hp, ih]
    rfl

/-- However the characters of a text are spelled, the text is read. -/
theorem quotedText_of_spellsChars {t : String} (h : SpellsChars s t.toList) (rest : Bytes) :
    quotedText (toUtf8 (s ++ ['"']) ++ rest) = .ok (t, rest) := by
  unfold quotedText
  rw [quotedBytes_of_spellsChars h]
  simp [ofUtf8?_toUtf8, bind, Except.bind, pure, Except.pure]

theorem skipQuoted_of_arePieces (h : ArePieces s) (rest : Bytes) :
    skipQuoted (toUtf8 (s ++ ['"']) ++ rest) = .ok rest := by
  induction h with
  | nil => exact skipQuoted_quote rest
  | cons hp _ ih =>
    rw [List.append_assoc, toUtf8_append, List.append_assoc, skipQuoted_of_isPiece hp, ih]

/-! ## What is quoted -/

theorem ArePieces.append (hs : ArePieces s) (ht : ArePieces t) : ArePieces (s ++ t) := by
  induction hs with
  | nil => exact ht
  | cons hp _ ih =>
    rw [List.append_assoc]
    exact .cons hp ih

theorem IsPiece.arePieces (h : IsPiece p) : ArePieces p := by
  rw [← List.append_nil p]
  exact .cons h .nil

/-- The spelling of a character is a piece, or two if it is a surrogate pair. -/
theorem SpellsChar.arePieces (h : SpellsChar p c) : ArePieces p := by
  cases h with
  | self hc => exact (IsPiece.self hc).arePieces
  | short h => exact (IsPiece.short h).arePieces
  | unit h => exact (IsPiece.unit h).arePieces
  | pair h h' => exact .cons (.unit h) (IsPiece.unit h').arePieces

theorem SpellsChars.arePieces (h : SpellsChars s t) : ArePieces s := by
  induction h with
  | nil => exact .nil
  | cons hp _ ih => exact hp.arePieces.append ih

theorem SpellsQuoted.isQuoted {o : Option String} (h : SpellsQuoted s o) : IsQuoted s := by
  cases o with
  | none => exact h.1
  | some t =>
    obtain ⟨body, hbody, hs⟩ := h
    exact ⟨body, hbody.arePieces, hs⟩

/-- Quoted characters spell one text. -/
theorem SpellsText.unique {t t' : String} (h : SpellsText s t) (h' : SpellsText s t') : t = t' := by
  obtain ⟨body, hbody, rfl⟩ := h
  obtain ⟨body', hbody', heq⟩ := h'
  obtain rfl := List.append_cancel_right (List.cons.inj heq).2
  have hread := quotedText_of_spellsChars hbody []
  rw [quotedText_of_spellsChars hbody'] at hread
  exact (Prod.ext_iff.1 (Except.ok.inj hread)).1.symm

theorem SpellsQuoted.unique {o o' : Option String} (h : SpellsQuoted s o)
    (h' : SpellsQuoted s o') : o = o' := by
  cases o with
  | none =>
    cases o' with
    | none => rfl
    | some t' => exact absurd h' (h.2 t')
  | some t =>
    cases o' with
    | none => exact absurd h (h'.2 t)
    | some t' => exact congrArg some (SpellsText.unique h h')

end FoodTable.Json
