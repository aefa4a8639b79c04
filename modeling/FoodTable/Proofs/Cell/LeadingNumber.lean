import FoodTable.Proofs.Binary64.Nearest
import FoodTable.Proofs.Cell.Numeral
import FoodTable.Proofs.Json.Number
import FoodTable.Proofs.Text.Trimming
import FoodTable.Proofs.Text.Utf8

/-!
# The number in front of a text

The number in front of a text is the longest numeral there, behind the blanks, rounded correctly
(`leadingNumber?_longest`). The text may as well be scanned byte by byte
(`decimalInFront?_byteChars`): the bytes of a character that is not ASCII are all at least 0x80, so
none of them is a sign, a digit, a point or a mark. What such a scan leaves at the offsets where it
cuts the bytes is a text again (`cuts_byteChars`), so it never cuts a character.
-/

namespace FoodTable.Cell

open Binary64 Text

variable {s t p r : List Char} {c : Char} {negative : Bool} {x : Binary64} {i : Nat}

/-! ## Scanning bytes -/

/-- The bytes of the text, each as the character with its number. -/
def byteChars (s : List Char) : List Char := (toUtf8 s).map Char.ofUInt8

theorem byteChars_cons (c : Char) (s : List Char) :
    byteChars (c :: s) = (encodeChar c).map Char.ofUInt8 ++ byteChars s := by
  unfold byteChars
  rw [toUtf8_cons, List.map_append]

theorem length_byteChars (s : List Char) : (byteChars s).length = (toUtf8 s).length :=
  List.length_map _

theorem encodeChar_ne_nil (c : Char) : encodeChar c ≠ [] := by
  unfold encodeChar
  dsimp only
  split_ifs <;> exact List.cons_ne_nil _ _

/-- What is said of ASCII characters alone is said of the first byte of a text exactly if it is said
of the first character, which is then this byte. -/
theorem byteChars_cases {P : Char → Prop} (hP : ∀ c, P c → c.toNat < 0x80) (c : Char)
    (s : List Char) : P c ∧ byteChars (c :: s) = c :: byteChars s ∨
      ¬ P c ∧ ∃ c' t, byteChars (c :: s) = c' :: t ∧ ¬ P c' := by
  rw [byteChars_cons]
  rcases Nat.lt_or_ge c.toNat 0x80 with hlt | hge
  · rw [encodeChar_of_lt hlt, List.map_singleton, ofUInt8_toUInt8 hlt, List.singleton_append]
    by_cases hc : P c
    · exact .inl ⟨hc, rfl⟩
    · exact .inr ⟨hc, c, _, rfl, hc⟩
  · obtain ⟨b, bytes, hbytes⟩ := List.exists_cons_of_ne_nil (encodeChar_ne_nil c)
    have hb : 0x80 ≤ b.toNat := le_of_mem_encodeChar hge (hbytes ▸ List.mem_cons_self)
    refine .inr ⟨fun hc => Nat.not_lt.2 hge (hP c hc), Char.ofUInt8 b, _, by rw [hbytes]; rfl, ?_⟩
    exact fun hc => Nat.not_lt.2 hb (hP _ hc)

theorem takeSign_cons (hc : ¬ (c = '+' ∨ c = '-')) (s : List Char) :
    takeSign (c :: s) = (false, c :: s) :=
  takeSign_append .absent fun _ h => Option.some.inj h ▸ not_or.1 hc

theorem takeSign_byteChars (s : List Char) :
    takeSign (byteChars s) = ((takeSign s).1, byteChars (takeSign s).2) := by
  cases s with
  | nil => rfl
  | cons c s =>
    have hsign (c : Char) (hc : c = '+' ∨ c = '-') : c.toNat < 0x80 := by
      rcases hc with rfl | rfl <;> decide
    rcases byteChars_cases hsign c s with ⟨hc, heq⟩ | ⟨hc, c', t, heq, hc'⟩
    · rw [heq]
      rcases hc with rfl | rfl <;> rfl
    · rw [takeSign_cons hc, heq, takeSign_cons hc']

theorem takeDigits_byteChars (s : List Char) :
    takeDigits (byteChars s) = ((takeDigits s).1, byteChars (takeDigits s).2) := by
  induction s with
  | nil => rfl
  | cons c s ih =>
    rcases byteChars_cases (fun _ => Json.toNat_lt_of_isDigit) c s with
      ⟨hc, heq⟩ | ⟨hc, c', t, heq, hc'⟩
    · have htake (r : List Char) :
          takeDigits (c :: r) = (c :: (takeDigits r).1, (takeDigits r).2) :=
        takeDigits_append (List.forall_mem_singleton.2 hc) r
      rw [heq, htake, htake, ih]
    · rw [takeDigits_cons hc, heq, takeDigits_cons hc']

theorem toNat_lt_of_point (c : Char) (hc : c = '.') : c.toNat < 0x80 := by
  rw [hc]
  decide

theorem takeFraction_byteChars (s : List Char) :
    takeFraction (byteChars s) = ((takeFraction s).1, byteChars (takeFraction s).2) := by
  cases s with
  | nil => rfl
  | cons c s =>
    rcases byteChars_cases toNat_lt_of_point c s with ⟨rfl, heq⟩ | ⟨hc, c', t, heq, hc'⟩
    · rw [heq]
      exact takeDigits_byteChars s
    · rw [takeFraction_cons hc, heq, takeFraction_cons hc']

theorem toNat_lt_of_mark (c : Char) (hc : c = 'e' ∨ c = 'E') : c.toNat < 0x80 := by
  rcases hc with rfl | rfl <;> decide

theorem exponentInFront_byteChars (s : List Char) :
    exponentInFront (byteChars s) = exponentInFront s := by
  cases s with
  | nil => rfl
  | cons c s =>
    rcases byteChars_cases toNat_lt_of_mark c s with ⟨hc, heq⟩ | ⟨hc, c', t, heq, hc'⟩
    · rw [heq, exponentInFront, exponentInFront, if_pos hc, if_pos hc, takeSign_byteChars]
      dsimp only
      rw [takeDigits_byteChars]
    · rw [heq, exponentInFront, exponentInFront, if_neg hc, if_neg hc']

theorem afterExponent_byteChars (s : List Char) :
    afterExponent (byteChars s) = byteChars (afterExponent s) := by
  cases s with
  | nil => rfl
  | cons c s =>
    rcases byteChars_cases toNat_lt_of_mark c s with ⟨hc, heq⟩ | ⟨hc, c', t, heq, hc'⟩
    · rw [heq, afterExponent, afterExponent, if_pos hc, if_pos hc, takeSign_byteChars]
      dsimp only
      rw [takeDigits_byteChars]
      dsimp only
      split
      · exact heq.symm
      · rfl
    · rw [heq, afterExponent, afterExponent, if_neg hc, if_neg hc', heq]

/-- The scan of the bytes finds what the scan of the characters finds. -/
theorem decimalInFront?_byteChars (s : List Char) :
    decimalInFront? (byteChars s) = decimalInFront? s := by
  simp only [decimalInFront?_eq, takeSign_byteChars, takeDigits_byteChars, takeFraction_byteChars,
    exponentInFront_byteChars]

/-! ## Offsets -/

/-- What is left behind a point. -/
def behindPoint : List Char → List (List Char)
  | '.' :: s => [s]
  | _ => []

/-- What is left behind the mark of an exponent and the sign after it. -/
def behindMark : List Char → List (List Char)
  | [] => []
  | c :: s => if c = 'e' ∨ c = 'E' then [(takeSign s).2] else []

/-- What is left of the text where the scan cuts it: behind the sign, a point and the mark of an
exponent, and at the end. -/
def cuts (s : List Char) : List (List Char) :=
  let unsigned := (takeSign s).2
  let behindWhole := (takeDigits unsigned).2
  let behindFraction := (takeFraction behindWhole).2
  unsigned :: (behindPoint behindWhole ++ behindMark behindFraction ++ [afterNumeral s])

/-- The offsets where the scan of the bytes cuts them. -/
def cutOffsets (s : List Char) : List Nat :=
  (cuts (byteChars s)).map fun r => (toUtf8 s).length - r.length

theorem behindPoint_cons (hc : c ≠ '.') (s : List Char) : behindPoint (c :: s) = [] := by
  unfold behindPoint
  split
  · rename_i h
    exact absurd (List.cons.inj h).1 hc
  · rfl

theorem behindPoint_byteChars (s : List Char) :
    behindPoint (byteChars s) = (behindPoint s).map byteChars := by
  cases s with
  | nil => rfl
  | cons c s =>
    rcases byteChars_cases toNat_lt_of_point c s with ⟨rfl, heq⟩ | ⟨hc, c', t, heq, hc'⟩
    · rw [heq]
      rfl
    · rw [heq, behindPoint_cons hc, behindPoint_cons hc', List.map_nil]

theorem behindMark_byteChars (s : List Char) :
    behindMark (byteChars s) = (behindMark s).map byteChars := by
  cases s with
  | nil => rfl
  | cons c s =>
    rcases byteChars_cases toNat_lt_of_mark c s with ⟨hc, heq⟩ | ⟨hc, c', t, heq, hc'⟩
    · rw [heq, behindMark, behindMark, if_pos hc, if_pos hc, takeSign_byteChars,
        List.map_singleton]
    · rw [heq, behindMark, behindMark, if_neg hc, if_neg hc', List.map_nil]

/-- What is left of the bytes is left of the text. -/
theorem cuts_byteChars (s : List Char) : cuts (byteChars s) = (cuts s).map byteChars := by
  simp only [cuts, afterNumeral, takeSign_byteChars, takeDigits_byteChars, takeFraction_byteChars,
    afterExponent_byteChars, behindPoint_byteChars, behindMark_byteChars, List.map_cons,
    List.map_append, List.map_nil]

theorem afterNumeral_suffix (s : List Char) : afterNumeral s <:+ s :=
  (afterExponent_suffix _).trans <| (takeFraction_suffix _).trans <|
    (takeDigits_suffix _).trans (takeSign_suffix s)

theorem suffix_of_mem_behindPoint (hr : r ∈ behindPoint s) : r <:+ s := by
  unfold behindPoint at hr
  split at hr
  · rw [List.mem_singleton.1 hr]
    exact List.suffix_cons _ _
  · cases hr

theorem suffix_of_mem_behindMark (hr : r ∈ behindMark s) : r <:+ s := by
  unfold behindMark at hr
  split at hr
  · cases hr
  split at hr
  · rw [List.mem_singleton.1 hr]
    exact (takeSign_suffix _).trans (List.suffix_cons _ _)
  · cases hr

/-- What is left at a cut is an end of the text. -/
theorem suffix_of_mem_cuts (hr : r ∈ cuts s) : r <:+ s := by
  have hwhole := (takeDigits_suffix (takeSign s).2).trans (takeSign_suffix s)
  have hfraction := (takeFraction_suffix (takeDigits (takeSign s).2).2).trans hwhole
  simp only [cuts, List.mem_cons, List.mem_append, List.not_mem_nil, or_false] at hr
  rcases hr with rfl | (hr | hr) | rfl
  · exact takeSign_suffix s
  · exact (suffix_of_mem_behindPoint hr).trans hwhole
  · exact (suffix_of_mem_behindMark hr).trans hfraction
  · exact afterNumeral_suffix s

/-- The scan of the bytes cuts them between characters. -/
theorem exists_of_mem_cutOffsets (hi : i ∈ cutOffsets s) :
    ∃ before after, s = before ++ after ∧ (toUtf8 before).length = i := by
  unfold cutOffsets at hi
  rw [cuts_byteChars, List.map_map] at hi
  obtain ⟨r, hr, rfl⟩ := List.mem_map.1 hi
  obtain ⟨before, rfl⟩ := suffix_of_mem_cuts hr
  refine ⟨before, r, rfl, ?_⟩
  rw [Function.comp_apply, length_byteChars, toUtf8_append, List.length_append, Nat.add_sub_cancel]

/-- The last cut is at the end of the longest numeral. -/
theorem IsLongest.getLast?_cutOffsets (h : IsLongest s p) :
    (cutOffsets s).getLast? = some (toUtf8 p).length := by
  have hlast : (cuts s).getLast? = some (afterNumeral s) := by
    unfold cuts
    dsimp only
    rw [← List.cons_append, List.getLast?_concat]
  have hend : (toUtf8 s).length = (toUtf8 p).length + (toUtf8 (afterNumeral s)).length := by
    rw [← List.length_append, ← toUtf8_append, ← h.append_afterNumeral]
  unfold cutOffsets
  rw [cuts_byteChars, List.getLast?_map, List.getLast?_map, hlast, Option.map_some, Option.map_some,
    length_byteChars, hend, Nat.add_sub_cancel]

/-! ## The number -/

theorem leadingNumber?_eq_some_iff : leadingNumber? s = some x ↔ ∃ negative d,
    decimalInFront? (trimStart s) = some (negative, d) ∧ Rounds negative d.value x ∧
      x.isFinite = true := by
  unfold leadingNumber?
  cases decimalInFront? (trimStart s) with
  | none => exact iff_of_false (nomatch ·) fun ⟨_, _, h, _⟩ => nomatch h
  | some found =>
    obtain ⟨negative, d⟩ := found
    have hrounds := rounds_ofDecimal negative d
    dsimp only
    constructor
    · intro h
      split at h
      · rename_i hfinite
        obtain rfl := Option.some.inj h
        exact ⟨negative, d, rfl, hrounds, hfinite⟩
      · cases h
    · rintro ⟨negative', d', h, hx, hfinite⟩
      cases h
      rw [hrounds.unique hx, if_pos hfinite]

theorem leadingNumber?_eq_none_iff : leadingNumber? s = none ↔
    decimalInFront? (trimStart s) = none ∨ ∃ negative d,
      decimalInFront? (trimStart s) = some (negative, d) ∧ IsNearest d.value infinity := by
  unfold leadingNumber?
  cases decimalInFront? (trimStart s) with
  | none => exact iff_of_true rfl (.inl rfl)
  | some found =>
    obtain ⟨negative, d⟩ := found
    have hinfinity := (rounds_ofDecimal negative d).isNearest_infinity_iff
    simp [hinfinity]

theorem le_of_isAlpha (hc : c.isAlpha = true) : 'A'.toNat ≤ c.toNat := by
  rcases Bool.or_eq_true_iff.1 hc with hupper | hlower
  · exact (decide_eq_true_iff.1 hupper).1
  · have hsmall : 'a'.toNat ≤ c.toNat := decide_eq_true_iff.1 (Bool.and_eq_true_iff.1 hlower).1
    exact Nat.le_trans (by decide) hsmall

/-- A letter is neither a digit nor a point nor a sign. -/
theorem ne_of_isAlpha (hc : c.isAlpha = true) :
    ¬ c.isDigit = true ∧ c ≠ '.' ∧ ¬ (c = '+' ∨ c = '-') := by
  refine ⟨fun hdigit => ?_, ?_, ?_⟩
  · have hnine : c.toNat ≤ '9'.toNat := decide_eq_true_iff.1 (Bool.and_eq_true_iff.1 hdigit).2
    exact absurd (Nat.le_trans (le_of_isAlpha hc) hnine) (by decide)
  · rintro rfl
    exact absurd hc (by decide)
  · rintro (rfl | rfl) <;> exact absurd hc (by decide)

/-- No number is found where a letter stands in front, or a sign and a letter. -/
theorem decimalInFront?_of_isAlpha {sign : List Char} (hsign : SpellsSign sign negative)
    (hc : c.isAlpha = true) : decimalInFront? (sign ++ c :: t) = none := by
  obtain ⟨hdigit, hpoint, hother⟩ := ne_of_isAlpha hc
  have htake : takeSign (sign ++ c :: t) = (negative, c :: t) :=
    takeSign_append hsign fun _ h => Option.some.inj h ▸ not_or.1 hother
  rw [decimalInFront?_eq, htake, takeDigits_cons hdigit]
  dsimp only
  rw [takeFraction_cons hpoint]
  rfl

/-- The number in front of a text is that of the longest numeral there, behind the blanks, rounded
correctly. There is none if there is no numeral or the longest one is rounded to infinity, however
small a shorter one is. What follows the longest numeral plays no part, and neither do words, so
that there is no way to write a number that is infinite or none. The scan may run over the bytes. It
then cuts them only between characters, last of all at the end of the longest numeral. -/
theorem leadingNumber?_longest (s : List Char) : ∃ blanks u, s = blanks ++ u ∧
    (∀ c ∈ blanks, isBlank c = true) ∧ (∀ c ∈ u.head?, isBlank c = false) ∧
    (leadingNumber? s = none ↔ (∀ p, IsNumeral p → ¬ p <+: u) ∨
      ∃ p negative d, IsLongest u p ∧ SpellsNumeral p negative d ∧ IsNearest d.value infinity) ∧
    (∀ x, leadingNumber? s = some x ↔ ∃ p negative d, IsLongest u p ∧ SpellsNumeral p negative d ∧
      Rounds negative d.value x ∧ x.isFinite = true) ∧
    (∀ p, IsLongest u p → leadingNumber? s = leadingNumber? p) ∧
    (∀ sign negative c t, SpellsSign sign negative → c.isAlpha = true → u = sign ++ c :: t →
      leadingNumber? s = none) ∧
    decimalInFront? (byteChars u) = decimalInFront? u ∧
    (∀ i ∈ cutOffsets u, ∃ before after, u = before ++ after ∧ (toUtf8 before).length = i) ∧
    ∀ p, IsLongest u p → (cutOffsets u).getLast? = some (toUtf8 p).length := by
  obtain ⟨blanks, hs, hblanks⟩ := exists_trimStart s
  refine ⟨blanks, trimStart s, hs, hblanks, head?_trimStart s, ?none, fun x => ?some,
    fun p hp => ?follows, ?words, decimalInFront?_byteChars _, fun i => exists_of_mem_cutOffsets,
    fun p => IsLongest.getLast?_cutOffsets⟩
  case none =>
    rw [leadingNumber?_eq_none_iff, decimalInFront?_eq_none_iff]
    simp only [decimalInFront?_eq_some_iff]
    refine or_congr_right ⟨?_, ?_⟩
    · rintro ⟨negative, d, ⟨p, hp, hspells⟩, hinfinity⟩
      exact ⟨p, negative, d, hp, hspells, hinfinity⟩
    · rintro ⟨p, negative, d, hp, hspells, hinfinity⟩
      exact ⟨negative, d, ⟨p, hp, hspells⟩, hinfinity⟩
  case some =>
    simp only [leadingNumber?_eq_some_iff, decimalInFront?_eq_some_iff]
    constructor
    · rintro ⟨negative, d, ⟨p, hp, hspells⟩, hx, hfinite⟩
      exact ⟨p, negative, d, hp, hspells, hx, hfinite⟩
    · rintro ⟨p, negative, d, hp, hspells, hx, hfinite⟩
      exact ⟨negative, d, ⟨p, hp, hspells⟩, hx, hfinite⟩
  case follows =>
    have htrim : trimStart p = p := by
      obtain ⟨r, hr⟩ := hp.front
      refine trimStart_eq_self fun c hc => head?_trimStart s c ?_
      rw [← hr, List.head?_append, hc]
      rfl
    unfold leadingNumber?
    rw [hp.decimalInFront?_eq, htrim]
  case words =>
    intro sign negative c t hsign hc hu
    rw [leadingNumber?_eq_none_iff, hu]
    exact .inl (decimalInFront?_of_isAlpha hsign hc)

/-- A negative number with an exponent behind a wide blank and before a mark without an exponent, a
number that is too great although its first characters are none, and a word. -/
theorem leadingNumber?_longest_sample :
    (∃ x, Rounds true 125 x ∧ leadingNumber? "\u3000-1.25e2e+ mg".toList = some x) ∧
      leadingNumber? "1e999".toList = none ∧ leadingNumber? "-inf".toList = none := by
  have htrim {s blanks u : List Char} (hs : s = blanks ++ u)
      (hblanks : ∀ c ∈ blanks, isBlank c = true) (hu : ∀ c ∈ u.head?, isBlank c = false) :
      u = trimStart s := by
    rw [hs, trimStart_blank_append hblanks, trimStart_eq_self hu]
  refine ⟨?number, ?great, ?word⟩
  case number =>
    obtain ⟨blanks, u, hs, hblanks, hu, -, hsome, -⟩ :=
      leadingNumber?_longest "\u3000-1.25e2e+ mg".toList
    obtain rfl : u = "-1.25e2e+ mg".toList := (htrim hs hblanks hu).trans (by decide)
    obtain ⟨p, hp, hspells⟩ := decimalInFront?_eq_some_iff.1
      (show decimalInFront? "-1.25e2e+ mg".toList = some (true, ⟨125, 0⟩) by decide)
    have hx := rounds_ofDecimal true ⟨125, 0⟩
    have hvalue : Decimal.value ⟨125, 0⟩ = 125 := by rw [Decimal.value_natural, Nat.cast_ofNat]
    have hfinite : (ofDecimal true ⟨125, 0⟩).isFinite = true := by decide +kernel
    exact ⟨_, hvalue ▸ hx, (hsome _).2 ⟨p, true, _, hp, hspells, hx, hfinite⟩⟩
  case great =>
    obtain ⟨blanks, u, hs, hblanks, hu, hnone, -⟩ := leadingNumber?_longest "1e999".toList
    obtain rfl : u = "1e999".toList := (htrim hs hblanks hu).trans (by decide)
    obtain ⟨p, hp, hspells⟩ := decimalInFront?_eq_some_iff.1
      (show decimalInFront? "1e999".toList = some (false, ⟨1, 999⟩) by decide)
    exact hnone.2 (.inr ⟨p, false, _, hp, hspells,
      Decimal.isNearest_value_of_lt (by decide) (by decide)⟩)
  case word =>
    obtain ⟨blanks, u, hs, hblanks, hu, -, -, -, hword, -⟩ := leadingNumber?_longest "-inf".toList
    obtain rfl : u = "-inf".toList := (htrim hs hblanks hu).trans (by decide)
    exact hword ['-'] true 'i' ['n', 'f'] .minus (by decide) rfl

end FoodTable.Cell
