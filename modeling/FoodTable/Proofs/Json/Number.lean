import FoodTable.Json.Number
import FoodTable.Proofs.Json.Quoted

/-!
# Reading numbers

The reader takes a number to its end, whatever form it has, if what follows does not go on with it
(`takeNumeral_of_parts`). So no characters spell two numbers (`SpellsNumber.unique`).
-/

namespace FoodTable.Json

open Text

variable {c : Char} {s ds whole fraction exponent : List Char} {e : Int} {n : Nat} {rest : Bytes}
  {p : Char → Prop}

/-! ## What follows -/

/-- The bytes do not begin with such a character. -/
def Stops (p : Char → Prop) (s : Bytes) : Prop := ∀ b ∈ s.head?, ¬ p (Char.ofUInt8 b)

/-- The characters that go on with a number after a digit. -/
def GoesOn (c : Char) : Prop := c.isDigit = true ∨ c = '.' ∨ c = 'e' ∨ c = 'E'

theorem Stops.mono {q : Char → Prop} (h : Stops p rest) (hq : ∀ c, q c → p c) : Stops q rest :=
  fun b hb hc => h b hb (hq _ hc)

theorem stops_nil : Stops p [] := fun _ hb => nomatch hb

theorem stops_cons (hlt : c.toNat < 0x80) (hc : ¬ p c) (s : List Char) (rest : Bytes) :
    Stops p (toUtf8 (c :: s) ++ rest) := by
  rw [toUtf8_cons_of_lt hlt]
  intro b hb
  obtain rfl := Option.some.inj hb
  rwa [ofUInt8_toUInt8 hlt]

/-! ## Digits -/

theorem toNat_lt_of_isDigit (h : c.isDigit = true) : c.toNat < 0x80 := by
  simp only [Char.isDigit, Bool.and_eq_true, decide_eq_true_eq] at h
  have hle : c.toNat ≤ 57 := h.2
  omega

/-- The value of a digit. -/
def valueOf (c : Char) : Nat := c.toNat - '0'.toNat

theorem toUtf8_of_digits (hds : ∀ c ∈ ds, c.isDigit = true) :
    toUtf8 ds = ds.map fun c => c.toNat.toUInt8 := by
  induction ds with
  | nil => rfl
  | cons c ds ih =>
    obtain ⟨hc, hds⟩ := List.forall_mem_cons.1 hds
    rw [toUtf8_cons, encodeChar_of_lt (toNat_lt_of_isDigit hc), ih hds]
    rfl

theorem takeDigits_of_digits (hne : ds ≠ []) (hds : ∀ c ∈ ds, c.isDigit = true)
    (hrest : Stops (·.isDigit = true) rest) :
    takeDigits (toUtf8 ds ++ rest) = .ok (ds.map valueOf, rest) := by
  have hdigits : ∀ b ∈ toUtf8 ds, isDigitByte b = true := by
    rw [toUtf8_of_digits hds]
    intro b hb
    obtain ⟨c, hc, rfl⟩ := List.mem_map.1 hb
    rw [isDigitByte, ofUInt8_toUInt8 (toNat_lt_of_isDigit (hds c hc))]
    exact hds c hc
  have hvalues : (toUtf8 ds).map digitValue = ds.map valueOf := by
    rw [toUtf8_of_digits hds, List.map_map]
    refine List.map_congr_left fun c hc => ?_
    have hlt := toNat_lt_of_isDigit (hds c hc)
    exact congrArg (· - 48) (toNat_toUInt8 (by omega))
  have htake : rest.takeWhile isDigitByte = [] ∧ rest.dropWhile isDigitByte = rest := by
    cases rest with
    | nil => exact ⟨rfl, rfl⟩
    | cons b rest =>
      have hb : isDigitByte b = false := Bool.eq_false_iff.2 (hrest b rfl)
      rw [List.takeWhile_cons, List.dropWhile_cons, hb]
      exact ⟨rfl, rfl⟩
  unfold takeDigits
  rw [List.takeWhile_append_of_pos hdigits, List.dropWhile_append_of_pos hdigits, htake.1, htake.2,
    List.append_nil, ← hvalues]
  cases hbytes : toUtf8 ds with
  | nil =>
    rw [toUtf8_of_digits hds, List.map_eq_nil_iff] at hbytes
    exact absurd hbytes hne
  | cons b bytes => rfl

/-! ## Parts -/

theorem valueOf_eq_zero_iff (h : c.isDigit = true) : valueOf c = 0 ↔ c = '0' := by
  simp only [Char.isDigit, Bool.and_eq_true, decide_eq_true_eq] at h
  have hle : '0'.toNat ≤ c.toNat := h.1
  rw [← Char.toNat_inj, valueOf]
  omega

theorem takeWhole_of_isWhole (h : IsWhole whole) (hrest : Stops (·.isDigit = true) rest) :
    takeWhole (toUtf8 whole ++ rest) = .ok (whole.map valueOf, rest) := by
  unfold takeWhole
  rw [takeDigits_of_digits h.nonempty h.digits hrest]
  dsimp only [bind, Except.bind]
  split
  · rename_i d ds hmap
    cases whole with
    | nil => cases hmap
    | cons c whole =>
      have hzero : valueOf c = 0 := (List.cons.inj hmap).1
      have hc := (valueOf_eq_zero_iff (h.digits c List.mem_cons_self)).1 hzero
      obtain rfl : whole = [] := (List.cons.inj (h.leading (congrArg some hc))).2
      exact nomatch (List.cons.inj hmap).2
  · rfl

theorem takeFraction_of_spellsFraction (h : SpellsFraction fraction ds)
    (hrest : Stops (fun c => c.isDigit = true ∨ c = '.') rest) :
    takeFraction (toUtf8 fraction ++ rest) = .ok (ds.map valueOf, rest) := by
  cases h with
  | absent =>
    cases rest with
    | nil => rfl
    | cons b rest =>
      have hb := hrest b rfl
      show takeFraction (b :: rest) = _
      rw [takeFraction, if_neg fun h => hb (.inr h)]
      rfl
  | point hne hds => exact takeDigits_of_digits hne hds (hrest.mono fun c => .inl)

theorem foldl_valueOf (ds : List Char) :
    (ds.map valueOf).foldl (fun n d => 10 * n + d) 0 = digitsValue ds :=
  List.foldl_map

theorem takeSign_of_isDigit (hds : IsDecimal ds n) (rest : Bytes) :
    takeSign (toUtf8 ds ++ rest) = (false, toUtf8 ds ++ rest) := by
  obtain ⟨hne, hdigits, -⟩ := hds
  cases ds with
  | nil => exact absurd rfl hne
  | cons c ds =>
    have hc := hdigits c List.mem_cons_self
    rw [toUtf8_cons_of_lt (toNat_lt_of_isDigit hc)]
    simp only [takeSign, ofUInt8_toUInt8 (toNat_lt_of_isDigit hc)]
    split
    · exact absurd hc (by decide)
    · exact absurd hc (by decide)
    · rfl

/-- The sign of an exponent is taken, and its digits are left. -/
theorem takeSign_of_isSigned (h : IsSigned s e) (rest : Bytes) :
    ∃ negative ds n, IsDecimal ds n ∧ takeSign (toUtf8 s ++ rest) = (negative, toUtf8 ds ++ rest) ∧
      e = if negative then -(n : Int) else n := by
  obtain ⟨ds, n, hds, ⟨rfl | rfl, rfl⟩ | ⟨rfl, rfl⟩⟩ := h
  · exact ⟨false, s, n, hds, takeSign_of_isDigit hds rest, rfl⟩
  · exact ⟨false, ds, n, hds, rfl, rfl⟩
  · exact ⟨true, ds, n, hds, rfl, rfl⟩

theorem takeExponent_of_spellsExponent (h : SpellsExponent exponent e) (hrest : Stops GoesOn rest) :
    takeExponent (toUtf8 exponent ++ rest) = .ok (e, rest) := by
  cases h with
  | absent =>
    cases rest with
    | nil => rfl
    | cons b rest =>
      have hb := hrest b rfl
      show takeExponent (b :: rest) = _
      rw [takeExponent, if_neg fun h => hb (.inr (.inr h))]
  | @marked mark s _ hmark hs =>
    have hlt : mark.toNat < 0x80 := by rcases hmark with rfl | rfl <;> decide
    obtain ⟨negative, ds, n, hds, hsign, rfl⟩ := takeSign_of_isSigned hs rest
    rw [toUtf8_cons_of_lt hlt, takeExponent, ofUInt8_toUInt8 hlt, if_pos hmark, hsign]
    show (takeDigits (toUtf8 ds ++ rest) >>= _) = _
    rw [takeDigits_of_digits hds.1 hds.2.1 (hrest.mono fun c => .inl)]
    rw [hds.eq_digitsValue, ← foldl_valueOf]
    rfl

/-! ## Numbers -/

theorem stops_exponent (h : SpellsExponent exponent e) (hrest : Stops GoesOn rest) :
    Stops (fun c => c.isDigit = true ∨ c = '.') (toUtf8 exponent ++ rest) := by
  cases h with
  | absent => exact hrest.mono fun c => Or.imp_right .inl
  | marked hmark => rcases hmark with rfl | rfl <;> exact stops_cons (by decide) (by decide) _ _

theorem stops_fraction (h : SpellsFraction fraction ds)
    (hrest : Stops (fun c => c.isDigit = true ∨ c = '.') rest) :
    Stops (·.isDigit = true) (toUtf8 fraction ++ rest) := by
  cases h with
  | absent => exact hrest.mono fun c => .inl
  | point => exact stops_cons (by decide) (by decide) _ _

/-- The parts of a number after its sign are taken apart. -/
theorem takeNumeral_of_parts (hwhole : IsWhole whole) (hfraction : SpellsFraction fraction ds)
    (hexponent : SpellsExponent exponent e) (hrest : Stops GoesOn rest) :
    takeNumeral (toUtf8 (whole ++ (fraction ++ exponent)) ++ rest) =
      .ok (⟨whole.map valueOf, ds.map valueOf, e⟩, rest) := by
  have hstop := stops_exponent hexponent hrest
  rw [toUtf8_append, toUtf8_append, List.append_assoc, List.append_assoc]
  unfold takeNumeral
  rw [takeWhole_of_isWhole hwhole (stops_fraction hfraction hstop)]
  show (takeFraction (toUtf8 fraction ++ (toUtf8 exponent ++ rest)) >>= _) = _
  rw [takeFraction_of_spellsFraction hfraction hstop]
  show (takeExponent (toUtf8 exponent ++ rest) >>= _) = _
  rw [takeExponent_of_spellsExponent hexponent hrest]
  rfl

/-- The decimal that a number without its sign denotes. -/
def Numeral.exact (n : Numeral) : Decimal :=
  ⟨(n.whole ++ n.fraction).foldl (fun n d => 10 * n + d) 0, n.exponent - n.fraction.length⟩

/-- The text of a number without its sign. -/
structure IsUnsignedNumber (s : List Char) (n : Numeral) : Prop where
  digit : ∃ c t, s = c :: t ∧ c.isDigit = true
  take : ∀ {rest}, Stops GoesOn rest → takeNumeral (toUtf8 s ++ rest) = .ok (n, rest)

theorem SpellsNumber.exists_unsigned {negative : Bool} {d : Decimal}
    (h : SpellsNumber s negative d) :
    ∃ body n, s = signText negative ++ body ∧ IsUnsignedNumber body n ∧ n.exact = d := by
  obtain ⟨hwhole, hfraction, hexponent, hvalue⟩ := h
  refine ⟨_, _, rfl, ⟨?_, takeNumeral_of_parts hwhole hfraction hexponent⟩, ?_⟩
  · obtain ⟨c, whole, rfl⟩ := List.exists_cons_of_ne_nil hwhole.nonempty
    exact ⟨c, _, rfl, hwhole.digits c List.mem_cons_self⟩
  · unfold Numeral.exact
    rw [← List.map_append, foldl_valueOf, List.length_map, hvalue.eq_digitsValue]

theorem IsUnsignedNumber.skip {n : Numeral} (h : IsUnsignedNumber s n) (hrest : Stops GoesOn rest) :
    skipNumber (toUtf8 s ++ rest) = .ok rest := by
  unfold skipNumber
  rw [h.take hrest]

/-- A sign before digits is told from the digits. -/
theorem signText_append_inj {negative negative' : Bool} {t : List Char} {n n' : Numeral}
    (hs : IsUnsignedNumber s n) (ht : IsUnsignedNumber t n')
    (h : signText negative ++ s = signText negative' ++ t) : negative = negative' ∧ s = t := by
  have hminus {s t : List Char} {n : Numeral} (hs : IsUnsignedNumber s n) : s ≠ '-' :: t := by
    obtain ⟨c, _, rfl, hc⟩ := hs.digit
    rintro h
    rw [(List.cons.inj h).1] at hc
    exact absurd hc (by decide)
  cases negative <;> cases negative'
  · exact ⟨rfl, h⟩
  · exact absurd h (hminus hs)
  · exact absurd h.symm (hminus ht)
  · exact ⟨rfl, (List.cons.inj h).2⟩

/-- Characters spell one number. -/
theorem SpellsNumber.unique {negative negative' : Bool} {d d' : Decimal}
    (h : SpellsNumber s negative d) (h' : SpellsNumber s negative' d') :
    negative = negative' ∧ d = d' := by
  obtain ⟨body, n, rfl, hbody, rfl⟩ := h.exists_unsigned
  obtain ⟨body', n', heq, hbody', rfl⟩ := h'.exists_unsigned
  obtain ⟨hsign, rfl⟩ := signText_append_inj hbody hbody' heq
  have htake := hbody.take stops_nil
  rw [hbody'.take stops_nil] at htake
  obtain rfl : n' = n := (Prod.ext_iff.1 (Except.ok.inj htake)).1
  exact ⟨hsign, rfl⟩

end FoodTable.Json
