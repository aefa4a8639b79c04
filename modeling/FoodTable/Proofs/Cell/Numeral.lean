import FoodTable.Cell.Number
import FoodTable.Proofs.Json.Grammar
import Mathlib.Data.List.TakeWhile

/-!
# Numerals in front of a text

A numeral is an optional sign, digits with an optional point among them, and an optional exponent
(`SpellsNumeral`). The scan for a number finds the longest numeral in front of the text
(`decimalInFront?_eq_some_iff`), and none only if there is none (`decimalInFront?_eq_none_iff`). It
takes each part as far as it goes. No other numeral can end earlier in a part and go on with the
next one, since no digit or point begins an exponent, and no digit begins with a point; and a mark
that the scan leaves has no exponent behind it.
-/

namespace FoodTable.Cell

open Text
open Json (SpellsExponent)

variable {s t r p q ds sign whole point fraction exponent : List Char} {negative : Bool}
  {d : Decimal} {e : Int} {c : Char}

/-! ## The grammar -/

/-- An optional sign, and whether it is a minus sign. -/
inductive SpellsSign : List Char → Bool → Prop
  | absent : SpellsSign [] false
  | plus : SpellsSign ['+'] false
  | minus : SpellsSign ['-'] true

/-- An optional point with the digits after it, of which there may be none. -/
inductive SpellsPoint : List Char → List Char → Prop
  | absent : SpellsPoint [] []
  | point {ds : List Char} (hds : ∀ c ∈ ds, c.isDigit = true) : SpellsPoint ('.' :: ds) ds

/-- The text matches `[+-]?([0-9]+(\.[0-9]*)?|\.[0-9]+)([eE][+-]?[0-9]+)?` and denotes the decimal
with the sign. At least one digit stands before or after the point. -/
inductive SpellsNumeral : List Char → Bool → Decimal → Prop
  | mk {sign whole point fraction exponent : List Char} {negative : Bool} {coefficient : Nat}
      {e : Int} (hsign : SpellsSign sign negative) (hpoint : SpellsPoint point fraction)
      (hexponent : SpellsExponent exponent e) (hvalue : IsDecimal (whole ++ fraction) coefficient) :
      SpellsNumeral (sign ++ (whole ++ (point ++ exponent))) negative
        ⟨coefficient, e - fraction.length⟩

def IsNumeral (p : List Char) : Prop := ∃ negative d, SpellsNumeral p negative d

/-- The text `p` is the longest numeral in front of the text `s`. -/
structure IsLongest (s p : List Char) : Prop where
  front : p <+: s
  numeral : IsNumeral p
  longest : ∀ q, q <+: s → IsNumeral q → q.length ≤ p.length

theorem IsLongest.unique (hp : IsLongest s p) (hq : IsLongest s q) : p = q :=
  (List.prefix_of_prefix_length_le hp.front hq.front
    (hq.longest p hp.front hp.numeral)).eq_of_length_le (hp.longest q hq.front hq.numeral)

theorem SpellsPoint.isDigit (h : SpellsPoint point fraction) :
    ∀ c ∈ fraction, c.isDigit = true := by
  cases h with
  | absent => simp
  | point hds => exact hds

/-! ## Signs -/

theorem exists_takeSign (s : List Char) :
    ∃ sign, SpellsSign sign (takeSign s).1 ∧ s = sign ++ (takeSign s).2 := by
  unfold takeSign
  split
  · exact ⟨_, .minus, rfl⟩
  · exact ⟨_, .plus, rfl⟩
  · exact ⟨_, .absent, rfl⟩

theorem takeSign_suffix (s : List Char) : (takeSign s).2 <:+ s := by
  obtain ⟨sign, -, hs⟩ := exists_takeSign s
  exact ⟨sign, hs.symm⟩

/-- A sign is taken if what follows is no sign itself. -/
theorem takeSign_append (h : SpellsSign sign negative)
    (ht : ∀ c ∈ t.head?, c ≠ '+' ∧ c ≠ '-') : takeSign (sign ++ t) = (negative, t) := by
  cases h with
  | absent =>
    rw [List.nil_append]
    unfold takeSign
    split
    · exact absurd rfl (ht '-' rfl).2
    · exact absurd rfl (ht '+' rfl).1
    · rfl
  | plus => rfl
  | minus => rfl

theorem isSigned_iff : IsSigned s e ↔ ∃ sign negative ds n, SpellsSign sign negative ∧
    IsDecimal ds n ∧ s = sign ++ ds ∧ e = if negative then -(n : Int) else n := by
  constructor
  · rintro ⟨ds, n, hds, ⟨rfl | rfl, rfl⟩ | ⟨rfl, rfl⟩⟩
    · exact ⟨[], false, _, n, .absent, hds, rfl, rfl⟩
    · exact ⟨_, false, ds, n, .plus, hds, rfl, rfl⟩
    · exact ⟨_, true, ds, n, .minus, hds, rfl, rfl⟩
  · rintro ⟨sign, negative, ds, n, hsign, hds, rfl, rfl⟩
    cases hsign with
    | absent => exact ⟨ds, n, hds, .inl ⟨.inl rfl, rfl⟩⟩
    | plus => exact ⟨ds, n, hds, .inl ⟨.inr rfl, rfl⟩⟩
    | minus => exact ⟨ds, n, hds, .inr ⟨rfl, rfl⟩⟩

/-! ## Digits -/

theorem takeDigits_fst_append_snd (s : List Char) : (takeDigits s).1 ++ (takeDigits s).2 = s :=
  List.takeWhile_append_dropWhile

theorem isDigit_of_mem_takeDigits (h : c ∈ (takeDigits s).1) : c.isDigit = true :=
  List.mem_takeWhile_imp h

/-- Digits are taken together with those that follow them. -/
theorem takeDigits_append (hds : ∀ c ∈ ds, c.isDigit = true) (r : List Char) :
    takeDigits (ds ++ r) = (ds ++ (takeDigits r).1, (takeDigits r).2) := by
  unfold takeDigits
  rw [List.takeWhile_append_of_pos hds, List.dropWhile_append_of_pos hds]

theorem takeDigits_cons (hc : ¬ c.isDigit = true) (s : List Char) :
    takeDigits (c :: s) = ([], c :: s) := by
  unfold takeDigits
  rw [List.takeWhile_cons_of_neg hc, List.dropWhile_cons_of_neg hc]

theorem takeDigits_suffix (s : List Char) : (takeDigits s).2 <:+ s := List.dropWhile_suffix _

theorem isDecimal_digitsValue (hne : ds ≠ []) (hds : ∀ c ∈ ds, c.isDigit = true) :
    IsDecimal ds (digitsValue ds) :=
  ⟨hne, hds, digitsValue_eq_ofDigits ds⟩

/-! ## Fractions -/

theorem exists_takeFraction (s : List Char) :
    ∃ point, SpellsPoint point (takeFraction s).1 ∧ s = point ++ (takeFraction s).2 := by
  unfold takeFraction
  split
  · rename_i s
    refine ⟨_, .point fun c => isDigit_of_mem_takeDigits, ?_⟩
    rw [List.cons_append, takeDigits_fst_append_snd]
  · exact ⟨_, .absent, rfl⟩

theorem takeFraction_point (hds : ∀ c ∈ ds, c.isDigit = true) (r : List Char) :
    takeFraction ('.' :: ds ++ r) = (ds ++ (takeDigits r).1, (takeDigits r).2) :=
  takeDigits_append hds r

theorem takeFraction_cons (hc : c ≠ '.') (s : List Char) :
    takeFraction (c :: s) = ([], c :: s) := by
  unfold takeFraction
  split
  · rename_i h
    exact absurd (List.cons.inj h).1 hc
  · rfl

theorem takeFraction_suffix (s : List Char) : (takeFraction s).2 <:+ s := by
  obtain ⟨point, -, hs⟩ := exists_takeFraction s
  exact ⟨point, hs.symm⟩

/-! ## Exponents -/

/-- The text after the exponent in front of it, or all of it if there is none. -/
def afterExponent : List Char → List Char
  | [] => []
  | c :: s =>
    if c = 'e' ∨ c = 'E' then
      let (ds, rest) := takeDigits (takeSign s).2
      if ds = [] then c :: s else rest
    else c :: s

theorem exists_exponentInFront (s : List Char) :
    ∃ exponent, SpellsExponent exponent (exponentInFront s) ∧ s = exponent ++ afterExponent s := by
  cases s with
  | nil => exact ⟨[], .absent, rfl⟩
  | cons c s =>
    unfold exponentInFront afterExponent
    dsimp only
    by_cases hmark : c = 'e' ∨ c = 'E'
    · rw [if_pos hmark, if_pos hmark]
      by_cases hds : (takeDigits (takeSign s).2).1 = []
      · refine ⟨[], ?_, by rw [if_pos hds, List.nil_append]⟩
        rw [hds, show (digitsValue [] : Int) = 0 from rfl, neg_zero, ite_self]
        exact .absent
      · obtain ⟨sign, hsign, hs⟩ := exists_takeSign s
        refine ⟨c :: (sign ++ (takeDigits (takeSign s).2).1), .marked hmark ?_, ?_⟩
        · exact isSigned_iff.2 ⟨sign, _, _, _, hsign,
            isDecimal_digitsValue hds fun c => isDigit_of_mem_takeDigits, rfl, rfl⟩
        · rw [if_neg hds, List.cons_append, List.append_assoc, takeDigits_fst_append_snd, ← hs]
    · rw [if_neg hmark, if_neg hmark]
      exact ⟨[], .absent, rfl⟩

theorem afterExponent_suffix (s : List Char) : afterExponent s <:+ s := by
  obtain ⟨exponent, -, hs⟩ := exists_exponentInFront s
  exact ⟨exponent, hs.symm⟩

/-! ## What is taken of a numeral -/

theorem ne_sign_of_isDigit (hc : c.isDigit = true) : c ≠ '+' ∧ c ≠ '-' := by
  constructor <;> rintro rfl <;> exact absurd hc (by decide)

/-- The sign of a numeral is taken alone. -/
theorem takeSign_numeral {n : Nat} (hsign : SpellsSign sign negative)
    (hpoint : SpellsPoint point fraction) (hvalue : IsDecimal (whole ++ fraction) n)
    (r : List Char) :
    takeSign (sign ++ (whole ++ (point ++ r))) = (negative, whole ++ (point ++ r)) := by
  apply takeSign_append hsign
  intro c hc
  cases whole with
  | cons d whole =>
    obtain rfl : d = c := Option.some.inj hc
    exact ne_sign_of_isDigit (hvalue.2.1 d List.mem_cons_self)
  | nil =>
    cases hpoint with
    | absent => exact absurd rfl hvalue.1
    | point =>
      obtain rfl : '.' = c := Option.some.inj hc
      decide

theorem takeSign_digits {n : Nat} (hsign : SpellsSign sign negative) (hds : IsDecimal ds n)
    (r : List Char) : takeSign (sign ++ (ds ++ r)) = (negative, ds ++ r) :=
  takeSign_numeral hsign .absent (by rwa [List.append_nil]) r

/-- Where neither a digit nor a point follows, exactly the digits and the point are taken. -/
theorem take_exact (hwhole : ∀ c ∈ whole, c.isDigit = true) (hpoint : SpellsPoint point fraction)
    (ht : ∀ c ∈ t.head?, ¬ c.isDigit = true ∧ c ≠ '.') :
    takeDigits (whole ++ (point ++ t)) = (whole, point ++ t) ∧
      takeFraction (point ++ t) = (fraction, t) := by
  have hdigits : takeDigits t = ([], t) := by
    cases t with
    | nil => rfl
    | cons c t => exact takeDigits_cons (ht c rfl).1 t
  rw [takeDigits_append hwhole]
  cases hpoint with
  | absent =>
    rw [List.nil_append, hdigits, List.append_nil]
    refine ⟨rfl, ?_⟩
    cases t with
    | nil => rfl
    | cons c t => exact takeFraction_cons (ht c rfl).2 t
  | point hds =>
    rw [List.cons_append, takeDigits_cons (by decide), List.append_nil, ← List.cons_append,
      takeFraction_point hds, hdigits, List.append_nil]
    exact ⟨rfl, rfl⟩

/-- Whatever follows, the digits and the point are taken. -/
theorem take_append (hwhole : ∀ c ∈ whole, c.isDigit = true) (hpoint : SpellsPoint point fraction)
    (t : List Char) :
    (takeFraction (takeDigits (whole ++ (point ++ t))).2).2.length ≤ t.length ∧
      (whole ++ fraction ≠ [] → (takeDigits (whole ++ (point ++ t))).1 ++
        (takeFraction (takeDigits (whole ++ (point ++ t))).2).1 ≠ []) := by
  rw [takeDigits_append hwhole]
  dsimp only
  cases hpoint with
  | absent =>
    rw [List.nil_append, List.append_nil]
    refine ⟨((takeFraction_suffix _).trans (takeDigits_suffix t)).length_le, fun hne => ?_⟩
    simp [hne]
  | point hds =>
    rw [List.cons_append, takeDigits_cons (by decide), List.append_nil, ← List.cons_append,
      takeFraction_point hds]
    refine ⟨(takeDigits_suffix t).length_le, fun hne => ?_⟩
    rw [← List.append_assoc]
    exact List.append_ne_nil_of_left_ne_nil hne _

/-- An exponent is taken, whatever follows. -/
theorem take_exponent (h : SpellsExponent exponent e) (r : List Char) :
    (afterExponent (exponent ++ r)).length ≤ r.length := by
  cases h with
  | absent => exact (afterExponent_suffix r).length_le
  | marked hmark hs =>
    obtain ⟨sign, negative, ds, n, hsign, hds, rfl, -⟩ := isSigned_iff.1 hs
    rw [List.cons_append, List.append_assoc, afterExponent, if_pos hmark,
      takeSign_digits hsign hds, takeDigits_append hds.2.1]
    dsimp only
    rw [if_neg (List.append_ne_nil_of_left_ne_nil hds.1 _)]
    exact (takeDigits_suffix r).length_le

theorem exponentInFront_of_spells (h : SpellsExponent exponent e) :
    exponentInFront exponent = e := by
  cases h with
  | absent => rfl
  | marked hmark hs =>
    obtain ⟨sign, negative, ds, n, hsign, hds, rfl, rfl⟩ := isSigned_iff.1 hs
    have htake := takeSign_digits hsign hds []
    have hdigits := takeDigits_append hds.2.1 []
    rw [List.append_nil] at htake hdigits
    rw [exponentInFront, if_pos hmark, htake]
    dsimp only
    rw [hdigits]
    dsimp only
    rw [show (takeDigits []).1 = [] from rfl, List.append_nil, ← hds.eq_digitsValue]

/-! ## The longest numeral -/

/-- The text after the numeral in front of it. -/
def afterNumeral (s : List Char) : List Char :=
  afterExponent (takeFraction (takeDigits (takeSign s).2).2).2

theorem decimalInFront?_eq (s : List Char) : decimalInFront? s =
    if (takeDigits (takeSign s).2).1 ++ (takeFraction (takeDigits (takeSign s).2).2).1 = []
    then none
    else some ((takeSign s).1, ⟨digitsValue ((takeDigits (takeSign s).2).1 ++
        (takeFraction (takeDigits (takeSign s).2).2).1),
      exponentInFront (takeFraction (takeDigits (takeSign s).2).2).2 -
        (takeFraction (takeDigits (takeSign s).2).2).1.length⟩) := by
  unfold decimalInFront?
  simp only [List.append_eq_nil_iff, Bool.and_eq_true, List.isEmpty_iff]

/-- What the scan takes is a numeral that denotes the decimal. -/
theorem exists_spellsNumeral (h : decimalInFront? s = some (negative, d)) :
    ∃ p, s = p ++ afterNumeral s ∧ SpellsNumeral p negative d := by
  rw [decimalInFront?_eq] at h
  split at h
  · cases h
  rename_i hne
  rw [Option.some.injEq, Prod.mk.injEq] at h
  obtain ⟨rfl, rfl⟩ := h
  obtain ⟨sign, hsign, hs⟩ := exists_takeSign s
  obtain ⟨point, hpoint, hfraction⟩ := exists_takeFraction (takeDigits (takeSign s).2).2
  obtain ⟨exponent, hexponent, hrest⟩ :=
    exists_exponentInFront (takeFraction (takeDigits (takeSign s).2).2).2
  refine ⟨_, ?_, .mk hsign hpoint hexponent (isDecimal_digitsValue hne ?_)⟩
  · unfold afterNumeral
    rw [List.append_assoc, List.append_assoc, List.append_assoc, ← hrest, ← hfraction,
      takeDigits_fst_append_snd, ← hs]
  · rw [List.forall_mem_append]
    exact ⟨fun c => isDigit_of_mem_takeDigits, hpoint.isDigit⟩

/-- Neither a digit nor a point begins an exponent. -/
theorem head?_exponent (h : SpellsExponent exponent e) (hr : exponent ≠ [] ∨ r = []) :
    ∀ c ∈ (exponent ++ r).head?, ¬ c.isDigit = true ∧ c ≠ '.' := by
  intro c hc
  cases h with
  | absent => simp [hr.resolve_left (absurd rfl)] at hc
  | marked hmark =>
    obtain rfl := Option.some.inj hc
    rcases hmark with rfl | rfl <;> decide

/-- No numeral is longer than what the scan takes. -/
theorem SpellsNumeral.length_afterNumeral_le (h : SpellsNumeral q negative d) (r : List Char) :
    (afterNumeral (q ++ r)).length ≤ r.length := by
  cases h with
  | @mk sign whole point fraction exponent _ _ _ hsign hpoint hexponent hvalue =>
    have hwhole := (List.forall_mem_append.1 hvalue.2.1).1
    unfold afterNumeral
    rw [List.append_assoc, List.append_assoc, List.append_assoc,
      takeSign_numeral hsign hpoint hvalue]
    -- only at the end of the numeral may the scan take more of a part than the numeral has
    by_cases hnone : exponent = []
    · rw [hnone, List.nil_append]
      exact (afterExponent_suffix _).length_le.trans (take_append hwhole hpoint r).1
    · obtain ⟨hdigits, hfraction⟩ :=
        take_exact hwhole hpoint (head?_exponent hexponent (.inl hnone))
      rw [hdigits, hfraction]
      exact take_exponent hexponent r

/-- A number is found wherever a numeral stands in front. -/
theorem SpellsNumeral.decimalInFront?_ne_none (h : SpellsNumeral q negative d) (r : List Char) :
    decimalInFront? (q ++ r) ≠ none := by
  obtain ⟨hsign, hpoint, hexponent, hvalue⟩ := h
  have hwhole := (List.forall_mem_append.1 hvalue.2.1).1
  rw [decimalInFront?_eq, List.append_assoc, List.append_assoc, List.append_assoc,
    takeSign_numeral hsign hpoint hvalue, if_neg ((take_append hwhole hpoint _).2 hvalue.1)]
  exact Option.some_ne_none _

/-- A numeral by itself is read as what it denotes. -/
theorem SpellsNumeral.decimalInFront?_eq_some (h : SpellsNumeral p negative d) :
    decimalInFront? p = some (negative, d) := by
  obtain ⟨hsign, hpoint, hexponent, hvalue⟩ := h
  have hwhole := (List.forall_mem_append.1 hvalue.2.1).1
  have hhead := head?_exponent hexponent (.inr rfl)
  rw [List.append_nil] at hhead
  obtain ⟨hdigits, hfraction⟩ := take_exact hwhole hpoint hhead
  rw [decimalInFront?_eq, takeSign_numeral hsign hpoint hvalue, hdigits]
  dsimp only
  rw [hfraction, if_neg hvalue.1, ← hvalue.eq_digitsValue, exponentInFront_of_spells hexponent]

/-- Nothing is found only where no numeral stands in front. -/
theorem decimalInFront?_eq_none_iff :
    decimalInFront? s = none ↔ ∀ p, IsNumeral p → ¬ p <+: s := by
  constructor
  · rintro h p ⟨negative, d, hp⟩ ⟨r, rfl⟩
    exact hp.decimalInFront?_ne_none r h
  · intro h
    rw [Option.eq_none_iff_forall_ne_some]
    rintro ⟨negative, d⟩ hd
    obtain ⟨p, hs, hp⟩ := exists_spellsNumeral hd
    exact h p ⟨negative, d, hp⟩ ⟨_, hs.symm⟩

/-- What the scan takes is the longest numeral in front. -/
theorem isLongest_of_decimalInFront? (h : decimalInFront? s = some (negative, d)) :
    ∃ p, s = p ++ afterNumeral s ∧ IsLongest s p ∧ SpellsNumeral p negative d := by
  obtain ⟨p, hs, hp⟩ := exists_spellsNumeral h
  refine ⟨p, hs, ⟨⟨_, hs.symm⟩, ⟨negative, d, hp⟩, ?_⟩, hp⟩
  rintro q ⟨r, rfl⟩ ⟨negative', d', hq⟩
  have hle := hq.length_afterNumeral_le r
  have hlength := congrArg List.length hs
  rw [List.length_append, List.length_append] at hlength
  omega

theorem decimalInFront?_eq_some_iff :
    decimalInFront? s = some (negative, d) ↔ ∃ p, IsLongest s p ∧ SpellsNumeral p negative d := by
  constructor
  · intro h
    obtain ⟨p, -, hp⟩ := isLongest_of_decimalInFront? h
    exact ⟨p, hp⟩
  · rintro ⟨p, hp, hspells⟩
    cases hd : decimalInFront? s with
    | none => exact absurd hp.front (decimalInFront?_eq_none_iff.1 hd p hp.numeral)
    | some found =>
      obtain ⟨p', -, hp', hspells'⟩ := isLongest_of_decimalInFront? hd
      obtain rfl := hp.unique hp'
      rw [← hspells.decimalInFront?_eq_some, ← hspells'.decimalInFront?_eq_some]

theorem IsLongest.append_afterNumeral (h : IsLongest s p) : s = p ++ afterNumeral s := by
  obtain ⟨negative, d, hp⟩ := h.numeral
  obtain ⟨p', hs, hp', -⟩ := isLongest_of_decimalInFront? (decimalInFront?_eq_some_iff.2 ⟨p, h, hp⟩)
  rwa [h.unique hp']

/-- What follows the longest numeral plays no part. -/
theorem IsLongest.decimalInFront?_eq (h : IsLongest s p) :
    decimalInFront? s = decimalInFront? p := by
  obtain ⟨negative, d, hp⟩ := h.numeral
  rw [hp.decimalInFront?_eq_some, decimalInFront?_eq_some_iff]
  exact ⟨p, h, hp⟩

end FoodTable.Cell
