import FoodTable.Powers
import FoodTable.Text.Numeral
import Mathlib.Data.List.Induction
import Mathlib.Data.Nat.Digits.Defs

/-!
# Numerals

The value of a digit string is the number with these digits in base ten, and the texts that are read
as a natural number are digits with at most one plus sign in front (`unsigned?_eq_some_iff`). Those
read as an integer may have a minus sign there (`signed?_eq_some_iff`). The digits that are written
for a number denote it (`isDecimal_digits`).
-/

namespace FoodTable.Text

/-- The digits `ds` in base ten denote `n`, the first digit counting most. -/
def IsDecimal (ds : List Char) (n : Nat) : Prop :=
  ds ≠ [] ∧ (∀ c ∈ ds, c.isDigit = true) ∧
    n = Nat.ofDigits 10 (ds.reverse.map fun c => c.toNat - '0'.toNat)

/-- The text is digits that denote `n`, with or without a plus sign in front. -/
def IsUnsigned (s : List Char) (n : Nat) : Prop := ∃ ds, (s = ds ∨ s = '+' :: ds) ∧ IsDecimal ds n

theorem digitsValue_eq_ofDigits (ds : List Char) :
    digitsValue ds = Nat.ofDigits 10 (ds.reverse.map fun c => c.toNat - '0'.toNat) := by
  induction ds using List.reverseRecOn with
  | nil => rfl
  | append_singleton ds c ih =>
    rw [digitsValue_append_one, List.reverse_append, List.reverse_singleton, List.singleton_append,
      List.map_cons, Nat.ofDigits_cons, ih, Nat.add_comm]
    rfl

theorem isDigits_iff {s : List Char} : isDigits s = true ↔ s ≠ [] ∧ ∀ c ∈ s, c.isDigit = true := by
  simp [isDigits]

theorem digits?_eq_some_iff {s : List Char} {n : Nat} : digits? s = some n ↔ IsDecimal s n := by
  unfold digits? IsDecimal
  rw [← digitsValue_eq_ofDigits, ← and_assoc, ← isDigits_iff]
  split
  · rename_i h
    rw [Option.some.injEq, eq_comm]
    exact (and_iff_right h).symm
  · rename_i h
    exact iff_of_false (nomatch ·) fun hs => h hs.1

theorem not_isDecimal_plus {s : List Char} {n : Nat} : ¬ IsDecimal ('+' :: s) n :=
  fun h => absurd (h.2.1 '+' List.mem_cons_self) (by decide)

theorem unsigned?_eq_some_iff {s : List Char} {n : Nat} :
    unsigned? s = some n ↔ IsUnsigned s n := by
  unfold unsigned? IsUnsigned
  split
  · rename_i s
    rw [digits?_eq_some_iff]
    constructor
    · exact fun h => ⟨s, .inr rfl, h⟩
    · rintro ⟨ds, rfl | e, h⟩
      · exact absurd h not_isDecimal_plus
      · rwa [(List.cons.inj e).2]
  · rename_i h
    rw [digits?_eq_some_iff]
    constructor
    · exact fun h => ⟨s, .inl rfl, h⟩
    · rintro ⟨ds, rfl | rfl, hds⟩
      · exact hds
      · exact absurd rfl (h ds)

/-- The text is digits that denote `i`, with or without a sign in front. -/
def IsSigned (s : List Char) (i : Int) : Prop :=
  ∃ ds n, IsDecimal ds n ∧ ((s = ds ∨ s = '+' :: ds) ∧ i = n ∨ s = '-' :: ds ∧ i = -n)

theorem not_isDecimal_minus {s : List Char} {n : Nat} : ¬ IsDecimal ('-' :: s) n :=
  fun h => absurd (h.2.1 '-' List.mem_cons_self) (by decide)

theorem signed?_eq_some_iff {s : List Char} {i : Int} : signed? s = some i ↔ IsSigned s i := by
  unfold signed? IsSigned
  split
  · rename_i s
    simp only [Option.map_eq_some_iff, Option.bind_eq_bind, Option.bind_eq_some_iff,
      Option.pure_def, Option.some.injEq, digits?_eq_some_iff]
    constructor
    · rintro ⟨_, ⟨n, hn, rfl⟩, rfl⟩
      exact ⟨s, n, hn, .inr ⟨rfl, rfl⟩⟩
    · rintro ⟨ds, n, hn, ⟨rfl | h, -⟩ | ⟨h, rfl⟩⟩
      · exact absurd hn not_isDecimal_minus
      · cases h
      · obtain rfl := (List.cons.inj h).2
        exact ⟨n, ⟨n, hn, rfl⟩, rfl⟩
  · rename_i hminus
    simp only [Option.map_eq_some_iff, Option.bind_eq_bind, Option.bind_eq_some_iff,
      Option.pure_def, Option.some.injEq, unsigned?_eq_some_iff]
    constructor
    · rintro ⟨_, ⟨n, ⟨ds, hs, hn⟩, rfl⟩, rfl⟩
      exact ⟨ds, n, hn, .inl ⟨hs, rfl⟩⟩
    · rintro ⟨ds, n, hn, ⟨hs, rfl⟩ | ⟨rfl, -⟩⟩
      · exact ⟨n, ⟨n, ⟨ds, hs, hn⟩, rfl⟩, rfl⟩
      · exact absurd rfl (hminus ds)

/-- A text denotes one integer only. -/
theorem IsSigned.unique {s : List Char} {i j : Int} (hi : IsSigned s i) (hj : IsSigned s j) :
    i = j :=
  Option.some.inj ((signed?_eq_some_iff.2 hi).symm.trans (signed?_eq_some_iff.2 hj))

variable {ds : List Char} {c : Char} {n : Nat}

/-- Digits denote the value of the digit string. -/
theorem IsDecimal.eq_digitsValue (h : IsDecimal ds n) : n = digitsValue ds := by
  rw [digitsValue_eq_ofDigits]
  exact h.2.2

/-! ## Written numerals -/

theorem IsDecimal.append_one (h : IsDecimal ds n) (hc : c.isDigit = true) :
    IsDecimal (ds ++ [c]) (10 * n + (c.toNat - '0'.toNat)) := by
  refine ⟨by simp, ?_, ?_⟩
  · rw [List.forall_mem_append]
    exact ⟨h.2.1, by simpa using hc⟩
  · rw [List.reverse_append, List.reverse_singleton, List.singleton_append, List.map_cons,
      Nat.ofDigits_cons, ← h.2.2, Nat.add_comm]

theorem IsDecimal.append_zeros (h : IsDecimal ds n) (k : Nat) :
    IsDecimal (ds ++ List.replicate k '0') (n * pow10 k) := by
  induction k with
  | zero => simpa [pow10] using h
  | succ k ih =>
    have hnext := ih.append_one (c := '0') (by decide)
    rw [List.append_assoc, ← List.replicate_succ'] at hnext
    have hvalue : 10 * (n * pow10 k) + ('0'.toNat - '0'.toNat) = n * pow10 (k + 1) := by
      rw [Nat.sub_self, Nat.add_zero, pow10_succ, Nat.mul_left_comm]
    rwa [hvalue] at hnext

theorem digitChar_digit : ∀ d < 10, (digitChar d).isDigit = true ∧
    (digitChar d).toNat - '0'.toNat = d := by
  decide

/-- The digits of a number denote it. -/
theorem isDecimal_digits (n : Nat) : IsDecimal (digits n) n := by
  fun_induction digits n with
  | case1 n hn =>
    obtain ⟨hdigit, hvalue⟩ := digitChar_digit n hn
    exact ⟨by simp, by simpa using hdigit, by simpa using hvalue.symm⟩
  | case2 n hn ih =>
    obtain ⟨hdigit, hvalue⟩ := digitChar_digit (n % 10) (Nat.mod_lt _ (by decide))
    have hnext := ih.append_one hdigit
    rwa [hvalue, Nat.div_add_mod] at hnext

/-- A number is at least the power of ten at which its first digit stands. -/
theorem pow10_length_digits_le (hn : 0 < n) : pow10 ((digits n).length - 1) ≤ n := by
  fun_induction digits n with
  | case1 n hsmall => exact hn
  | case2 n hn ih =>
    have hlength : (digits (n / 10)).length = (digits (n / 10)).length - 1 + 1 := by
      have := List.length_pos_iff.2 (isDecimal_digits (n / 10)).1
      omega
    rw [List.length_append, List.length_singleton, Nat.add_sub_cancel, hlength, pow10_succ]
    have := ih (by omega)
    omega

end FoodTable.Text
