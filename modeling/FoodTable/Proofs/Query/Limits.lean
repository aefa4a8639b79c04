import FoodTable.Proofs.Query.Tokens

/-!
# Limits

A limit is read as a number of 64 bits before it is brought into the range from 1 to 100. So the
rule that every integer is brought there (`Grammar.Clamps`) holds of the integers of 64 bits and of
no others (`Grammar.limit_clamped_iff`): a greater or a lesser one is refused with the message of a
text that is no integer.
-/

namespace FoodTable.Grammar

open Text

variable {s : String} {t : List Char} {i : Int} {n : Nat}

/-- The number of foods on a page that an integer asks for: itself from 1 to 100, and otherwise the
nearer end of this range. -/
structure Clamps (i : Int) (n : Nat) : Prop where
  below : i < 1 → n = 1
  within : 1 ≤ i → i ≤ 100 → (n : Int) = i
  above : 100 < i → n = 100

/-- The integer has 64 bits with the sign. -/
def IsWord (i : Int) : Prop := -(pow2 63 : Int) ≤ i ∧ i < pow2 63

theorem clamps_iff : Clamps i n ↔ (n : Int) = max 1 (min i 100) := by
  constructor
  · rintro ⟨hbelow, hwithin, habove⟩
    omega
  · exact fun h => ⟨by omega, by omega, by omega⟩

/-- Every integer asks for a number of foods, and for one only. -/
theorem existsUnique_clamps (i : Int) : ∃! n, Clamps i n := by
  simp only [clamps_iff]
  exact ⟨(max 1 (min i 100)).toNat, by omega, fun n hn => by omega⟩

theorem statesLimit_iff_clamps : StatesLimit s n ↔
    ∃ t i, TrimsTo s.toList t ∧ IsSigned t i ∧ IsWord i ∧ Clamps i n := by
  unfold StatesLimit IsWord
  simp only [clamps_iff, and_assoc]

/-- An integer, with any number of digits, is brought into the range of limits if and only if it has
64 bits. Every other text is refused as it stands, that of a wider integer too. Without a text the
limit is 10. -/
theorem limit_clamped_iff (s : String) : limit none = .ok 10 ∧ ∃ t, TrimsTo s.toList t ∧
    (∀ i, IsSigned t i → ((∃ n, Clamps i n ∧ limit (some s) = .ok n) ↔ IsWord i)) ∧
    ((∀ i, IsSigned t i → ¬ IsWord i) → limit (some s) = .error (.invalidLimit s)) := by
  have htext := trimsTo_trim s.toList
  refine ⟨rfl, _, htext, fun i hi => ⟨?word, ?clamped⟩, fun hnone => ?refused⟩
  case word =>
    rintro ⟨n, -, hn⟩
    obtain ⟨t, j, ht, hj, hword, -⟩ := statesLimit_iff_clamps.1 (limit_eq_ok_iff.1 hn)
    obtain rfl := trim_of_trimsTo ht
    rwa [hi.unique hj]
  case clamped =>
    intro hword
    obtain ⟨n, hn, -⟩ := existsUnique_clamps i
    exact ⟨n, hn, limit_eq_ok_iff.2 (statesLimit_iff_clamps.2 ⟨_, i, htext, hi, hword, hn⟩)⟩
  case refused =>
    refine limit_eq_error_iff.2 ⟨fun n hn => ?_, rfl⟩
    obtain ⟨t, i, ht, hi, hword, -⟩ := statesLimit_iff_clamps.1 hn
    obtain rfl := trim_of_trimsTo ht
    exact hnone i hi hword

/-- The integers next to those of 64 bits ask for 100 foods and for one, and are refused. -/
theorem wide_limits_refused :
    (TrimsTo "9223372036854775808".toList "9223372036854775808".toList ∧
      IsSigned "9223372036854775808".toList 9223372036854775808 ∧
      Clamps 9223372036854775808 100 ∧
      limit (some "9223372036854775808") = .error (.invalidLimit "9223372036854775808")) ∧
    TrimsTo "-9223372036854775809".toList "-9223372036854775809".toList ∧
      IsSigned "-9223372036854775809".toList (-9223372036854775809) ∧
      Clamps (-9223372036854775809) 1 ∧
      limit (some "-9223372036854775809") = .error (.invalidLimit "-9223372036854775809") := by
  exact ⟨⟨trim_eq_iff.1 (by decide), signed?_eq_some_iff.1 (by decide), clamps_iff.2 (by decide),
    by decide⟩, trim_eq_iff.1 (by decide), signed?_eq_some_iff.1 (by decide),
    clamps_iff.2 (by decide), by decide⟩

end FoodTable.Grammar
