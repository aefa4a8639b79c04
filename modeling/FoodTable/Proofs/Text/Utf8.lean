import FoodTable.Text.Utf8
import Mathlib.Data.List.Basic

/-!
# Encoding and decoding

A text is read back from its bytes (`ofUtf8?_toUtf8`), so no two texts have the same bytes. A
character below U+0080 is one byte, and all bytes of the other characters are at least 0x80, so
whoever looks at single bytes takes no part of a character for one of the former.
-/

namespace FoodTable.Text

variable {c : Char} {n : Nat} {b : UInt8} {bytes : Bytes} {o : Owed}

@[simp] theorem toUtf8_nil : toUtf8 [] = [] := rfl

@[simp] theorem toUtf8_cons (c : Char) (s : List Char) :
    toUtf8 (c :: s) = encodeChar c ++ toUtf8 s :=
  List.flatMap_cons

@[simp] theorem toUtf8_append (s t : List Char) : toUtf8 (s ++ t) = toUtf8 s ++ toUtf8 t :=
  List.flatMap_append

theorem toNat_toUInt8 (h : n < 256) : n.toUInt8.toNat = n := UInt8.toNat_ofNat_of_lt' h

/-! ## Single bytes -/

theorem encodeChar_of_lt (h : c.toNat < 0x80) : encodeChar c = [c.toNat.toUInt8] := by
  unfold encodeChar
  exact if_pos h

theorem ofUInt8_toUInt8 (h : c.toNat < 0x80) : Char.ofUInt8 c.toNat.toUInt8 = c := by
  apply Char.toNat_inj.1
  exact toNat_toUInt8 (by omega)

/-- A number that is a character is no surrogate and at most U+10FFFF. -/
theorem toNat_valid (c : Char) : c.toNat < 0xD800 ∨ 0xDFFF < c.toNat ∧ c.toNat < 0x110000 := c.valid

theorem le_of_mem_encodeChar (h : 0x80 ≤ c.toNat) (hb : b ∈ encodeChar c) : 0x80 ≤ b.toNat := by
  have hvalid := toNat_valid c
  unfold encodeChar at hb
  dsimp only at hb
  rw [if_neg (by omega)] at hb
  split at hb
  · simp only [List.mem_cons, List.not_mem_nil, or_false] at hb
    rcases hb with rfl | rfl <;> rw [toNat_toUInt8 (by omega)] <;> omega
  split at hb
  · simp only [List.mem_cons, List.not_mem_nil, or_false] at hb
    rcases hb with rfl | rfl | rfl <;> rw [toNat_toUInt8 (by omega)] <;> omega
  · simp only [List.mem_cons, List.not_mem_nil, or_false] at hb
    rcases hb with rfl | rfl | rfl | rfl <;> rw [toNat_toUInt8 (by omega)] <;> omega

/-! ## Decoding step by step -/

theorem decodeFrom_single (h : b.toNat < 0x80) :
    decodeFrom none (b :: bytes) = some (Char.ofNat b.toNat) :: decodeFrom none bytes := by
  rw [decodeFrom, beginChar, if_pos h]
  rfl

theorem decodeFrom_lead (hb : 0x80 ≤ b.toNat) (ho : Owed.ofLead? b.toNat = some o) :
    decodeFrom none (b :: bytes) = decodeFrom (some o) bytes := by
  rw [decodeFrom, beginChar, if_neg (Nat.not_lt.2 hb), ho]
  rfl

theorem decodeFrom_further (hb : o.low ≤ b.toNat ∧ b.toNat ≤ o.high) (ho : o.further = n + 1) :
    decodeFrom (some o) (b :: bytes) =
      decodeFrom (some ⟨0x80, 0xBF, n, o.bits * 64 + (b.toNat - 0x80)⟩) bytes := by
  rw [decodeFrom, Owed.step, if_pos hb, ho]
  rfl

theorem decodeFrom_last (hb : o.low ≤ b.toNat ∧ b.toNat ≤ o.high) (ho : o.further = 0) :
    decodeFrom (some o) (b :: bytes) =
      some (Char.ofNat (o.bits * 64 + (b.toNat - 0x80))) :: decodeFrom none bytes := by
  rw [decodeFrom, Owed.step, if_pos hb, ho]
  rfl

/-- The byte after the first one of a character, which has the lowest six bits of a number. -/
theorem toNat_continuation (n : Nat) : (0x80 + n % 64).toUInt8.toNat = 0x80 + n % 64 :=
  toNat_toUInt8 (by omega)

theorem continuation_bounds (n : Nat) : 0x80 ≤ (0x80 + n % 64).toUInt8.toNat ∧
    (0x80 + n % 64).toUInt8.toNat ≤ 0xBF := by
  rw [toNat_continuation]
  omega

theorem decodeFrom_two (h : 0x80 ≤ c.toNat) (hc : c.toNat < 0x800) :
    decodeFrom none ((0xC0 + c.toNat / 64).toUInt8 :: (0x80 + c.toNat % 64).toUInt8 :: bytes) =
      some c :: decodeFrom none bytes := by
  have hlead := toNat_toUInt8 (n := 0xC0 + c.toNat / 64) (by omega)
  rw [decodeFrom_lead (o := ⟨0x80, 0xBF, 0, c.toNat / 64⟩) (by omega), decodeFrom_last _ rfl,
    toNat_continuation]
  · dsimp only
    rw [show c.toNat / 64 * 64 + (0x80 + c.toNat % 64 - 0x80) = c.toNat by omega, Char.ofNat_toNat]
  · rw [toNat_continuation]
    dsimp only
    omega
  · rw [hlead, Owed.ofLead?, if_pos (by omega)]
    simp

theorem exists_lead_three (h : 0x800 ≤ c.toNat) (hc : c.toNat < 0x10000) :
    ∃ low high, Owed.ofLead? (0xE0 + c.toNat / 4096) = some ⟨low, high, 1, c.toNat / 4096⟩ ∧
      low ≤ 0x80 + c.toNat / 64 % 64 ∧ 0x80 + c.toNat / 64 % 64 ≤ high := by
  have hvalid := toNat_valid c
  unfold Owed.ofLead?
  rw [if_neg (by omega)]
  split
  · exact ⟨0xA0, 0xBF, by rw [Option.some.injEq, Owed.mk.injEq]; omega, by omega, by omega⟩
  split
  · exact ⟨0x80, 0x9F, by rw [Option.some.injEq, Owed.mk.injEq]; omega, by omega, by omega⟩
  · rw [if_pos (by omega)]
    exact ⟨0x80, 0xBF, by rw [Option.some.injEq, Owed.mk.injEq]; omega, by omega, by omega⟩

theorem exists_lead_four (h : 0x10000 ≤ c.toNat) :
    ∃ low high, Owed.ofLead? (0xF0 + c.toNat / 262144) = some ⟨low, high, 2, c.toNat / 262144⟩ ∧
      low ≤ 0x80 + c.toNat / 4096 % 64 ∧ 0x80 + c.toNat / 4096 % 64 ≤ high := by
  have hvalid := toNat_valid c
  unfold Owed.ofLead?
  rw [if_neg (by omega), if_neg (by omega), if_neg (by omega), if_neg (by omega)]
  split
  · exact ⟨0x90, 0xBF, by rw [Option.some.injEq, Owed.mk.injEq]; omega, by omega, by omega⟩
  split
  · exact ⟨0x80, 0xBF, by rw [Option.some.injEq, Owed.mk.injEq]; omega, by omega, by omega⟩
  · rw [if_pos (by omega)]
    exact ⟨0x80, 0x8F, by rw [Option.some.injEq, Owed.mk.injEq]; omega, by omega, by omega⟩

theorem decodeFrom_three (h : 0x800 ≤ c.toNat) (hc : c.toNat < 0x10000) :
    decodeFrom none ((0xE0 + c.toNat / 4096).toUInt8 :: (0x80 + c.toNat / 64 % 64).toUInt8 ::
      (0x80 + c.toNat % 64).toUInt8 :: bytes) = some c :: decodeFrom none bytes := by
  obtain ⟨low, high, hlead, hlow, hhigh⟩ := exists_lead_three h hc
  have hfirst := toNat_toUInt8 (n := 0xE0 + c.toNat / 4096) (by omega)
  rw [← hfirst] at hlead
  rw [decodeFrom_lead (by omega) hlead, decodeFrom_further _ rfl,
    decodeFrom_last (continuation_bounds _) rfl]
  · simp only [toNat_continuation]
    rw [show (c.toNat / 4096 * 64 + (0x80 + c.toNat / 64 % 64 - 0x80)) * 64 +
      (0x80 + c.toNat % 64 - 0x80) = c.toNat by omega, Char.ofNat_toNat]
  · rw [toNat_continuation]
    exact ⟨hlow, hhigh⟩

theorem decodeFrom_four (h : 0x10000 ≤ c.toNat) :
    decodeFrom none ((0xF0 + c.toNat / 262144).toUInt8 :: (0x80 + c.toNat / 4096 % 64).toUInt8 ::
      (0x80 + c.toNat / 64 % 64).toUInt8 :: (0x80 + c.toNat % 64).toUInt8 :: bytes) =
      some c :: decodeFrom none bytes := by
  have hvalid := toNat_valid c
  obtain ⟨low, high, hlead, hlow, hhigh⟩ := exists_lead_four h
  have hfirst := toNat_toUInt8 (n := 0xF0 + c.toNat / 262144) (by omega)
  rw [← hfirst] at hlead
  rw [decodeFrom_lead (by omega) hlead, decodeFrom_further _ rfl,
    decodeFrom_further (continuation_bounds _) rfl, decodeFrom_last (continuation_bounds _) rfl]
  · simp only [toNat_continuation]
    rw [show ((c.toNat / 262144 * 64 + (0x80 + c.toNat / 4096 % 64 - 0x80)) * 64 +
      (0x80 + c.toNat / 64 % 64 - 0x80)) * 64 + (0x80 + c.toNat % 64 - 0x80) = c.toNat by omega,
      Char.ofNat_toNat]
  · rw [toNat_continuation]
    exact ⟨hlow, hhigh⟩

theorem decodeFrom_encodeChar (c : Char) (bytes : Bytes) :
    decodeFrom none (encodeChar c ++ bytes) = some c :: decodeFrom none bytes := by
  unfold encodeChar
  dsimp only
  split
  · rename_i h
    rw [List.singleton_append, decodeFrom_single] <;> rw [toNat_toUInt8 (by omega)]
    · rw [Char.ofNat_toNat]
    · exact h
  split
  · exact decodeFrom_two (by omega) (by omega)
  split
  · exact decodeFrom_three (by omega) (by omega)
  · exact decodeFrom_four (by omega)

theorem decodeFrom_toUtf8 (s : List Char) : decodeFrom none (toUtf8 s) = s.map some := by
  induction s with
  | nil => rfl
  | cons c s ih => rw [toUtf8_cons, decodeFrom_encodeChar, ih, List.map_cons]

/-- A text is read back from its bytes. -/
theorem ofUtf8?_toUtf8 (s : List Char) : ofUtf8? (toUtf8 s) = some s := by
  unfold ofUtf8?
  rw [decodeFrom_toUtf8]
  induction s with
  | nil => rfl
  | cons c s ih => rw [List.map_cons, List.mapM_cons, ih]; rfl

theorem toUtf8_injective : Function.Injective toUtf8 := by
  intro s t h
  have hread := ofUtf8?_toUtf8 s
  rw [h, ofUtf8?_toUtf8] at hread
  exact (Option.some.inj hread).symm

end FoodTable.Text
