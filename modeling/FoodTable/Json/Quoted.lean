import FoodTable.Json.Fault
import FoodTable.Text.Hexadecimal

/-!
# Reading quoted texts

The bytes of a text up to its closing quote. Escapes are replaced while reading, and whether the
bytes are well-formed UTF-8 is asked at the closing quote. A skipped text only has to end.
-/

namespace FoodTable.Json

open Text

/-- The number of four hexadecimal digits. -/
def hexUnit : Bytes → Except Fault (Nat × Bytes)
  | a :: b :: c :: d :: s =>
    match [a, b, c, d].mapM fun x => hexValue? (Char.ofUInt8 x) with
    | some ds => .ok (ds.foldl (fun n d => 16 * n + d) 0, s)
    | none => .error .malformed
  | _ => .error .truncated

/-- The first half of a character above U+FFFF. -/
def isHighSurrogate (n : Nat) : Bool := 0xD800 ≤ n && n ≤ 0xDBFF

/-- The second half of a character above U+FFFF. -/
def isLowSurrogate (n : Nat) : Bool := 0xDC00 ≤ n && n ≤ 0xDFFF

/-- The character that two halves make. -/
def surrogatePair (high low : Nat) : Char :=
  Char.ofNat (0x10000 + (high - 0xD800) * 0x400 + (low - 0xDC00))

/-- The character after `\u`. A high surrogate must be followed by the escape of a low one. -/
def unicodeEscape (s : Bytes) : Except Fault (Char × Bytes) := do
  let (n, s) ← hexUnit s
  if isLowSurrogate n then throw .malformed
  if !isHighSurrogate n then return (Char.ofNat n, s)
  let s ← skipWord ['\\', 'u'] s
  let (m, s) ← hexUnit s
  if !isLowSurrogate m then throw .malformed
  return (surrogatePair n m, s)

/-- The character that stands after a backslash as itself or as a letter. -/
def shortEscape? : Char → Option Char
  | '"' => some '"'
  | '\\' => some '\\'
  | '/' => some '/'
  | 'b' => some '\x08'
  | 'f' => some '\x0c'
  | 'n' => some '\n'
  | 'r' => some '\r'
  | 't' => some '\t'
  | _ => none

/-- The character of the escape after a backslash. -/
def escape : Bytes → Except Fault (Char × Bytes)
  | [] => .error .truncated
  | b :: s =>
    if Char.ofUInt8 b = 'u' then unicodeEscape s
    else match shortEscape? (Char.ofUInt8 b) with
      | some c => .ok (c, s)
      | none => .error .malformed

/-- The bytes after an escape that is not read. Its digits may be any. -/
def skipEscape : Bytes → Except Fault (Bytes)
  | [] => .error .truncated
  | b :: s =>
    if Char.ofUInt8 b = 'u' then (hexUnit s).map (·.2)
    else if (shortEscape? (Char.ofUInt8 b)).isSome then .ok s
    else .error .malformed

theorem length_of_hexUnit {s r : Bytes} {n : Nat} (h : hexUnit s = .ok (n, r)) :
    r.length < s.length := by
  unfold hexUnit at h
  split at h
  · split at h
    · cases h; simp only [List.length_cons]; omega
    · cases h
  · cases h

theorem length_of_skipWord {w : List Char} {s r : Bytes} (h : skipWord w s = .ok r) :
    r.length ≤ s.length := by
  fun_induction skipWord w s with
  | case1 => cases h; exact Nat.le_refl _
  | case2 => cases h
  | case3 w b s ih => exact Nat.le_succ_of_le (ih h)
  | case4 => cases h

theorem length_of_unicodeEscape {s r : Bytes} {c : Char} (h : unicodeEscape s = .ok (c, r)) :
    r.length < s.length := by
  unfold unicodeEscape at h
  match h₁ : hexUnit s with
  | .error e => simp [h₁, bind, Except.bind] at h
  | .ok (n, s₁) =>
    have hs₁ := length_of_hexUnit h₁
    simp only [h₁, bind, Except.bind, pure, Except.pure] at h
    split at h
    · cases h
    split at h
    · cases h; exact hs₁
    match h₂ : skipWord ['\\', 'u'] s₁ with
    | .error e => simp [h₂] at h
    | .ok s₂ =>
      have hs₂ := length_of_skipWord h₂
      match h₃ : hexUnit s₂ with
      | .error e => simp [h₂, h₃] at h
      | .ok (m, s₃) =>
        have hs₃ := length_of_hexUnit h₃
        simp only [h₂, h₃] at h
        split at h
        · cases h
        · simp only [Except.ok.injEq, Prod.mk.injEq] at h
          rw [← h.2]
          omega

theorem length_of_escape {s r : Bytes} {c : Char} (h : escape s = .ok (c, r)) :
    r.length < s.length := by
  unfold escape at h
  split at h
  · cases h
  · split at h
    · exact Nat.lt_succ_of_lt (length_of_unicodeEscape h)
    · split at h
      · cases h; exact Nat.lt_succ_self _
      · cases h

theorem length_of_skipEscape {s r : Bytes} (h : skipEscape s = .ok r) :
    r.length < s.length := by
  unfold skipEscape at h
  split at h
  · cases h
  · split at h
    · rename_i b s _
      match h₁ : hexUnit s with
      | .error e => simp [h₁, Except.map] at h
      | .ok (n, s₁) =>
        have := length_of_hexUnit h₁
        simp only [h₁, Except.map] at h
        cases h
        exact Nat.lt_succ_of_lt this
    · split at h
      · cases h; exact Nat.lt_succ_self _
      · cases h

/-- Bytes that may not stand between quotes. -/
def isControl (b : UInt8) : Bool := b < 0x20

/-- The bytes that a quoted text stands for, up to the closing quote. -/
def quotedBytes (s : Bytes) : Except Fault (Bytes × Bytes) :=
  match s with
  | [] => .error .truncated
  | b :: r =>
    if Char.ofUInt8 b = '"' then .ok ([], r)
    else if Char.ofUInt8 b = '\\' then
      match _ : escape r with
      | .error e => .error e
      | .ok (c, r) => (quotedBytes r).map fun (bs, r) => (encodeChar c ++ bs, r)
    else if isControl b then .error .malformed
    else (quotedBytes r).map fun (bs, r) => (b :: bs, r)
termination_by s.length
decreasing_by
  · have := length_of_escape ‹_›
    simp only [List.length_cons]
    omega
  · simp

/-- The text after an opening quote. -/
def quotedText (s : Bytes) : Except Fault (String × Bytes) := do
  let (bytes, s) ← quotedBytes s
  match ofUtf8? bytes with
  | some text => return (String.ofList text, s)
  | none => throw .malformed

/-- The bytes after a text that is not read, from after its opening quote. -/
def skipQuoted (s : Bytes) : Except Fault (Bytes) :=
  match s with
  | [] => .error .truncated
  | b :: r =>
    if Char.ofUInt8 b = '"' then .ok r
    else if Char.ofUInt8 b = '\\' then
      match _ : skipEscape r with
      | .error e => .error e
      | .ok r => skipQuoted r
    else if isControl b then .error .malformed
    else skipQuoted r
termination_by s.length
decreasing_by
  · have := length_of_skipEscape ‹_›
    simp only [List.length_cons]
    omega
  · simp

end FoodTable.Json
