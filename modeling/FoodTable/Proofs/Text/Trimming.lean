import FoodTable.Text.Blank
import Mathlib.Data.List.TakeWhile

/-!
# Trimming

A text is trimmed to the one text without blanks at its ends that it is with blanks around it
(`trim_eq_iff`).
-/

namespace FoodTable.Text

variable {s t before after : List Char}

/-- No blank stands at either end. -/
structure Trimmed (t : List Char) : Prop where
  head : ∀ c, t.head? = some c → isBlank c = false
  last : ∀ c, t.getLast? = some c → isBlank c = false

/-- The text `s` is the trimmed text `t` with blanks around it. -/
def TrimsTo (s t : List Char) : Prop :=
  Trimmed t ∧ ∃ before after, s = before ++ t ++ after ∧
    (∀ c ∈ before, isBlank c = true) ∧ ∀ c ∈ after, isBlank c = true

theorem Trimmed.reverse (h : Trimmed t) : Trimmed t.reverse where
  head c hc := h.last c (by rwa [List.head?_reverse] at hc)
  last c hc := h.head c (by rwa [List.getLast?_reverse] at hc)

/-- Behind a character that is no blank only the other end matters. -/
theorem trimmed_cons_iff {c : Char} (hc : isBlank c = false) :
    Trimmed (c :: t) ↔ ∀ d, t.getLast? = some d → isBlank d = false := by
  constructor
  · intro h d hd
    refine h.last d ?_
    rw [List.getLast?_cons, hd]
    rfl
  · refine fun h => ⟨?_, ?_⟩
    · rintro d ⟨⟩
      exact hc
    · intro d hd
      rw [List.getLast?_cons] at hd
      cases hlast : t.getLast? with
      | none =>
        rw [hlast] at hd
        exact Option.some.inj hd ▸ hc
      | some e =>
        rw [hlast] at hd
        exact h d (hd ▸ hlast)

theorem Trimmed.trimsTo (h : Trimmed t) : TrimsTo t t :=
  ⟨h, [], [], by simp, by simp, by simp⟩

theorem TrimsTo.subset (h : TrimsTo s t) : t ⊆ s := by
  obtain ⟨-, before, after, rfl, -⟩ := h
  exact fun c hc => List.mem_append_left after (List.mem_append_right before hc)

/-! ## One end -/

theorem trimStart_blank_append (h : ∀ c ∈ before, isBlank c = true) (s : List Char) :
    trimStart (before ++ s) = trimStart s :=
  List.dropWhile_append_of_pos h

theorem trimStart_eq_self (h : ∀ c, s.head? = some c → isBlank c = false) : trimStart s = s := by
  cases s with
  | nil => rfl
  | cons c s =>
    have hc := h c rfl
    exact List.dropWhile_cons_of_neg (by rw [hc]; decide)

theorem trimStart_blank (h : ∀ c ∈ s, isBlank c = true) : trimStart s = [] :=
  List.dropWhile_eq_nil_iff.2 h

theorem head?_trimStart (s : List Char) (c : Char) (h : (trimStart s).head? = some c) :
    isBlank c = false := by
  have := List.head?_dropWhile_not isBlank s
  unfold trimStart at h
  rw [h] at this
  simpa using this

theorem exists_trimStart (s : List Char) :
    ∃ before, s = before ++ trimStart s ∧ ∀ c ∈ before, isBlank c = true :=
  ⟨s.takeWhile isBlank, List.takeWhile_append_dropWhile.symm, fun _ h => List.mem_takeWhile_imp h⟩

theorem trimEnd_eq (s : List Char) : trimEnd s = (trimStart s.reverse).reverse := rfl

theorem exists_trimEnd (s : List Char) :
    ∃ after, s = trimEnd s ++ after ∧ ∀ c ∈ after, isBlank c = true := by
  obtain ⟨before, hs, hb⟩ := exists_trimStart s.reverse
  refine ⟨before.reverse, ?_, fun c hc => hb c (List.mem_reverse.1 hc)⟩
  rw [trimEnd_eq, ← List.reverse_append, ← hs, List.reverse_reverse]

theorem trimEnd_append_blank (h : ∀ c ∈ after, isBlank c = true) (s : List Char) :
    trimEnd (s ++ after) = trimEnd s := by
  rw [trimEnd_eq, List.reverse_append,
    trimStart_blank_append (fun c hc => h c (List.mem_reverse.1 hc)), trimEnd_eq]

theorem Trimmed.trimEnd_eq_self (h : Trimmed t) : trimEnd t = t := by
  rw [trimEnd_eq, trimStart_eq_self h.reverse.head, List.reverse_reverse]

/-! ## Both ends -/

theorem trimmed_trim (s : List Char) : Trimmed (trim s) where
  head c hc := by
    -- what is cut off at the end leaves the first character alone
    obtain ⟨after, hs, -⟩ := exists_trimEnd (trimStart s)
    unfold trim at hc
    apply head?_trimStart s c
    rw [hs, List.head?_append, hc]
    rfl
  last c hc := by
    unfold trim at hc
    rw [trimEnd_eq, List.getLast?_reverse] at hc
    exact head?_trimStart _ c hc

theorem trimsTo_trim (s : List Char) : TrimsTo s (trim s) := by
  obtain ⟨before, hs, hb⟩ := exists_trimStart s
  obtain ⟨after, ht, ha⟩ := exists_trimEnd (trimStart s)
  refine ⟨trimmed_trim s, before, after, ?_, hb, ha⟩
  unfold trim
  rw [List.append_assoc, ← ht, ← hs]

theorem trim_of_trimsTo (h : TrimsTo s t) : trim s = t := by
  obtain ⟨ht, before, after, rfl, hb, ha⟩ := h
  unfold trim
  rw [List.append_assoc, trimStart_blank_append hb]
  cases t with
  | nil => rw [List.nil_append, trimStart_blank ha]; rfl
  | cons c t =>
    rw [trimStart_eq_self fun d hd => ht.head d (by simpa using hd), trimEnd_append_blank ha,
      ht.trimEnd_eq_self]

theorem trim_eq_iff : trim s = t ↔ TrimsTo s t :=
  ⟨fun h => h ▸ trimsTo_trim s, trim_of_trimsTo⟩

/-- A text without blanks is trimmed to itself. -/
theorem trimsTo_self (h : ∀ c ∈ t, isBlank c = false) : TrimsTo t t :=
  Trimmed.trimsTo
    ⟨fun c hc => h c (List.mem_of_head? hc), fun c hc => h c (List.mem_of_getLast? hc)⟩

end FoodTable.Text
