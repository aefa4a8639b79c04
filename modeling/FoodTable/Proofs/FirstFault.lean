import FoodTable.Proofs.Except
import Mathlib.Data.List.Forall2

/-!
# The first fault

A list is read from the left and reading stops at the first fault (`FirstFault`), so a fault is
reported exactly if everything before it is read, and nothing after it plays a part. The same goes
for checks that are made one after the other, and for the steps of a run (`foldlM_eq_error_iff`).
-/

namespace FoodTable

variable {ε α β : Type}

/-- The leftmost element that has a fault has the fault `e`. -/
def FirstFault (fault : α → ε → Prop) (xs : List α) (e : ε) : Prop :=
  ∃ before x after, xs = before ++ x :: after ∧ (∀ y ∈ before, ∀ e', ¬ fault y e') ∧ fault x e

variable {fault : α → ε → Prop} {xs : List α} {x : α} {e : ε}

theorem not_firstFault_nil : ¬ FirstFault fault [] e := by
  rintro ⟨before, x, after, h, -⟩
  simp at h

theorem firstFault_cons_iff :
    FirstFault fault (x :: xs) e ↔ fault x e ∨ (∀ e', ¬ fault x e') ∧ FirstFault fault xs e := by
  constructor
  · rintro ⟨before, y, after, h, hbefore, hy⟩
    cases before with
    | nil =>
      obtain ⟨rfl, -⟩ := List.cons.inj h
      exact .inl hy
    | cons z before =>
      obtain ⟨rfl, rfl⟩ := List.cons.inj h
      exact .inr ⟨hbefore x List.mem_cons_self, before, y, after, rfl,
        fun w hw => hbefore w (List.mem_cons_of_mem _ hw), hy⟩
  · rintro (hx | ⟨hx, before, y, after, rfl, hbefore, hy⟩)
    · exact ⟨[], x, xs, rfl, by simp, hx⟩
    · refine ⟨x :: before, y, after, rfl, ?_, hy⟩
      rw [List.forall_mem_cons]
      exact ⟨hx, hbefore⟩

theorem firstFault_singleton_iff : FirstFault fault [x] e ↔ fault x e := by
  rw [firstFault_cons_iff]
  exact or_iff_left fun h => not_firstFault_nil h.2

theorem firstFault_append_iff {ys : List α} : FirstFault fault (xs ++ ys) e ↔
    FirstFault fault xs e ∨ (∀ e', ¬ FirstFault fault xs e') ∧ FirstFault fault ys e := by
  induction xs with
  | nil => simp [not_firstFault_nil]
  | cons x xs ih =>
    simp only [List.cons_append, firstFault_cons_iff, ih, not_or, forall_and]
    by_cases hx : ∀ e', ¬ fault x e'
    · simp [hx]
    · simp [hx]

theorem forall_not_firstFault_iff :
    (∀ e, ¬ FirstFault fault xs e) ↔ ∀ x ∈ xs, ∀ e, ¬ fault x e := by
  induction xs with
  | nil => simp [not_firstFault_nil]
  | cons x xs ih =>
    simp only [firstFault_cons_iff, List.forall_mem_cons, ← ih, not_or, not_and]
    constructor
    · intro h
      exact ⟨fun e => (h e).1, fun e => (h e).2 fun e' => (h e').1⟩
    · rintro ⟨hx, hxs⟩ e
      exact ⟨hx e, fun _ => hxs e⟩

theorem firstFault_congr {fault' : α → ε → Prop} (h : ∀ x e, fault x e ↔ fault' x e) :
    FirstFault fault xs e ↔ FirstFault fault' xs e := by
  simp only [FirstFault, h]

/-! ## Reading lists and options -/

variable {f : α → Except ε β}

theorem exists_ok_iff_forall_ne_error {x : Except ε α} :
    (∃ a, x = .ok a) ↔ ∀ e, ¬ x = .error e := by
  cases x <;> simp

/-- Steps that do not use what an earlier step gives fail alike after whatever it gives. -/
theorem bind_eq_error_iff_of_forall {x : Except ε α} {f : α → Except ε β} {later : Prop}
    (hf : ∀ a, f a = .error e ↔ later) :
    x >>= f = .error e ↔ x = .error e ∨ (∀ e', ¬ x = .error e') ∧ later := by
  rw [bind_eq_error_iff, ← exists_ok_iff_forall_ne_error]
  simp only [hf, exists_and_right]

section Checks

variable {κ : Type} {check : κ → ε → Prop} {c : κ} {cs cs' : List κ}

/-- Checks and then more checks fail with the first fault of all. The later ones are made only if
the earlier ones are passed. -/
theorem bind_eq_error_iff_firstFault {x : Except ε α} {f : α → Except ε β}
    (hx : ∀ e', x = .error e' ↔ FirstFault check cs e')
    (hf : ∀ a, x = .ok a → (f a = .error e ↔ FirstFault check cs' e)) :
    x >>= f = .error e ↔ FirstFault check (cs ++ cs') e := by
  rw [bind_eq_error_iff, firstFault_append_iff, ← hx]
  simp only [← hx, ← exists_ok_iff_forall_ne_error]
  refine or_congr_right ⟨?_, ?_⟩
  · rintro ⟨a, ha, h⟩
    exact ⟨⟨a, ha⟩, (hf a ha).1 h⟩
  · rintro ⟨⟨a, ha⟩, h⟩
    exact ⟨a, ha, (hf a ha).2 h⟩

/-- A single check that refuses for `e₀` comes before the others. -/
theorem ite_throw_eq_error_iff_firstFault {p : Prop} [Decidable p] {e₀ : ε} {f : β → Except ε α}
    {x : Except ε α} (hp : ∀ e', check c e' ↔ p ∧ e' = e₀)
    (hx : ¬ p → (x = .error e ↔ FirstFault check cs e)) :
    (if p then throw e₀ >>= f else x) = .error e ↔ FirstFault check (c :: cs) e := by
  rw [firstFault_cons_iff]
  simp only [hp]
  split
  · rename_i h
    have hthrow : (throw e₀ >>= f : Except ε α) = .error e₀ := rfl
    simp [hthrow, h, eq_comm]
  · rename_i h
    simp [hx h, h]

/-- Where no check is left nothing fails. -/
theorem pure_eq_error_iff_firstFault {a : α} :
    (pure a : Except ε α) = .error e ↔ FirstFault check [] e :=
  iff_of_false (nomatch ·) not_firstFault_nil

end Checks

/-- A run fails exactly if a step fails after all before it have succeeded. -/
theorem foldlM_eq_error_iff {f : β → α → Except ε β} {b : β} : xs.foldlM f b = .error e ↔
    ∃ before x after b', xs = before ++ x :: after ∧ before.foldlM f b = .ok b' ∧
      f b' x = .error e := by
  induction xs generalizing b with
  | nil => exact iff_of_false (nomatch ·) fun ⟨_, _, _, _, h, _⟩ => by simp at h
  | cons y xs ih =>
    simp only [List.foldlM_cons, bind_eq_error_iff, ih]
    constructor
    · rintro (hy | ⟨b₁, hb₁, before, x, after, b', rfl, hb', hx⟩)
      · exact ⟨[], y, xs, b, rfl, rfl, hy⟩
      · exact ⟨y :: before, x, after, b', rfl, bind_eq_ok_iff.2 ⟨b₁, hb₁, hb'⟩, hx⟩
    · rintro ⟨before, x, after, b', h, hb', hx⟩
      cases before with
      | nil =>
        obtain rfl := Except.ok.inj hb'
        obtain ⟨rfl, rfl⟩ := List.cons.inj h
        exact .inl hx
      | cons z before =>
        obtain ⟨rfl, rfl⟩ := List.cons.inj h
        obtain ⟨b₁, hb₁, hb'⟩ := bind_eq_ok_iff.1 hb'
        exact .inr ⟨b₁, hb₁, before, x, after, b', rfl, hb', hx⟩

/-- A list is read exactly if each of its elements is. -/
theorem mapM_eq_ok_iff {ys : List β} :
    xs.mapM f = .ok ys ↔ List.Forall₂ (fun x y => f x = .ok y) xs ys := by
  induction xs generalizing ys with
  | nil => simp [pure, Except.pure, eq_comm]
  | cons x xs ih =>
    rw [List.mapM_cons, List.forall₂_cons_left_iff, bind_eq_ok_iff]
    refine exists_congr fun y => ?_
    simp only [bind_eq_ok_iff, ih]
    constructor
    · rintro ⟨hy, ys', hys', h⟩
      exact ⟨ys', hy, hys', (Except.ok.inj h).symm⟩
    · rintro ⟨ys', hy, hys', rfl⟩
      exact ⟨hy, ys', hys', rfl⟩

theorem exists_mapM_iff : (∃ ys, xs.mapM f = .ok ys) ↔ ∀ x ∈ xs, ∃ y, f x = .ok y := by
  simp only [mapM_eq_ok_iff]
  induction xs with
  | nil => simp
  | cons x xs ih =>
    simp only [List.forall₂_cons_left_iff, List.forall_mem_cons, ← ih]
    constructor
    · rintro ⟨_, y, ys, hy, hys, rfl⟩
      exact ⟨⟨y, hy⟩, ys, hys⟩
    · rintro ⟨⟨y, hy⟩, ys, hys⟩
      exact ⟨y :: ys, y, ys, hy, hys, rfl⟩

/-- The fault of a list is its first one. -/
theorem mapM_eq_error_iff :
    xs.mapM f = .error e ↔ FirstFault (fun x e => f x = .error e) xs e := by
  induction xs with
  | nil => exact iff_of_false (nomatch ·) not_firstFault_nil
  | cons x xs ih =>
    rw [List.mapM_cons, firstFault_cons_iff, ← ih]
    simp only [bind_eq_error_iff, ← exists_ok_iff_forall_ne_error]
    refine or_congr_right ⟨?_, ?_⟩
    · rintro ⟨y, hy, h | ⟨ys, -, h⟩⟩
      · exact ⟨⟨y, hy⟩, h⟩
      · cases h
    · rintro ⟨⟨y, hy⟩, h⟩
      exact ⟨y, hy, .inl h⟩

theorem option_mapM_eq_ok_iff {o : Option α} {r : Option β} :
    o.mapM f = .ok r ↔ Option.Rel (fun x y => f x = .ok y) o r := by
  cases o with
  | none =>
    constructor
    · intro h
      obtain rfl := Except.ok.inj h
      exact .none
    · rintro ⟨⟩
      rfl
  | some x =>
    constructor
    · intro h
      obtain ⟨y, hy, hr⟩ := bind_eq_ok_iff.1 h
      obtain rfl := Except.ok.inj hr
      exact .some hy
    · rintro ⟨hy⟩
      exact congrArg (some <$> ·) hy

theorem option_mapM_eq_error_iff {o : Option α} :
    o.mapM f = .error e ↔ ∃ x, o = some x ∧ f x = .error e := by
  cases o with
  | none => exact iff_of_false (nomatch ·) fun ⟨_, h, _⟩ => nomatch h
  | some x =>
    simp only [Option.some.injEq, exists_eq_left']
    constructor
    · intro h
      rcases bind_eq_error_iff.1 h with h | ⟨y, -, h⟩
      · exact h
      · cases h
    · intro h
      exact congrArg (some <$> ·) h

end FoodTable
