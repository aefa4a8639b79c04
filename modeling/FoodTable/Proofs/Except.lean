import Mathlib.Init

/-!
# Steps that may fail

When a sequence of steps succeeds: every step does, and no check refuses. When it fails: some step
does, after all before it have succeeded.
-/

namespace FoodTable

variable {ε α β : Type}

theorem bind_eq_ok_iff {x : Except ε α} {f : α → Except ε β} {b : β} :
    x >>= f = .ok b ↔ ∃ a, x = .ok a ∧ f a = .ok b := by
  cases x with
  | error e => exact iff_of_false (nomatch ·) fun ⟨_, h, _⟩ => nomatch h
  | ok a =>
    constructor
    · exact fun h => ⟨a, rfl, h⟩
    · rintro ⟨a', h, hb⟩
      obtain rfl := Except.ok.inj h
      exact hb

theorem bind_eq_error_iff {x : Except ε α} {f : α → Except ε β} {e : ε} :
    x >>= f = .error e ↔ x = .error e ∨ ∃ a, x = .ok a ∧ f a = .error e := by
  cases x with
  | error e' =>
    constructor
    · exact fun h => .inl (congrArg _ (Except.error.inj h))
    · rintro (h | ⟨a, h, -⟩)
      · exact congrArg _ (Except.error.inj h)
      · cases h
  | ok a =>
    constructor
    · exact fun h => .inr ⟨a, rfl, h⟩
    · rintro (h | ⟨a', h, he⟩)
      · cases h
      · obtain rfl := Except.ok.inj h
        exact he

theorem map_eq_ok_iff {x : Except ε α} {f : α → β} {b : β} :
    x.map f = .ok b ↔ ∃ a, x = .ok a ∧ f a = b := by
  cases x <;> simp [Except.map]

theorem map_eq_error_iff {x : Except ε α} {f : α → β} {e : ε} :
    x.map f = .error e ↔ x = .error e := by
  cases x <;> simp [Except.map]

/-- A check is passed, and the steps after it succeed. -/
theorem ite_throw_eq_ok_iff {c : Prop} [Decidable c] {e : ε} {f : β → Except ε α}
    {x : Except ε α} {a : α} : (if c then throw e >>= f else x) = .ok a ↔ ¬ c ∧ x = .ok a := by
  by_cases hc : c
  · rw [if_pos hc]
    exact iff_of_false (nomatch ·) fun h => h.1 hc
  · rw [if_neg hc]
    exact (and_iff_right hc).symm

/-- The last step of a run comes after the run without it. -/
theorem foldlM_append_one (f : β → α → Except ε β) (b : β) (xs : List α) (x : α) :
    (xs ++ [x]).foldlM f b = xs.foldlM f b >>= fun b' => f b' x := by
  rw [List.foldlM_append]
  refine bind_congr fun b' => ?_
  rw [List.foldlM_cons]
  exact bind_pure _

end FoodTable
