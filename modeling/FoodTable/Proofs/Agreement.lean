import FoodTable.Proofs.Except
import Mathlib.Data.List.Forall2

/-!
# Two runs that agree

Two runs of steps that may fail agree if they fail with the same error or give results that
correspond (`Agree`). Runs made of steps that agree agree.
-/

namespace FoodTable

variable {ε α β γ δ : Type} {R : α → β → Prop} {S : γ → δ → Prop}

inductive Agree (R : α → β → Prop) : Except ε α → Except ε β → Prop where
  | ok {a : α} {b : β} (h : R a b) : Agree R (.ok a) (.ok b)
  | error (e : ε) : Agree R (.error e) (.error e)

namespace Agree

theorem bind {x : Except ε α} {y : Except ε β} {f : α → Except ε γ} {g : β → Except ε δ}
    (h : Agree R x y) (hfg : ∀ a b, R a b → Agree S (f a) (g b)) : Agree S (x >>= f) (y >>= g) := by
  cases h with
  | ok h => exact hfg _ _ h
  | error e => exact .error e

theorem map {x : Except ε α} {y : Except ε β} {f : α → γ} {g : β → δ} (h : Agree R x y)
    (hfg : ∀ a b, R a b → S (f a) (g b)) : Agree S (x.map f) (y.map g) := by
  cases h with
  | ok h => exact .ok (hfg _ _ h)
  | error e => exact .error e

theorem imp {x : Except ε α} {y : Except ε β} {T : α → β → Prop} (h : Agree R x y)
    (hRT : ∀ a b, R a b → T a b) : Agree T x y := by
  cases h with
  | ok h => exact .ok (hRT _ _ h)
  | error e => exact .error e

theorem refl (x : Except ε α) : Agree Eq x x := by
  cases x with
  | ok a => exact .ok rfl
  | error e => exact .error e

variable {f : γ → Except ε α} {g : γ → Except ε β}

theorem mapM (h : ∀ c, Agree R (f c) (g c)) (cs : List γ) :
    Agree (List.Forall₂ R) (cs.mapM f) (cs.mapM g) := by
  induction cs with
  | nil => exact .ok .nil
  | cons c cs ih =>
    rw [List.mapM_cons, List.mapM_cons]
    exact (h c).bind fun a b hab => ih.bind fun as bs habs => .ok (.cons hab habs)

theorem option_mapM (h : ∀ c, Agree R (f c) (g c)) (o : Option γ) :
    Agree (Option.Rel R) (o.mapM f) (o.mapM g) := by
  cases o with
  | none => exact .ok .none
  | some c => exact (h c).map fun _ _ hab => .some hab

end Agree

/-! ## Corresponding options -/

theorem all_eq_of_rel {o : Option α} {o' : Option β} {p : α → Bool} {q : β → Bool}
    (h : Option.Rel R o o') (hpq : ∀ a b, R a b → p a = q b) : o.all p = o'.all q := by
  cases h with
  | some hab => exact hpq _ _ hab
  | none => rfl

theorem getD_of_rel {o : Option α} {o' : Option β} {a : α} {b : β} (h : Option.Rel R o o')
    (hab : R a b) : R (o.getD a) (o'.getD b) := by
  cases h with
  | some hab' => exact hab'
  | none => exact hab

/-! ## Corresponding lists -/

variable {xs : List α} {ys : List β}

theorem all_eq_of_forall₂ {p : α → Bool} {q : β → Bool} (h : List.Forall₂ R xs ys)
    (hpq : ∀ a b, R a b → p a = q b) : xs.all p = ys.all q := by
  induction h with
  | nil => rfl
  | cons hab _ ih => rw [List.all_cons, List.all_cons, hpq _ _ hab, ih]

theorem filter_of_forall₂ {p : α → Bool} {q : β → Bool} (h : List.Forall₂ R xs ys)
    (hpq : ∀ a b, R a b → p a = q b) : List.Forall₂ R (xs.filter p) (ys.filter q) :=
  List.rel_filter (fun a b hab => iff_of_eq (congrArg (· = true) (hpq a b hab))) h

theorem exists_pairs_of_forall₂ (h : List.Forall₂ R xs ys) :
    ∃ zs : List (α × β), (∀ z ∈ zs, R z.1 z.2) ∧ zs.map Prod.fst = xs ∧ zs.map Prod.snd = ys := by
  induction h with
  | nil => exact ⟨[], by simp⟩
  | @cons a b xs ys hab _ ih =>
    obtain ⟨zs, hzs, rfl, rfl⟩ := ih
    refine ⟨(a, b) :: zs, ?_, rfl, rfl⟩
    rw [List.forall_mem_cons]
    exact ⟨hab, hzs⟩

/-- Corresponding lists whose elements compare alike correspond after a sort. -/
theorem mergeSort_of_forall₂ {le : α → α → Bool} {le' : β → β → Bool} (h : List.Forall₂ R xs ys)
    (hle : ∀ a b a' b', R a b → R a' b' → le a a' = le' b b') :
    List.Forall₂ R (xs.mergeSort le) (ys.mergeSort le') := by
  obtain ⟨zs, hzs, rfl, rfl⟩ := exists_pairs_of_forall₂ h
  -- sorting the pairs by their first parts sorts them by their second parts
  have hfst : (zs.mergeSort fun z w => le z.1 w.1).map Prod.fst = (zs.map Prod.fst).mergeSort le :=
    List.map_mergeSort fun _ _ _ _ => rfl
  have hsnd : (zs.mergeSort fun z w => le z.1 w.1).map Prod.snd = (zs.map Prod.snd).mergeSort le' :=
    List.map_mergeSort fun z hz w hw => hle _ _ _ _ (hzs z hz) (hzs w hw)
  rw [← hfst, ← hsnd, List.forall₂_map_left_iff, List.forall₂_map_right_iff, List.forall₂_same]
  exact fun z hz => hzs z ((List.mergeSort_perm _ _).mem_iff.1 hz)

end FoodTable
