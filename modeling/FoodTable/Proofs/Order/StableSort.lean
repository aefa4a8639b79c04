import Mathlib.Data.List.Perm.Basic
import Mathlib.Order.Compare
import Mathlib.Data.Set.List
import Mathlib.Tactic.Lift

/-!
# Stable sorting

A comparison need not be a total preorder on all elements of a type to sort the lists met in
practice: it is enough that it is one on the elements with some property (`TotalPreorderOn`). On a
list of such elements there is exactly one stable sort (`StableSort`), and merge sort finds it.
-/

namespace FoodTable

variable {α β : Type} {p : α → Prop} {cmp : α → α → Ordering}

theorem ne_gt_of_eq : ∀ {o : Ordering}, o = .eq → o ≠ .gt := by decide

theorem ne_gt_of_lt : ∀ {o : Ordering}, o = .lt → o ≠ .gt := by decide

/-! ## Total preorders -/

/-- The comparison is a total preorder on the elements with the property `p`. -/
structure TotalPreorderOn (p : α → Prop) (cmp : α → α → Ordering) : Prop where
  refl : ∀ a, p a → cmp a a = .eq
  swap : ∀ a b, p a → p b → cmp b a = (cmp a b).swap
  trans : ∀ a b c, p a → p b → p c → cmp a b ≠ .gt → cmp b c ≠ .gt → cmp a c ≠ .gt

namespace TotalPreorderOn

/-- Elements compared by their places in a linear order are totally preordered. -/
theorem of_rank [LinearOrder β] (rank : α → β) :
    TotalPreorderOn p fun a b => compare (rank a) (rank b) where
  refl a _ := compare_eq_iff_eq.2 rfl
  swap a b _ _ := Std.OrientedCmp.eq_swap
  trans a b c _ _ _ hab hbc := by
    rw [compare_le_iff_le] at hab hbc
    rw [compare_le_iff_le]
    exact hab.trans hbc

theorem const_eq : TotalPreorderOn p fun _ _ => .eq where
  refl _ _ := rfl
  swap _ _ _ _ := rfl
  trans _ _ _ _ _ _ _ h := h

theorem subtype (h : TotalPreorderOn p cmp) :
    TotalPreorderOn (fun _ => True) fun a b : {a // p a} => cmp a b where
  refl a _ := h.refl a a.2
  swap a b _ _ := h.swap a b a.2 b.2
  trans a b c _ _ _ := h.trans a b c a.2 b.2 c.2

theorem mono {q : α → Prop} (h : TotalPreorderOn p cmp) (hq : ∀ a, q a → p a) :
    TotalPreorderOn q cmp where
  refl a ha := h.refl a (hq a ha)
  swap a b ha hb := h.swap a b (hq a ha) (hq b hb)
  trans a b c ha hb hc := h.trans a b c (hq a ha) (hq b hb) (hq c hc)

theorem congr {cmp' : α → α → Ordering} (h : TotalPreorderOn p cmp)
    (hcmp : ∀ a b, p a → p b → cmp' a b = cmp a b) : TotalPreorderOn p cmp' where
  refl a ha := by rw [hcmp a a ha ha, h.refl a ha]
  swap a b ha hb := by rw [hcmp a b ha hb, hcmp b a hb ha, h.swap a b ha hb]
  trans a b c ha hb hc := by
    rw [hcmp a b ha hb, hcmp b c hb hc, hcmp a c ha hc]
    exact h.trans a b c ha hb hc

variable {a b c : α}

theorem eq_symm (h : TotalPreorderOn p cmp) (ha : p a) (hb : p b) (hab : cmp a b = .eq) :
    cmp b a = .eq := by
  rw [h.swap a b ha hb, hab]
  rfl

theorem eq_of_ne_gt (h : TotalPreorderOn p cmp) (ha : p a) (hb : p b) (hab : cmp a b ≠ .gt)
    (hba : cmp b a ≠ .gt) : cmp a b = .eq := by
  rw [h.swap a b ha hb] at hba
  cases hc : cmp a b with
  | lt => exact absurd (by rw [hc]; rfl) hba
  | eq => rfl
  | gt => exact absurd hc hab

theorem eq_trans (h : TotalPreorderOn p cmp) (ha : p a) (hb : p b) (hc : p c)
    (hab : cmp a b = .eq) (hbc : cmp b c = .eq) : cmp a c = .eq := by
  have hba := h.eq_symm ha hb hab
  have hcb := h.eq_symm hb hc hbc
  apply h.eq_of_ne_gt ha hc
  · exact h.trans a b c ha hb hc (ne_gt_of_eq hab) (ne_gt_of_eq hbc)
  · exact h.trans c b a hc hb ha (ne_gt_of_eq hcb) (ne_gt_of_eq hba)

theorem ne_gt_or_ne_gt (h : TotalPreorderOn p cmp) (ha : p a) (hb : p b) :
    cmp a b ≠ .gt ∨ cmp b a ≠ .gt := by
  rw [h.swap a b ha hb]
  cases cmp a b <;> simp

theorem lt_of_lt_of_ne_gt (h : TotalPreorderOn p cmp) (ha : p a) (hb : p b) (hc : p c)
    (hab : cmp a b = .lt) (hbc : cmp b c ≠ .gt) : cmp a c = .lt := by
  have hac := h.trans a b c ha hb hc (ne_gt_of_lt hab) hbc
  cases e : cmp a c with
  | lt => rfl
  | gt => exact absurd e hac
  | eq =>
    have hba := h.trans b c a hb hc ha hbc (ne_gt_of_eq (h.eq_symm ha hc e))
    rw [h.swap a b ha hb, hab] at hba
    exact absurd rfl hba

theorem lt_of_ne_gt_of_lt (h : TotalPreorderOn p cmp) (ha : p a) (hb : p b) (hc : p c)
    (hab : cmp a b ≠ .gt) (hbc : cmp b c = .lt) : cmp a c = .lt := by
  have hac := h.trans a b c ha hb hc hab (ne_gt_of_lt hbc)
  cases e : cmp a c with
  | lt => rfl
  | gt => exact absurd e hac
  | eq =>
    have hcb := h.trans c a b hc ha hb (ne_gt_of_eq (h.eq_symm ha hc e)) hab
    rw [h.swap b c hb hc, hbc] at hcb
    exact absurd rfl hcb

/-- The ties of one comparison may be broken by another. -/
theorem lex {cmp' : α → α → Ordering} (h : TotalPreorderOn p cmp) (h' : TotalPreorderOn p cmp') :
    TotalPreorderOn p fun a b => (cmp a b).then (cmp' a b) where
  refl a ha := by rw [h.refl a ha, h'.refl a ha]; rfl
  swap a b ha hb := by rw [h.swap a b ha hb, h'.swap a b ha hb, Ordering.swap_then]
  trans a b c ha hb hc hab hbc := by
    cases eab : cmp a b with
    | gt => exact absurd (by rw [eab]; rfl) hab
    | lt =>
      have hbc' : cmp b c ≠ .gt := fun e => hbc (by rw [e]; rfl)
      rw [h.lt_of_lt_of_ne_gt ha hb hc eab hbc']
      exact Ordering.noConfusion
    | eq =>
      cases ebc : cmp b c with
      | gt => exact absurd (by rw [ebc]; rfl) hbc
      | lt =>
        rw [h.lt_of_ne_gt_of_lt ha hb hc (ne_gt_of_eq eab) ebc]
        exact Ordering.noConfusion
      | eq =>
        rw [eab] at hab
        rw [ebc] at hbc
        rw [h.eq_trans ha hb hc eab ebc]
        exact h'.trans a b c ha hb hc hab hbc

end TotalPreorderOn

/-! ## Stable sorts -/

/-- The list `ys` has the elements of `xs` in ascending order, and equal elements in the order in
which `xs` has them. -/
structure StableSort (cmp : α → α → Ordering) (xs ys : List α) : Prop where
  perm : ys.Perm xs
  sorted : ys.Pairwise fun a b => cmp a b ≠ .gt
  ties : ∀ a ∈ xs, ys.filter (cmp a · == .eq) = xs.filter (cmp a · == .eq)

variable {xs ys zs : List α}

theorem head_ne_gt {a b : α} (h : TotalPreorderOn p cmp) (ha : p a)
    (hs : (a :: xs).Pairwise fun a b => cmp a b ≠ .gt) (hb : b ∈ a :: xs) : cmp a b ≠ .gt := by
  rcases List.mem_cons.1 hb with rfl | hb
  · exact ne_gt_of_eq (h.refl b ha)
  · exact (List.pairwise_cons.1 hs).1 b hb

/-- Sorted lists with the same equal elements in the same order are the same list. -/
theorem eq_of_sorted_of_ties (h : TotalPreorderOn p cmp) (hys : ∀ a ∈ ys, p a)
    (hperm : ys.Perm zs) (sys : ys.Pairwise fun a b => cmp a b ≠ .gt)
    (szs : zs.Pairwise fun a b => cmp a b ≠ .gt)
    (ties : ∀ a ∈ ys, ys.filter (cmp a · == .eq) = zs.filter (cmp a · == .eq)) : ys = zs := by
  induction ys generalizing zs with
  | nil => exact hperm.nil_eq
  | cons y ys ih =>
    cases zs with
    | nil => exact absurd hperm.eq_nil (List.cons_ne_nil _ _)
    | cons z zs =>
      have hy : p y := hys y List.mem_cons_self
      have hz : p z := hys z (hperm.mem_iff.2 List.mem_cons_self)
      -- each head comes no later than the other one, so they are equal and thus the same
      have hyz : cmp y z = .eq := by
        apply h.eq_of_ne_gt hy hz
        · exact head_ne_gt h hy sys (hperm.mem_iff.2 List.mem_cons_self)
        · exact head_ne_gt h hz szs (hperm.mem_iff.1 List.mem_cons_self)
      have hhead := ties y List.mem_cons_self
      rw [List.filter_cons_of_pos (by simp [h.refl y hy]),
        List.filter_cons_of_pos (by simp [hyz])] at hhead
      obtain rfl : y = z := (List.cons.inj hhead).1
      have htail : ys = zs := by
        apply ih (fun a ha => hys a (List.mem_cons_of_mem _ ha)) hperm.cons_inv sys.of_cons
          szs.of_cons
        intro a ha
        have hties := ties a (List.mem_cons_of_mem _ ha)
        rw [List.filter_cons, List.filter_cons] at hties
        split at hties
        · exact (List.cons.inj hties).2
        · exact hties
      rw [htail]

namespace StableSort

/-- A list has at most one stable sort. -/
theorem unique (h : TotalPreorderOn p cmp) (hxs : ∀ a ∈ xs, p a) (hys : StableSort cmp xs ys)
    (hzs : StableSort cmp xs zs) : ys = zs := by
  refine eq_of_sorted_of_ties h (fun a ha => hxs a (hys.perm.mem_iff.1 ha))
    (hys.perm.trans hzs.perm.symm) hys.sorted hzs.sorted fun a ha => ?_
  rw [hys.ties a (hys.perm.mem_iff.1 ha), hzs.ties a (hys.perm.mem_iff.1 ha)]

theorem map {cmp' : β → β → Ordering} {xs ys : List β} (f : β → α)
    (hcmp : ∀ a ∈ xs, ∀ b ∈ xs, cmp' a b = cmp (f a) (f b)) (h : StableSort cmp' xs ys) :
    StableSort cmp (xs.map f) (ys.map f) where
  perm := h.perm.map f
  sorted := by
    rw [List.pairwise_map]
    refine h.sorted.imp_of_mem fun ha hb => ?_
    rw [hcmp _ (h.perm.mem_iff.1 ha) _ (h.perm.mem_iff.1 hb)]
    exact id
  ties a ha := by
    obtain ⟨b, hb, rfl⟩ := List.mem_map.1 ha
    have hfilter (zs : List β) (hzs : zs ⊆ xs) :
        (zs.map f).filter (cmp (f b) · == .eq) = (zs.filter (cmp' b · == .eq)).map f := by
      rw [List.filter_map]
      refine congrArg _ (List.filter_congr fun c hc => ?_)
      rw [Function.comp_apply, hcmp b hb c (hzs hc)]
    rw [hfilter ys h.perm.subset, hfilter xs (List.Subset.refl _), h.ties b hb]

/-- Sorting once more makes the last comparison count first. Where it ties, the elements stand as the
sort before left them. -/
theorem lex {cmp' : α → α → Ordering} (h : TotalPreorderOn p cmp) (hxs : ∀ a ∈ xs, p a)
    (hys : StableSort cmp' xs ys) (hzs : StableSort cmp ys zs) :
    StableSort (fun a b => (cmp a b).then (cmp' a b)) xs zs where
  perm := hzs.perm.trans hys.perm
  sorted := by
    rw [List.pairwise_iff_forall_sublist]
    intro a b hab
    have hle := List.pairwise_iff_forall_sublist.1 hzs.sorted hab
    cases e : cmp a b with
    | gt => exact absurd e hle
    | lt => exact Ordering.noConfusion
    | eq =>
      -- both are among the elements that tie with `a`, and these stand in `ys` as in `zs`
      have hmem : a ∈ ys := hzs.perm.mem_iff.1 (hab.subset List.mem_cons_self)
      have ha : cmp a a = .eq := h.refl a (hxs a (hys.perm.mem_iff.1 hmem))
      have hties := hab.filter (cmp a · == .eq)
      rw [List.filter_cons_of_pos (by simp [ha]), List.filter_cons_of_pos (by simp [e]),
        List.filter_nil, hzs.ties a hmem] at hties
      exact List.pairwise_iff_forall_sublist.1 hys.sorted (hties.trans List.filter_sublist)
  ties a ha := by
    have hfilter (l : List α) : l.filter (fun b => (cmp a b).then (cmp' a b) == .eq) =
        (l.filter (cmp a · == .eq)).filter (cmp' a · == .eq) := by
      rw [List.filter_filter]
      refine List.filter_congr fun b _ => ?_
      rw [Bool.eq_iff_iff, Bool.and_eq_true, beq_iff_eq, beq_iff_eq, beq_iff_eq,
        Ordering.then_eq_eq, and_comm]
    rw [hfilter, hfilter, hzs.ties a (hys.perm.mem_iff.2 ha), List.filter_comm, hys.ties a ha,
      List.filter_comm]

/-- What is filtered out of a list plays no part in how the rest is sorted. -/
theorem filter (h : StableSort cmp xs ys) (q : α → Bool) :
    StableSort cmp (xs.filter q) (ys.filter q) where
  perm := h.perm.filter q
  sorted := h.sorted.filter q
  ties a ha := by
    have hties := h.ties a (List.mem_of_mem_filter ha)
    rw [List.filter_comm, hties, List.filter_comm]

end StableSort

/-! ## Merge sort -/

private theorem stableSort_mergeSort_of_total (h : TotalPreorderOn (fun _ => True) cmp)
    (xs : List α) : StableSort cmp xs (xs.mergeSort fun a b => cmp a b != .gt) := by
  have htrans (a b c : α) (hab : (cmp a b != .gt) = true) (hbc : (cmp b c != .gt) = true) :
      (cmp a c != .gt) = true := by
    simp only [bne_iff_ne] at *
    exact h.trans a b c trivial trivial trivial hab hbc
  have htotal (a b : α) : (cmp a b != .gt || cmp b a != .gt) = true := by
    simpa using h.ne_gt_or_ne_gt (a := a) (b := b) trivial trivial
  refine ⟨List.mergeSort_perm _ _, ?_, fun a _ => ?_⟩
  · simpa using List.pairwise_mergeSort htrans htotal xs
  · -- the elements equal to `a` are in order as they stand, so sorting keeps them so
    have hsorted : (xs.filter (cmp a · == .eq)).Pairwise fun b c => (cmp b c != .gt) = true := by
      refine List.pairwise_of_forall_mem_list fun b hb c hc => ?_
      have hab : cmp a b = .eq := by simpa using List.of_mem_filter hb
      have hac : cmp a c = .eq := by simpa using List.of_mem_filter hc
      rw [h.eq_trans trivial trivial trivial (h.eq_symm trivial trivial hab) hac]
      rfl
    have hsub := (List.sublist_mergeSort htrans htotal hsorted List.filter_sublist).filter
      (cmp a · == .eq)
    rw [List.filter_filter, List.filter_congr fun b _ => Bool.and_self _] at hsub
    refine (hsub.eq_of_length ?_).symm
    exact ((List.mergeSort_perm xs _).filter _).length_eq.symm

/-- Merge sort sorts stably wherever the comparison is a total preorder on the elements. -/
theorem stableSort_mergeSort (h : TotalPreorderOn p cmp) (hxs : ∀ a ∈ xs, p a) :
    StableSort cmp xs (xs.mergeSort fun a b => cmp a b != .gt) := by
  lift xs to List {a // p a} using hxs
  rw [← List.map_mergeSort (r := fun a b => cmp a.1 b.1 != .gt) fun _ _ _ _ => rfl]
  exact (stableSort_mergeSort_of_total h.subtype xs).map Subtype.val fun _ _ _ _ => rfl

end FoodTable
