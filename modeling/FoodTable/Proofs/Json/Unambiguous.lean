import FoodTable.Proofs.Json.Reader

/-!
# One tree

A JSON text says one tree (`Says.unique`). Where a value or a field ends is settled by the readers
that skip it, since a reader leaves one rest (`Reads.cut`). Within a value, brackets, blanks and
commas tell its members apart, and each member is one tree by induction.
-/

namespace FoodTable.Json

open Text

variable {α : Type} {close : Char} {first : Bool} {m m' s s' : List Char}

/-! ## Where values end -/

/-- What a reader takes is cut in one way from what follows. -/
theorem Reads.cut {a a' : α} {reader : Bytes → Except Fault (α × Bytes)} (h : Reads reader m a)
    (h' : Reads reader m' a') (hs : Stops GoesOn (toUtf8 s)) (hs' : Stops GoesOn (toUtf8 s'))
    (heq : m ++ s = m' ++ s') : m = m' ∧ s = s' := by
  have hread := h _ hs
  rw [← toUtf8_append, heq, toUtf8_append, h' _ hs'] at hread
  obtain rfl : s' = s := toUtf8_injective (Prod.ext_iff.1 (Except.ok.inj hread)).2
  exact ⟨List.append_cancel_right heq, rfl⟩

/-- Each member is cut in one way from what follows. -/
def Cuts (member : List Char → α → Prop) : Prop :=
  ∀ {m m' s s' : List Char} {a a' : α}, member m a → member m' a' → Stops GoesOn (toUtf8 s) →
    Stops GoesOn (toUtf8 s') → m ++ s = m' ++ s' → m = m' ∧ s = s'

theorem cuts_spells : Cuts Spells := by
  intro m m' s s' t t' h h' hs hs' heq
  have hskip {n : List Char} {t : Tree} (h : Spells n t)
      (hlt : n.length < m.length + m'.length + 1) :
      Reads (fun s => do return ((), ← skipValue (m.length + m'.length + 1) s)) n () :=
    reads_skip fun rest hrest => skipValue_of_spells h hlt hrest
  exact (hskip h (by omega)).cut (hskip h' (by omega)) hs hs' heq

theorem cuts_field : Cuts (Field Spells) := by
  intro m m' s s' f f' h h' hs hs' heq
  have hskip {n : List Char} {f : Option String × Tree} (h : Field Spells n f)
      (hlt : n.length < m.length + m'.length + 1) :
      Reads (fun s => do
        let s ← skipColon (← skipQuoted (← openName s))
        return ((), ← skipValue (m.length + m'.length + 1) s)) n () :=
    h.reads_skip fun v hv hle rest hrest => skipValue_of_spells hv (by omega) hrest
  exact (hskip h (by omega)).cut (hskip h' (by omega)) hs hs' heq

/-! ## Members -/

/-- Where a member may stand, members do not end. -/
theorem append_close_ne {b o m : List Char} (hclose : close = ']' ∨ close = '}') (hb : IsBlanks b)
    (ho : Opening first o) (hm : Starts m) : b ++ [close] ≠ o ++ m := by
  intro heq
  have hnext : next close first (toUtf8 (b ++ [close]) ++ []) = .ok (.closed []) :=
    next_closed hclose hb
  rw [heq, next_member hclose ho hm] at hnext
  cases hnext

/-- What stands before a member is cut in one way from it. -/
theorem Opening.cut {o o' : List Char} (ho : Opening first o) (ho' : Opening first o')
    (hm : Starts m) (hm' : Starts m') (heq : o ++ m = o' ++ m') : m = m' := by
  have hnext := next_member (.inl rfl) ho hm []
  rw [heq, next_member (.inl rfl) ho' hm', List.append_nil, List.append_nil] at hnext
  exact (toUtf8_injective (Next.member.inj (Except.ok.inj hnext))).symm

/-- Members are the same if each is cut in one way from what follows and is one thing. -/
theorem Members.unique {member : List Char → α → Prop} {as as' : List α}
    (hclose : close = ']' ∨ close = '}') (hstarts : ∀ {m a}, member m a → Starts m)
    (hcuts : Cuts member) (hmember : ∀ a ∈ as, ∀ m a', member m a → member m a' → a = a')
    (h : Members close member first s as) (h' : Members close member first s' as')
    (hs : s = s') : as = as' := by
  induction h generalizing as' s' with
  | nil hb =>
    cases h' with
    | nil => rfl
    | cons ho hm => exact absurd hs (append_close_ne hclose hb ho ((hstarts hm).append _))
  | cons ho hm hrest ih =>
    cases h' with
    | nil hb => exact absurd hs.symm (append_close_ne hclose hb ho ((hstarts hm).append _))
    | cons ho' hm' hrest' =>
      have heq := ho.cut ho' ((hstarts hm).append _) ((hstarts hm').append _) hs
      have hstop := hrest.stops hclose []
      have hstop' := hrest'.stops hclose []
      rw [List.append_nil] at hstop hstop'
      obtain ⟨rfl, rfl⟩ := hcuts hm hm' hstop hstop' heq
      obtain ⟨ha, has⟩ := List.forall_mem_cons.1 hmember
      rw [ha _ _ hm hm', ih has hrest' rfl]

/-! ## Values -/

theorem stops_colon {b : List Char} (hb : IsBlanks b) (s : List Char) :
    Stops GoesOn (toUtf8 (b ++ ':' :: s)) := by
  have hstop : Stops GoesOn (toUtf8 (b ++ ':' :: s) ++ []) :=
    stops_blanks hb (stops_cons (by decide) (by unfold GoesOn; decide) _ _)
  rwa [List.append_nil] at hstop

/-- A field is one thing if its value is. -/
theorem Field.unique {f f' : Option String × Tree}
    (hvalue : ∀ v t', Spells v f.2 → Spells v t' → f.2 = t') (h : Field Spells m f)
    (h' : Field Spells m f') : f = f' := by
  obtain ⟨n, b, c, v, hn, hb, hc, hv, -, rfl⟩ := h.exists_value
  obtain ⟨n', b', c', v', hn', hb', hc', hv', -, heq⟩ := h'.exists_value
  have hname {n : List Char} {o : Option String} (hn : SpellsQuoted n o) : Spells n (.text o) :=
    .text hn
  obtain ⟨rfl, hafter⟩ :=
    cuts_spells (hname hn) (hname hn') (stops_colon hb _) (stops_colon hb' _) heq
  have hcolon := skipColon_of_blanks hb (c ++ v) []
  rw [hafter, skipColon_of_blanks hb', List.append_nil, List.append_nil] at hcolon
  have hblank := skipBlank_start hc hv.starts []
  rw [← toUtf8_injective (Except.ok.inj hcolon), skipBlank_start hc' hv'.starts, List.append_nil,
    List.append_nil] at hblank
  obtain rfl := toUtf8_injective hblank
  exact Prod.ext (hn.unique hn') (hvalue _ _ hv hv')

/-- The first character of a value, a zero for every number. -/
def Tree.lead : Tree → Char
  | null => 'n'
  | bool b => if b then 't' else 'f'
  | number _ _ => '0'
  | text _ => '"'
  | list _ => '['
  | record _ => '{'

theorem Spells.lead {t : Tree} (h : Spells s t) :
    s.head?.map (fun c => if c.isDigit = true ∨ c = '-' then '0' else c) = some t.lead := by
  cases h with
  | null => rfl
  | @bool b => cases b <;> rfl
  | @number _ negative _ h =>
    obtain ⟨body, n, rfl, hbody, -⟩ := h.exists_unsigned
    obtain ⟨c, t, rfl, hc⟩ := hbody.digit
    cases negative with
    | false => exact congrArg some (if_pos (.inl hc))
    | true => rfl
  | text h =>
    obtain ⟨body, -, rfl⟩ := h.isQuoted
    rfl
  | list => rfl
  | record => rfl

/-- The text of a value says one tree. -/
theorem Spells.unique {t t' : Tree} (h : Spells s t) (h' : Spells s t') : t = t' := by
  have hlead : t.lead = t'.lead := Option.some.inj (h.lead.symm.trans h'.lead)
  induction t generalizing s t' with
  | null =>
    cases t' with
    | null => rfl
    | _ => exact absurd hlead (by simp [Tree.lead, eq_ite_iff])
  | bool b =>
    cases t' with
    | bool b' => cases b <;> cases b' <;> first | rfl | exact absurd hlead (by decide)
    | _ => exact absurd hlead (by simp [Tree.lead, ite_eq_iff])
  | number negative d =>
    cases t' with
    | number negative' d' =>
      obtain ⟨rfl, rfl⟩ := (spells_number_iff.1 h).unique (spells_number_iff.1 h')
      rfl
    | _ => exact absurd hlead (by simp [Tree.lead, eq_ite_iff])
  | text t =>
    cases t' with
    | text t' => exact congrArg Tree.text ((spells_text_iff.1 h).unique (spells_text_iff.1 h'))
    | _ => exact absurd hlead (by simp [Tree.lead, eq_ite_iff])
  | list items ih =>
    cases t' with
    | list items' =>
      obtain ⟨s, rfl, hitems⟩ := spells_list_iff.1 h
      obtain ⟨_, hs, hitems'⟩ := spells_list_iff.1 h'
      refine congrArg Tree.list (hitems.unique (.inl rfl) Spells.starts cuts_spells ?_ hitems' ?_)
      · intro t ht m t' hm hm'
        exact ih t ht hm hm' (Option.some.inj (hm.lead.symm.trans hm'.lead))
      · exact (List.cons.inj hs).2
    | _ => exact absurd hlead (by simp [Tree.lead, eq_ite_iff])
  | record fields ih =>
    cases t' with
    | record fields' =>
      obtain ⟨s, rfl, hfields⟩ := spells_record_iff.1 h
      obtain ⟨_, hs, hfields'⟩ := spells_record_iff.1 h'
      refine congrArg Tree.record (hfields.unique (.inr rfl) Field.starts cuts_field ?_ hfields' ?_)
      · intro f hf m f' hm hm'
        exact hm.unique (fun v t' hv hv' =>
          ih f hf hv hv' (Option.some.inj (hv.lead.symm.trans hv'.lead))) hm'
      · exact (List.cons.inj hs).2
    | _ => exact absurd hlead (by simp [Tree.lead, eq_ite_iff])

/-- A JSON text says one tree. -/
theorem Says.unique {t t' : Tree} (h : Says s t) (h' : Says s t') : t = t' := by
  obtain ⟨b, v, c, hb, hv, hc, rfl⟩ := says_iff.1 h
  obtain ⟨b', v', c', hb', hv', hc', heq⟩ := says_iff.1 h'
  have hblank := skipBlank_start hb (hv.starts.append c) []
  rw [heq, skipBlank_start hb' (hv'.starts.append c'), List.append_nil, List.append_nil] at hblank
  obtain ⟨rfl, -⟩ := cuts_spells hv hv' (stops_of_isBlanks hc) (stops_of_isBlanks hc')
    (toUtf8_injective hblank).symm
  exact hv.unique hv'

end FoodTable.Json
