import FoodTable.Json.Reader
import FoodTable.Proofs.Json.Number
import Mathlib.Data.List.Forall2

/-!
# Reading values

What the grammar calls a value is taken whole by whoever reads it: blanks before it do not count,
lists and records are read member by member, whatever stands between the members, and a value that
is skipped is passed over to its end (`skipValue_of_spells`). A reader is given the bytes of a value
and what follows them; all that is asked of what follows is that it does not go on with a number.
-/

namespace FoodTable.Json

open Text

variable {α β : Type} {b c close : Char} {first : Bool} {o s t blanks : List Char} {rest : Bytes}
  {bound limit : Nat}

/-! ## Blanks -/

theorem isBlankByte_of_mem (hc : c ∈ [' ', '\n', '\t', '\r']) :
    c.toNat < 0x80 ∧ isBlankByte c.toNat.toUInt8 = true :=
  forall_mem_of_all (p := fun c => c.toNat < 0x80 ∧ isBlankByte c.toNat.toUInt8 = true)
    (by decide) c hc

theorem isBlanks_nil : IsBlanks [] := fun _ hc => nomatch hc

/-- Blanks in front are skipped. -/
theorem skipBlank_append (hblanks : IsBlanks blanks) (s : List Char) (rest : Bytes) :
    skipBlank (toUtf8 (blanks ++ s) ++ rest) = skipBlank (toUtf8 s ++ rest) := by
  induction blanks with
  | nil => rfl
  | cons c blanks ih =>
    obtain ⟨hc, hblanks⟩ := List.forall_mem_cons.1 hblanks
    obtain ⟨hlt, hblank⟩ := isBlankByte_of_mem hc
    rw [List.cons_append, toUtf8_cons_of_lt hlt, ← ih hblanks]
    exact List.dropWhile_cons_of_pos hblank

theorem skipBlank_blanks (hblanks : IsBlanks blanks) : skipBlank (toUtf8 blanks) = [] := by
  have hskip := skipBlank_append hblanks [] []
  rwa [List.append_nil, List.append_nil] at hskip

/-- The characters that values and names begin with. -/
def IsStart (c : Char) : Prop := c.isDigit = true ∨ c ∈ ['n', 't', 'f', '"', '-', '[', '{']

/-- The characters begin like a value or a name. -/
def Starts (s : List Char) : Prop := ∃ c t, s = c :: t ∧ IsStart c

theorem IsStart.lt (h : IsStart c) : c.toNat < 0x80 := by
  rcases h with h | h
  · exact toNat_lt_of_isDigit h
  · exact forall_mem_of_all (p := fun c => c.toNat < 0x80) (by decide) c h

/-- No blank, comma or closing bracket is taken for the beginning of a value. -/
theorem IsStart.not_mem (h : IsStart c) : c ∉ [',', ']', '}', ' ', '\n', '\t', '\r'] := by
  have hall : ∀ c ∈ [',', ']', '}', ' ', '\n', '\t', '\r'], ¬ IsStart c := by
    unfold IsStart
    exact forall_mem_of_all (by decide)
  exact fun hmem => hall c hmem h

theorem IsStart.isBlankByte (h : IsStart c) : isBlankByte c.toNat.toUInt8 = false := by
  have hmem := h.not_mem
  unfold Json.isBlankByte
  rw [ofUInt8_toUInt8 h.lt]
  split <;> simp at hmem ⊢

/-- Blanks before a value are skipped, and no more than they. -/
theorem skipBlank_start (hblanks : IsBlanks blanks) (hs : Starts s) (rest : Bytes) :
    skipBlank (toUtf8 (blanks ++ s) ++ rest) = toUtf8 s ++ rest := by
  obtain ⟨c, t, rfl, hc⟩ := hs
  rw [skipBlank_append hblanks, toUtf8_cons_of_lt hc.lt]
  exact List.dropWhile_cons_of_neg (by rw [hc.isBlankByte]; exact Bool.false_ne_true)

/-! ## Members of lists and records -/

/-- The closing bracket ends the members. -/
theorem next_closed (hclose : close = ']' ∨ close = '}') (hblanks : IsBlanks blanks) :
    next close first (toUtf8 (blanks ++ [close]) ++ rest) = .ok (.closed rest) := by
  unfold next
  rw [skipBlank_append hblanks]
  rcases hclose with rfl | rfl <;> rfl

/-- What stands before a member is skipped, blanks and the comma that belongs there. -/
theorem next_member (hclose : close = ']' ∨ close = '}') (ho : Opening first o) (hs : Starts s)
    (rest : Bytes) :
    next close first (toUtf8 (o ++ s) ++ rest) = .ok (.member (toUtf8 s ++ rest)) := by
  obtain ⟨c, t, hst, hc⟩ := id hs
  have hne : c ≠ close := by
    rintro rfl
    have := hc.not_mem
    rcases hclose with rfl | rfl <;> simp at this
  have hcons : toUtf8 s ++ rest = c.toNat.toUInt8 :: (toUtf8 t ++ rest) := by
    rw [hst, toUtf8_cons_of_lt hc.lt]
  cases ho with
  | first hb =>
    unfold next
    rw [skipBlank_start hb hs, hcons]
    dsimp only
    rw [ofUInt8_toUInt8 hc.lt, if_neg hne, if_pos rfl]
  | @further b b' hb hb' =>
    have hcomma : skipBlank (toUtf8 ((b ++ ',' :: b') ++ s) ++ rest) =
        (',' : Char).toNat.toUInt8 :: (toUtf8 (b' ++ s) ++ rest) := by
      rw [List.append_assoc, skipBlank_append hb, List.cons_append, toUtf8_cons_of_lt (by decide)]
      rfl
    unfold next
    rw [hcomma]
    dsimp only
    rw [ofUInt8_toUInt8 (by decide), if_neg (by rcases hclose with rfl | rfl <;> decide),
      if_neg Bool.false_ne_true, if_pos rfl, skipBlank_start hb' hs, hcons]
    dsimp only
    rw [ofUInt8_toUInt8 hc.lt, if_neg hne]

theorem stops_blanks (hblanks : IsBlanks blanks) (hs : Stops GoesOn (toUtf8 s ++ rest)) :
    Stops GoesOn (toUtf8 (blanks ++ s) ++ rest) := by
  cases blanks with
  | nil => exact hs
  | cons c blanks =>
    have hall : ∀ c ∈ [' ', '\n', '\t', '\r'], ¬ GoesOn c := by
      unfold GoesOn
      exact forall_mem_of_all (by decide)
    have hc := hblanks c List.mem_cons_self
    exact stops_cons (isBlankByte_of_mem hc).1 (hall c hc) _ _

/-- No number goes on where nothing but blanks is left. -/
theorem stops_of_isBlanks (hblanks : IsBlanks blanks) : Stops GoesOn (toUtf8 blanks) := by
  have hstop : Stops GoesOn (toUtf8 (blanks ++ []) ++ []) := stops_blanks hblanks stops_nil
  rwa [List.append_nil, List.append_nil] at hstop

/-- No number goes on where a member has ended. -/
theorem Members.stops {member : List Char → α → Prop} {as : List α}
    (hclose : close = ']' ∨ close = '}') (h : Members close member false s as) (rest : Bytes) :
    Stops GoesOn (toUtf8 s ++ rest) := by
  have hall : ∀ c ∈ [',', ']', '}'], ¬ GoesOn c := by
    unfold GoesOn
    exact forall_mem_of_all (by decide)
  cases h with
  | nil hb =>
    refine stops_blanks hb (stops_cons ?_ (hall close ?_) _ _)
    · rcases hclose with rfl | rfl <;> decide
    · rcases hclose with rfl | rfl <;> simp
  | cons ho =>
    cases ho with
    | further hb =>
      rw [List.append_assoc, List.cons_append]
      exact stops_blanks hb (stops_cons (by decide) (hall ',' (by decide)) _ _)

theorem Starts.append (h : Starts s) (t : List Char) : Starts (s ++ t) := by
  obtain ⟨c, s, rfl, hc⟩ := h
  exact ⟨c, s ++ t, rfl, hc⟩

theorem Starts.length_pos (h : Starts s) : 0 < s.length := by
  obtain ⟨c, s, rfl, -⟩ := h
  exact Nat.succ_pos _

/-- The reader takes the characters for the value, whatever follows. -/
def Reads (reader : Bytes → Except Fault (α × Bytes)) (s : List Char) (a : α) : Prop :=
  ∀ rest, Stops GoesOn rest → reader (toUtf8 s ++ rest) = .ok (a, rest)

/-- The items of a list are read one by one. -/
theorem items_of_members {member : List Char → α → Prop} {as : List α} {bs : List β}
    {item : Bytes → Except Fault (β × Bytes)} {R : α → β → Prop}
    (hs : Members ']' member first s as) (hR : List.Forall₂ R as bs)
    (hitem : ∀ m a b, member m a → R a b → m.length < limit → Starts m ∧ Reads item m b)
    (hlimit : s.length < limit) (hbound : s.length < bound) (rest : Bytes) :
    items item bound first (toUtf8 s ++ rest) = .ok (bs, rest) := by
  induction hs generalizing bs bound with
  | nil hb =>
    obtain ⟨bound, rfl⟩ := Nat.exists_eq_add_of_lt hbound
    cases hR
    unfold items
    rw [next_closed (.inl rfl) hb]
    rfl
  | @cons first o m s a as ho hm hs ih =>
    simp only [List.length_append] at hlimit hbound
    cases hR with
    | @cons _ b _ bs hab hR =>
      obtain ⟨hstart, hread⟩ := hitem m a b hm hab (by omega)
      have hpos := hstart.length_pos
      obtain ⟨bound, rfl⟩ : ∃ n, bound = n + 1 := ⟨bound - 1, by omega⟩
      have hbound : s.length < bound := by omega
      have hrest := ih hR (by omega) hbound
      unfold items
      rw [next_member (.inl rfl) ho (hstart.append s) rest, toUtf8_append, List.append_assoc]
      show (item (toUtf8 m ++ (toUtf8 s ++ rest)) >>= _) = _
      rw [hread _ (hs.stops (.inl rfl) rest)]
      show (items item bound false (toUtf8 s ++ rest) >>= _) = _
      rw [hrest]
      rfl

/-- Steps from one state to another, one for each element. -/
inductive Run (step : β → α → β → Prop) : β → List α → β → Prop
  | nil {k : β} : Run step k [] k
  | cons {k k' k'' : β} {a : α} {as : List α} (h : step k a k') (hs : Run step k' as k'') :
      Run step k (a :: as) k''

theorem Run.of_forall {p : α → Prop} {as : List α} (h : ∀ a ∈ as, p a) :
    Run (fun (_ : Unit) a _ => p a) () as () := by
  induction as with
  | nil => exact .nil
  | cons a as ih =>
    obtain ⟨ha, has⟩ := List.forall_mem_cons.1 h
    exact .cons ha (ih has)

/-- The fields of a record are taken into account one by one. -/
theorem fields_of_members {member : List Char → α → Prop} {as : List α} {k k' : β}
    {field : β → Bytes → Except Fault (β × Bytes)} {step : β → α → β → Prop}
    (hs : Members '}' member first s as) (hrun : Run step k as k')
    (hfield : ∀ m a k k', member m a → step k a k' → m.length < limit →
      Starts m ∧ Reads (field k) m k')
    (hlimit : s.length < limit) (hbound : s.length < bound) (rest : Bytes) :
    fields field bound first k (toUtf8 s ++ rest) = .ok (k', rest) := by
  induction hs generalizing k bound with
  | nil hb =>
    obtain ⟨bound, rfl⟩ := Nat.exists_eq_add_of_lt hbound
    cases hrun
    unfold fields
    rw [next_closed (.inr rfl) hb]
    rfl
  | @cons first o m s a as ho hm hs ih =>
    simp only [List.length_append] at hlimit hbound
    cases hrun with
    | @cons _ k₁ _ _ _ hstep hrun =>
      obtain ⟨hstart, hread⟩ := hfield m a k k₁ hm hstep (by omega)
      have hpos := hstart.length_pos
      obtain ⟨bound, rfl⟩ : ∃ n, bound = n + 1 := ⟨bound - 1, by omega⟩
      have hbound : s.length < bound := by omega
      have hrest := ih hrun (by omega) hbound
      unfold fields
      rw [next_member (.inr rfl) ho (hstart.append s) rest, toUtf8_append, List.append_assoc]
      show (field k (toUtf8 m ++ (toUtf8 s ++ rest)) >>= _) = _
      rw [hread _ (hs.stops (.inr rfl) rest)]
      exact hrest

/-! ## Names -/

theorem starts_of_isQuoted (h : IsQuoted s) : Starts s := by
  obtain ⟨body, -, rfl⟩ := h
  exact ⟨'"', _, rfl, .inr (by decide)⟩

theorem skipColon_of_blanks (hblanks : IsBlanks blanks) (s : List Char) (rest : Bytes) :
    skipColon (toUtf8 (blanks ++ ':' :: s) ++ rest) = .ok (toUtf8 s ++ rest) := by
  unfold skipColon
  rw [skipBlank_append hblanks]
  rfl

theorem fieldName_of_spellsText {t : String} (h : SpellsText s t) (rest : Bytes) :
    fieldName (toUtf8 s ++ rest) = .ok (t, rest) := by
  obtain ⟨body, hbody, rfl⟩ := h
  exact quotedText_of_spellsChars hbody rest

/-! ## Values that are skipped -/

theorem Spells.starts {t : Tree} (h : Spells s t) : Starts s := by
  cases h with
  | null => exact ⟨'n', _, rfl, .inr (by decide)⟩
  | @bool b =>
    cases b with
    | false => exact ⟨'f', _, rfl, .inr (by decide)⟩
    | true => exact ⟨'t', _, rfl, .inr (by decide)⟩
  | @number _ negative _ h =>
    obtain ⟨body, n, rfl, hbody, -⟩ := h.exists_unsigned
    obtain ⟨c, t, rfl, hc⟩ := hbody.digit
    cases negative with
    | false => exact ⟨c, t, rfl, .inl hc⟩
    | true => exact ⟨'-', _, rfl, .inr (by decide)⟩
  | text h => exact starts_of_isQuoted h.isQuoted
  | list => exact ⟨'[', _, rfl, .inr (by decide)⟩
  | record => exact ⟨'{', _, rfl, .inr (by decide)⟩

theorem Field.starts {value : List Char → α → Prop} {f : Option String × α}
    (h : Field value s f) : Starts s := by
  obtain ⟨hn, -, -, -⟩ := h
  exact (starts_of_isQuoted hn.isQuoted).append _

theorem skipValue_blanks (hblanks : IsBlanks blanks) (s : List Char) (rest : Bytes) :
    skipValue bound (toUtf8 (blanks ++ s) ++ rest) = skipValue bound (toUtf8 s ++ rest) := by
  cases bound with
  | zero => rfl
  | succ bound =>
    unfold skipValue
    rw [skipBlank_append hblanks]

theorem skipValue_of_digit {n : Numeral} (h : IsUnsignedNumber s n) (hrest : Stops GoesOn rest) :
    skipValue (bound + 1) (toUtf8 s ++ rest) = .ok rest := by
  obtain ⟨c, t, hst, hc⟩ := h.digit
  have hskip := h.skip hrest
  have hstart : Starts s := ⟨c, t, hst, .inl hc⟩
  unfold skipValue
  rw [← List.nil_append s, skipBlank_start isBlanks_nil hstart]
  rw [hst, toUtf8_cons_of_lt (toNat_lt_of_isDigit hc)] at hskip ⊢
  dsimp only
  rw [ofUInt8_toUInt8 (toNat_lt_of_isDigit hc)]
  split
  iterate 7 exact absurd hc (by decide)
  rw [if_pos hc]
  exact hskip

/-- The value of a field, with what stands before it. -/
theorem Field.exists_value {value : List Char → α → Prop} {f : Option String × α}
    (h : Field value s f) : ∃ n blanks blanks' v, SpellsQuoted n f.1 ∧ IsBlanks blanks ∧
      IsBlanks blanks' ∧ value v f.2 ∧ v.length ≤ s.length ∧
      s = n ++ (blanks ++ ':' :: (blanks' ++ v)) := by
  obtain ⟨hn, hb, hb', hv⟩ := h
  refine ⟨_, _, _, _, hn, hb, hb', hv, ?_, rfl⟩
  simp only [List.length_append, List.length_cons]
  omega

/-- The value after a colon is skipped with the blanks on both sides of the colon. -/
theorem skipValue_after_colon {blanks' v : List Char} (hblanks : IsBlanks blanks)
    (hblanks' : IsBlanks blanks') (hskip : skipValue bound (toUtf8 v ++ rest) = .ok rest) :
    (skipColon (toUtf8 (blanks ++ ':' :: (blanks' ++ v)) ++ rest) >>= skipValue bound) =
      .ok rest := by
  rw [skipColon_of_blanks hblanks]
  show skipValue bound (toUtf8 (blanks' ++ v) ++ rest) = _
  rw [skipValue_blanks hblanks', hskip]

/-- A field is passed over when its name and its value are. -/
theorem Field.reads_skip {m : List Char} {f : Option String × Tree} (hm : Field Spells m f)
    (hskip : ∀ v, Spells v f.2 → v.length ≤ m.length →
      ∀ rest, Stops GoesOn rest → skipValue bound (toUtf8 v ++ rest) = .ok rest) :
    Reads (fun s => do
      let s ← skipColon (← skipQuoted (← openName s))
      return ((), ← skipValue bound s)) m () := by
  intro rest hrest
  obtain ⟨n, blanks, blanks', v, hn, hb, hb', hv, hlength, rfl⟩ := hm.exists_value
  obtain ⟨body, hbody, rfl⟩ := hn.isQuoted
  have hvalue := skipValue_after_colon hb hb' (hskip v hv hlength rest hrest)
  rw [toUtf8_append, List.append_assoc]
  show (skipQuoted (toUtf8 (body ++ ['"']) ++ _) >>= _) = _
  rw [skipQuoted_of_arePieces hbody]
  show (skipColon _ >>= fun s => skipValue bound s >>= _) = _
  rw [← bind_assoc, hvalue]
  rfl

theorem reads_skip
    (hskip : ∀ rest, Stops GoesOn rest → skipValue bound (toUtf8 s ++ rest) = .ok rest) :
    Reads (fun s => do return ((), ← skipValue bound s)) s () := by
  intro rest hrest
  show (skipValue bound (toUtf8 s ++ rest) >>= _) = _
  rw [hskip rest hrest]
  rfl

section Members

variable {items : List Tree} {fields : List (Option String × Tree)} (hbound : s.length < bound)

include hbound

theorem skipValue_of_items (hs : Members ']' Spells true s items)
    (hskip : ∀ t ∈ items, ∀ m, Spells m t → m.length < bound →
      ∀ rest, Stops GoesOn rest → skipValue bound (toUtf8 m ++ rest) = .ok rest) (rest : Bytes) :
    skipValue (bound + 1) (toUtf8 ('[' :: s) ++ rest) = .ok rest := by
  have hitems : List.Forall₂ (fun t (_ : Unit) => t ∈ items) items (items.map fun _ => ()) :=
    List.forall₂_map_right_iff.2 (List.forall₂_same.2 fun _ ht => ht)
  have hread := items_of_members hs hitems
    (fun m t _ hm ht hlt => ⟨hm.starts, reads_skip (hskip t ht m hm hlt)⟩) hbound hbound rest
  show (Json.items _ bound true (toUtf8 s ++ rest) >>= _) = _
  rw [hread]
  rfl

theorem skipValue_of_fields (hs : Members '}' (Field Spells) true s fields)
    (hskip : ∀ f ∈ fields, ∀ m, Spells m f.2 → m.length < bound →
      ∀ rest, Stops GoesOn rest → skipValue bound (toUtf8 m ++ rest) = .ok rest) (rest : Bytes) :
    skipValue (bound + 1) (toUtf8 ('{' :: s) ++ rest) = .ok rest := by
  have hrun : Run (fun (_ : Unit) f _ => f ∈ fields) () fields () := Run.of_forall fun _ hf => hf
  have hread := fields_of_members hs hrun
    (fun m f _ _ hm hf hlt => ⟨hm.starts, hm.reads_skip fun v hv hle =>
      hskip f hf v hv (Nat.lt_of_le_of_lt hle hlt)⟩) hbound hbound rest
  show (Json.fields _ bound true () (toUtf8 s ++ rest) >>= _) = _
  rw [hread]
  rfl

end Members

/-- A value that is skipped is passed over to its end. -/
theorem skipValue_of_spells {t : Tree} (hs : Spells s t) (hbound : s.length < bound)
    (hrest : Stops GoesOn rest) : skipValue bound (toUtf8 s ++ rest) = .ok rest := by
  obtain ⟨bound, rfl⟩ : ∃ n, bound = n + 1 := ⟨bound - 1, by omega⟩
  induction t generalizing s bound rest with
  | null =>
    cases hs
    rfl
  | bool b =>
    cases hs
    cases b <;> rfl
  | number negative d =>
    cases hs with
    | number h =>
      obtain ⟨body, n, rfl, hbody, -⟩ := h.exists_unsigned
      cases negative with
      | false => exact skipValue_of_digit hbody hrest
      | true => exact hbody.skip hrest
  | text t =>
    cases hs with
    | text h =>
      obtain ⟨body, hbody, rfl⟩ := h.isQuoted
      exact skipQuoted_of_arePieces hbody rest
  | list items ih =>
    cases hs with
    | list h =>
      refine skipValue_of_items (Nat.lt_of_succ_lt_succ hbound) h ?_ rest
      intro t ht m hm hlt rest hrest
      obtain ⟨bound, rfl⟩ : ∃ n, bound = n + 1 := ⟨bound - 1, by omega⟩
      exact ih t ht hm hrest bound hlt
  | record fields ih =>
    cases hs with
    | record h =>
      refine skipValue_of_fields (Nat.lt_of_succ_lt_succ hbound) h ?_ rest
      intro f hf m hm hlt rest hrest
      obtain ⟨bound, rfl⟩ : ∃ n, bound = n + 1 := ⟨bound - 1, by omega⟩
      exact ih f hf hm hrest bound hlt

end FoodTable.Json
