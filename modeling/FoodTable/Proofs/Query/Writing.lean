import FoodTable.Proofs.Binary64.WholeNumbers
import FoodTable.Proofs.Query.Grammar
import FoodTable.Proofs.Query.Pairs

/-!
# Writing queries

A query is written as parameters with one token for each thing it asks for (`Query.WrittenAs`), and
read back from them. Every token is made of characters from `-` to `_` alone (`Text.IsPlain`), so no
comma cuts it and no blank is lost around it. A token that names a nutrient begins with a capital
letter, so a minus sign in front of it is never part of the name, and no name has a character that
compares. Sets may be written in any order, and the pairs of the parameters may come in any order.
-/

namespace FoodTable

open Grammar

/-! ## Plain texts -/

namespace Text

variable {s t : List Char} {c : Char} {n : Nat}

/-- The characters from `-` to `_`. Digits, capital letters, `<` and `>` are among them, blanks and
the comma are not. -/
def IsPlainChar (c : Char) : Prop := '-'.toNat ≤ c.toNat ∧ c.toNat ≤ '_'.toNat

instance : DecidablePred IsPlainChar := fun _ => inferInstanceAs (Decidable (_ ∧ _))

/-- The text has one or more characters, all of them plain. -/
structure IsPlain (s : List Char) : Prop where
  nonempty : s ≠ []
  plain : ∀ c ∈ s, IsPlainChar c

theorem IsPlainChar.isBlank_eq_false (h : IsPlainChar c) : isBlank c = false := by
  have hlow : 45 ≤ c.toNat := h.1
  have hhigh : c.toNat ≤ 95 := h.2
  unfold isBlank
  dsimp only
  simp only [Bool.or_eq_false_iff, Bool.and_eq_false_iff, decide_eq_false_iff_not,
    beq_eq_false_iff_ne]
  omega

theorem isDigit_iff : c.isDigit = true ↔ '0'.toNat ≤ c.toNat ∧ c.toNat ≤ '9'.toNat :=
  Bool.and_eq_true_iff.trans (and_congr decide_eq_true_iff decide_eq_true_iff)

theorem isUpper_iff : c.isUpper = true ↔ 'A'.toNat ≤ c.toNat ∧ c.toNat ≤ 'Z'.toNat :=
  decide_eq_true_iff

theorem isPlainChar_of_isDigit (h : c.isDigit = true) : IsPlainChar c := by
  rw [isDigit_iff] at h
  exact ⟨Nat.le_trans (by decide) h.1, Nat.le_trans h.2 (by decide)⟩

theorem isPlainChar_of_isUpper (h : c.isUpper = true) : IsPlainChar c := by
  rw [isUpper_iff] at h
  exact ⟨Nat.le_trans (by decide) h.1, Nat.le_trans h.2 (by decide)⟩

theorem IsPlain.trimsTo (h : IsPlain s) : TrimsTo s s :=
  trimsTo_self fun c hc => (h.plain c hc).isBlank_eq_false

theorem IsPlain.comma_not_mem (h : IsPlain s) : ',' ∉ s :=
  fun hc => absurd (h.plain ',' hc) (by decide)

theorem IsPlain.cons (hc : IsPlainChar c) (hs : IsPlain s) : IsPlain (c :: s) where
  nonempty := List.cons_ne_nil c s
  plain := List.forall_mem_cons.2 ⟨hc, hs.plain⟩

theorem IsPlain.append (hs : IsPlain s) (ht : IsPlain t) : IsPlain (s ++ t) where
  nonempty h := hs.nonempty (List.append_eq_nil_iff.1 h).1
  plain c hc := (List.mem_append.1 hc).elim (hs.plain c) (ht.plain c)

theorem IsDecimal.isPlain (h : IsDecimal s n) : IsPlain s where
  nonempty := h.1
  plain c hc := isPlainChar_of_isDigit (h.2.1 c hc)

theorem isDecimal_numeral (n : Nat) : IsDecimal (numeral n).toList n := by
  unfold numeral
  rw [String.toList_ofList]
  exact isDecimal_digits n

theorem IsDecimal.isUnsigned (h : IsDecimal s n) : IsUnsigned s n := ⟨s, .inl rfl, h⟩

end Text

open Text

/-! ## Names -/

/-- The name matches `[A-Z][A-Z0-9_-]*`. -/
def IsName (s : List Char) : Prop :=
  ∃ c t, s = c :: t ∧ c.isUpper = true ∧
    ∀ d ∈ t, d.isUpper = true ∨ d.isDigit = true ∨ d = '_' ∨ d = '-'

section Names

variable {s : List Char}

theorem isConditionName_iff : isConditionName s = true ↔ IsName s := by
  cases s with
  | nil => exact iff_of_false (nomatch ·) fun ⟨_, _, h, _⟩ => nomatch h
  | cons c s =>
    unfold isConditionName IsName
    simp [or_assoc]

theorem IsName.isPlain (h : IsName s) : IsPlain s := by
  obtain ⟨c, t, rfl, hc, ht⟩ := h
  have hhead := isPlainChar_of_isUpper hc
  refine ⟨List.cons_ne_nil c t, List.forall_mem_cons.2 ⟨hhead, fun d hd => ?_⟩⟩
  rcases ht d hd with h | h | rfl | rfl
  · exact isPlainChar_of_isUpper h
  · exact isPlainChar_of_isDigit h
  · decide
  · decide

theorem IsName.head?_ne_minus (h : IsName s) : s.head? ≠ some '-' := by
  obtain ⟨c, t, rfl, hc, -⟩ := h
  rw [List.head?_cons, ne_eq, Option.some.injEq]
  rintro rfl
  exact absurd hc (by decide)

theorem Comparison.ofChar?_toChar (o : Comparison) : ofChar? o.toChar = some o := by
  cases o <;> rfl

theorem Comparison.ofChar?_eq_none {c : Char}
    (h : c.isUpper = true ∨ c.isDigit = true ∨ c = '_' ∨ c = '-') : ofChar? c = none := by
  unfold ofChar?
  split
  · exact absurd h (by decide)
  · exact absurd h (by decide)
  · rfl

/-- No character of a name compares. -/
theorem IsName.ofChar?_eq_none (h : IsName s) : ∀ c ∈ s, Comparison.ofChar? c = none := by
  obtain ⟨c, t, rfl, hc, ht⟩ := h
  exact List.forall_mem_cons.2 ⟨Comparison.ofChar?_eq_none (.inl hc), fun d hd =>
    Comparison.ofChar?_eq_none (ht d hd)⟩

end Names

/-! ## Tokens of one thing -/

/-- The sort key as a client writes it. -/
def SortKey.text (k : SortKey) : String := if k.descending then "-" ++ k.tag.name else k.tag.name

section Tokens

variable {v : Vocabulary} {records : List TagRecord} {n : Nat}

theorem category_numeral (h : n ∈ Category.codes) : Category.Denotes (numeral n).toList n :=
  ⟨_, (isDecimal_numeral n).isPlain.trimsTo, (isDecimal_numeral n).isUnsigned,
    Category.contains_codes_iff.1 (List.contains_iff_mem.2 h)⟩

theorem statesOffset_numeral (h : n < pow2 64) : StatesOffset (numeral n) n :=
  ⟨_, (isDecimal_numeral n).isPlain.trimsTo, (isDecimal_numeral n).isUnsigned, h⟩

theorem statesLimit_numeral (hpos : 1 ≤ n) (hle : n ≤ 100) : StatesLimit (numeral n) n := by
  have hpow : (100 : Int) < pow2 63 := by decide
  refine ⟨_, n, (isDecimal_numeral n).isPlain.trimsTo, ?_, by omega, by omega, by omega⟩
  exact ⟨_, n, isDecimal_numeral n, .inl ⟨.inl rfl, rfl⟩⟩

theorem splitCondition?_append {name number : List Char} (o : Comparison)
    (h : ∀ c ∈ name, Comparison.ofChar? c = none) :
    splitCondition? (name ++ o.toChar :: number) = some (name, o, number) := by
  have hname : ∀ c ∈ name, (Comparison.ofChar? c).isNone = true := fun c hc => by
    rw [h c hc, Option.isNone_none]
  have hmark : ¬ (Comparison.ofChar? o.toChar).isNone = true := by
    rw [Comparison.ofChar?_toChar]
    exact Bool.false_ne_true
  unfold splitCondition?
  dsimp only
  rw [List.dropWhile_append_of_pos hname, List.dropWhile_cons, if_neg hmark,
    List.takeWhile_append_of_pos hname, List.takeWhile_cons, if_neg hmark, List.append_nil]
  dsimp only
  rw [Comparison.ofChar?_toChar, Option.map_some]

section Comparisons

variable {number : List Char} (hnumber : IsDecimal number n) (o : Comparison)

theorem toList_comparison (name : String) (o : Comparison) (number : List Char) :
    (name ++ String.ofList (o.toChar :: number)).toList = name.toList ++ o.toChar :: number := by
  rw [String.toList_append, String.toList_ofList]

include hnumber

theorem isPlain_comparison {name : String} (hname : IsName name.toList) :
    IsPlain (name ++ String.ofList (o.toChar :: number)).toList := by
  rw [toList_comparison]
  refine hname.isPlain.append (hnumber.isPlain.cons ?_)
  cases o <;> decide

/-- The name of a tag, a character that compares and digits are a condition. -/
theorem condition_comparison (hv : v.Holds records) {t : Tag} (ht : t ∈ tagsOf records)
    (hname : IsName t.name.toList) :
    condition v (t.name ++ String.ofList (o.toChar :: number)) = .ok ⟨t, o, .ofNat n⟩ := by
  refine condition_of_split ?_ hnumber (isConditionName_iff.2 hname)
    (hv.lookup?_eq_some_iff.2 ⟨ht, String.ofList_toList.symm⟩)
  rw [trim_of_trimsTo (isPlain_comparison hnumber o hname).trimsTo, toList_comparison,
    splitCondition?_append o hname.ofChar?_eq_none]

end Comparisons

theorem isPlain_text {c : Condition} (hname : IsName c.tag.name.toList)
    (hthreshold : c.threshold.IsWhole) : IsPlain c.text.toList := by
  obtain ⟨n, hn, -⟩ := hthreshold.exists_text
  exact isPlain_comparison hn c.comparison hname

/-- A condition is read back from its text. -/
theorem condition_text (hv : v.Holds records) {c : Condition} (htag : c.tag ∈ tagsOf records)
    (hname : IsName c.tag.name.toList) (hthreshold : c.threshold.IsWhole) :
    condition v c.text = .ok c := by
  obtain ⟨n, hn, hvalue⟩ := hthreshold.exists_text
  unfold Condition.text
  rw [condition_comparison hn c.comparison hv htag hname, hvalue]

/-- A name without a comma stands for its tag. -/
theorem nutrients_name (hv : v.Holds records) {t : Tag} (ht : t ∈ tagsOf records)
    (hname : ',' ∉ t.name.toList) : nutrients v t.name = .ok [t] := by
  rw [nutrients_eq_ok_iff hv]
  refine statesSet_singleton hname ⟨ht, rfl⟩ ht fun t' ht' => ?_
  exact tag_eq_of_name_eq hv.columns.nodup ht'.1 ht ht'.2

theorem isPlain_sortKey_text {k : SortKey} (hname : IsName k.tag.name.toList) :
    IsPlain k.text.toList := by
  unfold SortKey.text
  split
  · rw [String.toList_append]
    exact hname.isPlain.cons (by decide)
  · exact hname.isPlain

/-- A sort key is read back from its text. -/
theorem statesKey_text {k : SortKey} (htag : k.tag ∈ tagsOf records)
    (hname : IsName k.tag.name.toList) : StatesKey records k.text k := by
  refine ⟨_, k.tag.name.toList, (isPlain_sortKey_text hname).trimsTo, ?_, hname.isPlain.nonempty,
    htag, String.ofList_toList.symm⟩
  unfold SortKey.text
  split
  · rename_i hdescending
    rw [String.toList_append]
    exact .inl ⟨rfl, hdescending⟩
  · rename_i hascending
    exact .inr ⟨rfl, Bool.eq_false_iff.2 hascending, hname.head?_ne_minus⟩

end Tokens

/-! ## Lists -/

section Lists

variable {α : Type} {write : α → String} {xs all : List α} {s : String} {ts : List String}
  {denotes : String → α → Prop} {read : String → Except QueryError α}

/-- The text lists the members of a set, in any order. -/
def Lists (write : α → String) (xs : List α) (s : String) : Prop :=
  ∃ ys : List α, (∀ x, x ∈ ys ↔ x ∈ xs) ∧ s = ",".intercalate (ys.map write)

theorem statesList_intercalate (hxs : xs ≠ [])
    (h : ∀ x ∈ xs, IsPlain (write x).toList ∧ denotes (write x) x) :
    StatesList denotes (",".intercalate (xs.map write)) xs := by
  refine ⟨xs.map write, isTokens_intercalate (by simpa using hxs) ?_, ?_⟩
  · exact List.forall_mem_map.2 fun x hx => (h x hx).1.comma_not_mem
  · rw [List.forall₂_map_left_iff, List.forall₂_same]
    exact fun x hx => (h x hx).2

theorem Lists.statesSet (hlists : Lists write xs s) (hread : ∀ t x, read t = .ok x ↔ denotes t x)
    (hxs : xs ≠ []) (hsub : xs.Sublist all)
    (h : ∀ x ∈ xs, IsPlain (write x).toList ∧ denotes (write x) x) :
    StatesSet denotes all s xs := by
  obtain ⟨ys, hmem, rfl⟩ := hlists
  have hys (y : α) (hy : y ∈ ys) : IsPlain (write y).toList ∧ denotes (write y) y :=
    h y ((hmem y).1 hy)
  have hne : ys ≠ [] := by
    rintro rfl
    exact hxs (List.eq_nil_iff_forall_not_mem.2 fun x hx => nomatch (hmem x).2 hx)
  refine ⟨ys.map write, isTokens_intercalate (by simpa using hne) ?_, ?_, hsub, fun x => ?_⟩
  · exact List.forall_mem_map.2 fun y hy => (hys y hy).1.comma_not_mem
  · exact List.forall_mem_map.2 fun y hy => ⟨y, (hys y hy).2⟩
  · simp only [← hmem, List.mem_map, exists_exists_and_eq_and]
    constructor
    · exact fun hx => ⟨x, hx, (hys x hx).2⟩
    · rintro ⟨y, hy, hx⟩
      obtain rfl := Except.ok.inj (((hread _ _).2 hx).symm.trans ((hread _ _).2 (hys y hy).2))
      exact hy

end Lists

/-! ## Queries -/

namespace Query

/-- A query over the tags of a metadata table, with nothing empty and with thresholds that are
natural numbers. Negative zero is not one of them: it has a sign. -/
structure Valid (records : List TagRecord) (q : Query) : Prop where
  categories : ∀ codes, q.categories = some codes → codes ≠ [] ∧ codes.Sublist Category.codes
  nutrients : ∀ tags, q.nutrients = some tags → tags ≠ [] ∧ tags.Sublist (tagsOf records)
  conditions : ∀ cs, q.conditions = some cs →
    cs ≠ [] ∧ ∀ c ∈ cs, c.tag ∈ tagsOf records ∧ c.threshold.IsWhole
  order : ∀ keys, q.order = some keys → keys ≠ [] ∧ ∀ k ∈ keys, k.tag ∈ tagsOf records
  name : ∀ text, q.name = some text → text ≠ ""
  offset : q.offset < pow2 64
  limit : 1 ≤ q.limit ∧ q.limit ≤ 100

/-- The parameters are the query in writing: lists with commas, sets in any order. -/
structure WrittenAs (q : Query) (p : Parameters) : Prop where
  categories : Option.Rel (Lists numeral) q.categories p.category
  nutrients : Option.Rel (Lists Tag.name) q.nutrients p.nutrients
  conditions : p.conditions = q.conditions.map fun cs => ",".intercalate (cs.map Condition.text)
  order : p.order = q.order.map fun keys => ",".intercalate (keys.map SortKey.text)
  orders : p.orders = []
  name : p.name = q.name
  offset : p.offset = some (numeral q.offset)
  limit : p.limit = some (numeral q.limit)

variable {v : Vocabulary} {records : List TagRecord} {q : Query} {p : Parameters}
  {ps : List (String × String)}

section Written

variable (hv : v.Holds records) (hnames : ∀ t ∈ tagsOf records, IsName t.name.toList)
  (hq : q.Valid records) (hp : q.WrittenAs p)

include hq hp

theorem WrittenAs.states_categories :
    Option.Rel (StatesSet (fun t => Category.Denotes t.toList) Category.codes) p.category
      q.categories := by
  have hvalid := hq.categories
  have hwritten := hp.categories
  generalize q.categories = o, p.category = o' at hvalid hwritten
  cases hwritten with
  | none => exact .none
  | some hlists =>
    obtain ⟨hne, hsub⟩ := hvalid _ rfl
    refine .some (hlists.statesSet (fun _ _ => category_eq_ok_iff) hne hsub fun code hcode => ?_)
    exact ⟨(isDecimal_numeral code).isPlain, category_numeral (hsub.subset hcode)⟩

include hnames

theorem WrittenAs.states_order : OrderStatedBy records p q.order := by
  have hvalid := hq.order
  have hwritten := hp.order
  generalize q.order = o at hvalid hwritten
  cases o with
  | none => exact ⟨hwritten, hp.orders⟩
  | some keys =>
    obtain ⟨hne, htags⟩ := hvalid keys rfl
    obtain ⟨ts, hts, hkeys⟩ : StatesList (StatesKey records)
        (",".intercalate (keys.map SortKey.text)) keys :=
      statesList_intercalate hne fun k hk =>
        ⟨isPlain_sortKey_text (hnames _ (htags k hk)),
          statesKey_text (htags k hk) (hnames _ (htags k hk))⟩
    refine ⟨.inl (by rw [hwritten]; exact Option.some_ne_none _), ts, ⟨[ts], ?_, ?_⟩, hkeys⟩
    · rw [hwritten, hp.orders]
      exact .cons hts .nil
    · exact List.append_nil ts

include hv

theorem WrittenAs.states_nutrients :
    Option.Rel (StatesSet (Names records) (tagsOf records)) p.nutrients q.nutrients := by
  have hvalid := hq.nutrients
  have hwritten := hp.nutrients
  generalize q.nutrients = o, p.nutrients = o' at hvalid hwritten
  cases hwritten with
  | none => exact .none
  | some hlists =>
    obtain ⟨hne, hsub⟩ := hvalid _ rfl
    refine .some (hlists.statesSet (fun _ _ => nutrient_eq_ok_iff hv) hne hsub fun tag htag => ?_)
    exact ⟨(hnames tag (hsub.subset htag)).isPlain, hsub.subset htag, rfl⟩

theorem WrittenAs.states_conditions :
    Option.Rel (StatesList fun t c => condition v t = .ok c) p.conditions q.conditions := by
  rw [hp.conditions]
  cases hconditions : q.conditions with
  | none => exact .none
  | some cs =>
    obtain ⟨hne, hcs⟩ := hq.conditions cs hconditions
    refine .some (statesList_intercalate hne fun c hc => ?_)
    obtain ⟨htag, hthreshold⟩ := hcs c hc
    exact ⟨isPlain_text (hnames _ htag) hthreshold,
      condition_text hv htag (hnames _ htag) hthreshold⟩

theorem WrittenAs.statedBy : q.StatedBy v records p where
  categories := hp.states_categories hq
  nutrients := hp.states_nutrients hv hnames hq
  conditions := hp.states_conditions hv hnames hq
  order := hp.states_order hnames hq
  name := by
    rw [hp.name]
    cases hname : q.name with
    | none => rfl
    | some text => rw [Option.filter_some, if_pos (decide_eq_true (hq.name text hname))]
  offset := by
    rw [hp.offset]
    exact statesOffset_numeral hq.offset
  limit := by
    rw [hp.limit]
    exact statesLimit_numeral hq.limit.1 hq.limit.2

end Written

/-- A valid query is read back from the pairs that it is written as, in any order. -/
theorem ofParameters_written (h : Vocabulary.ofRecords records = .ok v)
    (hnames : ∀ r ∈ records, IsName r.name.toList) (hq : q.Valid records) (hp : q.WrittenAs p)
    (hps : ps.Perm p.pairs) : ofParameters v (.ofPairs ps) = .ok q := by
  have hv := Vocabulary.holds_of_ofRecords h
  have htags : ∀ t ∈ tagsOf records, IsName t.name.toList := by
    intro t ht
    have hname : t.name ∈ records.map (·.name) := map_name_tagsOf records ▸ List.mem_map_of_mem ht
    obtain ⟨r, hr, hname⟩ := List.mem_map.1 hname
    exact hname ▸ hnames r hr
  rw [Parameters.ofPairs_of_perm hps hp.orders, ofParameters_eq_ok_iff_statedBy hv]
  exact hp.statedBy hv htags hq

/-- A name that ends in `-` next to the characters that tokens add to it, a threshold whose text is
not its exact value, and the greatest offset and limit. -/
theorem ofParameters_written_sample : ∃ v,
    Vocabulary.ofRecords [⟨"PROT-", "g", ""⟩, ⟨"WATER", "g", ""⟩] = .ok v ∧
    ofParameters v (.ofPairs [("where", "PROT->1152921504606847000,WATER<0"), ("foodName", " a, b"),
        ("limit", "100"), ("order", "-PROT-,PROT-"), ("category", "18,1"),
        ("offset", "18446744073709551615"), ("nutrients", "WATER,PROT-")]) =
      .ok { categories := some [1, 18]
            name := some " a, b"
            conditions := some [⟨⟨"PROT-", 0⟩, .above, .ofNat 1152921504606846976⟩,
              ⟨⟨"WATER", 1⟩, .below, .zero⟩]
            nutrients := some [⟨"PROT-", 0⟩, ⟨"WATER", 1⟩]
            order := some [⟨⟨"PROT-", 0⟩, true⟩, ⟨⟨"PROT-", 0⟩, false⟩]
            offset := 18446744073709551615
            limit := 100 } := by
  obtain ⟨v, hv, -⟩ := @Vocabulary.exists_ofRecords [⟨"PROT-", "g", ""⟩, ⟨"WATER", "g", ""⟩]
    (by decide)
  refine ⟨v, hv, ofParameters_written (p := {
    category := some "18,1"
    name := some " a, b"
    conditions := some "PROT->1152921504606847000,WATER<0"
    nutrients := some "WATER,PROT-"
    order := some "-PROT-,PROT-"
    offset := some "18446744073709551615"
    limit := some "100" }) hv ?_ ?_ ?_ (by decide)⟩
  · simp only [← isConditionName_iff]
    decide
  · refine ⟨?_, ?_, ?_, ?_, ?_, by decide, by decide⟩
    · rintro _ ⟨⟩
      decide
    · rintro _ ⟨⟩
      decide
    · rintro _ ⟨⟩
      simp only [List.forall_mem_cons, List.not_mem_nil, false_implies, implies_true, and_true]
      exact ⟨by decide, ⟨by decide, ⟨by decide +kernel, by decide +kernel, by decide +kernel⟩⟩,
        by decide, ⟨rfl, by decide +kernel, by decide +kernel⟩⟩
    · rintro _ ⟨⟩
      decide
    · rintro _ ⟨⟩
      decide
  · refine ⟨.some ⟨[18, 1], ?_, by decide +kernel⟩, .some ⟨[⟨"WATER", 1⟩, ⟨"PROT-", 0⟩], ?_, rfl⟩,
      by decide +kernel, rfl, rfl, rfl, by decide +kernel, by decide +kernel⟩
    · simp [or_comm]
    · simp [or_comm]

end Query

end FoodTable
