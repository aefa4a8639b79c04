import FoodTable.Proofs.Agreement
import FoodTable.Proofs.Query.Grammar
import FoodTable.Proofs.Query.Matched

/-!
# Spellings of a request

One request can be stated by many parameters: the tokens of a set come in any order and any number
of times, a numeral may have blanks, zeros and a plus sign around it, conditions may be repeated,
and an order may name a nutrient again. Parameters that state the same request
(`Parameters.SameRequest`) are read as queries that differ at most in what makes no difference to
the page (`Query.SameRequest`): in how often and where conditions are given, and in keys on a
nutrient that an earlier key has used.
-/

namespace FoodTable

open Grammar Text

/-! ## Keys on a nutrient used before -/

namespace SortKey

/-- The keys without those whose tag an earlier key has. -/
def firstUses : List SortKey → List SortKey
  | [] => []
  | k :: keys => k :: (firstUses keys).filter (·.tag ≠ k.tag)

variable {k k' : SortKey} {keys keys' : List SortKey} {a b : Food}

theorem compare_eq_eq_iff_ascending :
    k.compare a b = .eq ↔ SortKey.compare ⟨k.tag, false⟩ a b = .eq := by
  obtain ⟨tag, descending⟩ := k
  cases descending with
  | false => rfl
  | true =>
    unfold SortKey.compare
    dsimp only
    split
    · rw [if_pos rfl, if_neg Bool.false_ne_true, Ordering.swap_eq_eq]
    · rfl
    · rfl
    · rfl

/-- Foods that tie on a key tie on every key with its tag, whatever the direction. -/
theorem compare_eq_eq_of_tag_eq (h : k.compare a b = .eq) (htag : k'.tag = k.tag) :
    k'.compare a b = .eq := by
  rw [compare_eq_eq_iff_ascending] at h ⊢
  rwa [htag]

theorem compareAll_filter (h : k.compare a b = .eq) (keys : List SortKey) :
    compareAll (keys.filter (·.tag ≠ k.tag)) a b = compareAll keys a b := by
  induction keys with
  | nil => rfl
  | cons k' keys ih =>
    by_cases htag : k'.tag = k.tag
    · rw [List.filter_cons_of_neg (by simpa using htag), ih, compareAll_cons,
        compare_eq_eq_of_tag_eq h htag]
      rfl
    · rw [List.filter_cons_of_pos (by simpa using htag), compareAll_cons, ih, compareAll_cons]

/-- Only the first key on each nutrient decides. -/
theorem compareAll_firstUses (keys : List SortKey) (a b : Food) :
    compareAll (firstUses keys) a b = compareAll keys a b := by
  induction keys with
  | nil => rfl
  | cons k keys ih =>
    unfold firstUses
    rw [compareAll_cons, compareAll_cons]
    cases h : k.compare a b with
    | lt => rfl
    | gt => rfl
    | eq => rw [compareAll_filter h, ih]

example : firstUses [⟨⟨"WATER", 1⟩, true⟩, ⟨⟨"NA", 2⟩, false⟩, ⟨⟨"WATER", 1⟩, false⟩] =
    [⟨⟨"WATER", 1⟩, true⟩, ⟨⟨"NA", 2⟩, false⟩] := by
  decide

theorem firstUses_filter {test : SortKey → Bool} (htest : ∀ k k', k'.tag = k.tag → test k' = test k)
    (keys : List SortKey) : firstUses (keys.filter test) = (firstUses keys).filter test := by
  induction keys with
  | nil => rfl
  | cons k keys ih =>
    by_cases hk : test k = true
    · rw [List.filter_cons_of_pos hk, firstUses, firstUses, List.filter_cons_of_pos hk, ih,
        List.filter_comm]
    · rw [List.filter_cons_of_neg hk, firstUses, List.filter_cons_of_neg hk, ih, List.filter_filter]
      refine List.filter_congr fun k' _ => ?_
      -- a key that passes the test has another tag than `k`
      by_cases htag : k'.tag = k.tag
      · simp [htest k k' htag, hk]
      · simp [htag]

theorem sort_eq_of_firstUses_eq (h : firstUses keys = firstUses keys') (foods : List Food) :
    sort keys foods = sort keys' foods := by
  have hcompare (a b : Food) : compareAll keys a b = compareAll keys' a b := by
    rw [← compareAll_firstUses keys, h, compareAll_firstUses]
  unfold sort
  simp only [hcompare]

end SortKey

/-! ## Queries -/

namespace Query

/-- The queries differ at most in how their conditions are listed, and in keys whose tag an earlier
key has. -/
structure SameRequest (q q' : Query) : Prop where
  categories : q.categories = q'.categories
  name : q.name = q'.name
  conditions : Option.Rel (fun cs cs' => ∀ c, c ∈ cs ↔ c ∈ cs') q.conditions q'.conditions
  nutrients : q.nutrients = q'.nutrients
  order : SortKey.firstUses (q.order.getD []) = SortKey.firstUses (q'.order.getD [])
  offset : q.offset = q'.offset
  limit : q.limit = q'.limit

namespace SameRequest

variable {q q' : Query} (hsame : q.SameRequest q')

include hsame

theorem accepts_eq (f : Food) : q.accepts f = q'.accepts f := by
  have hconditions : (q.conditions.all fun cs => cs.all (·.satisfiedBy f)) =
      q'.conditions.all fun cs => cs.all (·.satisfiedBy f) := by
    refine all_eq_of_rel hsame.conditions fun cs cs' hcs => ?_
    rw [Bool.eq_iff_iff, List.all_eq_true, List.all_eq_true]
    exact forall_congr' fun c => imp_congr_left (hcs c)
  unfold accepts
  rw [hsame.categories, hsame.name, hconditions]

theorem firstUses_visibleKeys :
    SortKey.firstUses q.visibleKeys = SortKey.firstUses q'.visibleKeys := by
  unfold visibleKeys
  dsimp only
  rw [hsame.nutrients]
  cases q'.nutrients with
  | none => exact hsame.order
  | some tags =>
    dsimp only
    have htest (k k' : SortKey) (htag : k'.tag = k.tag) :
        tags.contains k'.tag = tags.contains k.tag := by rw [htag]
    rw [SortKey.firstUses_filter htest, hsame.order, ← SortKey.firstUses_filter htest]

theorem matched_eq (d : Dataset) : q.matched d = q'.matched d := by
  have haccepted : q.accepted d = q'.accepted d :=
    List.filter_congr fun f _ => hsame.accepts_eq f
  rw [matched_eq_sort, matched_eq_sort, haccepted]
  exact SortKey.sort_eq_of_firstUses_eq hsame.firstUses_visibleKeys _

theorem page_eq (d : Dataset) : q.page d = q'.page d := by
  unfold page
  rw [hsame.matched_eq, hsame.nutrients, hsame.offset, hsame.limit]

end SameRequest

end Query

/-! ## Parameters -/

namespace Grammar

section Sets

variable {α : Type} {denotes : String → α → Prop} {read : String → Except QueryError α}
  {all xs xs' : List α} {s s' : String}

/-- Some token of the list denotes the value. -/
def Denoted (denotes : String → α → Prop) (s : String) (x : α) : Prop :=
  ∃ ts, IsTokens s ts ∧ ∃ t ∈ ts, denotes t x

/-- The tokens of the two lists denote the same values, or neither list is given. -/
def SameSet (denotes : String → α → Prop) : Option String → Option String → Prop :=
  Option.Rel fun s s' => ∀ x, Denoted denotes s x ↔ Denoted denotes s' x

theorem StatesSet.mem_iff (h : StatesSet denotes all s xs) (x : α) :
    x ∈ xs ↔ Denoted denotes s x := by
  obtain ⟨ts, hts, -, -, hmem⟩ := h
  obtain rfl := tokens_eq_iff.2 hts
  rw [hmem, Denoted, exists_isTokens_iff]

theorem StatesList.mem_iff (hread : ∀ t x, read t = .ok x ↔ denotes t x)
    (h : StatesList denotes s xs) (x : α) : x ∈ xs ↔ Denoted denotes s x := by
  rw [mem_iff_of_mapM hread ((mapM_tokens_eq_ok_iff hread).2 h), Denoted, exists_isTokens_iff]

/-- Sets in a fixed order are known by their members. -/
theorem StatesSet.eq_of_mem_iff [BEq α] [LawfulBEq α] (hall : all.Nodup)
    (h : StatesSet denotes all s xs) (h' : StatesSet denotes all s' xs')
    (hmem : ∀ x, x ∈ xs ↔ x ∈ xs') : xs = xs' := by
  obtain ⟨-, -, -, hsub, -⟩ := h
  obtain ⟨-, -, -, hsub', -⟩ := h'
  have hfilter : all.filter xs'.contains = xs :=
    (eq_filter_iff hall fun _ hx => hsub'.subset hx).2 ⟨hsub, hmem⟩
  have hfilter' : all.filter xs'.contains = xs' :=
    (eq_filter_iff hall fun _ hx => hsub'.subset hx).2 ⟨hsub', fun _ => Iff.rfl⟩
  exact hfilter.symm.trans hfilter'

variable {o o' : Option String} {r r' : Option (List α)} {R : String → List α → Prop}

theorem sameSet_iff_rel (hR : ∀ s xs, R s xs → ∀ x, x ∈ xs ↔ Denoted denotes s x)
    (h : Option.Rel R o r) (h' : Option.Rel R o' r') :
    SameSet denotes o o' ↔ Option.Rel (fun xs xs' => ∀ x, x ∈ xs ↔ x ∈ xs') r r' := by
  unfold SameSet
  cases h with
  | none =>
    cases h' with
    | none => exact iff_of_true .none .none
    | some h' => exact iff_of_false nofun nofun
  | some h =>
    cases h' with
    | none => exact iff_of_false nofun nofun
    | some h' => simp only [Option.rel_some_some, hR _ _ h, hR _ _ h']

theorem sameSet_iff_eq [BEq α] [LawfulBEq α] (hall : all.Nodup)
    (h : Option.Rel (StatesSet denotes all) o r) (h' : Option.Rel (StatesSet denotes all) o' r') :
    SameSet denotes o o' ↔ r = r' := by
  rw [sameSet_iff_rel (fun _ _ hs => hs.mem_iff) h h']
  cases h with
  | none =>
    cases h' with
    | none => exact iff_of_true .none rfl
    | some h' => exact iff_of_false nofun nofun
  | some h =>
    cases h' with
    | none => exact iff_of_false nofun nofun
    | some h' =>
      rw [Option.rel_some_some, Option.some.injEq]
      constructor
      · exact h.eq_of_mem_iff hall h'
      · rintro rfl x
        exact Iff.rfl

end Sets

/-- What two texts state is the same exactly if the value that each states is. -/
theorem forall_states_iff {α : Type} {read : Option String → Except QueryError α}
    (states : Option String → α → Prop) (hread : ∀ o x, read o = .ok x ↔ states o x)
    {o o' : Option String} {x x' : α} (h : states o x) (h' : states o' x') :
    (∀ y, states o y ↔ states o' y) ↔ x = x' := by
  simp only [← hread] at h h' ⊢
  rw [h, h']
  simp only [Except.ok.injEq]
  exact ⟨fun hall => ((hall x).1 rfl).symm, fun e y => by rw [e]⟩

end Grammar

namespace Parameters

variable {v : Vocabulary} {records : List TagRecord} {p p' : Parameters} {q q' : Query}
  {keys : List SortKey} {r : Option (List SortKey)}

/-- The keys are what the order tokens state, one for each token and in their order. -/
def StatesKeys (records : List TagRecord) (p : Parameters) (keys : List SortKey) : Prop :=
  ∃ ts, Parameter.IsOrderTokens p ts ∧ List.Forall₂ (StatesKey records) ts keys

/-- The parameters state the same sets of categories, nutrients and conditions, the same keys but
for those whose tag an earlier key has, and the same name, offset and limit. -/
structure SameRequest (v : Vocabulary) (records : List TagRecord) (p p' : Parameters) : Prop where
  categories : SameSet (fun t => Category.Denotes t.toList) p.category p'.category
  nutrients : SameSet (Names records) p.nutrients p'.nutrients
  conditions : SameSet (fun t c => condition v t = .ok c) p.conditions p'.conditions
  order : ∃ keys keys', StatesKeys records p keys ∧ StatesKeys records p' keys' ∧
    SortKey.firstUses keys = SortKey.firstUses keys'
  name : p.name.filter (· ≠ "") = p'.name.filter (· ≠ "")
  offset : ∀ n, Query.StatedOr 0 StatesOffset p.offset n ↔ Query.StatedOr 0 StatesOffset p'.offset n
  limit : ∀ n, Query.StatedOr 10 StatesLimit p.limit n ↔ Query.StatedOr 10 StatesLimit p'.limit n

theorem statesKeys_iff_mapM (hv : v.Holds records) :
    StatesKeys records p keys ↔ (orderTokens p).mapM (sortKey v) = .ok keys := by
  unfold StatesKeys
  simp only [isOrderTokens_iff, exists_eq_left', mapM_eq_ok_iff, sortKey_eq_ok_iff hv]

theorem statesKeys_getD (h : Query.OrderStatedBy records p r) :
    StatesKeys records p (r.getD []) := by
  cases r with
  | none => exact ⟨[], isOrderTokens_iff.2 (orderTokens_eq_nil_iff.2 h), .nil⟩
  | some keys => exact h.2

theorem statesKeys_iff (hv : v.Holds records) (h : Query.OrderStatedBy records p r) :
    StatesKeys records p keys ↔ keys = r.getD [] := by
  have hkeys := statesKeys_getD h
  rw [statesKeys_iff_mapM hv] at hkeys ⊢
  rw [hkeys, Except.ok.injEq, eq_comm]

/-- Parameters state the same request exactly if their queries are the same request. -/
theorem sameRequest_iff (hv : v.Holds records) (hq : q.StatedBy v records p)
    (hq' : q'.StatedBy v records p') : SameRequest v records p p' ↔ q.SameRequest q' := by
  have hcategories := sameSet_iff_eq (by decide) hq.categories hq'.categories
  have hnutrients := sameSet_iff_eq (nodup_tagsOf records) hq.nutrients hq'.nutrients
  have hconditions := sameSet_iff_rel (fun _ _ => StatesList.mem_iff fun _ _ => Iff.rfl)
    hq.conditions hq'.conditions
  have hoffset := forall_states_iff (Query.StatedOr 0 StatesOffset)
    (fun _ _ => offset_eq_ok_iff_stated) hq.offset hq'.offset
  have hlimit := forall_states_iff (Query.StatedOr 10 StatesLimit)
    (fun _ _ => limit_eq_ok_iff_stated) hq.limit hq'.limit
  constructor
  · intro h
    obtain ⟨keys, keys', hkeys, hkeys', horder⟩ := h.order
    rw [statesKeys_iff hv hq.order] at hkeys
    rw [statesKeys_iff hv hq'.order] at hkeys'
    exact ⟨hcategories.1 h.categories, by rw [hq.name, hq'.name, h.name],
      hconditions.1 h.conditions, hnutrients.1 h.nutrients, hkeys ▸ hkeys' ▸ horder,
      hoffset.1 h.offset, hlimit.1 h.limit⟩
  · intro h
    exact ⟨hcategories.2 h.categories, hnutrients.2 h.nutrients, hconditions.2 h.conditions,
      ⟨_, _, statesKeys_getD hq.order, statesKeys_getD hq'.order, h.order⟩,
      by rw [← hq.name, ← hq'.name, h.name], hoffset.2 h.offset, hlimit.2 h.limit⟩

end Parameters

namespace Query

variable {d : Dataset} {rows : List Row} {records : List TagRecord} {q q' : Query}
  {ps ps' : List (String × String)}

/-- Pairs that state the same request get the same page. -/
theorem page_eq_of_sameRequest (h : Dataset.ofTable rows records = .ok d)
    (hq : ofParameters d.vocabulary (.ofPairs ps) = .ok q)
    (hq' : ofParameters d.vocabulary (.ofPairs ps') = .ok q')
    (hsame : Parameters.SameRequest d.vocabulary records (.ofPairs ps) (.ofPairs ps')) :
    q.page d = q'.page d := by
  have hv := Dataset.holds_vocabulary h
  rw [ofParameters_eq_ok_iff_statedBy hv] at hq hq'
  exact ((Parameters.sameRequest_iff hv hq hq').1 hsame).page_eq d

/-- Codes with blanks, zeros and a sign, a repeated nutrient, a condition given twice, and a key on a
nutrient that has a key already. -/
theorem page_eq_of_sameRequest_sample : ∃ d q q',
    Dataset.ofTable Dataset.sampleRows Dataset.sampleRecords = .ok d ∧
    ofParameters d.vocabulary (.ofPairs [("category", "8,11"), ("nutrients", "WATER"),
      ("where", "WATER>1"), ("order", "-WATER"), ("limit", "2")]) = .ok q ∧
    ofParameters d.vocabulary (.ofPairs [("limit", " +02"), ("category", "0011, +8 ,8"),
      ("orders", " -WATER,WATER"), ("nutrients", "WATER,WATER"), ("offset", "0"),
      ("where", "WATER>1, WATER>01"), ("foodName", "")]) = .ok q' ∧
    q ≠ q' ∧ q.page d = q'.page d := by
  obtain ⟨d, hd⟩ := Dataset.exists_ofTable_sample
  have hv := Dataset.holds_vocabulary hd
  have hmem : (⟨"WATER", 1⟩ : Tag) ∈ tagsOf Dataset.sampleRecords := by decide
  have hwater := hv.lookup?_eq_some_iff.2 ⟨hmem, rfl⟩
  have hnutrients (s : String) (hs : tokens s = ["WATER"] ∨ tokens s = ["WATER", "WATER"]) :
      Grammar.nutrients d.vocabulary s = .ok [⟨"WATER", 1⟩] := by
    unfold Grammar.nutrients nutrient
    rw [hv.tags]
    rcases hs with hs | hs
    · rw [hs, List.mapM_cons, List.mapM_nil, hwater]
      rfl
    · rw [hs, List.mapM_cons, List.mapM_cons, List.mapM_nil, hwater]
      rfl
  have hcondition (token : String) (number : List Char) (hnumber : digits? number = some 1)
      (hsplit : splitCondition? (trim token.toList) = some ("WATER".toList, .above, number)) :
      condition d.vocabulary token = .ok ⟨⟨"WATER", 1⟩, .above, .ofNat 1⟩ :=
    condition_of_split hsplit (digits?_eq_some_iff.1 hnumber) (by decide) hwater
  have hkey (token : String) (text : List Char) (descending : Bool) (ht : trim token.toList = text)
      (hdirected : Directed text "WATER".toList descending) :
      sortKey d.vocabulary token = .ok ⟨⟨"WATER", 1⟩, descending⟩ :=
    (sortKey_eq_ok_iff hv).2 ⟨text, _, trim_eq_iff.1 ht, hdirected, by decide, hmem, rfl⟩
  let above : Condition := ⟨⟨"WATER", 1⟩, .above, .ofNat 1⟩
  refine ⟨d, ⟨some [8, 11], none, some [above], some [⟨"WATER", 1⟩],
      some [⟨⟨"WATER", 1⟩, true⟩], 0, 2⟩,
    ⟨some [8, 11], none, some [above, above], some [⟨"WATER", 1⟩],
      some [⟨⟨"WATER", 1⟩, true⟩, ⟨⟨"WATER", 1⟩, false⟩], 0, 2⟩, hd, ?hq, ?hq',
    fun h => absurd (congrArg Query.order h) (by decide), page_eq_of_sameRequest hd ?hq ?hq'
      ((Parameters.sameRequest_iff hv ((ofParameters_eq_ok_iff_statedBy hv).1 ?hq)
        ((ofParameters_eq_ok_iff_statedBy hv).1 ?hq')).2
          ⟨rfl, rfl, .some (by simp), rfl, by decide, rfl, rfl⟩)⟩
  case hq =>
    refine ofParameters_eq_ok_iff.2 ⟨by decide, ?_, ?_, ?_, by decide, by decide, rfl⟩
    · exact congrArg (some <$> ·) (hnutrients "WATER" (.inl (by decide)))
    · have hread := hcondition "WATER>1" ['1'] rfl (by decide)
      exact congrArg (some <$> ·) (mapM_eq_ok_iff.2 (.cons hread .nil))
    · have hread := hkey "-WATER" _ true rfl (.inl (by decide))
      rw [order_of_ne_nil (by decide), map_eq_ok_iff]
      exact ⟨_, mapM_eq_ok_iff.2 (.cons hread .nil), rfl⟩
  case hq' =>
    refine ofParameters_eq_ok_iff.2 ⟨by decide, ?_, ?_, ?_, by decide, by decide, rfl⟩
    · exact congrArg (some <$> ·) (hnutrients "WATER,WATER" (.inr (by decide)))
    · have hread := hcondition "WATER>1" ['1'] rfl (by decide)
      have hread' := hcondition " WATER>01" ['0', '1'] rfl (by decide)
      exact congrArg (some <$> ·) (mapM_eq_ok_iff.2 (.cons hread (.cons hread' .nil)))
    · have hread := hkey " -WATER" _ true rfl (.inl (by decide))
      have hread' := hkey "WATER" _ false rfl (.inr (by decide))
      rw [order_of_ne_nil (by decide), map_eq_ok_iff]
      exact ⟨_, mapM_eq_ok_iff.2 (.cons hread (.cons hread' .nil)), rfl⟩

end Query

end FoodTable
