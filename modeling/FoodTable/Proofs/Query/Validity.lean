import FoodTable.Proofs.Binary64.WholeNumbers
import FoodTable.Proofs.Query.Detail

/-!
# Accepted queries are sound

What a query that was accepted can hold, whatever the parameters were: sets and lists that are given
are not empty, every tag is the vocabulary's own (`Vocabulary.Owns`), every threshold is a whole
number or infinite, and a page has from 1 to 100 foods (`Query.Sound`). The stages of a query look
at none of this. In a food of a dataset with the vocabulary each of the tags then stands at its own
column, so no food is searched.
-/

namespace FoodTable

open Text

variable {v : Vocabulary} {d : Dataset} {rows : List Row} {records : List TagRecord}
  {p : Parameters} {q : Query} {r : FoodQuery} {f : Food} {t : Tag} {id : String}

/-! ## Tags of a vocabulary -/

/-- The tag is the one that the vocabulary has at its column and under its name. -/
structure Vocabulary.Owns (v : Vocabulary) (t : Tag) : Prop where
  column_lt : t.column < v.size
  stored : v.tags[t.column]? = some t
  found : v.lookup? t.name = some t

theorem Vocabulary.Holds.owns_iff (h : v.Holds records) : v.Owns t ↔ t ∈ tagsOf records := by
  constructor
  · exact fun ht => (h.lookup?_eq_some_iff.1 ht.found).1
  · intro ht
    have hstored : v.tags[t.column]? = some t := by
      obtain ⟨r, hr, hname⟩ := Option.map_eq_some_iff.1 (mem_tagsOf_iff.1 ht)
      rw [← Array.getElem?_toList, h.tags, getElem?_tagsOf, hr, Option.map_some, hname]
    exact ⟨(Array.getElem?_eq_some_iff.1 hstored).1, hstored,
      h.lookup?_eq_some_iff.2 ⟨ht, rfl⟩⟩

/-- The food has the tag at the tag's column, and finds it there. -/
def Food.HasAtColumn (f : Food) (t : Tag) : Prop :=
  ∃ m, f.measurements[t.column]? = some m ∧ m.tag = t ∧ f.measurement? t = some m

theorem Row.Gives.hasAtColumn {row : Row} (h : row.Gives records f) (ht : t ∈ tagsOf records) :
    f.HasAtColumn t := by
  obtain ⟨r, hr, hname⟩ := Option.map_eq_some_iff.1 (mem_tagsOf_iff.1 ht)
  obtain ⟨name, column⟩ := t
  obtain rfl : r.name = name := hname
  obtain ⟨cell, -, hm⟩ := h.measurements column r hr
  exact ⟨_, hm, rfl, (h.measurement?_eq hr).trans hm⟩

/-- Every food of a dataset has the tags of its vocabulary at their columns. -/
theorem Dataset.hasAtColumn_of_owns (h : ofTable rows records = .ok d) (hf : f ∈ d.foods)
    (ht : d.vocabulary.Owns t) : f.HasAtColumn t := by
  obtain ⟨row, -, hrow⟩ :=
    exists_of_forall₂ (gives_of_ofTable h).flip (Array.mem_toList_iff.2 hf)
  exact hrow.hasAtColumn ((holds_vocabulary h).owns_iff.1 ht)

/-! ## Sound queries -/

/-- A whole number or infinite, without sign: neither zero with a minus sign nor a pattern that
stands for no number. -/
structure Binary64.IsThreshold (x : Binary64) : Prop where
  nonnegative : x.negative = false
  number : x.isNan = false
  whole : x.isFinite = true → pow2 1074 ∣ x.units

/-- The tags are a set of the vocabulary's own that is not empty. -/
structure Vocabulary.OwnsSet (v : Vocabulary) (tags : List Tag) : Prop where
  nonempty : tags ≠ []
  nodup : tags.Nodup
  owns : ∀ t ∈ tags, v.Owns t

/-- What holds of every accepted query. -/
structure Query.Sound (v : Vocabulary) (q : Query) : Prop where
  categories : ∀ codes, q.categories = some codes →
    codes ≠ [] ∧ codes.Nodup ∧ ∀ code ∈ codes, 1 ≤ code ∧ code ≤ 18
  name : q.name ≠ some ""
  conditions : ∀ cs, q.conditions = some cs →
    cs ≠ [] ∧ ∀ c ∈ cs, v.Owns c.tag ∧ c.threshold.IsThreshold
  nutrients : ∀ tags, q.nutrients = some tags → v.OwnsSet tags
  order : ∀ keys, q.order = some keys → keys ≠ [] ∧ ∀ k ∈ keys, v.Owns k.tag
  offset : q.offset < pow2 64
  limit : 1 ≤ q.limit ∧ q.limit ≤ 100

/-- What holds of every accepted request for one food. -/
structure FoodQuery.Sound (v : Vocabulary) (r : FoodQuery) : Prop where
  id : r.id.toList.length = 5 ∧ ∀ c ∈ r.id.toList, c.isDigit = true
  nutrients : ∀ tags, r.nutrients = some tags → v.OwnsSet tags

theorem Binary64.isThreshold_ofNat (n : Nat) : (ofNat n).IsThreshold := by
  rcases isWhole_ofNat_or_infinite n with hwhole | hinfinite
  · exact ⟨hwhole.nonnegative, isNan_eq_false_of_isFinite hwhole.finite, fun _ => hwhole.whole⟩
  · rw [hinfinite]
    exact ⟨rfl, decide_eq_false (Nat.lt_irrefl _), fun h => absurd h (by decide)⟩

namespace Grammar

section Lists

variable {α : Type} {denotes : String → α → Prop} {all xs : List α} {s : String}

theorem StatesSet.ne_nil (h : StatesSet denotes all s xs) : xs ≠ [] := by
  obtain ⟨ts, hts, hdenotes, -, hxs⟩ := h
  obtain ⟨t, ht⟩ := List.exists_mem_of_ne_nil ts (tokens_eq_iff.2 hts ▸ tokens_ne_nil s)
  obtain ⟨x, hx⟩ := hdenotes t ht
  exact List.ne_nil_of_mem ((hxs x).2 ⟨t, ht, hx⟩)

theorem StatesSet.sublist (h : StatesSet denotes all s xs) : xs.Sublist all := by
  obtain ⟨-, -, -, hsub, -⟩ := h
  exact hsub

theorem StatesList.ne_nil (h : StatesList denotes s xs) : xs ≠ [] := by
  obtain ⟨ts, hts, hxs⟩ := h
  obtain rfl := tokens_eq_iff.2 hts
  rintro rfl
  exact tokens_ne_nil s (List.forall₂_nil_right_iff.1 hxs)

theorem StatesList.of_mem (h : StatesList denotes s xs) {x : α} (hx : x ∈ xs) :
    ∃ t, denotes t x := by
  obtain ⟨ts, -, hxs⟩ := h
  obtain ⟨t, -, ht⟩ := exists_of_forall₂ hxs.flip hx
  exact ⟨t, ht⟩

end Lists

theorem StatesSet.ownsSet (hv : v.Holds records) {s : String} {tags : List Tag}
    (h : StatesSet (Names records) (tagsOf records) s tags) : v.OwnsSet tags where
  nonempty := h.ne_nil
  nodup := (nodup_tagsOf records).sublist h.sublist
  owns _ ht := hv.owns_iff.2 (h.sublist.subset ht)

end Grammar

theorem exists_of_rel_some {α β : Type} {R : α → β → Prop} {o : Option α} {o' : Option β} {b : β}
    (h : Option.Rel R o o') (hb : o' = some b) : ∃ a, R a b := by
  subst hb
  cases h with
  | some hab => exact ⟨_, hab⟩

namespace Query

theorem StatedOr.of_forall {P : Nat → Prop} {default n : Nat} {states : String → Nat → Prop}
    {o : Option String} (h : StatedOr default states o n) (hdefault : P default)
    (hstates : ∀ s n, states s n → P n) : P n := by
  cases o with
  | none =>
    obtain rfl : n = default := h
    exact hdefault
  | some s => exact hstates s n h

/-- A stated query is sound. -/
theorem StatedBy.sound (h : v.Holds records) (hq : q.StatedBy v records p) : q.Sound v where
  categories codes hcodes := by
    obtain ⟨s, hs⟩ := exists_of_rel_some hq.categories hcodes
    have hrange : ∀ code ∈ Category.codes, 1 ≤ code ∧ code ≤ 18 := by decide
    have hnodup : Category.codes.Nodup := by decide
    exact ⟨hs.ne_nil, hnodup.sublist hs.sublist,
      fun code hcode => hrange code (hs.sublist.subset hcode)⟩
  name := by
    rw [hq.name]
    intro hname
    exact absurd rfl (of_decide_eq_true (Option.filter_eq_some_iff.1 hname).2)
  conditions cs hcs := by
    obtain ⟨s, hs⟩ := exists_of_rel_some hq.conditions hcs
    refine ⟨hs.ne_nil, fun c hc => ?_⟩
    obtain ⟨token, htoken⟩ := hs.of_mem hc
    obtain ⟨name, number, n, -, -, -, htag, hthreshold⟩ := Grammar.condition_eq_ok_iff.1 htoken
    rw [hthreshold]
    exact ⟨h.owns_iff.2 (h.lookup?_eq_some_iff.1 htag).1, Binary64.isThreshold_ofNat n⟩
  nutrients tags htags := by
    obtain ⟨s, hs⟩ := exists_of_rel_some hq.nutrients htags
    exact hs.ownsSet h
  order keys hkeys := by
    have horder := hq.order
    rw [hkeys] at horder
    obtain ⟨hgiven, ts, hts, hstates⟩ := horder
    obtain rfl := Grammar.isOrderTokens_iff.1 hts
    constructor
    · rintro rfl
      have hnil := Grammar.orderTokens_eq_nil_iff.1 (List.forall₂_nil_right_iff.1 hstates)
      exact hgiven.elim (· hnil.1) (· hnil.2)
    · intro k hk
      obtain ⟨token, -, text, name, -, -, -, hname⟩ := exists_of_forall₂ hstates.flip hk
      exact h.owns_iff.2 hname.1
  offset := hq.offset.of_forall (pow2_pos 64) fun _ _ hn => (Grammar.statesOffset_iff.1 hn).2
  limit := by
    refine hq.limit.of_forall (P := fun n => 1 ≤ n ∧ n ≤ 100) (by decide) fun s n hn => ?_
    obtain ⟨i, -, -, hlimit⟩ := Grammar.statesLimit_iff.1 hn
    omega

end Query

/-- An accepted request for one food is sound. -/
theorem FoodQuery.sound_of_ofParameters (h : v.Holds records)
    (hr : ofParameters v id p = .ok r) : r.Sound v := by
  obtain ⟨hid, rfl, hn⟩ := ofParameters_eq_ok_iff.1 hr
  refine ⟨Row.isFoodId_iff.1 hid, fun tags htags => ?_⟩
  obtain ⟨s, hs⟩ := exists_of_rel_some (option_mapM_eq_ok_iff.1 hn) htags
  exact ((Grammar.nutrients_eq_ok_iff h).1 hs).ownsSet h

/-! ## Sound queries in a dataset -/

namespace Query

theorem visibleKeys_subset (q : Query) : q.visibleKeys ⊆ q.order.getD [] := by
  unfold visibleKeys
  cases q.nutrients with
  | none => exact List.Subset.refl _
  | some tags => exact List.filter_subset_self _

theorem Sound.owns_of_mem_visibleKeys (h : q.Sound v) {k : SortKey} (hk : k ∈ q.visibleKeys) :
    v.Owns k.tag := by
  obtain ⟨keys, hkeys, hk⟩ : ∃ keys, q.order = some keys ∧ k ∈ keys := by
    have hmem := q.visibleKeys_subset hk
    cases horder : q.order with
    | none => simp [horder] at hmem
    | some keys => exact ⟨keys, rfl, by simpa [horder] using hmem⟩
  exact (h.order keys hkeys).2 k hk

/-- Every query and every request for one food that a vocabulary accepts is sound. In every food of
a dataset with the vocabulary, the tags of the conditions and of the keys that are sorted by stand
at their own columns. -/
theorem accepted_sound (h : Vocabulary.ofRecords records = .ok v) :
    (∀ p q, ofParameters v p = .ok q → q.Sound v) ∧
    (∀ id p r, FoodQuery.ofParameters v id p = .ok r → r.Sound v) ∧
    ∀ rows records' d, Dataset.ofTable rows records' = .ok d → d.vocabulary = v →
      ∀ p q, ofParameters v p = .ok q → ∀ f ∈ d.foods,
        (∀ cs, q.conditions = some cs → ∀ c ∈ cs, f.HasAtColumn c.tag) ∧
        ∀ k ∈ q.visibleKeys, f.HasAtColumn k.tag := by
  have hv := Vocabulary.holds_of_ofRecords h
  have hsound (p : Parameters) (q : Query) (hq : ofParameters v p = .ok q) : q.Sound v :=
    ((ofParameters_eq_ok_iff_statedBy hv).1 hq).sound hv
  refine ⟨hsound, fun id p r => FoodQuery.sound_of_ofParameters hv, ?_⟩
  rintro rows records' d hd rfl p q hq f hf
  have hq := hsound p q hq
  constructor
  · intro cs hcs c hc
    exact Dataset.hasAtColumn_of_owns hd hf ((hq.conditions cs hcs).2 c hc).1
  · intro k hk
    exact Dataset.hasAtColumn_of_owns hd hf (hq.owns_of_mem_visibleKeys hk)

/-- A query with a condition, two sort keys and a limit that is too great. -/
theorem accepted_sound_sample : ∃ d q,
    Dataset.ofTable Dataset.sampleRows Dataset.sampleRecords = .ok d ∧
    ofParameters d.vocabulary { conditions := some " WATER>90", order := some "-ENERC_KCAL,WATER",
                                limit := some "+1000" } = .ok q ∧
    q.Sound d.vocabulary ∧
    ∀ f ∈ d.foods, f.HasAtColumn ⟨"ENERC_KCAL", 0⟩ ∧ f.HasAtColumn ⟨"WATER", 1⟩ := by
  obtain ⟨d, hd⟩ := Dataset.exists_ofTable_sample
  obtain ⟨v, hv, hholds⟩ := Dataset.ofTable_eq_ok_iff.1 hd
  obtain rfl : d.vocabulary = v := (Dataset.holds_of_foldlM hholds).vocabulary
  have hvocabulary := Vocabulary.holds_of_ofRecords hv
  have hwater : d.vocabulary.lookup? "WATER" = some ⟨"WATER", 1⟩ :=
    hvocabulary.lookup?_eq_some_iff.2 ⟨by decide, rfl⟩
  have hcondition : Grammar.conditions d.vocabulary " WATER>90" =
      .ok [⟨⟨"WATER", 1⟩, .above, .ofNat 90⟩] := by
    have htokens : Grammar.tokens " WATER>90" = [" WATER>90"] := by decide
    rw [Grammar.conditions, htokens, mapM_eq_ok_iff]
    refine .cons (Grammar.condition_eq_ok_iff.2 ?_) .nil
    exact ⟨"WATER".toList, "90".toList, 90, by decide, digits?_eq_some_iff.1 (by decide),
      by decide, hwater, rfl⟩
  have horder : Grammar.order d.vocabulary { order := some "-ENERC_KCAL,WATER" } =
      .ok (some [⟨⟨"ENERC_KCAL", 0⟩, true⟩, ⟨⟨"WATER", 1⟩, false⟩]) := by
    have htokens : Grammar.orderTokens { order := some "-ENERC_KCAL,WATER" } =
        ["-ENERC_KCAL", "WATER"] := by decide
    rw [Grammar.order_of_ne_nil (by rw [htokens]; exact List.cons_ne_nil _ _), htokens,
      map_eq_ok_iff]
    refine ⟨_, mapM_eq_ok_iff.2 (.cons ?_ (.cons ?_ .nil)), rfl⟩
    · exact (Grammar.sortKey_eq_ok_iff hvocabulary).2 ⟨_, "ENERC_KCAL".toList,
        trim_eq_iff.1 (by decide), .inl ⟨rfl, rfl⟩, by decide, by decide, rfl⟩
    · exact (Grammar.sortKey_eq_ok_iff hvocabulary).2 ⟨_, "WATER".toList,
        trim_eq_iff.1 (by decide), .inr ⟨rfl, rfl, by decide⟩, by decide, by decide, rfl⟩
  have hq : ofParameters d.vocabulary { conditions := some " WATER>90",
                                        order := some "-ENERC_KCAL,WATER",
                                        limit := some "+1000" } =
      .ok { conditions := some [⟨⟨"WATER", 1⟩, .above, .ofNat 90⟩],
            order := some [⟨⟨"ENERC_KCAL", 0⟩, true⟩, ⟨⟨"WATER", 1⟩, false⟩],
            limit := 100 } :=
    have hlimit : Grammar.limit (some "+1000") = .ok 100 := by decide
    ofParameters_eq_ok_iff.2
      ⟨rfl, rfl, congrArg (some <$> ·) hcondition, horder, rfl, hlimit, rfl⟩
  obtain ⟨hsound, -, hfoods⟩ := accepted_sound hv
  refine ⟨d, _, hd, hq, hsound _ _ hq, fun f hf => ?_⟩
  obtain ⟨-, hkeys⟩ := hfoods _ _ d hd rfl _ _ hq f hf
  exact ⟨hkeys ⟨⟨"ENERC_KCAL", 0⟩, true⟩ (by decide), hkeys ⟨⟨"WATER", 1⟩, false⟩ (by decide)⟩

end Query

end FoodTable
