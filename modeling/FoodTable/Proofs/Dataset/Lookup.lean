import FoodTable.Proofs.Dataset.Loading

/-!
# Finding foods and tags

A dataset finds a food by its id through the position that it keeps for the id, and a tag by its
name through the column that it keeps for the name. Both indexes are exact after every row and every
record (`Dataset.Holds.push`, `Vocabulary.Holds.push_of_not_mem`), so whatever they keep leads to
the food or the tag that was asked for, and never out of range.
-/

namespace FoodTable

/-- A name of the vocabulary leads to the column of its tag. -/
theorem Vocabulary.Holds.exists_tag {v : Vocabulary} {records : List TagRecord}
    (h : v.Holds records) {name : String} {i : Nat} (hi : v.columns[name]? = some i) :
    ∃ hlt : i < v.tags.size, v.tags[i] = ⟨name, i⟩ := by
  have hname := (h.columns name i).1 hi
  rw [List.getElem?_map, Option.map_eq_some_iff] at hname
  obtain ⟨r, hr, rfl⟩ := hname
  have htag : v.tags[i]? = some ⟨r.name, i⟩ := by
    rw [← Array.getElem?_toList, h.tags, getElem?_tagsOf, hr, Option.map_some]
  exact Array.getElem?_eq_some_iff.1 htag

namespace Dataset

variable {d : Dataset} {v : Vocabulary} {rows : List Row} {records : List TagRecord} {s : String}
  {i : Nat}

/-- The position of an id is that of the food with the id. -/
theorem Holds.positions_eq_some_iff (h : d.Holds v rows) :
    d.positions[s]? = some i ↔ ∃ f, d.foods[i]? = some f ∧ f.id = s := by
  rw [h.positions s i, List.getElem?_map, Array.getElem?_toList, Option.map_eq_some_iff]

/-- Ids are looked up exactly: a food is found under its own id, at its own position, and under no
other text, and no index that is kept is out of range. -/
structure ExactLookup (d : Dataset) : Prop where
  food?_iff : ∀ (s : String) (f : Food), d.food? s = some f ↔ f ∈ d.foods ∧ f.id = s
  unique : ∀ (i j : Nat) (f g : Food), d.foods[i]? = some f → d.foods[j]? = some g →
    f.id = g.id → i = j
  own : ∀ (i : Nat) (f : Food), d.foods[i]? = some f →
    d.positions[f.id]? = some i ∧ d.food? f.id = some f
  digits : ∀ s : String, ¬ (s.toList.length = 5 ∧ ∀ c ∈ s.toList, c.isDigit = true) →
    d.food? s = none
  positions : ∀ (s : String) (i : Nat), d.positions[s]? = some i →
    ∃ h : i < d.foods.size, d.foods[i].id = s
  columns : ∀ (name : String) (i : Nat), d.vocabulary.columns[name]? = some i →
    ∃ h : i < d.vocabulary.tags.size, d.vocabulary.tags[i] = ⟨name, i⟩

theorem food?_eq_none (h : ofTable rows records = .ok d) (hs : isFoodId s = false) :
    d.food? s = none := by
  rw [Option.eq_none_iff_forall_ne_some]
  intro f hf
  obtain ⟨hmem, rfl⟩ := (food?_eq_some_iff h).1 hf
  exact absurd (isFoodId_of_mem h hmem) (by rw [hs]; exact Bool.false_ne_true)

/-- The look-up of every dataset is exact. -/
theorem exactLookup (h : ofTable rows records = .ok d) : d.ExactLookup := by
  obtain ⟨v, -, hd⟩ := exists_holds_of_ofTable h
  have hposition (i : Nat) (f : Food) (hf : d.foods[i]? = some f) :
      d.positions[f.id]? = some i := hd.positions_eq_some_iff.2 ⟨f, hf, rfl⟩
  constructor
  · exact fun s f => food?_eq_some_iff h
  · intro i j f g hf hg hid
    have hi := hposition i f hf
    rw [hid, hposition j g hg] at hi
    exact (Option.some.inj hi).symm
  · intro i f hf
    exact ⟨hposition i f hf, (food?_eq_some_iff h).2 ⟨Array.mem_of_getElem? hf, rfl⟩⟩
  · intro s hs
    exact food?_eq_none h (Bool.eq_false_iff.2 fun hid => hs (Row.isFoodId_iff.1 hid))
  · intro s i hi
    obtain ⟨f, hf, rfl⟩ := hd.positions_eq_some_iff.1 hi
    obtain ⟨hlt, rfl⟩ := Array.getElem?_eq_some_iff.1 hf
    exact ⟨hlt, rfl⟩
  · exact fun name i => (holds_vocabulary h).exists_tag

theorem exactLookup_sample : ∃ d, ofTable sampleRows sampleRecords = .ok d ∧ d.ExactLookup := by
  obtain ⟨d, hd⟩ := exists_ofTable_sample
  exact ⟨d, hd, exactLookup hd⟩

end Dataset

end FoodTable
