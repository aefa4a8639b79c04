import FoodTable.Proofs.Dataset.Rows
import FoodTable.Proofs.Food.Narrowing
import Mathlib.Data.List.Forall2

/-!
# Loading a table

A table makes a dataset exactly if it is well formed: no tag repeats, every row is well formed and
no food id repeats. The dataset then has one food for each row, in row order, with what the row says
by position, and all its foods are sound.
-/

namespace FoodTable

/-- No tag repeats, every row is well formed, and no food id repeats. -/
structure WellFormedTable (rows : List Row) (records : List TagRecord) : Prop where
  tags : (records.map (·.name)).Nodup
  wellFormed : ∀ row ∈ rows, row.WellFormed records.length
  ids : (rows.map (·[1]?)).Nodup

theorem exists_of_forall₂ {α β : Type} {R : α → β → Prop} {xs : List α} {ys : List β}
    (h : List.Forall₂ R xs ys) {x : α} (hx : x ∈ xs) : ∃ y ∈ ys, R x y := by
  induction h with
  | nil => cases hx
  | cons hxy _ ih =>
    rcases List.mem_cons.1 hx with rfl | hx
    · exact ⟨_, List.mem_cons_self, hxy⟩
    · obtain ⟨y, hy, hR⟩ := ih hx
      exact ⟨y, List.mem_cons_of_mem _ hy, hR⟩

theorem exists_getElem?_of_forall₂ {α β : Type} {R : α → β → Prop} {xs : List α} {ys : List β}
    (h : List.Forall₂ R xs ys) {i : Nat} {x : α} (hx : xs[i]? = some x) :
    ∃ y, ys[i]? = some y ∧ R x y := by
  induction h generalizing i with
  | nil => cases hx
  | cons hxy _ ih =>
    cases i with
    | zero =>
      obtain rfl := Option.some.inj hx
      exact ⟨_, rfl, hxy⟩
    | succ i => exact ih hx

namespace Dataset

/-- The dataset before any row. -/
def start (v : Vocabulary) : Dataset := { vocabulary := v, foods := #[], positions := ∅ }

/-- The dataset has the foods of the rows and an exact index of their ids. -/
structure Holds (d : Dataset) (v : Vocabulary) (rows : List Row) : Prop where
  vocabulary : d.vocabulary = v
  foods : List.Forall₂ (fun row food => ∃ number, Row.toFood row number v = .ok food) rows
    d.foods.toList
  positions : Indexes d.positions (d.foods.toList.map (·.id))

variable {d d' : Dataset} {v : Vocabulary} {rows : List Row} {records : List TagRecord} {row : Row}
  {food : Food}

theorem holds_start (v : Vocabulary) : (start v).Holds v [] := ⟨rfl, .nil, Indexes.empty⟩

theorem push_eq_ok_iff : d.push row = .ok d' ↔
    ∃ food, row.toFood d.foods.size d.vocabulary = .ok food ∧
      ¬ d.positions.contains food.id = true ∧
      { d with foods := d.foods.push food
               positions := d.positions.insert food.id d.foods.size } = d' := by
  unfold push
  simp only [bind_eq_ok_iff, ite_throw_eq_ok_iff]
  refine exists_congr fun food => and_congr_right fun _ => and_congr_right fun _ => ?_
  exact ⟨Except.ok.inj, congrArg _⟩

theorem Holds.push (h : d.Holds v rows) (hpush : d.push row = .ok d') :
    d'.Holds v (rows ++ [row]) := by
  obtain ⟨food, hfood, hnew, rfl⟩ := push_eq_ok_iff.1 hpush
  rw [h.vocabulary] at hfood
  refine ⟨h.vocabulary, ?_, ?_⟩
  · rw [Array.toList_push]
    exact List.rel_append h.foods (.cons ⟨_, hfood⟩ .nil)
  · have hsize : d.foods.size = (d.foods.toList.map (·.id)).length := by
      rw [List.length_map, Array.length_toList]
    rw [Array.toList_push, List.map_append, hsize]
    exact h.positions.insert fun hmem => hnew (h.positions.contains_iff.2 hmem)

theorem Holds.ids (h : d.Holds v rows) :
    rows.map (·[1]?) = (d.foods.toList.map (·.id)).map fun id => some (some id) := by
  have := h.foods
  rw [List.map_map, ← List.forall₂_eq_eq_eq, List.forall₂_map_left_iff, List.forall₂_map_right_iff]
  refine this.imp fun row food => ?_
  rintro ⟨number, hfood⟩
  exact (Row.toFood_eq_ok_iff.1 hfood).2.2.1

/-- A well-formed row with a new id is taken in. -/
theorem Holds.exists_push (h : d.Holds v rows) (hv : v.Holds records)
    (hrow : row.WellFormed records.length) (hid : row[1]? ∉ rows.map (·[1]?)) :
    ∃ d', d.push row = .ok d' := by
  obtain ⟨food, hfood⟩ : ∃ food, row.toFood d.foods.size v = .ok food :=
    (Row.exists_toFood_iff hv).2 hrow
  refine ⟨_, push_eq_ok_iff.2 ⟨food, by rw [h.vocabulary]; exact hfood, fun hc => hid ?_, rfl⟩⟩
  rw [(Row.toFood_eq_ok_iff.1 hfood).2.2.1, h.ids]
  exact List.mem_map_of_mem (h.positions.contains_iff.1 hc)

/-! ## Rows one after the other -/

theorem holds_of_foldlM (h : rows.foldlM push (start v) = .ok d) : d.Holds v rows := by
  induction rows using List.reverseRecOn generalizing d with
  | nil =>
    obtain rfl : start v = d := Except.ok.inj h
    exact holds_start v
  | append_singleton rows row ih =>
    rw [foldlM_append_one, bind_eq_ok_iff] at h
    obtain ⟨d', hd', hpush⟩ := h
    exact (ih hd').push hpush

theorem exists_foldlM (hv : v.Holds records) (hrows : ∀ row ∈ rows, row.WellFormed records.length)
    (hids : (rows.map (·[1]?)).Nodup) : ∃ d, rows.foldlM push (start v) = .ok d := by
  induction rows using List.reverseRecOn with
  | nil => exact ⟨start v, rfl⟩
  | append_singleton rows row ih =>
    rw [List.map_append, List.nodup_append] at hids
    obtain ⟨d, hd⟩ := ih (fun row' hrow' => hrows row' (List.mem_append_left _ hrow')) hids.1
    rw [foldlM_append_one, hd]
    exact (holds_of_foldlM hd).exists_push hv (hrows row (by simp)) fun hmem =>
      hids.2.2 _ hmem _ (List.mem_singleton_self _) rfl

theorem Holds.wellFormedTable (h : d.Holds v rows) (hv : v.Holds records) :
    WellFormedTable rows records where
  tags := hv.columns.nodup
  wellFormed row hrow := by
    obtain ⟨food, -, number, hfood⟩ := exists_of_forall₂ h.foods hrow
    exact (Row.exists_toFood_iff hv).1 ⟨food, hfood⟩
  ids := by
    rw [h.ids]
    exact h.positions.nodup.map fun a b hab => by simpa using hab

/-! ## Tables -/

theorem ofTable_eq_ok_iff : ofTable rows records = .ok d ↔
    ∃ v, Vocabulary.ofRecords records = .ok v ∧ rows.foldlM push (start v) = .ok d := by
  unfold ofTable
  cases Vocabulary.ofRecords records with
  | error name => exact iff_of_false (nomatch ·) fun ⟨_, h, _⟩ => nomatch h
  | ok v =>
    constructor
    · exact fun h => ⟨v, rfl, h⟩
    · rintro ⟨v', hv', h⟩
      obtain rfl := Except.ok.inj hv'
      exact h

theorem exists_holds_of_ofTable (h : ofTable rows records = .ok d) :
    ∃ v, v.Holds records ∧ d.Holds v rows := by
  obtain ⟨v, hv, hd⟩ := ofTable_eq_ok_iff.1 h
  exact ⟨v, Vocabulary.holds_of_ofRecords hv, holds_of_foldlM hd⟩

theorem exists_ofTable_iff :
    (∃ d, ofTable rows records = .ok d) ↔ WellFormedTable rows records := by
  constructor
  · rintro ⟨d, h⟩
    obtain ⟨v, hv, hd⟩ := exists_holds_of_ofTable h
    exact hd.wellFormedTable hv
  · intro h
    obtain ⟨v, hv, hholds⟩ := Vocabulary.exists_ofRecords h.tags
    obtain ⟨d, hd⟩ := exists_foldlM hholds h.wellFormed h.ids
    exact ⟨d, ofTable_eq_ok_iff.2 ⟨v, hv, hd⟩⟩

theorem gives_of_ofTable (h : ofTable rows records = .ok d) :
    List.Forall₂ (fun row food => Row.Gives row records food) rows d.foods.toList := by
  obtain ⟨v, hv, hd⟩ := exists_holds_of_ofTable h
  refine hd.foods.imp fun row food => ?_
  rintro ⟨number, hfood⟩
  exact Row.gives_of_toFood hv hfood

/-! ### A table of three foods -/

/-- Rows whose categories have blanks, a plus sign and leading zeros, and whose cells have amounts
of every kind. -/
def sampleRows : List Row :=
  [[some " +08 ", some "08039", some "1", some "shiitake", some "20", some "(Tr)"],
    [some "11", some "11123", some "2", some "pork", none, some "-1.5e1 g"],
    [some "8", some "08001", some "3", some "enoki", some "1e999", some "(20)"]]

def sampleRecords : List TagRecord := [⟨"ENERC_KCAL", "kcal", "energy"⟩, ⟨"WATER", "g", ""⟩]

theorem wellFormedTable_sample : WellFormedTable sampleRows sampleRecords where
  tags := by decide
  wellFormed row hrow := by
    simp only [sampleRows, List.mem_cons, List.not_mem_nil, or_false] at hrow
    rcases hrow with rfl | rfl | rfl
    · exact ⟨rfl, ⟨_, 8, rfl, Category.code?_eq_some_iff.1 (by decide)⟩,
        ⟨_, rfl, Row.isFoodId_iff.1 (by decide)⟩, ⟨_, rfl⟩, ⟨_, rfl⟩⟩
    · exact ⟨rfl, ⟨_, 11, rfl, Category.code?_eq_some_iff.1 (by decide)⟩,
        ⟨_, rfl, Row.isFoodId_iff.1 (by decide)⟩, ⟨_, rfl⟩, ⟨_, rfl⟩⟩
    · exact ⟨rfl, ⟨_, 8, rfl, Category.code?_eq_some_iff.1 (by decide)⟩,
        ⟨_, rfl, Row.isFoodId_iff.1 (by decide)⟩, ⟨_, rfl⟩, ⟨_, rfl⟩⟩
  ids := by decide

theorem exists_ofTable_sample : ∃ d, ofTable sampleRows sampleRecords = .ok d :=
  exists_ofTable_iff.2 wellFormedTable_sample

/-- The measurements of a food of the sample. -/
def sampleMeasurements (energy water : Cell.Reading) : List Measurement :=
  [⟨⟨"ENERC_KCAL", 0⟩, energy, "kcal", "energy"⟩, ⟨⟨"WATER", 1⟩, water, "g", ""⟩]

def sampleFoods : List Food :=
  [⟨"08039", " +08 ", "1", "shiitake",
      sampleMeasurements (.number (.ofNat 20) false) (.trace true), 8⟩,
    ⟨"11123", "11", "2", "pork",
      sampleMeasurements .missing (.number { Binary64.ofNat 15 with negative := true } false), 11⟩,
    ⟨"08001", "8", "3", "enoki",
      sampleMeasurements (.number .zero false) (.number (.ofNat 20) true), 8⟩]

theorem foods_sample (h : ofTable sampleRows sampleRecords = .ok d) :
    d.foods.toList = sampleFoods := by
  obtain ⟨v, hv, hd⟩ := exists_holds_of_ofTable h
  have hfood (row : Row) (food : Food) (hrow : row.length = 6 ∧
      row[0]? = some (some food.category) ∧ row[1]? = some (some food.id) ∧
      row[2]? = some (some food.index) ∧ row[3]? = some (some food.name) ∧
      Category.code? food.category.toList = some food.categoryCode ∧ isFoodId food.id = true ∧
      food.measurements = row.amounts.zipWith
        (fun cell entry => ⟨entry.1, cell.read, entry.2.unit, entry.2.description⟩)
        ((tagsOf sampleRecords).zip sampleRecords)) :
      ∃ number, row.toFood number v = .ok food := by
    refine ⟨0, Row.toFood_eq_ok_iff.2 ?_⟩
    rw [hv.size, Row.measurements_eq hv]
    exact hrow
  have hfoods : List.Forall₂ (fun row food => ∃ number, Row.toFood row number v = .ok food)
      sampleRows sampleFoods :=
    .cons (hfood _ _ (by decide +kernel)) <|
      .cons (hfood _ _ (by decide +kernel)) <| .cons (hfood _ _ (by decide +kernel)) .nil
  refine Relator.RightUnique.forall₂ ?_ hd.foods hfoods
  rintro row f g ⟨_, hf⟩ ⟨_, hg⟩
  exact Row.toFood_unique hf hg

/-- Loading succeeds exactly on well-formed tables, and gives one food for each row, in row order,
with what the row says by position. -/
theorem ofTable_wellFormed_gives (rows : List Row) (records : List TagRecord) :
    ((∃ d, ofTable rows records = .ok d) ↔ WellFormedTable rows records) ∧
      ∀ d, ofTable rows records = .ok d →
        List.Forall₂ (fun row food => Row.Gives row records food) rows d.foods.toList :=
  ⟨exists_ofTable_iff, fun _ => gives_of_ofTable⟩

theorem ofTable_gives_sample : ∃ d, ofTable sampleRows sampleRecords = .ok d ∧
    List.Forall₂ (fun row food => Row.Gives row sampleRecords food) sampleRows d.foods.toList := by
  obtain ⟨d, hd⟩ := (ofTable_wellFormed_gives _ _).1.2 wellFormedTable_sample
  exact ⟨d, hd, (ofTable_wellFormed_gives _ _).2 d hd⟩

end Dataset

/-! ## The foods of a dataset -/

namespace Row.Gives

variable {row : Row} {records : List TagRecord} {food : Food}

theorem map_tag (h : row.Gives records food) : food.measurements.map (·.tag) = tagsOf records := by
  refine List.ext_getElem? fun j => ?_
  rw [List.getElem?_map, getElem?_tagsOf]
  cases hr : records[j]? with
  | none =>
    have hj : food.measurements[j]? = none := by
      rw [List.getElem?_eq_none_iff, h.length, ← List.getElem?_eq_none_iff]
      exact hr
    rw [hj]
    rfl
  | some r =>
    obtain ⟨cell, -, hm⟩ := h.measurements j r hr
    rw [hm]
    rfl

/-- The measurement of a column's tag stands at the column. -/
theorem measurement?_eq (h : row.Gives records food) {j : Nat} {r : TagRecord}
    (hr : records[j]? = some r) : food.measurement? ⟨r.name, j⟩ = food.measurements[j]? := by
  obtain ⟨cell, -, hm⟩ := h.measurements j r hr
  unfold Food.measurement?
  rw [hm]
  exact if_pos rfl

theorem value?_eq (h : row.Gives records food) {j : Nat} {r : TagRecord} {cell : Cell}
    (hr : records[j]? = some r) (hcell : row[4 + j]? = some cell) :
    food.value? ⟨r.name, j⟩ = cell.read.value := by
  obtain ⟨cell', hcell', hm⟩ := h.measurements j r hr
  obtain rfl := Option.some.inj (hcell.symm.trans hcell')
  unfold Food.value?
  rw [h.measurement?_eq hr, hm]
  rfl

theorem sound (h : row.Gives records food) : food.Sound where
  nodup := by
    rw [h.map_tag]
    exact nodup_tagsOf records
  finite m hm := by
    obtain ⟨j, hj⟩ := List.mem_iff_getElem?.1 hm
    have hlt : j < records.length := h.length ▸ (List.getElem?_eq_some_iff.1 hj).1
    obtain ⟨cell, -, hm'⟩ := h.measurements j _ (List.getElem?_eq_getElem hlt)
    rw [hj] at hm'
    obtain rfl := Option.some.inj hm'
    exact Cell.isFinite_read cell

end Row.Gives

namespace Dataset

variable {d : Dataset} {rows : List Row} {records : List TagRecord} {food : Food}

theorem sound_of_mem (h : ofTable rows records = .ok d) (hfood : food ∈ d.foods) : food.Sound := by
  have hmem : food ∈ d.foods.toList := Array.mem_toList_iff.2 hfood
  obtain ⟨row, -, hrow⟩ := exists_of_forall₂ (gives_of_ofTable h).flip hmem
  exact hrow.sound

theorem Narrowed.sound (h : ofTable rows records = .ok d) (hfood : d.Narrowed food) :
    food.Sound := by
  induction hfood with
  | whole hmem => exact sound_of_mem h hmem
  | narrow _ tags ih => exact ih.narrow tags

/-- A food of any table, whole or narrowed. -/
theorem sound_of_exists_narrowed
    (h : ∃ rows records d, ofTable rows records = .ok d ∧ d.Narrowed food) : food.Sound := by
  obtain ⟨rows, records, d, hd, hfood⟩ := h
  exact hfood.sound hd

theorem holds_vocabulary (h : ofTable rows records = .ok d) : d.vocabulary.Holds records := by
  obtain ⟨v, hv, hd⟩ := exists_holds_of_ofTable h
  rwa [hd.vocabulary]

theorem isFoodId_of_mem (h : ofTable rows records = .ok d) (hfood : food ∈ d.foods) :
    isFoodId food.id = true := by
  obtain ⟨v, -, hd⟩ := exists_holds_of_ofTable h
  obtain ⟨row, -, number, hrow⟩ := exists_of_forall₂ hd.foods.flip (Array.mem_toList_iff.2 hfood)
  exact (Row.toFood_eq_ok_iff.1 hrow).2.2.2.2.2.2.1

/-- The index finds the food of an id. -/
theorem food?_eq_some_iff (h : ofTable rows records = .ok d) {id : String} :
    d.food? id = some food ↔ food ∈ d.foods ∧ food.id = id := by
  obtain ⟨v, -, hd⟩ := exists_holds_of_ofTable h
  unfold food?
  simp only [Option.bind_eq_some_iff, hd.positions id, List.getElem?_map, ← Array.getElem?_toList,
    ← Array.mem_toList_iff, Option.map_eq_some_iff]
  constructor
  · rintro ⟨position, ⟨food', hfood', rfl⟩, hfood⟩
    obtain rfl := Option.some.inj (hfood'.symm.trans hfood)
    exact ⟨List.mem_of_getElem? hfood, rfl⟩
  · rintro ⟨hmem, rfl⟩
    obtain ⟨position, hfood⟩ := List.mem_iff_getElem?.1 hmem
    exact ⟨position, ⟨food, hfood, rfl⟩, hfood⟩

theorem nodup_ids (h : ofTable rows records = .ok d) : (d.foods.toList.map (·.id)).Nodup := by
  obtain ⟨v, -, hd⟩ := exists_holds_of_ofTable h
  exact hd.positions.nodup

end Dataset

end FoodTable
