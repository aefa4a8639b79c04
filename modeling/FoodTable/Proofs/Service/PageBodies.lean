import FoodTable.Proofs.Query.Columns
import FoodTable.Proofs.Query.Detail
import FoodTable.Proofs.Service.Requests

/-!
# Bodies of pages

The body of a page says one tree, and the tree shows the page with nothing lost
(`Page.ShownBy`): its foods one by one, every text as it is, and for every amount `null` if the cell
of the table is missing and otherwise a number that is read as the amount. Two pages of a dataset
with the same body are the same page.
-/

namespace FoodTable

open Json

variable {rows : List Row} {records : List TagRecord} {row : Row} {d : Dataset} {q : Query}

/-! ## What a tree shows -/

/-- The tree is `null` exactly if the cell is missing, and otherwise a number that is read as the
amount. -/
structure Cell.ShownBy (cell : Cell) (value : Tree) : Prop where
  null : value = .null ↔ cell.IsMissing
  number : ¬ cell.IsMissing → ∃ x negative decimal, cell.read.value = some x ∧
    value = .number negative decimal ∧ Binary64.ofDecimal negative decimal = x

/-- The tree has the name of the tag of a measurement, its texts and its flags, and shows the cell
at the column of the tag. -/
inductive Measurement.ShownBy (records : List TagRecord) (row : Row) (m : Measurement) : Tree → Prop
  | mk {cell : Cell} {value : Tree} (htag : m.tag ∈ tagsOf records)
      (hcell : row[4 + m.tag.column]? = some cell) (hreading : m.reading = cell.read)
      (hvalue : cell.ShownBy value) :
      ShownBy records row m (.record [(some "tagName", .text (some m.tag.name)),
        (some "value", value), (some "unit", .text (some m.unit)),
        (some "isTraceAmount", .bool m.reading.isTrace),
        (some "estimated", .bool m.reading.isEstimate),
        (some "description", .text (some m.description))])

/-- The tree has the texts of a food and shows its measurements one by one, and the text of the
category denotes the code of the food. -/
inductive Food.ShownBy (rows : List Row) (records : List TagRecord) (f : Food) : Tree → Prop
  | mk {row : Row} {nutrients : List Tree} (hrow : row ∈ rows) (hid : row[1]? = some (some f.id))
      (hcode : Category.code? f.category.toList = some f.categoryCode)
      (hnutrients : List.Forall₂ (Measurement.ShownBy records row) f.measurements nutrients) :
      ShownBy rows records f (.record [(some "foodId", .text (some f.id)),
        (some "category", .text (some f.category)), (some "index", .text (some f.index)),
        (some "foodName", .text (some f.name)), (some "nutrients", .list nutrients)])

/-- The tree shows the foods of a page one by one, and has its counts. -/
inductive Page.ShownBy (rows : List Row) (records : List TagRecord) (p : Page) : Tree → Prop
  | mk {contents : List Tree}
      (hcontents : List.Forall₂ (Food.ShownBy rows records) p.foods contents) :
      ShownBy rows records p (.record [(some "contents", .list contents),
        (some "totalCount", .number false ⟨p.total, 0⟩),
        (some "offset", .number false ⟨p.offset, 0⟩), (some "limit", .number false ⟨p.limit, 0⟩)])

/-! ## Nothing is lost -/

/-- A tree shows one amount, or that there is none. -/
theorem Cell.ShownBy.value_eq {cell cell' : Cell} {value : Tree} (h : cell.ShownBy value)
    (h' : cell'.ShownBy value) : cell.read.value = cell'.read.value := by
  by_cases hmissing : cell.IsMissing
  · have hmissing' := h'.null.1 (h.null.2 hmissing)
    rw [Cell.read_value_eq_none_iff.2 hmissing, Cell.read_value_eq_none_iff.2 hmissing']
  · have hmissing' : ¬ cell'.IsMissing := mt (h'.null.symm.trans h.null).1 hmissing
    obtain ⟨x, negative, decimal, hx, rfl, rfl⟩ := h.number hmissing
    obtain ⟨x', negative', decimal', hx', hvalue, rfl⟩ := h'.number hmissing'
    obtain ⟨rfl, rfl⟩ := Tree.number.inj hvalue
    rw [hx, hx']

theorem Measurement.leftUnique_shownBy (hnodup : (records.map (·.name)).Nodup) :
    Relator.LeftUnique fun m t => ∃ row, Measurement.ShownBy records row m t := by
  rintro ⟨tag, reading, unit, description⟩ ⟨tag', reading', unit', description'⟩ t
    ⟨row, h⟩ ⟨row', h'⟩
  obtain ⟨htag, -, hreading, hvalue⟩ := h
  generalize ht : Tree.record _ = t at h'
  obtain ⟨htag', -, hreading', hvalue'⟩ := h'
  simp only [Tree.record.injEq, List.cons.injEq, Prod.mk.injEq, Tree.text.injEq, Option.some.injEq,
    Tree.bool.injEq, true_and, and_true] at ht
  obtain ⟨hname, rfl, rfl, htrace, hestimate, rfl⟩ := ht
  obtain rfl := tag_eq_of_name_eq hnodup htag htag' hname
  have hamount : reading.value = reading'.value := by
    dsimp only at hreading hreading'
    rw [hreading, hreading']
    exact hvalue.value_eq hvalue'
  rw [Measurement.mk.injEq, Cell.Reading.mk.injEq]
  exact ⟨rfl, ⟨hamount, htrace, hestimate⟩, rfl, rfl⟩

theorem Food.leftUnique_shownBy (hnodup : (records.map (·.name)).Nodup) :
    Relator.LeftUnique (Food.ShownBy rows records) := by
  rintro ⟨id, category, index, name, measurements, code⟩
    ⟨id', category', index', name', measurements', code'⟩ t h h'
  obtain ⟨-, -, hcode, hnutrients⟩ := h
  generalize ht : Tree.record _ = t at h'
  obtain ⟨-, -, hcode', hnutrients'⟩ := h'
  simp only [Tree.record.injEq, List.cons.injEq, Prod.mk.injEq, Tree.text.injEq, Option.some.injEq,
    Tree.list.injEq, true_and, and_true] at ht
  obtain ⟨rfl, rfl, rfl, rfl, rfl⟩ := ht
  obtain rfl := Option.some.inj (hcode.symm.trans hcode')
  obtain rfl := (Measurement.leftUnique_shownBy hnodup).forall₂
    (hnutrients.imp fun _ _ hm => ⟨_, hm⟩) (hnutrients'.imp fun _ _ hm => ⟨_, hm⟩)
  rfl

/-- A tree shows one page at most. -/
theorem Page.leftUnique_shownBy (hnodup : (records.map (·.name)).Nodup) :
    Relator.LeftUnique (Page.ShownBy rows records) := by
  rintro ⟨foods, total, offset, limit⟩ ⟨foods', total', offset', limit'⟩ t h h'
  obtain ⟨hcontents⟩ := h
  generalize ht : Tree.record _ = t at h'
  obtain ⟨hcontents'⟩ := h'
  simp only [Tree.record.injEq, List.cons.injEq, Prod.mk.injEq, Tree.number.injEq,
    Decimal.mk.injEq, Tree.list.injEq, true_and, and_true] at ht
  obtain ⟨rfl, rfl, rfl, rfl⟩ := ht
  obtain rfl := (Food.leftUnique_shownBy hnodup).forall₂ hcontents hcontents'
  rfl

/-! ## Trees of bodies -/

theorem Page.tree_toJson (p : Page) : p.toJson.tree = .record [
    (some "contents", .list (p.foods.map (·.toJson.tree))),
    (some "totalCount", .number false ⟨p.total, 0⟩), (some "offset", .number false ⟨p.offset, 0⟩),
    (some "limit", .number false ⟨p.limit, 0⟩)] := by
  simp only [toJson, Value.tree, Value.fieldTrees, Value.itemTrees_eq_map, List.map_map]
  rfl

theorem Food.tree_toJson (f : Food) : f.toJson.tree = .record [
    (some "foodId", .text (some f.id)), (some "category", .text (some f.category)),
    (some "index", .text (some f.index)), (some "foodName", .text (some f.name)),
    (some "nutrients", .list (f.measurements.map (·.toJson.tree)))] := by
  simp only [toJson, Value.tree, Value.fieldTrees, Value.itemTrees_eq_map, List.map_map]
  rfl

theorem Measurement.tree_toJson (m : Measurement) : m.toJson.tree = .record [
    (some "tagName", .text (some m.tag.name)),
    (some "value", (Value.orNull .number m.reading.value).tree),
    (some "unit", .text (some m.unit)), (some "isTraceAmount", .bool m.reading.isTrace),
    (some "estimated", .bool m.reading.isEstimate),
    (some "description", .text (some m.description))] := rfl

/-! ## Pages are shown -/

theorem Cell.shownBy_tree (cell : Cell) :
    cell.ShownBy (Value.orNull .number cell.read.value).tree := by
  cases hvalue : cell.read.value with
  | none =>
    have hmissing := Cell.read_value_eq_none_iff.1 hvalue
    exact ⟨iff_of_true rfl hmissing, fun h => absurd hmissing h⟩
  | some x =>
    have hmissing : ¬ cell.IsMissing := by
      rw [← Cell.read_value_eq_none_iff, hvalue]
      exact Option.some_ne_none x
    -- only infinite amounts are written as `null`, and no cell has one
    have hfinite := Cell.isFinite_read cell x hvalue
    have htree : (Value.orNull .number (some x)).tree = _ := Value.tree_number hfinite
    rw [htree]
    exact ⟨iff_of_false (by simp) hmissing,
      fun _ => ⟨x, _, _, hvalue, rfl, Binary64.ofDecimal_written hfinite⟩⟩

/-- A measurement of a food has a tag of the table and comes from the cell at its column. -/
theorem Row.Gives.exists_cell {food : Food} (h : row.Gives records food) {m : Measurement}
    (hm : m ∈ food.measurements) : m.tag ∈ tagsOf records ∧
      ∃ cell, row[4 + m.tag.column]? = some cell ∧ m.reading = cell.read := by
  constructor
  · rw [← h.map_tag]
    exact List.mem_map_of_mem hm
  · obtain ⟨j, hj⟩ := List.mem_iff_getElem?.1 hm
    have hlt : j < records.length := h.length ▸ (List.getElem?_eq_some_iff.1 hj).1
    obtain ⟨cell, hcell, hm'⟩ := h.measurements j _ (List.getElem?_eq_getElem hlt)
    rw [hj] at hm'
    obtain rfl := Option.some.inj hm'
    exact ⟨cell, hcell, rfl⟩

theorem Measurement.shownBy_toJson {food : Food} (h : row.Gives records food) {m : Measurement}
    (hm : m ∈ food.measurements) : m.ShownBy records row m.toJson.tree := by
  obtain ⟨htag, cell, hcell, hreading⟩ := h.exists_cell hm
  rw [tree_toJson]
  refine .mk htag hcell hreading ?_
  rw [hreading]
  exact Cell.shownBy_tree cell

theorem Food.mem_of_mem_narrowTo {f : Food} {tags : Option (List Tag)} {m : Measurement}
    (hm : m ∈ (f.narrowTo tags).measurements) : m ∈ f.measurements := by
  cases tags with
  | none => exact hm
  | some tags => exact List.mem_of_mem_filter hm

theorem Food.shownBy_toJson (hrow : row ∈ rows) {f : Food} (h : row.Gives records f)
    (tags : Option (List Tag)) :
    (f.narrowTo tags).ShownBy rows records (f.narrowTo tags).toJson.tree := by
  have hid : row[1]? = some (some (f.narrowTo tags).id) := by
    rw [Food.id_narrowTo]
    exact h.id
  have hcode : Category.code? (f.narrowTo tags).category.toList =
      some (f.narrowTo tags).categoryCode := by
    cases tags <;> exact Category.code?_eq_some_iff.2 h.code
  rw [tree_toJson]
  refine .mk hrow hid hcode (List.forall₂_map_right_iff.2 (List.forall₂_same.2 fun m hm => ?_))
  exact Measurement.shownBy_toJson h (mem_of_mem_narrowTo hm)

/-- A food of the dataset with any of its nutrients is shown by its JSON. -/
theorem Food.shownBy_keepOnly (h : Dataset.ofTable rows records = .ok d) {f : Food}
    (hf : f ∈ d.foods) (tags : Option (List Tag)) :
    (f.keepOnly tags).ShownBy rows records (f.keepOnly tags).toJson.tree := by
  obtain ⟨row, hrow, hgives⟩ :=
    exists_of_forall₂ (Dataset.gives_of_ofTable h).flip (Array.mem_toList_iff.2 hf)
  rw [← narrowTo_eq_keepOnly]
  exact shownBy_toJson hrow hgives tags

/-- The foods on a page are foods of the dataset, narrowed. -/
theorem Query.exists_of_mem_page {f : Food} (hf : f ∈ (q.page d).foods) :
    ∃ g ∈ d.foods, g.narrowTo q.nutrients = f := by
  obtain ⟨g, hg, -, hgf⟩ := Query.mem_answer.1 (Query.mem_answer_of_mem_page hf)
  exact ⟨g, hg, hgf⟩

theorem Page.shownBy_toJson (h : Dataset.ofTable rows records = .ok d) (q : Query) :
    (q.page d).ShownBy rows records (q.page d).toJson.tree := by
  rw [tree_toJson]
  refine .mk (List.forall₂_map_right_iff.2 (List.forall₂_same.2 fun f hf => ?_))
  obtain ⟨g, hg, rfl⟩ := Query.exists_of_mem_page hf
  rw [Food.narrowTo_eq_keepOnly]
  exact Food.shownBy_keepOnly h hg q.nutrients

/-! ## Bodies -/

namespace Service

variable {s : Service} {pairs : List (String × String)}

theorem respond_getFoods_of_ok
    (hq : Query.ofParameters s.dataset.vocabulary (.ofPairs pairs) = .ok q) :
    s.respond (.getFoods pairs) = .json 200 (q.page s.dataset).toJson := by
  rw [respond_getFoods, get_foods, hq]

theorem says_body_iff (status : Nat) (body : Value) {t : Tree} :
    Says (Response.json status body).body.toList t ↔ t = body.tree :=
  Value.says_toText_iff

/-- The body of an answered request for foods says one tree, which shows the page asked for, and
requests with the same body ask for the same page. -/
theorem pageBody_lossless (h : Dataset.ofTable rows records = .ok s.dataset) :
    (∀ pairs q, Query.ofParameters s.dataset.vocabulary (.ofPairs pairs) = .ok q →
      (s.respond (.getFoods pairs)).status = 200 ∧
      ∃ t, (∀ t', Says (s.respond (.getFoods pairs)).body.toList t' ↔ t' = t) ∧
        (q.page s.dataset).ShownBy rows records t) ∧
    ∀ pairs pairs' q q', Query.ofParameters s.dataset.vocabulary (.ofPairs pairs) = .ok q →
      Query.ofParameters s.dataset.vocabulary (.ofPairs pairs') = .ok q' →
      (s.respond (.getFoods pairs)).body = (s.respond (.getFoods pairs')).body →
      q.page s.dataset = q'.page s.dataset := by
  constructor
  · intro pairs q hq
    rw [respond_getFoods_of_ok hq]
    exact ⟨rfl, _, fun t' => says_body_iff 200 _, Page.shownBy_toJson h q⟩
  · intro pairs pairs' q q' hq hq' hbody
    rw [respond_getFoods_of_ok hq, respond_getFoods_of_ok hq'] at hbody
    have htree : (q.page s.dataset).toJson.tree = (q'.page s.dataset).toJson.tree := by
      rw [← says_body_iff 200, ← hbody, says_body_iff]
    refine Page.leftUnique_shownBy (Dataset.holds_vocabulary h).columns.nodup
      (Page.shownBy_toJson h q) ?_
    rw [htree]
    exact Page.shownBy_toJson h q'

theorem pageBody_lossless_sample : ∃ (s : Service) (q : Query) (t : Tree),
    Dataset.ofTable Dataset.sampleRows Dataset.sampleRecords = .ok s.dataset ∧
    Says (s.respond (.getFoods [("limit", "1")])).body.toList t ∧
    (q.page s.dataset).ShownBy Dataset.sampleRows Dataset.sampleRecords t ∧
    (s.respond (.getFoods [("limit", "1")])).body ≠
      (s.respond (.getFoods [("limit", "2")])).body := by
  obtain ⟨d, hd⟩ := Dataset.exists_ofTable_sample
  have hq (v : Vocabulary) : Query.ofParameters v (.ofPairs [("limit", "1")]) =
      .ok { limit := 1 } := rfl
  have hq' (v : Vocabulary) : Query.ofParameters v (.ofPairs [("limit", "2")]) =
      .ok { limit := 2 } := rfl
  obtain ⟨hshown, hinjective⟩ := pageBody_lossless (s := ⟨d, {}, ""⟩) hd
  obtain ⟨-, t, htree, ht⟩ := hshown _ _ (hq _)
  refine ⟨⟨d, {}, ""⟩, _, t, hd, (htree t).2 rfl, ht, fun hbody => ?_⟩
  have hpage := hinjective _ _ _ _ (hq _) (hq' _) hbody
  exact absurd (congrArg Page.limit hpage) (by decide : (1 : Nat) ≠ 2)

end Service

end FoodTable
