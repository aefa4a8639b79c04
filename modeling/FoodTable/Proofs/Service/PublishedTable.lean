import FoodTable.Proofs.Dataset.FileSpelling
import FoodTable.Proofs.Dataset.Loading
import FoodTable.Proofs.Service.Requests

/-!
# The published metadata table

What the service answers about its nutrients is a metadata file: it is read as the table that the
dataset was made of, and with the same rows it makes the same dataset.
-/

namespace FoodTable

open Json Text

variable {s : Service} {rows : List Row} {records : List TagRecord}

/-- A tag record is written under the other name of the tag, with all its parts. -/
theorem TagRecord.writtenAs_toJson (r : TagRecord) : r.WrittenAs r.toJson.tree :=
  .record (by simp [Value.fieldTrees]) rfl (.inl rfl) (.inl rfl)

/-- The text of a list says the trees of its items. -/
theorem says_write_list {α : Type} (toJson : α → Value) (as : List α) :
    Says (Value.list (as.map toJson)).write (.list (as.map fun a => (toJson a).tree)) := by
  rw [Value.says_write_iff, Value.tree, Value.itemTrees_eq_map, List.map_map]
  rfl

/-- The records of a vocabulary are read back from its text. -/
theorem readTagRecords_toJson (v : Vocabulary) :
    readTagRecords (toUtf8 v.toJson.write) = .ok v.records.toList := by
  refine readTagRecords_of_written (says_write_list TagRecord.toJson v.records.toList) ?_
  exact List.forall₂_map_right_iff.2 (List.forall₂_same.2 fun r _ => r.writtenAs_toJson)

/-- The record of a row. -/
def Row.toJson (row : Row) : Value := .record [("data", .list (row.map (.orNull .text)))]

theorem Row.writtenAs_toJson (row : Row) : row.WrittenAs row.toJson.tree := by
  have hcells : (Value.list (row.map (.orNull .text))).tree = row.tree := by
    show Tree.list (Value.itemTrees _) = _
    rw [Value.itemTrees_eq_map, List.map_map]
    refine congrArg Tree.list (List.map_congr_left fun cell _ => ?_)
    cases cell <;> rfl
  refine .record (by simp [Value.fieldTrees]) ?_
  rw [← hcells]
  rfl

/-- Every list of rows can be written in a foods file. -/
theorem exists_foods_file (rows : List Row) :
    ∃ foods : File, foods.read .foods readRows = .ok rows := by
  have hrows : List.Forall₂ Row.WrittenAs rows (rows.map (·.toJson.tree)) :=
    List.forall₂_map_right_iff.2 (List.forall₂_same.2 fun row _ => row.writtenAs_toJson)
  exact ⟨_, File.read_content (readRows_of_written (says_write_list Row.toJson rows) hrows)⟩

namespace Service

/-- The answer about the nutrients is a metadata file that holds the table of the dataset. Loaded
with any foods file of the same rows, it makes the dataset that the service has. -/
theorem nutrients_loadable (h : Dataset.ofTable rows records = .ok s.dataset)
    (pairs : List (String × String)) :
    ∃ body, s.respond (.getNutrients pairs) = ⟨200, some "application/json", none, body⟩ ∧
      (File.content (toUtf8 body.toList)).read .metadata readTagRecords = .ok records ∧
      ∀ foods : File, foods.read .foods readRows = .ok rows →
        Dataset.load foods (.content (toUtf8 body.toList)) = .ok s.dataset := by
  refine ⟨s.dataset.vocabulary.toJson.toText, respond_getNutrients s pairs, ?_⟩
  have hread : (File.content (toUtf8 s.dataset.vocabulary.toJson.toText.toList)).read .metadata
      readTagRecords = .ok records := by
    refine File.read_content ?_
    unfold Value.toText
    rw [String.toList_ofList, readTagRecords_toJson, (Dataset.holds_vocabulary h).records]
  refine ⟨hread, fun foods hfoods => ?_⟩
  unfold Dataset.load
  rw [hread, hfoods]
  show (Dataset.ofTable rows records).mapError _ = _
  rw [h]
  rfl

theorem nutrients_loadable_sample : ∃ (s : Service) (body : String) (foods : File),
    Dataset.ofTable Dataset.sampleRows Dataset.sampleRecords = .ok s.dataset ∧
    s.respond (.getNutrients []) = ⟨200, some "application/json", none, body⟩ ∧
    (File.content (toUtf8 body.toList)).read .metadata readTagRecords =
      .ok Dataset.sampleRecords ∧
    Dataset.load foods (.content (toUtf8 body.toList)) = .ok s.dataset := by
  obtain ⟨d, hd⟩ := Dataset.exists_ofTable_sample
  obtain ⟨foods, hfoods⟩ := exists_foods_file Dataset.sampleRows
  obtain ⟨body, hbody, hread, hload⟩ := nutrients_loadable (s := ⟨d, {}, ""⟩) hd []
  exact ⟨⟨d, {}, ""⟩, body, foods, hd, hbody, hread, hload foods hfoods⟩

end Service

end FoodTable
