import FoodTable.Proofs.Json.Writer
import FoodTable.Proofs.Text.Pieces
import FoodTable.Service.Basic

/-!
# Requests and JSON answers

The requests that the service answers from its dataset, and the form of an answer in JSON
(`Response.IsJson`): a status, the type of JSON, and a body that says one tree and nothing else.
-/

namespace FoodTable

open Json

variable {s : Service} {segment : List Char} {id : String}

/-! ## Requests -/

namespace Request

def getFoods (pairs : List (String × String)) : Request := ⟨"GET", "/v1/foods".toList, pairs⟩

/-- The segment is the id as it stands in the path. -/
def getFood (segment : List Char) (pairs : List (String × String)) : Request :=
  ⟨"GET", "/v1/foods/".toList ++ segment, pairs⟩

def getNutrients (pairs : List (String × String)) : Request :=
  ⟨"GET", "/v1/nutrients".toList, pairs⟩

end Request

namespace Service

theorem respond_getFoods (s : Service) (pairs : List (String × String)) :
    s.respond (.getFoods pairs) = s.get pairs .foods := rfl

theorem respond_getNutrients (s : Service) (pairs : List (String × String)) :
    s.respond (.getNutrients pairs) = s.get pairs .nutrients := rfl

theorem ofPath?_food (hne : segment ≠ []) (hslash : '/' ∉ segment) :
    Route.ofPath? ("/v1/foods/".toList ++ segment) = some (.food (String.ofList segment)) := by
  have hpieces : Text.pieces '/' ("/v1/foods/".toList ++ segment) =
      [[], ['v', '1'], ['f', 'o', 'o', 'd', 's'], segment] := by
    rw [Text.pieces_eq_iff]
    refine ⟨by simp, ?_, ?_⟩
    · simp [List.intercalate, List.intersperse]
    · simp [hslash]
  have hempty : (String.ofList segment).isEmpty = false := by
    simpa [String.isEmpty_iff] using hne
  unfold Route.ofPath?
  rw [hpieces]
  show (if (String.ofList segment).isEmpty then none
    else some (Route.food (String.ofList segment))) = _
  rw [hempty]
  rfl

theorem respond_getFood (s : Service) (hne : segment ≠ []) (hslash : '/' ∉ segment)
    (pairs : List (String × String)) :
    s.respond (.getFood segment pairs) = s.get pairs (.food (String.ofList segment)) := by
  unfold respond Request.getFood
  rw [ofPath?_food hne hslash]
  rfl

theorem get_foods (s : Service) (pairs : List (String × String)) : s.get pairs .foods =
    match Query.ofParameters s.dataset.vocabulary (.ofPairs pairs) with
    | .ok q => .json 200 (q.page s.dataset).toJson
    | .error e => (Refusal.query e).response := by
  unfold get body foods
  cases Query.ofParameters s.dataset.vocabulary (.ofPairs pairs) <;> rfl

theorem get_food (s : Service) (hid : Url.segment? segment = some id)
    (pairs : List (String × String)) : s.get pairs (.food (String.ofList segment)) =
      match FoodQuery.ofParameters s.dataset.vocabulary id (.ofPairs pairs) with
      | .ok q => (q.food? s.dataset).elim (Refusal.unknownFood id).response
          fun f => .json 200 f.toJson
      | .error e => (Refusal.query e).response := by
  unfold get body food
  dsimp only
  rw [String.toList_ofList, hid]
  dsimp only
  cases FoodQuery.ofParameters s.dataset.vocabulary id (.ofPairs pairs) with
  | error e => rfl
  | ok q =>
    dsimp only [Except.mapError, bind, Except.bind]
    cases q.food? s.dataset <;> rfl

end Service

/-! ## Answers in JSON -/

namespace Response

/-- The response has the status and the type of JSON. Its body is the text of the value, which says
the tree and nothing else. -/
inductive IsJson (status : Nat) (value : Value) (t : Tree) : Response → Prop
  | mk (hbody : ∀ t', Says value.toText.toList t' ↔ t' = t) :
      IsJson status value t ⟨status, some "application/json", none, value.toText⟩

/-- The response has the status, and its body is a record of the message and nothing else. -/
def IsRefusal (status : Nat) (message : String) : Response → Prop :=
  IsJson status (.record [("error", .text message)])
    (.record [(some "error", .text (some message))])

variable {status : Nat} {value : Value} {t : Tree} {message : String} {response : Response}

theorem isJson_iff :
    response.IsJson status value t ↔ response = .json status value ∧ t = value.tree := by
  constructor
  · rintro ⟨hbody⟩
    exact ⟨rfl, ((hbody _).1 (Value.says_toText_iff.2 rfl)).symm⟩
  · rintro ⟨rfl, rfl⟩
    exact .mk fun _ => Value.says_toText_iff

theorem isRefusal_iff :
    response.IsRefusal status message ↔ response = .json status (refusalBody message) := by
  unfold IsRefusal
  rw [isJson_iff]
  exact and_iff_left rfl

end Response

end FoodTable
