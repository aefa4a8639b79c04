import FoodTable.Query.Grammar
import FoodTable.Service.Body
import FoodTable.Service.Target

/-!
# The service

Requests over a dataset. `GET` and `HEAD` are answered at four places:

* `/v1/foods`: the page of foods that the query of the target asks for;
* `/v1/foods/` and a food id: one food;
* `/v1/nutrients`: the metadata table;
* `/v1/health`: the state of the service.
-/

namespace FoodTable

open Json

structure Request where
  method : String
  target : Target

structure Response where
  status : Nat
  contentType : Option String
  allow : Option String
  body : String
  deriving DecidableEq, Repr

namespace Response

/-- A status and nothing else. -/
def bare (status : Nat) : Response := ⟨status, none, none, ""⟩

def json (status : Nat) (body : Value) : Response :=
  ⟨status, some "application/json", none, body.toText⟩

def plain (status : Nat) (body : String) : Response :=
  ⟨status, some "text/plain; charset=utf-8", none, body⟩

end Response

/-- Where requests are answered. -/
inductive Route where
  | foods
  /-- The segment that gives the id is not yet decoded. -/
  | food (segment : String)
  | nutrients
  | health
  deriving DecidableEq, Repr

/-- The route of a path, compared letter by letter. -/
def Route.ofPath? (path : List Char) : Option Route :=
  match (Text.pieces '/' path).map String.ofList with
  | ["", "v1", "foods"] => some foods
  | ["", "v1", "foods", segment] => if segment.isEmpty then none else some (food segment)
  | ["", "v1", "nutrients"] => some nutrients
  | ["", "v1", "health"] => some health
  | _ => none

/-- Why a request to a route is refused. -/
inductive Refusal where
  | query (error : QueryError)
  | unknownFood (id : String)
  | undecodableId
  deriving DecidableEq, Repr

def Refusal.response : Refusal → Response
  | query error => .json 400 (refusalBody error.message)
  | unknownFood id => .json 404 (refusalBody ("Food '" ++ id ++ "' not found"))
  | undecodableId => .plain 400 "Invalid URL: Invalid UTF-8 in `food_id`"

structure Service where
  dataset : Dataset
  build : Build
  /-- When the dataset was loaded. -/
  loadedAt : String

namespace Service

/-- The page that the pairs of a query ask for. -/
def foods (s : Service) (pairs : List (String × String)) : Except Refusal Page := do
  let q ← (Query.ofParameters s.dataset.vocabulary (.ofPairs pairs)).mapError .query
  return q.page s.dataset

/-- The food of an id, with the nutrients that the pairs of a query ask for. -/
def food (s : Service) (id : String) (pairs : List (String × String)) : Except Refusal Food := do
  let q ← (FoodQuery.ofParameters s.dataset.vocabulary id (.ofPairs pairs)).mapError .query
  match q.food? s.dataset with
  | some f => return f
  | none => throw (.unknownFood id)

/-- The state of the service. -/
def health (s : Service) : Value :=
  .record [
    ("status", .text "ok"),
    ("name", .text Build.name),
    ("version", .text Build.version),
    ("buildNumber", .natural s.build.number),
    ("buildTimestamp", .text s.build.timestamp),
    ("foodCount", .natural s.dataset.size),
    ("tagCount", .natural s.dataset.vocabulary.size),
    ("loadedAt", .text s.loadedAt)]

/-- The body that a route answers with. -/
def body (s : Service) (pairs : List (String × String)) : Route → Except Refusal Value
  | .foods => (s.foods pairs).map (·.toJson)
  | .food segment => do
    let some id := Url.segment? segment.toList | throw .undecodableId
    (s.food id pairs).map (·.toJson)
  | .nutrients => .ok s.dataset.vocabulary.toJson
  | .health => .ok s.health

/-- The response of a route. -/
def get (s : Service) (pairs : List (String × String)) (route : Route) : Response :=
  match s.body pairs route with
  | .ok body => .json 200 body
  | .error refusal => refusal.response

/-- The response to a request. Methods are told apart by case. -/
def respond (s : Service) (r : Request) : Response :=
  match Route.ofPath? r.target.path with
  | none => .bare 404
  | some route =>
    if r.method = "GET" then s.get r.target.pairs route
    else if r.method = "HEAD" then { s.get r.target.pairs route with body := "" }
    else { Response.bare 405 with allow := some "GET,HEAD" }

end Service

end FoodTable
