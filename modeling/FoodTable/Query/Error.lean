/-!
# Refused queries

Why parameters do not make a query. Each cause carries the text at fault.
-/

namespace FoodTable

inductive QueryError where
  | invalidCategory (token : String)
  | unknownNutrient (token : String)
  | invalidCondition (token : String)
  | unknownConditionTag (condition tag : String)
  | invalidOrder (token : String)
  | invalidLimit (text : String)
  | invalidOffset (text : String)
  | invalidFoodId (text : String)
  deriving DecidableEq, Repr

def QueryError.message : QueryError → String
  | invalidCategory token =>
    "Invalid category '" ++ token ++ "': expected integers between 1 and 18"
  | unknownNutrient token => "Unknown nutrient tag '" ++ token ++ "'"
  | invalidCondition token =>
    "Invalid where condition '" ++ token ++ "': expected TAG<number or TAG>number"
  | unknownConditionTag condition tag =>
    "Unknown nutrient tag '" ++ tag ++ "' in where condition '" ++ condition ++ "'"
  | invalidOrder token => "Invalid order '" ++ token ++ "': expected TAG or -TAG"
  | invalidLimit text => "Invalid limit '" ++ text ++ "': expected an integer"
  | invalidOffset text => "Invalid offset '" ++ text ++ "': expected a non-negative integer"
  | invalidFoodId text => "Invalid food id '" ++ text ++ "': expected 5 digits"

end FoodTable
