/-!
# Why a selection fails

Each error is a defect of the configuration or of the question; `message` is its wording.
-/

namespace Picklist

/-- Why a selection fails. -/
inductive SelectionError where
  /-- A field that must be there is not. -/
  | missingField (path : String)
  /-- A key that must be the only one is not. -/
  | notSingleton (count : Nat)
  /-- No key is left to choose from. -/
  | emptySet
  /-- The source has nothing under the key. -/
  | unresolvedConfig (key : String)
  /-- A bare truth value was given as a condition. -/
  | invalidCondition
deriving DecidableEq

/-- The wording of an error. -/
def SelectionError.message : SelectionError → String
  | missingField path => "required field '" ++ path ++ "' is missing"
  | notSingleton count => "required key must be single, found " ++ toString count
  | emptySet => "no keys matched the condition"
  | unresolvedConfig key => "config key '" ++ key ++ "' could not be resolved"
  | invalidCondition => "invalid condition: a bare boolean is not a condition"

end Picklist
