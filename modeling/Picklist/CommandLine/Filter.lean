import Picklist.Condition
import Picklist.Json.Reading

/-!
# Conditions on the command line

A clause is written as a field, an equals sign and what is expected: a JSON value, or a text that
is none. All clauses have to hold.
-/

namespace Picklist.CommandLine

/-- The value that a text writes: the JSON value, or the text itself where it is no JSON. -/
def expectedOf (text : String) : Value := (Json.read? text).getD (.string text)

/-- A clause as its field and the expected value, split at the first equals sign. -/
def clause? (text : String) : Option (String × Value) :=
  (Text.splitFirst? '=' text.toList).map fun (field, expected) =>
    (String.ofList field, expectedOf (String.ofList expected))

/-- The condition of clauses, or the first clause that has no equals sign. -/
def condition (clauses : List String) : Except String Condition :=
  clauses.foldlM (fun condition text =>
    match clause? text with
    | some (field, expected) => .ok (condition.with field expected)
    | none => .error text) .always

end Picklist.CommandLine
