import Picklist.Value

/-!
# Records

A record is written by name, as an object that may leave fields out and may hold others, or by
position, as an array that may stop early. Formats differ in two points, which `RecordForm` holds.

* `RecordForm.fields?`: what a value writes for each field of a record.
* `RecordForm.text?`: an optional text field.
-/

namespace Picklist

/-- How a format writes records: whether `null` stands for a text that is not there, and whether
    an array may go on after the last field. -/
structure RecordForm where
  nullIsMissing : Bool
  surplusAllowed : Bool

namespace RecordForm

/-- Records in JSON. -/
def json : RecordForm := ⟨true, false⟩

/-- Records in TOML. -/
def toml : RecordForm := ⟨false, true⟩

/-- What a value writes for each of the named fields, if it is a record. -/
def fields? (form : RecordForm) (names : List String) : Value → Option (List (Option Value))
  | .object members => some (names.map fun name => members.lookup name)
  | .array items =>
    if items.length ≤ names.length || form.surplusAllowed then
      some (names.zipIdx.map fun (_, index) => items[index]?)
    else none
  | _ => none

/-- A text that may be missing. -/
def text? (form : RecordForm) : Option Value → Option (Option String)
  | none => some none
  | some (.string s) => some (some s)
  | some .null => if form.nullIsMissing then some none else none
  | some _ => none

end RecordForm

end Picklist
