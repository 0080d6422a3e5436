import Picklist.Catalog
import Picklist.Condition
import Picklist.Mapping

/-!
# From entries to choices

A choice is what a menu offers: a value, a title, attributes, and the label of its group. An entry
becomes a row when the request includes it: a selected value always counts; any other must meet the
condition, and must not be marked as no longer actual.

* `Request.includes`: whether an entry counts.
* `Request.row?`: the row of an entry, none where it does not count, or why there can be none.
* `Request.rows`: the rows of the entries put in front, then those of the data.
-/

namespace Picklist

/-- One choice of a menu. -/
structure Choice where
  value : ChoiceValue
  title : String
  attributes : Members String
  optgroup : Option String
deriving DecidableEq, Inhabited

/-- A choice and the label of the group that it goes to. -/
structure Row where
  group : Option String
  choice : Choice
deriving DecidableEq

/-- What a menu is asked to hold: values that are marked and always there, a condition on the
    others, entries put in front of the data, and the roles of the fields. -/
structure Request where
  selected : List String
  condition : Condition
  prepends : Entries
  mapping : Mapping

namespace Entry

/-! ## 1. What an entry says -/

/-- The value under an enabled role that is neither missing nor `null`. -/
def role? (entry : Entry) (path : Option String) : Option Value := path.bind entry.present?

/-- The value that an entry submits: its value field where that role is enabled, else the field
    that identifies it, else its key. -/
def choiceValue (entry : Entry) (key : String) (mapping : Mapping) :
    Except SelectionError ChoiceValue :=
  match mapping.valuePath? with
  | some path => (entry.require path).map .ofValue
  | none =>
    match entry with
    | .identified keyName fields =>
      match fields.lookup keyName with
      | some v => .ok (.ofValue v)
      | none => .error (.missingField keyName)
    | _ => .ok (.ofKey key)

/-- Whether the mark of the entry is there and is false. -/
def isStale (entry : Entry) (mapping : Mapping) : Bool :=
  (entry.role? mapping.isActualPath?).any fun actual => !actual.isTruthy

/-- The title: a scalar is its own, a record must have a title field. -/
def title (entry : Entry) (mapping : Mapping) : Except SelectionError String :=
  match entry with
  | .scalar v => .ok v.plainText
  | _ =>
    match mapping.titlePath? with
    | some path => (entry.require path).map Value.plainText
    | none => .error (.missingField "")

/-- The members of an object as texts, those that are `null` left out; no other value has any. -/
def attributesOf : Value → Members String
  | .object members =>
    (members.filter fun (_, v) => !v.isNull).map fun (name, v) => (name, v.plainText)
  | _ => []

/-- The attributes of the entry. -/
def attributes (entry : Entry) (mapping : Mapping) : Members String :=
  (entry.role? mapping.attributesPath?).elim [] attributesOf

/-- The label of the group, if it is true in the loose sense. -/
def group? (entry : Entry) (mapping : Mapping) : Option String :=
  ((entry.role? mapping.optgroupPath?).filter Value.isTruthy).map Value.plainText

end Entry

namespace Request

/-! ## 2. What a request includes -/

/-- Nothing selected, no condition, nothing in front. -/
def ofMapping (mapping : Mapping) : Request := ⟨[], .always, [], mapping⟩

/-- The request that the entries in front are under: the same selection, no condition, and no role
    but the title. -/
def front (request : Request) : Request :=
  { request with condition := .always, mapping := .bare }

/-- Whether an entry with the given value counts. -/
def includes (request : Request) (entry : Entry) (value : ChoiceValue) : Bool :=
  request.selected.contains value.display ||
    (request.condition.passes entry value.toValue && !entry.isStale request.mapping)

/-- The row of an entry that counts. -/
def row (request : Request) (localizer : Localizer) (entry : Entry) (value : ChoiceValue) :
    Except SelectionError Row := do
  let title ← entry.title request.mapping
  let group := (entry.group? request.mapping).map localizer
  return ⟨group, ⟨value, localizer title, entry.attributes request.mapping, group⟩⟩

/-- The row of a keyed entry, none if it does not count. -/
def row? (request : Request) (localizer : Localizer) (key : String) (entry : Entry) :
    Except SelectionError (Option Row) := do
  let value ← entry.choiceValue key request.mapping
  if request.includes entry value then return some (← request.row localizer entry value)
  else return none

/-- The rows of entries in their order; the first entry that fails decides the error. -/
def rowsOf (request : Request) (localizer : Localizer) : Entries → Except SelectionError (List Row)
  | [] => .ok []
  | (key, entry) :: rest => do
    let first ← request.row? localizer key entry
    let more ← rowsOf request localizer rest
    return first.toList ++ more

/-- The rows of the entries in front, then those of the data. -/
def rows (request : Request) (localizer : Localizer) (data : Entries) :
    Except SelectionError (List Row) := do
  let before ← request.front.rowsOf localizer request.prepends
  let after ← request.rowsOf localizer data
  return before ++ after

end Request

end Picklist
