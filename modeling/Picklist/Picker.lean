import Picklist.Keys
import Picklist.Menu
import Picklist.Publication

/-!
# Picking from a configuration

A picker reads configuration sections by key, and offers every operation on them. The same
operations take a value or ready entries instead of a key.
-/

namespace Picklist

/-- A configuration, the language of its readers, and the mapping that requests start from. -/
structure Picker where
  source : String → Option Value
  localizer : Localizer
  mapping : Mapping

/-- Where the entries come from. -/
inductive Data where
  /-- The section under a configuration key. -/
  | key (k : String)
  /-- The entries of a value. -/
  | value (v : Value)
  /-- Ready entries. -/
  | entries (es : Entries)

namespace Picker

/-- A request with the mapping of the picker and nothing else. -/
def request (picker : Picker) : Request := .ofMapping picker.mapping

/-- The section under a key, which must be there. -/
def resolve (picker : Picker) (key : String) : Except SelectionError Value :=
  match picker.source key with
  | some v => .ok v
  | none => .error (.unresolvedConfig key)

/-- The entries of data. -/
def entries (picker : Picker) : Data → Except SelectionError Entries
  | .key k => (picker.resolve k).map Entries.ofValue
  | .value v => .ok (Entries.ofValue v)
  | .entries es => .ok es

/-- Data as one structure. -/
def structureOf (picker : Picker) : Data → Except SelectionError Value
  | .key k => picker.resolve k
  | .value v => .ok v
  | .entries es => .ok es.toValue

/-- The menu of data. -/
def menu (picker : Picker) (data : Data) (request : Request) : Except SelectionError Menu := do
  Menu.build request picker.localizer (← picker.entries data)

/-- The keys of the entries that meet a condition. -/
def keys (picker : Picker) (data : Data) (condition : Condition) :
    Except SelectionError (List String) := do
  return (← picker.entries data).keys condition

/-- The matching key: the only one in strict mode, otherwise the first if there is any. -/
def key (picker : Picker) (data : Data) (condition : Condition) (strict : Bool) :
    Except SelectionError (Option String) := do
  (← picker.entries data).key condition strict

/-- The first matching key, which must be there. -/
def firstKey (picker : Picker) (data : Data) (condition : Condition) :
    Except SelectionError String := do
  (← picker.entries data).firstKey condition

/-- Any matching key, which must be there: `pick` is asked for a position. -/
def anyKey (picker : Picker) (data : Data) (condition : Condition) (pick : Nat → Nat) :
    Except SelectionError String := do
  (← picker.entries data).anyKey condition pick

/-- The path below a section through a matched key, on to a part unless that is empty. -/
def pathTo (sectionKey matched : String) (part : Option String) : String :=
  let entry := sectionKey ++ "." ++ matched
  match part.filter (· ≠ "") with
  | some rest => entry ++ "." ++ rest
  | none => entry

/-- The value under the matching key of a section, or a part of that value. -/
def value (picker : Picker) (sectionKey : String) (condition : Condition) (part : Option String)
    (strict : Bool) : Except SelectionError (Option Value) := do
  match ← picker.key (.key sectionKey) condition strict with
  | some matched => return picker.source (pathTo sectionKey matched part)
  | none => return none

/-- The published form of data. -/
def publish (picker : Picker) (data : Data) (publication : Publication) (condition : Condition) :
    Except SelectionError Value := do
  return publication.publish picker.localizer condition (← picker.structureOf data)

end Picker

end Picklist
