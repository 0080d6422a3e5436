import Picklist.Json.Text

/-!
# Entries

An entry is one element of a configuration structure, classified once: a scalar, a record with
fields, or a record that names the field which identifies it.

* `Entry.ofValue`: arrays become records whose fields are named by position.
* `Entries.ofValue`: the keyed entries of a structure.
-/

namespace Picklist

/-- The items of an array under the names of their positions. -/
def Value.numbered (items : List Value) : Value.Fields :=
  items.zipIdx.map fun (item, index) => (toString index, item)

/-- One element of a configuration structure. -/
inductive Entry where
  | scalar (v : Value)
  | record (fields : Value.Fields)
  | identified (keyName : String) (fields : Value.Fields)
deriving Inhabited

namespace Entry

/-- Classify a value. -/
def ofValue : Value → Entry
  | .object members => .record members
  | .array items => .record (Value.numbered items)
  | v => .scalar v

/-- The fields of an entry; a scalar has none. -/
def fields? : Entry → Option Value.Fields
  | .scalar _ => none
  | .record fields => some fields
  | .identified _ fields => some fields

/-- The entry as a plain value. -/
def toValue : Entry → Value
  | .scalar v => v
  | .record fields => .object fields
  | .identified _ fields => .object fields

/-- Whether the entry is a scalar. -/
def isScalar : Entry → Bool
  | .scalar _ => true
  | _ => false

end Entry

/-- Keyed entries in order; keys may repeat. -/
abbrev Entries := List (String × Entry)

namespace Entries

/-- The entries of a structure; a scalar has none. -/
def ofValue : Value → Entries
  | .object members => members.map fun (key, item) => (key, Entry.ofValue item)
  | .array items => (Value.numbered items).map fun (key, item) => (key, Entry.ofValue item)
  | _ => []

/-- Put an entry at the end. -/
def push (entries : Entries) (key : String) (entry : Entry) : Entries := entries ++ [(key, entry)]

/-- The entries as one object: the first place and the last value of each key. -/
def toValue (entries : Entries) : Value :=
  .object (Members.ofPairs (entries.map fun (key, entry) => (key, entry.toValue)))

end Entries

/-- The text of a value in titles, labels and attributes: a text as it is, nothing for `null`,
    compact JSON for containers. -/
def Value.plainText : Value → String
  | .string s => s
  | .null => ""
  | .number n => n.text
  | .bool b => if b then "true" else "false"
  | v => Json.compact v

end Picklist
