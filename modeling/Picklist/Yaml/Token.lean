import Picklist.Yaml.Property

/-!
# Tokens of YAML

A text is a list of tokens. Brackets and punctuation stand for themselves; where a block collection
begins and ends follows from the indentation, and is marked by tokens of its own.
-/

namespace Picklist.Yaml

/-- The two kinds of collections. -/
inductive Kind where
  | sequence
  | mapping
deriving DecidableEq

/-- A token. -/
inductive Token where
  /-- A directive in front of a document. -/
  | directive (d : Directive)
  /-- The marker of a document's start. -/
  | documentStart
  /-- The marker of a document's end. -/
  | documentEnd
  /-- The begin of a collection that indentation holds together. -/
  | blockOpen (kind : Kind)
  /-- The end of such a collection. -/
  | blockClose
  /-- An opening bracket. -/
  | flowOpen (kind : Kind)
  /-- A closing bracket. -/
  | flowClose (kind : Kind)
  /-- The mark of an item of a block sequence. -/
  | item
  /-- A comma. -/
  | comma
  /-- A key follows, with or without a mark of its own. -/
  | key
  /-- The colon before a value. -/
  | value
  /-- The name of a node that is used again. -/
  | alias (name : String)
  /-- The name of the node that follows. -/
  | anchor (name : String)
  /-- The tag of the node that follows. -/
  | tag (name : TagName)
  /-- A scalar, and whether it is written plainly. -/
  | scalar (text : String) (plain : Bool)
deriving DecidableEq

end Picklist.Yaml
