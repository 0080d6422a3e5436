import Picklist.Yaml.Token

/-!
# Nodes of YAML

A document is a tree of nodes: scalars, sequences, mappings, and aliases that stand for a node with
an anchor. The tree is read off the tokens. Where a node is left out, an empty plain scalar stands.

* `Node`: the tree.
* `document?`: the root of the only document of a text.
-/

namespace Picklist.Yaml

open Reader

/-! ## 1. The tree -/

/-- What may stand in front of a node. -/
structure Properties where
  anchor : Option String
  tag : Option TagText
deriving DecidableEq

/-- A node, aliases by the name of an anchor. -/
inductive Node where
  | alias (name : String)
  | scalar (properties : Properties) (text : String) (plain : Bool)
  | sequence (properties : Properties) (items : List Node)
  | mapping (properties : Properties) (members : List (Node × Node))
deriving Inhabited

namespace Node

/-- No anchor and no tag. -/
def bare : Properties := ⟨none, none⟩

/-- The node that stands where none is written. -/
def empty : Node := .scalar bare "" true

/-! ## 2. Reading -/

/-- What may stand at a place: block collections or not, and there also items that are not indented
    further than the key they belong to. -/
inductive Position where
  | flow
  | block
  | underKey
deriving DecidableEq

/-- An anchor, if one is next. -/
def anchor? : Reader Token (Option String) := do
  match ← peek with
  | some (.anchor name) => let _ ← next; return some name
  | _ => return none

/-- A tag, if one is next; its handle must be known. -/
def tag? (handles : Handles) : Reader Token (Option TagText) := do
  match ← peek with
  | some (.tag name) => let _ ← next; some <$> require (name.text? handles)
  | _ => return none

/-- An anchor and a tag in either order. -/
def properties (handles : Handles) : Reader Token Properties := do
  match ← anchor? with
  | some name => return ⟨some name, ← tag? handles⟩
  | none =>
    let tag ← tag? handles
    let anchor ← if tag.isSome then anchor? else pure none
    return ⟨anchor, tag⟩

/-- A node, or the empty one where one of the given tokens is next. -/
def orEmpty (ends : List Token) (node : Reader Token Node) : Reader Token Node := do
  if (← peek).any ends.contains then return empty else node

/-- The value of a member after its key. -/
def valueOf (ends : List Token) (node : Reader Token Node) : Reader Token Node := do
  if ← accept .value then orEmpty ends node else return empty

/-- The items of a block sequence. -/
def blockItems (node : Position → Reader Token Node) : Reader Token (List Node) := do
  let items ← collect do
    if ← accept .item then
      return (some (← orEmpty [.item, .blockClose] (node .block)), true)
    expect .blockClose
    return (none, false)
  return items.filterMap id

/-- The items of a sequence that is not indented further than its key. -/
def itemsUnderKey (node : Position → Reader Token Node) : Reader Token (List Node) := do
  let items ← collect do
    if ← accept .item then
      return (some (← orEmpty [.item, .key, .value, .blockClose] (node .block)), true)
    return (none, false)
  return items.filterMap id

/-- The members of a block mapping. -/
def blockMembers (node : Position → Reader Token Node) : Reader Token (List (Node × Node)) := do
  let ends : List Token := [.key, .value, .blockClose]
  let members ← collect do
    if ← accept .key then
      let key ← orEmpty ends (node .underKey)
      return (some (key, ← valueOf ends (node .underKey)), true)
    expect .blockClose
    return (none, false)
  return members.filterMap id

/-- What stands between brackets: parts with commas between them, and perhaps one at the end. -/
def flowParts {α : Type} (kind : Kind) (part : Reader Token α) : Reader Token (List α) := do
  if ← accept (.flowClose kind) then return []
  collect do
    let found ← part
    if ← accept .comma then return (found, !(← accept (.flowClose kind)))
    expect (.flowClose kind)
    return (found, false)

/-- A key inside brackets of a sequence. Where it is left out, the token in its place goes too. -/
def keyInSequence (node : Reader Token Node) : Reader Token Node := do
  match ← peek with
  | some .value => let _ ← next; return empty
  | some .comma => let _ ← next; return empty
  | some (.flowClose .sequence) => let _ ← next; return empty
  | _ => node

/-- An item between brackets: a node, or a key with its value as a mapping of its own. -/
def flowItem (node : Reader Token Node) : Reader Token Node := do
  if ← accept .key then
    let key ← keyInSequence node
    return .mapping bare [(key, ← valueOf [.comma, .flowClose .sequence] node)]
  node

/-- A member between braces; a key that is not marked as one has no value. -/
def flowMember (node : Reader Token Node) : Reader Token (Node × Node) := do
  if ← accept .key then
    let key ← orEmpty [.value, .comma, .flowClose .mapping] node
    return (key, ← valueOf [.comma, .flowClose .mapping] node)
  return (← node, empty)

/-- What comes after the properties of a node. -/
def content (node : Position → Reader Token Node) (position : Position) (p : Properties) :
    Reader Token Node := do
  match ← peek with
  | some .item =>
    if position = .underKey then return .sequence p (← itemsUnderKey node)
    if p = bare then refuse else return .scalar p "" true
  | some (.scalar text plain) => let _ ← next; return .scalar p text plain
  | some (.flowOpen .sequence) =>
    let _ ← next
    return .sequence p (← flowParts .sequence (flowItem (node .flow)))
  | some (.flowOpen .mapping) =>
    let _ ← next
    return .mapping p (← flowParts .mapping (flowMember (node .flow)))
  | some (.blockOpen kind) =>
    if position = .flow then if p = bare then refuse else return .scalar p "" true
    let _ ← next
    match kind with
    | .sequence => return .sequence p (← blockItems node)
    | .mapping => return .mapping p (← blockMembers node)
  | _ => if p = bare then refuse else return .scalar p "" true

/-- A node at a position. The bound is on the depth of the tree. -/
def read (handles : Handles) : Nat → Position → Reader Token Node
  | 0, _ => refuse
  | bound + 1, position => do
    match ← peek with
    | some (.alias name) => let _ ← next; return .alias name
    | _ => content (read handles bound) position (← properties handles)

/-! ## 3. Documents -/

/-- The directives in front of a document. -/
def directives : Reader Token (List Directive) := do
  let found ← collect do
    match ← peek with
    | some (.directive d) => let _ ← next; return (some d, true)
    | _ => return (none, false)
  return found.filterMap id

/-- Whether a token ends a document that has no content. -/
def endsDocument : Token → Bool
  | .directive _ => true
  | .documentStart => true
  | .documentEnd => true
  | _ => false

/-- The root of a document after its start marker. -/
def root (handles : Handles) : Reader Token Node := fun input =>
  (do if (← peek).all endsDocument then return empty
      read handles (input.length + 1) .block : Reader Token Node) input

/-- A document, with a start marker if it has directives. -/
def document : Reader Token Node := do
  match ← peek with
  | none => return empty
  | some (.directive _) => marked
  | some .documentStart => marked
  | some _ => fun input => read .standard (input.length + 1) .block input
where
  /-- A document with a start marker. -/
  marked : Reader Token Node := do
    let handles ← require (Handles.ofDirectives? (← directives))
    expect .documentStart
    root handles

/-- The root of the only document of a text; end markers may follow it. -/
def document? (tokens : List Token) : Option Node :=
  (do let node ← document
      let _ ← takeWhile (· == .documentEnd)
      return node : Reader Token Node).run? tokens

end Node

end Picklist.Yaml
