import Picklist.Yaml.Node

/-!
# Anchors and aliases

An alias stands for the node with its anchor, wherever the anchor was last given. Anchors get
numbers in the order of the text: the number of different names that were known before. A name that
is given again takes a new number, which the next new name shares; of nodes with one number the
last counts.

* `Linked`: a tree whose aliases are numbers.
* `link?`: the linked tree and its numbered nodes.
-/

namespace Picklist.Yaml

/-- A node, aliases by number. -/
inductive Linked where
  | alias (number : Nat)
  | scalar (tag : Option TagText) (text : String) (plain : Bool)
  | sequence (tag : Option TagText) (items : List Linked)
  | mapping (tag : Option TagText) (members : List (Linked × Linked))
deriving Inhabited

/-- The numbers of the names that are known. -/
abbrev Names := List (String × Nat)

namespace Names

/-- Give the next number to a name, known or not. -/
def bind (names : Names) (name : String) : Names :=
  (name, names.length) :: names.filter (·.1 ≠ name)

/-- The names after a node with the given anchor has begun. -/
def after (names : Names) (anchor : Option String) : Names := anchor.elim names names.bind

end Names

/-- Numbered nodes in the order in which they begin. -/
abbrev Targets := List (Nat × Linked)

/-- A node with an anchor under its number. -/
def target (names : Names) (anchor : Option String) (node : Linked) : Targets :=
  anchor.elim [] fun _ => [(names.length, node)]

mutual

/-- A node with its aliases linked, its numbered nodes, and the names known after it. Every alias
    must be of a known name. -/
def link? (names : Names) : Node → Option (Linked × Targets × Names)
  | .alias name => (names.lookup name).map fun number => (.alias number, [], names)
  | .scalar p text plain =>
    let node := .scalar p.tag text plain
    some (node, target names p.anchor node, names.after p.anchor)
  | .sequence p items => do
    let (items, targets, known) ← linkItems? (names.after p.anchor) items
    let node := .sequence p.tag items
    return (node, target names p.anchor node ++ targets, known)
  | .mapping p members => do
    let (members, targets, known) ← linkMembers? (names.after p.anchor) members
    let node := .mapping p.tag members
    return (node, target names p.anchor node ++ targets, known)

/-- `link?` for items in their order. -/
def linkItems? (names : Names) : List Node → Option (List Linked × Targets × Names)
  | [] => some ([], [], names)
  | node :: rest => do
    let (node, targets, known) ← link? names node
    let (rest, more, known) ← linkItems? known rest
    return (node :: rest, targets ++ more, known)

/-- `link?` for members in their order, the key before the value. -/
def linkMembers? (names : Names) :
    List (Node × Node) → Option (List (Linked × Linked) × Targets × Names)
  | [] => some ([], [], names)
  | (key, value) :: rest => do
    let (key, keyTargets, known) ← link? names key
    let (value, valueTargets, known) ← link? known value
    let (rest, more, known) ← linkMembers? known rest
    return ((key, value) :: rest, keyTargets ++ valueTargets ++ more, known)

end

/-- The node with a number: the last one of them. -/
def Targets.find? (targets : Targets) (number : Nat) : Option Linked :=
  targets.reverse.lookup number

end Picklist.Yaml
