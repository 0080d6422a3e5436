import Picklist.Yaml.Anchor
import Picklist.Yaml.Layout
import Picklist.Yaml.Scalar

/-!
# Reading YAML

The tree of a text becomes a value: aliases are followed, scalars get their meaning, and keys are
texts. Collections nest at most 128 deep, and aliases are followed at most a hundred times for each
part of the tree.

* `valueOf?`: the value of a linked tree.
* `read?`: the value of a text; an empty text is `null`.
-/

namespace Picklist.Yaml

/-- How deep collections nest at most. -/
def maxDepth : Nat := 128

/-- Following aliases, as long as there is a count left. -/
abbrev Following := StateT Nat Option

namespace Linked

mutual

/-- The number of parts of a tree; a collection counts twice, for its begin and its end. -/
def size : Linked → Nat
  | .alias _ => 1
  | .scalar _ _ _ => 1
  | .sequence _ items => 2 + sizeOfItems items
  | .mapping _ members => 2 + sizeOfMembers members

/-- The number of parts of items. -/
def sizeOfItems : List Linked → Nat
  | [] => 0
  | node :: rest => size node + sizeOfItems rest

/-- The number of parts of members. -/
def sizeOfMembers : List (Linked × Linked) → Nat
  | [] => 0
  | (key, value) :: rest => size key + size value + sizeOfMembers rest

end

/-- The node that an alias stands for, which is no alias; any other node is itself. -/
def follow (targets : Targets) : Linked → Following Linked
  | .alias number => fun
    | 0 => none
    | left + 1 => (targets.find? number).map (·, left)
  | node => pure node

/-- The text of a key: a scalar, whatever its tag. -/
def keyText (targets : Targets) (node : Linked) : Following String := do
  match ← node.follow targets with
  | .scalar _ text _ => return text
  | _ => fun _ => none

/-- The value of a node. `inner` reads the parts of a collection; without it there may be none. -/
def valueWith (targets : Targets) (inner : Option (Linked → Following Value)) (node : Linked) :
    Following Value := do
  match ← node.follow targets, inner with
  | .scalar tag text plain, _ => fun left => (Scalar.value? tag text plain).map (·, left)
  | .sequence tag items, some read =>
    if Scalar.isRefused tag then fun _ => none
    else return .array (← items.mapM read)
  | .mapping tag members, some read =>
    if Scalar.isRefused tag then fun _ => none
    else return .object (Members.ofPairs (← members.mapM fun member => do
      return (← keyText targets member.1, ← read member.2)))
  | _, _ => fun _ => none

/-- The value of a node with at most so many collections inside each other. -/
def value (targets : Targets) : Nat → Linked → Following Value
  | 0 => valueWith targets none
  | depth + 1 => valueWith targets (some (value targets depth))

end Linked

/-- The value of a tree, if all of it means something. -/
def valueOf? (root : Node) : Option Value := do
  let (root, targets, _) ← link? [] root
  let (v, _) ← root.value targets maxDepth (100 * root.size)
  return v

/-- The value of a text that holds one document at most. -/
def read? (text : String) : Option Value := do
  valueOf? (← Node.document? (← tokens? (← source? text)))

end Picklist.Yaml
