import Mathlib.Init
import Picklist.Value

/-!
# Values as trees

* `Value.tree_induction`: a property that every container takes over from what is right below it
  holds of all values;
* `Value.PartOf`: some items and members of a value, at any depth, in their order;
* `Value.shape`: a value with its texts emptied;
* `Value.at?`: what stands at the end of a path from the root;
* `Value.headAt?`: the same without what stands below it.
-/

namespace Picklist.Value

/-! ## 1. Induction -/

/-- Induction on what is right below a value. -/
@[elab_as_elim]
theorem tree_induction {motive : Value → Prop} (null : motive .null)
    (bool : ∀ b, motive (.bool b)) (number : ∀ n, motive (.number n))
    (string : ∀ s, motive (.string s))
    (array : ∀ items, (∀ v ∈ items, motive v) → motive (.array items))
    (object : ∀ members : Fields, (∀ m ∈ members, motive m.2) → motive (.object members))
    (v : Value) : motive v := by
  refine Value.rec
    (motive_1 := motive)
    (motive_2 := fun items => ∀ v ∈ items, motive v)
    (motive_3 := fun members => ∀ m ∈ members, motive m.2)
    (motive_4 := fun m => motive m.2)
    null bool number string array object ?_ ?_ ?_ ?_ ?_ v
  · exact fun _ h => absurd h List.not_mem_nil
  · exact fun v items hv hitems => List.forall_mem_cons.mpr ⟨hv, hitems⟩
  · exact fun _ h => absurd h List.not_mem_nil
  · exact fun m members hm hmembers => List.forall_mem_cons.mpr ⟨hm, hmembers⟩
  · exact fun _ _ h => h

/-! ## 2. Parts -/

mutual

/-- A value of which items and members may have been left out, at any depth. Those that stay keep
    their order. -/
inductive PartOf : Value → Value → Prop where
  | whole (v : Value) : PartOf v v
  | array {items of : List Value} (h : ItemsOf items of) : PartOf (.array items) (.array of)
  | object {members of : List (String × Value)} (h : MembersOf members of) :
    PartOf (.object members) (.object of)

/-- Some of the items, in their order, and parts of them. -/
inductive ItemsOf : List Value → List Value → Prop where
  | nil : ItemsOf [] []
  | drop (v : Value) {items of : List Value} (h : ItemsOf items of) : ItemsOf items (v :: of)
  | keep {v w : Value} {items of : List Value} (hpart : PartOf v w) (h : ItemsOf items of) :
    ItemsOf (v :: items) (w :: of)

/-- Some of the members, in their order and under their names, and parts of them. -/
inductive MembersOf : List (String × Value) → List (String × Value) → Prop where
  | nil : MembersOf [] []
  | drop (m : String × Value) {members of : List (String × Value)} (h : MembersOf members of) :
    MembersOf members (m :: of)
  | keep (name : String) {v w : Value} {members of : List (String × Value)} (hpart : PartOf v w)
    (h : MembersOf members of) : MembersOf ((name, v) :: members) ((name, w) :: of)

end

/-- A sublist of items are some of the items. -/
theorem itemsOf_of_sublist {items of : List Value} (h : items.Sublist of) : ItemsOf items of := by
  induction h with
  | slnil => exact .nil
  | cons v _ ih => exact .drop v ih
  | cons_cons v _ ih => exact .keep (.whole v) ih

theorem membersOf_of_sublist {members of : Fields} (h : members.Sublist of) :
    MembersOf members of := by
  induction h with
  | slnil => exact .nil
  | cons m _ ih => exact .drop m ih
  | cons_cons m _ ih => exact .keep m.1 (.whole m.2) ih

variable {f : Value → Value}

/-- All items, and parts of them. -/
theorem itemsOf_map (h : ∀ v, PartOf (f v) v) (items : List Value) :
    ItemsOf (items.map f) items := by
  induction items with
  | nil => exact .nil
  | cons v rest ih => exact .keep (h v) ih

theorem membersOf_map (h : ∀ v, PartOf (f v) v) (members : Fields) :
    MembersOf (members.map fun m => (m.1, f m.2)) members := by
  induction members with
  | nil => exact .nil
  | cons m rest ih => exact .keep m.1 (h m.2) ih

/-! ## 3. Shape -/

mutual

/-- A value with its texts emptied: its items and members in order, the names of its members, and
    its other scalars. -/
def shape : Value → Value
  | .string _ => .string ""
  | .array items => .array (shapeItems items)
  | .object members => .object (shapeMembers members)
  | .null => .null
  | .bool b => .bool b
  | .number n => .number n

/-- `shape` for every item. -/
def shapeItems : List Value → List Value
  | [] => []
  | v :: rest => shape v :: shapeItems rest

/-- `shape` for every member. -/
def shapeMembers : List (String × Value) → List (String × Value)
  | [] => []
  | (name, v) :: rest => (name, shape v) :: shapeMembers rest

end

theorem shapeItems_eq_map (items : List Value) : shapeItems items = items.map shape := by
  induction items with
  | nil => rfl
  | cons v rest ih => rw [shapeItems, ih, List.map_cons]

theorem shapeMembers_eq_map (members : Fields) :
    shapeMembers members = members.map fun m => (m.1, shape m.2) := by
  induction members with
  | nil => rfl
  | cons m rest ih => rw [shapeMembers, ih, List.map_cons]

/-! ## 4. Paths -/

/-- One step down a tree: to the member under a name, or to the item at a position. -/
inductive Edge where
  | member (name : String)
  | item (position : Nat)

/-- What stands at the end of an edge: for a member the first of its name. -/
def along? : Value → Edge → Option Value
  | .object members, .member name => members.lookup name
  | .array items, .item position => items[position]?
  | _, _ => none

/-- What stands at the end of a path. -/
def at? (v : Value) : List Edge → Option Value
  | [] => some v
  | edge :: path => (v.along? edge).bind (at? · path)

/-- What a value is by itself: a scalar, an array of so many items, or an object. -/
def head : Value → Value
  | .array items => .array (items.map fun _ => .null)
  | .object _ => .object []
  | v => v

/-- What stands at the end of a path, by itself. -/
def headAt? (v : Value) (path : List Edge) : Option Value := (v.at? path).map head

end Picklist.Value
