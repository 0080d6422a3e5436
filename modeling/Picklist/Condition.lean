import Picklist.ChoiceValue
import Picklist.Path

/-!
# Conditions

A condition decides, for an entry and its key, whether the entry counts. It is a conjunction of
clauses, or an arbitrary test. A clause looks at the key or at a path of the entry and expects:

* `truthy`: a value that is true in the loose sense;
* `falsy`: `false`, nothing, or an empty container;
* `unset`: nothing;
* `oneOf`: a value in common with a list, or for an object a member name in it.

Nothing is a missing path or `null`.
-/

namespace Picklist

/-! ## 1. Clauses -/

/-- What a clause looks at. -/
inductive Subject where
  /-- The key of the entry. -/
  | key
  /-- A path into the entry. -/
  | path (p : String)
deriving DecidableEq

/-- A name that consists of digits stands for the key, any other is a path. -/
def Subject.ofName (name : String) : Subject :=
  if name ≠ "" ∧ name.toList.all Char.isDigit then .key else .path name

/-- What a clause expects. -/
inductive Expected where
  | truthy
  | falsy
  | unset
  | oneOf (allowed : List Value)

/-- A value as a list: the items of an array, the member values of an object, nothing for `null`,
    a scalar alone. -/
def Value.elements : Value → List Value
  | .null => []
  | .array items => items
  | .object members => members.map (·.2)
  | v => [v]

/-- The expectation that a value writes. -/
def Expected.ofValue : Value → Expected
  | .bool true => .truthy
  | .bool false => .falsy
  | .null => .unset
  | v => .oneOf v.elements

/-- Whether a value is `false`, `null` or an empty container. -/
def Value.isEmptyOrFalse : Value → Bool
  | .null => true
  | .bool b => !b
  | .array items => items.isEmpty
  | .object members => members.isEmpty
  | _ => false

/-- Whether a value shares an element with a list, or is an object with a member name in it; a
    name counts as a text and as the number that it spells. -/
def Value.intersects (current : Value) (allowed : List Value) : Bool :=
  current.elements.any (allowed.contains ·) ||
    match current with
    | .object members => members.any fun (name, _) =>
        allowed.contains (.string name) || allowed.contains (ChoiceValue.ofKey name).toValue
    | _ => false

/-- Whether what a clause looks at is as expected. -/
def Expected.admits (expected : Expected) (current : Option Value) : Bool :=
  match expected with
  | .truthy => current.any Value.isTruthy
  | .falsy => current.all Value.isEmptyOrFalse
  | .unset => current.isNone
  | .oneOf allowed => current.any (·.intersects allowed)

/-- One clause. -/
structure Clause where
  subject : Subject
  expected : Expected

/-- What a clause looks at, for an entry and its key. -/
def Subject.current? (subject : Subject) (entry : Entry) (key : Value) : Option Value :=
  match subject with
  | .key => some key
  | .path p => entry.present? p

/-- Whether a clause holds for an entry and its key. -/
def Clause.holds (clause : Clause) (entry : Entry) (key : Value) : Bool :=
  clause.expected.admits (clause.subject.current? entry key)

/-! ## 2. Conditions -/

/-- A condition on an entry and its key. -/
inductive Condition where
  /-- Every clause holds. -/
  | clauses (all : List Clause)
  /-- The test says yes. -/
  | predicate (test : Entry → Value → Bool)

namespace Condition

/-- The condition that every entry meets. -/
def always : Condition := .clauses []

instance : Inhabited Condition := ⟨always⟩

/-- Whether the condition holds for an entry and its key. -/
def passes (condition : Condition) (entry : Entry) (key : Value) : Bool :=
  match condition with
  | .clauses all => all.all (·.holds entry key)
  | .predicate test => test entry key

/-- Whether the condition has no clauses; a test never counts as empty. -/
def isEmpty : Condition → Bool
  | .clauses all => all.isEmpty
  | .predicate _ => false

/-- Add a clause; it takes the place of a test. -/
def push (condition : Condition) (clause : Clause) : Condition :=
  match condition with
  | .clauses all => .clauses (all ++ [clause])
  | .predicate _ => .clauses [clause]

/-- Add a clause on a named field, or on the key where the name consists of digits. -/
def «with» (condition : Condition) (name : String) (expected : Value) : Condition :=
  condition.push ⟨.ofName name, .ofValue expected⟩

/-- Add a clause on the key. -/
def withKey (condition : Condition) (expected : Value) : Condition :=
  condition.push ⟨.key, .ofValue expected⟩

/-- The condition that a value writes: an object has a clause for each member, an array one on the
    key for each item, a text or number a single one on the key, and `null` has none. -/
def ofValue : Value → Except SelectionError Condition
  | .null => .ok always
  | .object members => .ok (.clauses
      (members.map fun (name, expected) => ⟨.ofName name, .ofValue expected⟩))
  | .array items => .ok (.clauses (items.map fun expected => ⟨.key, .ofValue expected⟩))
  | .bool _ => .error .invalidCondition
  | v => .ok (.clauses [⟨.key, .ofValue v⟩])

/-- Whether a keyed entry meets the condition. -/
def admits (condition : Condition) (key : String) (entry : Entry) : Bool :=
  condition.passes entry (ChoiceValue.ofKey key).toValue

end Condition

end Picklist
