import Picklist.Number

/-!
# Values

A value is what a configuration document holds: a scalar, an array, or an object whose members
keep their order. Each name of an object is there once.

* `Members`: ordered members, `insert` puts a repeated name where it first stood.
* `Value.canonical`: members sorted by name at every depth.
* `Value.same`: equality up to the order of members, through the canonical form.
* `Value.isTruthy`: the loose notion of truth that conditions and marks use.
-/

namespace Picklist

/-! ## 1. Ordered members -/

/-- Named members in order. -/
abbrev Members (α : Type) := List (String × α)

namespace Members

variable {α : Type}

/-- Put a member: a name that is there keeps its place and gets the new value, a new name goes
    to the end. -/
def insert (name : String) (value : α) : Members α → Members α
  | [] => [(name, value)]
  | (first, held) :: rest =>
    if first = name then (first, value) :: rest else (first, held) :: insert name value rest

/-- The members of a list of pairs: the first place and the last value of each name. -/
def ofPairs (pairs : List (String × α)) : Members α :=
  pairs.foldl (fun members (name, value) => insert name value members) []

/-- The names in order. -/
def names (members : Members α) : List String := members.map (·.1)

/-- The inserted value is found under its name. -/
theorem lookup_insert_self (name : String) (value : α) (members : Members α) :
    (insert name value members).lookup name = some value := by
  induction members with
  | nil => simp [insert]
  | cons member rest ih =>
    obtain ⟨first, held⟩ := member
    unfold insert
    split
    · rename_i h; subst h; simp
    · rename_i h
      rw [List.lookup_cons, beq_false_of_ne (fun e => h e.symm)]
      exact ih

/-- Other names keep their values. -/
theorem lookup_insert_of_ne {name other : String} (value : α) (members : Members α)
    (ne : other ≠ name) : (insert name value members).lookup other = members.lookup other := by
  induction members with
  | nil => simp [insert, List.lookup_cons, beq_false_of_ne ne]
  | cons member rest ih =>
    obtain ⟨first, held⟩ := member
    unfold insert
    split
    · rename_i h; subst h; simp [List.lookup_cons, beq_false_of_ne ne]
    · simp only [List.lookup_cons, ih]

/-- A name that is there moves nothing; a new one goes to the end. -/
theorem names_insert (name : String) (value : α) (members : Members α) :
    names (insert name value members)
      = if name ∈ names members then names members else names members ++ [name] := by
  induction members with
  | nil => simp [insert, names]
  | cons member rest ih =>
    obtain ⟨first, held⟩ := member
    unfold insert
    simp only [names] at ih ⊢
    split
    · rename_i h; subst h; simp
    · rename_i h
      by_cases hin : name ∈ List.map (·.1) rest
      · simp [ih, hin]
      · simp [ih, hin, Ne.symm h]

end Members

/-! ## 2. The tree -/

/-- A value of a configuration document. -/
inductive Value where
  | null
  | bool (b : Bool)
  | number (n : Number)
  | string (s : String)
  | array (items : List Value)
  | object (members : List (String × Value))
deriving Inhabited

namespace Value

/-- The members of an object, in order. -/
abbrev Fields := Members Value

/-- Loose truth: `null`, `false`, zero, the empty text, the text `0` and empty containers are
    false, all else is true. -/
def isTruthy : Value → Bool
  | .null => false
  | .bool b => b
  | .number n => !n.isZero
  | .string s => s ≠ "" && s ≠ "0"
  | .array items => !items.isEmpty
  | .object members => !members.isEmpty

/-! ## 3. Equality -/

mutual

/-- Whether two values are the same tree, members in the same order. -/
def identical : Value → Value → Bool
  | .null, .null => true
  | .bool a, .bool b => a = b
  | .number m, .number n => m = n
  | .string s, .string t => s = t
  | .array vs, .array ws => identicalItems vs ws
  | .object vs, .object ws => identicalMembers vs ws
  | _, _ => false

/-- `identical` item by item. -/
def identicalItems : List Value → List Value → Bool
  | [], [] => true
  | v :: vs, w :: ws => identical v w && identicalItems vs ws
  | _, _ => false

/-- `identical` member by member, names included. -/
def identicalMembers : List (String × Value) → List (String × Value) → Bool
  | [], [] => true
  | (s, v) :: vs, (t, w) :: ws => decide (s = t) && identical v w && identicalMembers vs ws
  | _, _ => false

end

/-- Put a member in front of the first one whose name is not smaller. -/
def placeMember (member : String × Value) : Fields → Fields
  | [] => [member]
  | first :: rest =>
    if first.1 < member.1 then first :: placeMember member rest else member :: first :: rest

mutual

/-- The form in which equal values are identical: canonical numbers, members sorted by name. -/
def canonical : Value → Value
  | .number n => .number n.canonical
  | .array items => .array (canonicalItems items)
  | .object members => .object (canonicalMembers members)
  | .null => .null
  | .bool b => .bool b
  | .string s => .string s

/-- The canonical forms of items, in their order. -/
def canonicalItems : List Value → List Value
  | [] => []
  | v :: vs => canonical v :: canonicalItems vs

/-- The canonical forms of members, sorted by name. -/
def canonicalMembers : List (String × Value) → List (String × Value)
  | [] => []
  | (name, v) :: rest => placeMember (name, canonical v) (canonicalMembers rest)

end

/-- Equality of values: by kind and value, objects up to the order of their members. -/
def same (v w : Value) : Bool := v.canonical.identical w.canonical

instance : BEq Value := ⟨same⟩

/-! ## 4. Identical values are equal -/

/-- `identical` decides equality of trees. -/
theorem identical_iff (v w : Value) : v.identical w = true ↔ v = w := by
  refine Value.rec
    (motive_1 := fun v => ∀ w, v.identical w = true ↔ v = w)
    (motive_2 := fun vs => ∀ ws, identicalItems vs ws = true ↔ vs = ws)
    (motive_3 := fun vs => ∀ ws, identicalMembers vs ws = true ↔ vs = ws)
    (motive_4 := fun m => ∀ w, m.2.identical w = true ↔ m.2 = w)
    ?_ ?_ ?_ ?_ ?_ ?_ ?_ ?_ ?_ ?_ ?_ v w
  · intro w; cases w <;> simp [identical]
  · intro b w; cases w <;> simp [identical]
  · intro n w; cases w <;> simp [identical]
  · intro s w; cases w <;> simp [identical]
  · intro items ih w; cases w <;> simp [identical, ih]
  · intro members ih w; cases w <;> simp [identical, ih]
  · intro ws; cases ws <;> simp [identicalItems]
  · intro v vs hv hvs ws; cases ws <;> simp [identicalItems, hv, hvs]
  · intro ws; cases ws <;> simp [identicalMembers]
  · intro m vs hm hvs ws
    obtain ⟨s, v⟩ := m
    cases ws with
    | nil => simp [identicalMembers]
    | cons w ws =>
      obtain ⟨t, w⟩ := w
      simp only [identicalMembers, Bool.and_eq_true, decide_eq_true_eq, hvs, List.cons.injEq,
        Prod.mk.injEq]
      rw [show v.identical w = true ↔ v = w from hm w]
  · intro name v hv w; exact hv w

/-- Two values are the same when their canonical forms are equal. -/
theorem same_iff (v w : Value) : v.same w = true ↔ v.canonical = w.canonical :=
  identical_iff _ _

end Value

end Picklist
