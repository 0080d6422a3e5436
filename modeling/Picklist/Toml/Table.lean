import Picklist.Value

/-!
# Tables of TOML

A document is built by putting things at key paths. Each table remembers how it came about, since
that decides what may be added to it later:

* by its own header: it is defined once, and only under that header;
* on the way to a header below it: its own header may still come;
* on the way of a dotted key: only dotted keys go on in it.

`descend` is the one walk that all of this uses; `place`, `openTable` and `openRow` are its ends.
-/

namespace Picklist.Toml

/-- How a table came about. -/
inductive Origin where
  /-- By its own header. -/
  | header
  /-- On the way to a header below it. -/
  | implied
  /-- On the way of a dotted key. -/
  | dotted
deriving DecidableEq

/-- What stands under a key: a finished value, a table, or the rows of a repeated header. -/
inductive Node where
  | leaf (v : Value)
  | table (origin : Origin) (members : List (String × Node))
  | rows (tables : List (List (String × Node)))

/-- The members of a table under construction. -/
abbrev Table := Members Node

/-- A key path: the tables on the way, and the name in the last of them. -/
structure KeyPath where
  parents : List String
  name : String

namespace Table

/-! ## 1. The walk -/

/-- Go down a path and change the table at its end, whose origin the change is told. Tables that
    are not there are made; of rows the last one counts. A dotted key does not enter a table that
    has its own header, and nothing enters a value. -/
def descend (making : Origin) (change : Origin → Table → Option Table) :
    List String → Origin → Table → Option Table
  | [], origin, table => change origin table
  | key :: path, _, table =>
    match table.lookup key with
    | none => (descend making change path making []).map fun inner =>
        table ++ [(key, .table making inner)]
    | some (.table origin inner) =>
      if making = .dotted ∧ origin = .header then none
      else (descend making change path origin inner).map fun new =>
        Members.insert key (.table origin new) table
    | some (.rows tables) => do
      let new ← descend making change path .header (← tables.getLast?)
      return Members.insert key (.rows (tables.dropLast ++ [new])) table
    | some (.leaf _) => none

/-! ## 2. Its ends -/

/-- Put a value at a path of keys; each name is there once, and dotted keys do not go on in a
    table that is not theirs. -/
def place (path : KeyPath) (v : Value) : Table → Option Table :=
  descend .dotted (fun origin table =>
    if decide (origin = .dotted) = path.parents.isEmpty then none
    else if (table.lookup path.name).isSome then none
    else some (table ++ [(path.name, .leaf v)])) path.parents .header

/-- Define a table by its header. One that was only implied goes to the end, with what it holds. -/
def openTable (path : KeyPath) : Table → Option Table :=
  descend .implied (fun _ table =>
    match table.lookup path.name with
    | none => some (table ++ [(path.name, .table .header [])])
    | some (.table .implied inner) =>
      some (table.filter (·.1 ≠ path.name) ++ [(path.name, .table .header inner)])
    | some _ => none) path.parents .header

/-- Add a row under a repeated header. -/
def openRow (path : KeyPath) : Table → Option Table :=
  descend .implied (fun _ table =>
    match table.lookup path.name with
    | none => some (table ++ [(path.name, .rows [[]])])
    | some (.rows tables) => some (Members.insert path.name (.rows (tables ++ [[]])) table)
    | some _ => none) path.parents .header

/-! ## 3. The finished value -/

mutual

/-- The value of a node. -/
def valueOf : Node → Value
  | .leaf v => v
  | .table _ members => .object (valueOfMembers members)
  | .rows tables => .array (valuesOfRows tables)

/-- The values of members, under their names. -/
def valueOfMembers : List (String × Node) → List (String × Value)
  | [] => []
  | (name, node) :: rest => (name, valueOf node) :: valueOfMembers rest

/-- The values of rows. -/
def valuesOfRows : List (List (String × Node)) → List Value
  | [] => []
  | table :: rest => .object (valueOfMembers table) :: valuesOfRows rest

end

/-- The object that a table is. -/
def value (table : Table) : Value := .object (valueOfMembers table)

/-- The object of an inline table with the given pairs. -/
def ofPairs? (pairs : List (KeyPath × Value)) : Option Value :=
  (pairs.foldlM (fun table (path, v) => place path v table) []).map value

end Table

/-- A line of a document. -/
inductive Statement where
  /-- The header of a table. -/
  | table (path : KeyPath)
  /-- The header of a row. -/
  | row (path : KeyPath)
  /-- A value under a key. -/
  | pair (path : KeyPath) (v : Value)

/-- A document under construction: its tables, and the path of the one that pairs go to. -/
structure Draft where
  root : Table
  current : List String

namespace Draft

/-- Take in a statement. -/
def add (draft : Draft) : Statement → Option Draft
  | .table path => (Table.openTable path draft.root).map (⟨·, path.parents ++ [path.name]⟩)
  | .row path => (Table.openRow path draft.root).map (⟨·, path.parents ++ [path.name]⟩)
  | .pair path v =>
    (Table.descend .implied (fun _ table => Table.place path v table) draft.current .header
      draft.root).map (⟨·, draft.current⟩)

/-- The value of a document with the given statements. -/
def ofStatements? (statements : List Statement) : Option Value :=
  (statements.foldlM add ⟨[], []⟩).map fun draft => Table.value draft.root

end Draft

end Picklist.Toml
