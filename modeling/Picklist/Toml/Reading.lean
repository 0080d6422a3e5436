import Picklist.Toml.Moment
import Picklist.Toml.Numeral
import Picklist.Toml.Quoted
import Picklist.Toml.Table

/-!
# Reading TOML

A document is a list of lines, each a header, a pair or nothing, perhaps with a comment. Arrays
and inline tables nest at most 79 deep, and a key path has at most 79 names.

* `statements`: the lines of a document.
* `read?`: the value of a document, always an object.
-/

namespace Picklist.Toml

open Reader

/-! ## 1. Keys -/

/-- How deep containers nest, and how long key paths are, at most. -/
def maxDepth : Nat := 79

/-- A character of a bare key. -/
def isBare (c : Char) : Bool := c.isAlphanum || c == '_' || c == '-'

/-- One name of a key path, with blanks around it. -/
def name : Reader Char String := do
  blanks
  let text ← match ← peek with
    | some '"' => line
    | some '\'' => line
    | _ => String.ofList <$> takeSome isBare
  blanks
  return text

/-- A key path: names with points between them. -/
def keyPath : Reader Char KeyPath := do
  let names ← collect do return (← name, ← accept '.')
  let last ← require names.getLast?
  if maxDepth < names.length then refuse else return ⟨names.dropLast, last⟩

/-! ## 2. Values -/

/-- The name under which a date or time stands in its object. -/
def momentName : String := "$__toml_private_datetime"

/-- A value that begins with a digit or sign: a moment, or else a number. -/
def momentOrNumber : Reader Char Value := do
  match ← attempt moment with
  | some m => return .object [(momentName, .string (String.ofList m.text))]
  | none =>
    match ← number with
    | some n => return .number n
    | none => return .null

/-- A value that opens no container. -/
def scalar : Reader Char Value := do
  match ← peek with
  | some '"' => return .string (← string)
  | some '\'' => return .string (← string)
  | some 't' => expectAll ['t', 'r', 'u', 'e']; return .bool true
  | some 'f' => expectAll ['f', 'a', 'l', 's', 'e']; return .bool false
  | _ => momentOrNumber

/-- A comment, if there is one. -/
def comment : Reader Char Unit := do
  if ← accept '#' then let _ ← takeWhile isPlain

/-- Blanks, comments and line breaks. -/
def space : Reader Char Unit := do
  let _ ← collect do blanks; comment; return ((), ← lineBreak)

/-- The items of an array after its opening bracket; a comma may stand after the last. -/
def items (value : Reader Char Value) : Reader Char (List Value) := do
  let found ← collect do
    space
    if ← accept ']' then return (none, false)
    let v ← value
    space
    if ← accept ',' then return (some v, true)
    expect ']'
    return (some v, false)
  return found.filterMap id

/-- A key path, the equals sign, and the blanks before the value. -/
def pairKey : Reader Char KeyPath := do
  let path ← keyPath
  expect '='
  blanks
  return path

/-- The pairs of an inline table after its opening brace; it stays on its line, and no comma stands
    after the last pair. -/
def pairs (value : Reader Char Value) : Reader Char (List (KeyPath × Value)) := do
  blanks
  if ← accept '}' then return []
  collect do
    let path ← pairKey
    let v ← value
    blanks
    if ← accept ',' then return ((path, v), true)
    expect '}'
    return ((path, v), false)

/-- A value that opens at most `depth` containers inside each other. -/
def value : (depth : Nat) → Reader Char Value
  | 0 => scalar
  | depth + 1 => do
    if ← accept '[' then return .array (← items (value depth))
    if ← accept '{' then require (Table.ofPairs? (← pairs (value depth)))
    else scalar

/-! ## 3. Documents -/

/-- A header between single brackets, or double ones for a row. -/
def header : Reader Char Statement := do
  expect '['
  if ← accept '[' then
    let path ← keyPath
    expectAll [']', ']']
    return .row path
  else
    let path ← keyPath
    expect ']'
    return .table path

/-- What a line says, if anything. -/
def statement? : Reader Char (Option Statement) := do
  blanks
  match ← peek with
  | none => return none
  | some '#' => return none
  | some '\n' => return none
  | some '\r' => return none
  | some '[' => some <$> header
  | some _ =>
    let path ← pairKey
    return some (.pair path (← value maxDepth))

/-- The statements of a document, line by line. -/
def statements : Reader Char (List Statement) := do
  let lines ← collect do
    let statement ← statement?
    blanks
    comment
    return (statement, ← lineBreak)
  return lines.filterMap id

/-- The value of a document; a byte order mark may stand in front of it. -/
def read? (text : String) : Option Value := do
  let document := match text.toList with
    | '\uFEFF' :: rest => rest
    | all => all
  Draft.ofStatements? (← statements.run? document)

end Picklist.Toml
