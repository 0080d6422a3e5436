import Picklist.Value

/-!
# Values as JSON text

Compact text has no blanks; pretty text has one item a line and two blanks for each level. Quotes,
backslashes and the control characters below the blank are escaped, all else stands for itself.
-/

namespace Picklist.Json

/-- How a character stands inside a quoted string. -/
def escaped (c : Char) : List Char :=
  match c with
  | '"' => ['\\', '"']
  | '\\' => ['\\', '\\']
  | '\x08' => ['\\', 'b']
  | '\x0C' => ['\\', 'f']
  | '\n' => ['\\', 'n']
  | '\r' => ['\\', 'r']
  | '\t' => ['\\', 't']
  | c =>
    if c.toNat < 0x20 then
      ['\\', 'u', '0', '0', Nat.digitChar (c.toNat / 16), Nat.digitChar (c.toNat % 16)]
    else [c]

/-- A text as a quoted string. -/
def quoted (text : String) : List Char := '"' :: text.toList.flatMap escaped ++ ['"']

/-- Texts with a comma between any two. -/
def commaSeparated : List (List Char) → List Char
  | [] => []
  | [one] => one
  | one :: more => one ++ ',' :: commaSeparated more

mutual

/-- The compact text of a value. -/
def compactChars : Value → List Char
  | .null => ['n', 'u', 'l', 'l']
  | .bool true => ['t', 'r', 'u', 'e']
  | .bool false => ['f', 'a', 'l', 's', 'e']
  | .number n => n.text.toList
  | .string s => quoted s
  | .array items => '[' :: commaSeparated (compactItems items) ++ [']']
  | .object members => '{' :: commaSeparated (compactMembers members) ++ ['}']

/-- The compact texts of items. -/
def compactItems : List Value → List (List Char)
  | [] => []
  | v :: vs => compactChars v :: compactItems vs

/-- The compact texts of members, names included. -/
def compactMembers : List (String × Value) → List (List Char)
  | [] => []
  | (name, v) :: rest => (quoted name ++ ':' :: compactChars v) :: compactMembers rest

end

/-- A line break and the blanks of a level. -/
def newLine (level : Nat) : List Char := '\n' :: List.replicate (2 * level) ' '

mutual

/-- The pretty text of a value that stands at a level. -/
def prettyChars (level : Nat) : Value → List Char
  | .array [] => ['[', ']']
  | .array (v :: vs) =>
    '[' :: commaSeparated (prettyItems (level + 1) (v :: vs)) ++ newLine level ++ [']']
  | .object [] => ['{', '}']
  | .object (m :: ms) =>
    '{' :: commaSeparated (prettyMembers (level + 1) (m :: ms)) ++ newLine level ++ ['}']
  | .null => compactChars .null
  | .bool b => compactChars (.bool b)
  | .number n => compactChars (.number n)
  | .string s => compactChars (.string s)

/-- The pretty texts of items, each on a line of its own. -/
def prettyItems (level : Nat) : List Value → List (List Char)
  | [] => []
  | v :: vs => (newLine level ++ prettyChars level v) :: prettyItems level vs

/-- The pretty texts of members, each on a line of its own. -/
def prettyMembers (level : Nat) : List (String × Value) → List (List Char)
  | [] => []
  | (name, v) :: rest =>
    (newLine level ++ quoted name ++ ':' :: ' ' :: prettyChars level v) :: prettyMembers level rest

end

/-- The compact JSON text of a value. -/
def compact (v : Value) : String := String.ofList (compactChars v)

/-- The JSON text of a value over several lines. -/
def pretty (v : Value) : String := String.ofList (prettyChars 0 v)

end Picklist.Json
