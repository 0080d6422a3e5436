import Picklist.Reader
import Picklist.Text
import Picklist.Value
import Picklist.Decimal.Reading

/-!
# Reading JSON

One JSON value is read off a text. Whole numbers that documents can hold stay whole; any other
number is a double, and so is `-0`. Containers nest at most 127 deep. A name that an object
repeats keeps its first place and its last value.

* `value`: a value with blanks before it, given how many containers may still be opened.
* `read?`: the value of a whole text, with blanks around it.
-/

namespace Picklist.Json

open Reader

/-! ## 1. Strings -/

/-- The code of the character that a one-letter escape stands for. -/
def escapeCode? : Char → Option Nat
  | '"' => some 0x22
  | '\\' => some 0x5C
  | '/' => some 0x2F
  | 'b' => some 0x08
  | 'f' => some 0x0C
  | 'n' => some 0x0A
  | 'r' => some 0x0D
  | 't' => some 0x09
  | _ => none

/-- The codes of a string up to its closing quote: code points, and the 16-bit units of escapes.
    The codes so far are handed on last first. -/
def stringCodes (before : List Nat) : Reader Char (List Nat)
  | [] => none
  | '"' :: rest => some (before.reverse, rest)
  | '\\' :: 'u' :: a :: b :: c :: d :: rest =>
    (Text.numeral? 16 [a, b, c, d]).bind fun unit => stringCodes (unit :: before) rest
  | '\\' :: letter :: rest =>
    (escapeCode? letter).bind fun code => stringCodes (code :: before) rest
  | c :: rest => if c.toNat < 0x20 then none else stringCodes (c.toNat :: before) rest

/-- Whether a code is the first half of a pair of 16-bit units. -/
def isHighHalf (code : Nat) : Bool := 0xD800 ≤ code && code < 0xDC00

/-- Whether a code is the second half of a pair of 16-bit units. -/
def isLowHalf (code : Nat) : Bool := 0xDC00 ≤ code && code < 0xE000

/-- The characters of codes: two halves make one character, and no half stands alone. -/
def charsOfCodes? : List Nat → Option (List Char)
  | [] => some []
  | [code] => if isHighHalf code || isLowHalf code then none else some [Char.ofNat code]
  | code :: second :: rest =>
    if isHighHalf code then
      if isLowHalf second then
        (charsOfCodes? rest).map
          (Char.ofNat (0x10000 + (code - 0xD800) * 0x400 + (second - 0xDC00)) :: ·)
      else none
    else if isLowHalf code then none
    else (charsOfCodes? (second :: rest)).map (Char.ofNat code :: ·)

/-- The text of a string, after its opening quote. -/
def stringBody : Reader Char String := do
  let codes ← stringCodes []
  let chars ← require (charsOfCodes? codes)
  return String.ofList chars

/-! ## 2. Numbers -/

/-- Decimal digits, at least one, as their values. -/
def digits : Reader Char (List Nat) := do
  let front ← takeSome Char.isDigit
  return front.map fun c => c.toNat - '0'.toNat

/-- The number that decimal digits write. -/
def ofDigits (ds : List Nat) : Nat := ds.foldl (fun n d => n * 10 + d) 0

/-- The exponent after its letter. -/
def exponent : Reader Char Int := do
  let negative ← accept '-'
  unless negative do let _ ← accept '+'
  let n := ofDigits (← digits)
  return if negative then -(n : Int) else n

/-- A whole number that documents can hold; the negative zero is none. -/
def wholeNumber? (negative : Bool) (whole : List Nat) : Option Number :=
  let n := ofDigits whole
  if negative then
    if 0 < n ∧ n ≤ 0x8000000000000000 then some (.integer (-n)) else none
  else if n < 0x10000000000000000 then some (.integer n) else none

/-- A double with its sign, from the parts of its numeral. -/
def realNumber? (negative : Bool) (whole fraction : List Nat) (exponent : Int) : Option Number :=
  (Decimal.scaled? whole fraction exponent).map fun x => .real (if negative then -x else x)

/-- A number: no plus sign, no zero in front of other digits, digits on both sides of a point. -/
def number : Reader Char Number := do
  let negative ← accept '-'
  let whole ← digits
  if whole.head? == some 0 && 1 < whole.length then refuse
  let point ← accept '.'
  let fraction ← if point then digits else pure []
  let scaled ← do if ← accept 'e' then pure true else accept 'E'
  let power ← if scaled then exponent else pure 0
  if point || scaled then require (realNumber? negative whole fraction power)
  else require (wholeNumber? negative whole <|> realNumber? negative whole [] 0)

/-! ## 3. Values -/

/-- Blanks between the parts of a text. -/
def blanks : Reader Char Unit := do
  let _ ← takeWhile fun c => c == ' ' || c == '\n' || c == '\t' || c == '\r'

/-- A value that opens no container. -/
def scalar : Reader Char Value := do
  match ← peek with
  | some '"' => let _ ← next; return .string (← stringBody)
  | some 'n' => expectAll ['n', 'u', 'l', 'l']; return .null
  | some 't' => expectAll ['t', 'r', 'u', 'e']; return .bool true
  | some 'f' => expectAll ['f', 'a', 'l', 's', 'e']; return .bool false
  | _ => return .number (← number)

/-- Whether a comma follows rather than the closing bracket; one of them must. -/
def another (closing : Char) : Reader Char Bool := do
  blanks
  if ← accept ',' then return true
  expect closing
  return false

/-- The items of an array, after its opening bracket. -/
def items {α : Type} (value : Reader Char α) : Reader Char (List α) := do
  blanks
  if ← accept ']' then return []
  collect do
    let v ← value
    return (v, ← another ']')

/-- The members of an object, after its opening brace. -/
def members {α : Type} (value : Reader Char α) : Reader Char (List (String × α)) := do
  blanks
  if ← accept '}' then return []
  collect do
    blanks
    expect '"'
    let name ← stringBody
    blanks
    expect ':'
    let v ← value
    return ((name, v), ← another '}')

/-- A value, with blanks before it, that opens at most `depth` containers inside each other. -/
def value : (depth : Nat) → Reader Char Value
  | 0 => do blanks; scalar
  | depth + 1 => do
    blanks
    if ← accept '[' then return .array (← items (value depth))
    if ← accept '{' then return .object (Members.ofPairs (← members (value depth)))
    scalar

/-- How deep containers nest at most. -/
def maxDepth : Nat := 127

/-- The value that a whole text is. -/
def read? (text : String) : Option Value :=
  (do let v ← value maxDepth; blanks; return v : Reader Char Value).run? text.toList

end Picklist.Json
