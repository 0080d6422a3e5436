import Picklist.Text
import Picklist.Yaml.Gap

/-!
# Quoted scalars

A scalar between single quotes knows one escape, the doubled quote. Between double quotes a
backslash begins an escape, and at the end of a line it takes the break away. Gaps are folded, and
no marker of a document may begin a line inside.
-/

namespace Picklist.Yaml.Quoted

open Reader

/-- The code that a one-letter escape stands for. -/
def escapeCode? : Char → Option Nat
  | '0' => some 0x00
  | 'a' => some 0x07
  | 'b' => some 0x08
  | 't' => some 0x09
  | '\t' => some 0x09
  | 'n' => some 0x0A
  | 'v' => some 0x0B
  | 'f' => some 0x0C
  | 'r' => some 0x0D
  | 'e' => some 0x1B
  | ' ' => some 0x20
  | '"' => some 0x22
  | '/' => some 0x2F
  | '\\' => some 0x5C
  | 'N' => some 0x85
  | '_' => some 0xA0
  | 'L' => some 0x2028
  | 'P' => some 0x2029
  | _ => none

/-- The number of hexadecimal digits that an escape letter asks for. -/
def codeSize? : Char → Option Nat
  | 'x' => some 2
  | 'u' => some 4
  | 'U' => some 8
  | _ => none

/-- The character with a code, if there is one. -/
def charOf? (code : Nat) : Option Char :=
  if h : code.isValidChar then some (Char.ofNatAux code h) else none

/-- The character of an escape, after its backslash. -/
def escape : Reader Char Char := do
  let letter ← next
  match codeSize? letter with
  | none => require ((escapeCode? letter).bind charOf?)
  | some size => fun input =>
    let front := input.take size
    if front.length = size then
      ((Text.numeral? 16 front).bind charOf?).map (·, input.drop size)
    else none

/-- Refuses the marker of a document after a gap that ends at the begin of a line. -/
def noMarker (gap : Gap) : Reader Char Unit := fun input =>
  if gap.endsAtStart && startsWithMarker input then none else some ((), input)

/-- What an escape or an escaped line break stands for, after its backslash. -/
def escapedPiece : Reader Char (List Char) := do
  match ← peek with
  | some c =>
    if isBreak c then
      let gap ← Gap.read
      noMarker gap
      return gap.breaks.drop 1
    else return [← escape]
  | none => refuse

/-- A piece of a quoted scalar, and whether another follows: the closing quote ends it. -/
def piece (quote : Char) : Reader Char (List Char × Bool) := do
  match ← peek with
  | none => refuse
  | some c =>
    if isBlank c || isBreak c then
      let gap ← Gap.read
      noMarker gap
      return (gap.fold, true)
    let _ ← next
    if c = quote then
      if quote = '\'' then if ← accept quote then return ([quote], true)
      return ([], false)
    if c = '\\' && quote = '"' then return (← escapedPiece, true)
    return ([c], true)

/-- The text of a quoted scalar, after its opening quote. -/
def read (quote : Char) : Reader Char String := do
  return String.ofList (← collect (piece quote)).flatten

end Picklist.Yaml.Quoted
