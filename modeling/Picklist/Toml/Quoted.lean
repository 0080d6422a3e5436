import Picklist.Reader
import Picklist.Text

/-!
# Strings of TOML

A string stands between quotes, single or double, on one line, or between three of them on any
number of lines. Double quotes know escapes, single quotes know none.

* `line`: a string on one line.
* `string`: any string.
-/

namespace Picklist.Toml

open Reader

/-! ## 1. Characters -/

/-- A blank inside a line. -/
def isBlank (c : Char) : Bool := c == ' ' || c == '\t'

/-- A character that comments and strings can hold: a tab, or no control character. -/
def isPlain (c : Char) : Bool := c == '\t' || (' ' ≤ c && c ≠ '\x7F')

/-- Takes blanks. -/
def blanks : Reader Char Unit := do
  let _ ← takeWhile isBlank

/-- Takes a line break if one is next, and says whether it was. -/
def lineBreak : Reader Char Bool
  | '\n' :: rest => some (true, rest)
  | '\r' :: '\n' :: rest => some (true, rest)
  | rest => some (false, rest)

/-- The character with a code, if there is one. -/
def charOf? (code : Nat) : Option Char :=
  if h : code.isValidChar then some (Char.ofNatAux code h) else none

/-- The character of an escape with so many hexadecimal digits. -/
def coded (size : Nat) : Reader Char Char := fun input =>
  let front := input.take size
  if front.length = size then
    ((Text.numeral? 16 front).bind charOf?).map (·, input.drop size)
  else none

/-- The character of an escape, after its backslash. -/
def escape : Reader Char Char := do
  match ← next with
  | 'b' => return '\x08'
  | 't' => return '\t'
  | 'n' => return '\n'
  | 'f' => return '\x0C'
  | 'r' => return '\r'
  | '"' => return '"'
  | '\\' => return '\\'
  | 'u' => coded 4
  | 'U' => coded 8
  | _ => refuse

/-! ## 2. Strings -/

/-- A piece of a string on one line, and whether another follows: the closing quote ends it. -/
def linePiece (quote : Char) : Reader Char (List Char × Bool) := do
  let plain ← takeWhile fun c => isPlain c && c ≠ quote && !(quote == '"' && c == '\\')
  match ← next with
  | '\\' => if quote = '"' then return (plain ++ [← escape], true) else refuse
  | c => if c = quote then return (plain, false) else refuse

/-- A string on one line, after its opening quote. -/
def lineBody (quote : Char) : Reader Char String := do
  return String.ofList (← collect (linePiece quote)).flatten

/-- A string on one line. -/
def line : Reader Char String := do
  let quote ← next
  if quote = '"' || quote = '\'' then lineBody quote else refuse

/-- What a backslash stands for among lines: at the end of a line it takes away the break and all
    blanks and breaks after it, elsewhere it begins an escape. -/
def continuation : Reader Char (List Char) := fun input =>
  match (do blanks; lineBreak : Reader Char Bool) input with
  | some (true, rest) =>
    some ([], dropSpace rest)
  | _ => (escape.run input).map fun (c, rest) => ([c], rest)
where
  /-- The text after blanks and line breaks. -/
  dropSpace : List Char → List Char
    | '\r' :: '\n' :: rest => dropSpace rest
    | '\n' :: rest => dropSpace rest
    | ' ' :: rest => dropSpace rest
    | '\t' :: rest => dropSpace rest
    | rest => rest

/-- A piece of a string on many lines, and whether another follows. A run of up to two quotes
    belongs to the string; a longer one ends it, its last three being the closing quotes. -/
def linesPiece (quote : Char) : Reader Char (List Char × Bool) := do
  let plain ← takeWhile fun c => isPlain c && c ≠ quote && !(quote == '"' && c == '\\')
  if ← lineBreak then return (plain ++ ['\n'], true)
  match ← peek with
  | some '\\' => let _ ← next; return (plain ++ (← continuation), true)
  | _ =>
    let run ← takeSome (· == quote)
    if run.length ≤ 2 then return (plain ++ run, true)
    if run.length ≤ 5 then return (plain ++ run.drop 3, false)
    refuse

/-- A string on many lines, after its opening quotes; a line break right after them is left out. -/
def linesBody (quote : Char) : Reader Char String := do
  let _ ← lineBreak
  return String.ofList (← collect (linesPiece quote)).flatten

/-- A string of any kind. -/
def string : Reader Char String := do
  match ← peek with
  | some quote =>
    match ← attempt (expectAll [quote, quote, quote]) with
    | some _ => if quote = '"' || quote = '\'' then linesBody quote else refuse
    | none => line
  | none => refuse

end Picklist.Toml
