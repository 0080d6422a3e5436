import Picklist.Reader
import Picklist.Yaml.Source

/-!
# Block scalars

A block scalar is a list of lines with a common indentation. A literal one keeps its line breaks, a
folded one joins lines that do not begin with a blank. The header says which, how many blanks
indent the lines, and what becomes of the breaks at the end.

* `Scalar.text`: the text that lines stand for.
* `read`: a block scalar after its mark.
-/

namespace Picklist.Yaml.Block

open Reader

/-! ## 1. Lines and their text -/

/-- What becomes of the line breaks at the end. -/
inductive Chomping where
  /-- All go. -/
  | strip
  /-- One stays. -/
  | clip
  /-- All stay. -/
  | keep
deriving DecidableEq

/-- A line with content: its text after the indentation, its line break unless the text ends there,
    and the breaks of the empty lines after it. -/
structure Line where
  content : List Char
  lineBreak : Option Char
  empty : List Char

namespace Line

/-- Whether the content begins with a blank. -/
def isIndented (line : Line) : Bool := line.content.head?.any isBlank

/-- What stands between a line and the next one with content. -/
def join (folded : Bool) (line next : Line) : List Char :=
  if folded && line.lineBreak == some '\n' && !line.isIndented && !next.isIndented then
    if line.empty.isEmpty then [' '] else line.empty
  else line.lineBreak.toList ++ line.empty

/-- What a chomping leaves after the last line. -/
def ending (line : Line) : Chomping → List Char
  | .strip => []
  | .clip => line.lineBreak.toList
  | .keep => line.lineBreak.toList ++ line.empty

end Line

/-- The text of lines. -/
def textOf (folded : Bool) (chomping : Chomping) : List Line → List Char
  | [] => []
  | [last] => last.content ++ last.ending chomping
  | line :: next :: rest =>
    line.content ++ line.join folded next ++ textOf folded chomping (next :: rest)

/-! ## 2. Reading -/

/-- What a header says: the chomping, and how far the lines are indented. -/
structure Header where
  chomping : Chomping
  indentation : Option Nat

/-- The chomping indicator, if there is one. -/
def chomping : Reader Char (Option Chomping) := do
  if ← accept '+' then return some .keep
  if ← accept '-' then return some .strip
  return none

/-- The indentation indicator, if there is one; it is not zero. -/
def indicator : Reader Char (Option Nat) := do
  match ← peek with
  | some c =>
    if c.isDigit then
      let _ ← next
      if c = '0' then refuse else return some (c.toNat - '0'.toNat)
    else return none
  | none => return none

/-- Takes what may stand at the end of a line: blanks, a comment, and the line break. -/
def endOfLine : Reader Char Unit := do
  let _ ← takeWhile isBlank
  if ← accept '#' then let _ ← takeWhile (!isBreak ·)
  match ← peek with
  | some c => if isBreak c then let _ ← next else refuse
  | none => return ()

/-- A header, the indicators in either order. -/
def header : Reader Char Header := do
  match ← chomping with
  | some c =>
    let indentation ← indicator
    endOfLine
    return ⟨c, indentation⟩
  | none =>
    let indentation ← indicator
    let c ← if indentation.isSome then chomping else pure none
    endOfLine
    return ⟨c.getD .clip, indentation⟩

/-- What is taken before a line with content: the breaks of empty lines, the blanks in front of the
    content, and the most blanks of any of these lines. -/
structure Margin where
  breaks : List Char
  column : Nat
  widest : Nat

/-- Takes a margin. No more blanks of a line are taken than the limit says, and no tab may stand
    among them. -/
def margin (limit : Option Nat) (column widest : Nat) : Reader Char Margin
  | [] => some (⟨[], column, max widest column⟩, [])
  | c :: rest =>
    if limit.all (column < ·) && c = ' ' then margin limit (column + 1) widest rest
    else if limit.all (column < ·) && c = '\t' then none
    else if isBreak c then do
      let (below, rest) ← margin limit 0 (max widest column) rest
      return ({ below with breaks := c :: below.breaks }, rest)
    else some (⟨[], column, max widest column⟩, c :: rest)

/-- Whether a line with content follows a margin. -/
def hasLine (indentation : Nat) (m : Margin) : Reader Char Bool := do
  return m.column == indentation && (← peek).isSome

/-- A line after its indentation, and whether another one follows. -/
def line (indentation : Nat) : Reader Char (Line × Bool) := do
  let content ← takeWhile (!isBreak ·)
  let lineBreak ← peek
  if lineBreak.isSome then let _ ← next
  let below ← margin (some indentation) 0 0
  return (⟨content, lineBreak, below.breaks⟩, ← hasLine indentation below)

/-- The text of a block scalar after its mark. `outer` is the indentation of the block around it;
    without an indicator the first line with content decides. -/
def read (folded : Bool) (outer : Option Nat) : Reader Char String := do
  let head ← header
  let given := head.indentation.map (outer.getD 0 + ·)
  let above ← margin given 0 0
  let indentation := given.getD (max above.widest (outer.elim 1 (· + 1)))
  if ← hasLine indentation above then
    let lines ← collect (line indentation)
    return String.ofList (above.breaks ++ textOf folded head.chomping lines)
  else return String.ofList (if head.chomping = .keep then above.breaks else [])

end Picklist.Yaml.Block
