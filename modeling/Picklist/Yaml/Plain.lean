import Picklist.Yaml.Gap

/-!
# Plain scalars

A scalar without quotes goes on word by word. It ends before a colon that a gap follows, before a
comment, before the marker of a document, in a flow collection also before its brackets and
commas, and in a block before a line that is not indented enough.
-/

namespace Picklist.Yaml.Plain

open Reader

/-- The punctuation of flow collections. -/
def isFlowMark (c : Char) : Bool := [',', '[', ']', '{', '}'].contains c

/-- The characters that mean something else at the begin of a scalar. -/
def isReserved (c : Char) : Bool :=
  ['#', '&', '*', '!', '|', '>', '\'', '"', '%', '@', '\u0060'].contains c

/-- Whether a character can begin a plain scalar, given the one after it. -/
def canStart (inFlow : Bool) (first : Char) (second : Option Char) : Bool :=
  if first = '-' then !second.any isBlank
  else if first = '?' || first = ':' then !inFlow && !isGap? second
  else !isBlank first && !isBreak first && !isFlowMark first
    && !isReserved first

/-- The longest word; in a flow collection no punctuation may follow a colon inside it. -/
def word (inFlow : Bool) : Reader Char (List Char)
  | [] => some ([], [])
  | c :: rest =>
    if isBlank c || isBreak c then some ([], c :: rest)
    else if c = ':' && inFlow && rest.head?.any (fun d => isFlowMark d || d == '?') then none
    else if c = ':' && isGap? rest.head? then some ([], c :: rest)
    else if inFlow && isFlowMark c then some ([], c :: rest)
    else do
      let (more, rest) ← word inFlow rest
      return (c :: more, rest)

/-- Whether a tab stands where a gap should be indented. -/
def hasTab (indentation : Nat) (gap : Gap) : Bool :=
  gap.lines.any fun (_, blanks) => (blanks.take indentation).contains '\t'

/-- Whether the scalar ends at a gap. -/
def endsAt (inFlow : Bool) (indentation : Nat) (gap : Gap) (rest : List Char) : Bool :=
  (!inFlow && gap.indentation?.any fun blanks => blanks.length < indentation)
    || (gap.endsAtStart && startsWithMarker rest) || rest.head? == some '#'

/-- The words and gaps that come next, no word where the scalar has ended, and whether a line break
    comes after the last word. The bound is on the number of words. -/
def words (inFlow : Bool) (indentation : Nat) : Nat → Reader Char (List Char × Bool)
  | 0 => refuse
  | bound + 1 => do
    let first ← word inFlow
    if first.isEmpty then return ([], false)
    let gap ← Gap.read
    if hasTab indentation gap then refuse
    if endsAt inFlow indentation gap (← get) then return (first, gap.isBroken)
    let (more, broken) ← words inFlow indentation bound
    if more.isEmpty then return (first, gap.isBroken)
    return (first ++ gap.fold ++ more, broken)

/-- The text of a plain scalar, and whether a line break comes after it. Further lines must be
    indented. -/
def read (inFlow : Bool) (indentation : Nat) : Reader Char (String × Bool) := fun input =>
  (words inFlow indentation (input.length + 1) input).map fun ((text, broken), rest) =>
    ((String.ofList text, broken), rest)

end Picklist.Yaml.Plain
