import Picklist.Reader
import Picklist.Yaml.Source

/-!
# Gaps in scalars

Between the words of a scalar stand gaps of blanks and line breaks. A gap inside a line stays as
it is. A gap over lines is folded: one line feed becomes a blank, the breaks after it stay, and the
blanks around them go.
-/

namespace Picklist.Yaml

/-- A gap: the blanks up to its first line break, then each break with the blanks after it. -/
structure Gap where
  blanks : List Char
  lines : List (Char × List Char)

namespace Gap

/-- The gap that a run of blanks and line breaks is. -/
def ofRun : List Char → Gap
  | [] => ⟨[], []⟩
  | c :: rest =>
    let gap := ofRun rest
    if isBreak c then ⟨[], (c, gap.blanks) :: gap.lines⟩ else ⟨c :: gap.blanks, gap.lines⟩

/-- Takes the longest gap. -/
def read : Reader Char Gap := do
  return ofRun (← Reader.takeWhile fun c => isBlank c || isBreak c)

/-- Whether the gap reaches over a line break. -/
def isBroken (gap : Gap) : Bool := !gap.lines.isEmpty

/-- The line breaks. -/
def breaks (gap : Gap) : List Char := gap.lines.map (·.1)

/-- The blanks between the last line break and the end, if there is a line break. -/
def indentation? (gap : Gap) : Option (List Char) := gap.lines.getLast?.map (·.2)

/-- Whether the gap ends at the begin of a line. -/
def endsAtStart (gap : Gap) : Bool := gap.indentation? == some []

/-- What the gap stands for between two words. -/
def fold (gap : Gap) : List Char :=
  match gap.breaks with
  | [] => gap.blanks
  | ['\n'] => [' ']
  | '\n' :: more => more
  | all => all

end Gap

end Picklist.Yaml
