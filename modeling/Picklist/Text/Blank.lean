/-!
# White space and control characters

The characters with the property White_Space, and the control characters (category Cc),
as closed ranges of code points (Unicode 15).
-/

namespace Picklist.Text

/-- White space: closed ranges of code points, ascending and apart. -/
def blankRanges : List (Nat × Nat) :=
  [(0x09, 0x0D), (0x20, 0x20), (0x85, 0x85), (0xA0, 0xA0), (0x1680, 0x1680), (0x2000, 0x200A),
   (0x2028, 0x2029), (0x202F, 0x202F), (0x205F, 0x205F), (0x3000, 0x3000)]

/-- Control characters: closed ranges of code points, ascending and apart. -/
def controlRanges : List (Nat × Nat) := [(0x00, 0x1F), (0x7F, 0x9F)]

/-- Whether a character lies in one of the ranges. -/
def inRanges (ranges : List (Nat × Nat)) (c : Char) : Bool :=
  ranges.any fun (low, high) => low ≤ c.toNat && c.toNat ≤ high

/-- White space of any script. -/
def isBlank (c : Char) : Bool := inRanges blankRanges c

/-- A control character. -/
def isControl (c : Char) : Bool := inRanges controlRanges c

end Picklist.Text
