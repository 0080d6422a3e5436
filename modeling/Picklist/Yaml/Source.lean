/-!
# The characters of YAML

A text is made ready before anything is read: characters that YAML does not allow are refused, and
every ordinary line break becomes a line feed. The line and paragraph separators stay, as line
breaks of their own.
-/

namespace Picklist.Yaml

/-- A blank inside a line. -/
def isBlank (c : Char) : Bool := c == ' ' || c == '\t'

/-- A line break of a text that is ready. -/
def isBreak (c : Char) : Bool := c == '\n' || c == '\u2028' || c == '\u2029'

/-- A blank, a line break, or the end of the text. -/
def isGap? (next : Option Char) : Bool := next.all fun c => isBlank c || isBreak c

/-- A letter or digit of names in YAML's own notation. -/
def isWord (c : Char) : Bool := c.isAlphanum || c == '_' || c == '-'

/-- A character that a text can hold. -/
def isAllowed (c : Char) : Bool :=
  let n := c.toNat
  n == 0x09 || n == 0x0A || n == 0x0D || (0x20 ≤ n && n ≤ 0x7E) || n == 0x85
    || (0xA0 ≤ n && n ≤ 0xFFFD) || 0x10000 ≤ n

/-- Every ordinary line break as a line feed. -/
def lineFeeds : List Char → List Char
  | [] => []
  | '\r' :: '\n' :: rest => '\n' :: lineFeeds rest
  | '\r' :: rest => '\n' :: lineFeeds rest
  | '\u0085' :: rest => '\n' :: lineFeeds rest
  | c :: rest => c :: lineFeeds rest

/-- A text that is ready to be read, if all its characters are allowed. -/
def source? (text : String) : Option (List Char) :=
  if text.toList.all isAllowed then some (lineFeeds text.toList) else none

/-- Whether a text begins with the marker of a document's start or end, at the begin of a line. -/
def startsWithMarker : List Char → Bool
  | '-' :: '-' :: '-' :: rest => isGap? rest.head?
  | '.' :: '.' :: '.' :: rest => isGap? rest.head?
  | _ => false

end Picklist.Yaml
