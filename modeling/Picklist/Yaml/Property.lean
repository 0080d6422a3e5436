import Picklist.Reader
import Picklist.Text
import Picklist.Yaml.Source

/-!
# Anchors, tags and directives

An anchor names a node, a tag says what kind it is, and directives stand before a document. A tag
is written with a handle that stands for the front of its text, or out in full. The text of a tag
is a sequence of bytes, since its escapes can write any.

* `TagName.text?`: the text of a tag, given what the handles stand for.
-/

namespace Picklist.Yaml

open Reader

/-! ## 1. Tags -/

/-- The text of a tag. -/
abbrev TagText := List UInt8

/-- A tag as it is written. -/
inductive TagName where
  | full (text : TagText)
  | short (handle : String) (rest : TagText)
deriving DecidableEq

/-- What handles stand for. -/
abbrev Handles := List (String × TagText)

/-- The bytes of a text. -/
def bytesOf (text : String) : TagText := text.toList.flatMap String.utf8EncodeChar

/-- The handles that every document has. -/
def Handles.standard : Handles := [("!", bytesOf "!"), ("!!", bytesOf "tag:yaml.org,2002:")]

/-- The text of a tag; its handle must be known. -/
def TagName.text? (handles : Handles) : TagName → Option TagText
  | .full text => some text
  | .short handle rest => (handles.lookup handle).map (· ++ rest)

/-- A byte that is written with a percent sign and two hexadecimal digits. -/
def escapedByte : Reader Char Nat
  | '%' :: a :: b :: rest => (Text.numeral? 16 [a, b]).map (·, rest)
  | _ => none

/-- The number of bytes of the character that a byte begins. -/
def sizeOf? (first : Nat) : Option Nat :=
  if first < 0x80 then some 1
  else if first / 0x20 = 6 then some 2
  else if first / 0x10 = 14 then some 3
  else if first / 0x08 = 30 then some 4
  else none

/-- So many bytes that go on with a character. -/
def followingBytes : Nat → Reader Char (List Nat)
  | 0 => return []
  | count + 1 => do
    let byte ← escapedByte
    if byte / 0x40 = 2 then return byte :: (← followingBytes count) else refuse

/-- An escaped character of a tag. -/
def escapedBytes : Reader Char TagText := do
  let first ← escapedByte
  let size ← require (sizeOf? first)
  return (first :: (← followingBytes (size - 1))).map UInt8.ofNat

/-- A character that can stand in a tag, brackets and commas only where it is written in full. -/
def isTagChar (full : Bool) (c : Char) : Bool :=
  isWord c || [';', '/', '?', ':', '@', '&', '=', '+', '$', '.', '!', '~', '*', '\'', '(', ')'].contains c
    || (full && [',', '[', ']'].contains c)

/-- The characters of a tag that come next, as bytes, and whether there were any. A zero byte ends
    the text early. -/
def tagText (full : Bool) : Reader Char (TagText × Bool) := do
  let parts ← collect do
    let plain ← takeWhile (isTagChar full)
    let front := plain.flatMap String.utf8EncodeChar
    match ← peek with
    | some '%' => return (front ++ (← escapedBytes), true)
    | _ => return (front, false)
  return (parts.flatten.takeWhile (· ≠ 0), parts.any (!·.isEmpty))

/-- The text of a tag, which must not be missing. -/
def someTagText (full : Bool) : Reader Char TagText := do
  let (text, any) ← tagText full
  if any then return text else refuse

/-- An exclamation mark with the word after it, and whether another mark closes it. -/
def handle : Reader Char (List Char × Bool) := do
  expect '!'
  let word ← takeWhile isWord
  return ('!' :: word, ← accept '!')

/-- A tag, after which a gap must come; in a flow collection it may be a comma. -/
def tag (inFlow : Bool) : Reader Char TagName := do
  let name ← match ← attempt (expectAll ['!', '<']) with
    | some _ =>
      let text ← someTagText true
      expect '>'
      pure (.full text)
    | none =>
      let (front, closed) ← handle
      if closed then pure (.short (String.ofList (front ++ ['!'])) (← someTagText false))
      else
        let (text, _) ← tagText false
        let rest := bytesOf (String.ofList (front.drop 1)) ++ text
        if rest.isEmpty then pure (.full (bytesOf "!"))
        else pure (.short "!" rest)
  let following ← peek
  if isGap? following || (inFlow && following == some ',') then return name else refuse

/-! ## 2. Anchors -/

/-- The name of an anchor or alias after its mark; a gap or certain marks must come after it. -/
def anchorName : Reader Char String := do
  let name ← takeSome isWord
  let following ← peek
  if isGap? following || following.any fun c =>
      ['?', ':', ',', ']', '}', '%', '@', '\u0060'].contains c then
    return String.ofList name
  else refuse

/-! ## 3. Directives -/

/-- What stands before a document. -/
inductive Directive where
  /-- The version of the notation. -/
  | version (major minor : Nat)
  /-- What a handle stands for. -/
  | handle (name : String) (text : TagText)
deriving DecidableEq

/-- A number of a version: at most nine digits. -/
def versionNumber : Reader Char Nat := do
  let digits ← takeSome Char.isDigit
  if digits.length ≤ 9 then require (Text.numeral? 10 digits) else refuse

/-- Takes blanks and says whether there were any. -/
def blanks : Reader Char Bool := do return !(← takeWhile isBlank).isEmpty

/-- A version after the name of its directive. -/
def versionDirective : Reader Char Directive := do
  let _ ← blanks
  let major ← versionNumber
  expect '.'
  return .version major (← versionNumber)

/-- A handle and its text after the name of their directive. -/
def handleDirective : Reader Char Directive := do
  let _ ← blanks
  let (front, closed) ← handle
  if !closed && front.length ≠ 1 then refuse
  unless ← blanks do refuse
  let text ← someTagText true
  unless isGap? (← peek) do refuse
  return .handle (String.ofList (if closed then front ++ ['!'] else front)) text

/-- A directive after its percent sign, on a line of its own. -/
def directive : Reader Char Directive := do
  let name := String.ofList (← takeSome isWord)
  unless isGap? (← peek) do refuse
  let found ← match name with
    | "YAML" => versionDirective
    | "TAG" => handleDirective
    | _ => refuse
  let _ ← blanks
  if ← accept '#' then let _ ← takeWhile (!isBreak ·)
  match ← peek with
  | some c => if isBreak c then let _ ← next else refuse
  | none => return found
  return found

/-- The handles of a document with the given directives: one version at most, each handle once. -/
def Handles.ofDirectives? (directives : List Directive) : Option Handles := do
  let versions := directives.filterMap fun
    | .version major minor => some (major, minor)
    | .handle _ _ => none
  let own := directives.filterMap fun
    | .version _ _ => none
    | .handle name text => some (name, text)
  if versions.all (fun v => v = (1, 1) ∨ v = (1, 2)) ∧ versions.length ≤ 1
      ∧ (own.map (·.1)).Nodup then
    return own ++ standard
  else none

end Picklist.Yaml
