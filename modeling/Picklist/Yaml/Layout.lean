import Picklist.Yaml.Block
import Picklist.Yaml.Plain
import Picklist.Yaml.Quoted
import Picklist.Yaml.Token

/-!
# From characters to tokens

The tokens of a text are found one after the other. What a character means depends on where it
stands, so the state of the walk holds:

* the place in the text, by offset, line and column;
* the indentations of the open block collections, and the open brackets;
* for each open bracket, and outside of all, a token that may turn out to be a key. A colon makes it
  one: the token `key` is put in front of it, if need be after the begin of a mapping. A key stays on
  one line and has at most 1024 bytes.
-/

namespace Picklist.Yaml

/-! ## 1. The state of the walk -/

/-- A place in a text: how many bytes come before it, and its line and column. -/
structure Place where
  offset : Nat
  line : Nat
  column : Nat

/-- The place after a character. -/
def Place.after (place : Place) (c : Char) : Place :=
  if isBreak c then ⟨place.offset + c.utf8Size, place.line + 1, 0⟩
  else ⟨place.offset + c.utf8Size, place.line, place.column + 1⟩

/-- A token that may turn out to be a key: its number, where it begins, and whether the text is
    wrong unless it is one. -/
structure Candidate where
  number : Nat
  place : Place
  required : Bool

/-- The state of the walk: what is left of the text and where, the tokens so far with the last one
    first, the indentations with the innermost one first, the candidate at hand, those outside of
    the open brackets, and whether a key may begin here. -/
structure Layout where
  rest : List Char
  place : Place
  tokens : List Token
  indentations : List Nat
  candidate : Option Candidate
  outer : List (Option Candidate)
  keyAllowed : Bool

/-- A step of the walk, which may find the text wrong. -/
abbrev Walk := StateT Layout Option

namespace Layout

/-- The walk before the first token. -/
def start (text : List Char) : Layout := ⟨text, ⟨0, 0, 0⟩, [], [], none, [], true⟩

/-- Whether a bracket is open. -/
def inFlow (layout : Layout) : Bool := !layout.outer.isEmpty

/-- The column that a nested block has to reach. -/
def nested (layout : Layout) : Nat := layout.indentations.head?.elim 0 (· + 1)

/-- Put a token in front of the one with the given number. -/
def insertToken (layout : Layout) (number : Nat) (token : Token) : Layout :=
  let later := layout.tokens.length - number
  { layout with tokens := layout.tokens.take later ++ token :: layout.tokens.drop later }

/-- Begin a block collection at a column that is further in; its token goes to the given number. -/
def indent (layout : Layout) (kind : Kind) (column number : Nat) : Layout :=
  if layout.inFlow || column < layout.nested then layout
  else { layout.insertToken number (.blockOpen kind) with
    indentations := column :: layout.indentations }

/-- End the block collections that are further in than a column, or all. -/
def outdent (layout : Layout) (column : Option Nat) : Layout :=
  if layout.inFlow then layout
  else
    let (inner, remaining) := layout.indentations.span fun held => column.all (· < held)
    { layout with
      indentations := remaining
      tokens := List.replicate inner.length .blockClose ++ layout.tokens }

/-- Whether a candidate can no longer be a key: its line is over, or it is too long. -/
def isStale (layout : Layout) (candidate : Candidate) : Bool :=
  candidate.place.line < layout.place.line || candidate.place.offset + 1024 < layout.place.offset

end Layout

namespace Walk

/-- The text is wrong. -/
def refuse {α : Type} : Walk α := fun _ => none

/-- Take characters with a reader, and go on to the place after them. -/
def take {α : Type} (reader : Reader Char α) : Walk α := fun layout => do
  let (a, rest) ← reader layout.rest
  let taken := layout.rest.take (layout.rest.length - rest.length)
  return (a, { layout with rest, place := taken.foldl Place.after layout.place })

/-- Put a token at the end. -/
def emit (token : Token) : Walk Unit := modify fun layout =>
  { layout with tokens := token :: layout.tokens }

/-- Say whether a key may begin at the next token. -/
def allowKey (allowed : Bool) : Walk Unit := modify fun layout =>
  { layout with keyAllowed := allowed }

/-- Give up the candidate at hand, which must not be required. -/
def dropCandidate : Walk Unit := do
  if (← get).candidate.any (·.required) then refuse
  modify fun layout => { layout with candidate := none }

/-- Make the next token the candidate at hand, where a key may begin. -/
def mark : Walk Unit := do
  let layout ← get
  if layout.keyAllowed then
    dropCandidate
    let required := !layout.inFlow && layout.indentations.head? == some layout.place.column
    modify fun layout =>
      { layout with candidate := some ⟨layout.tokens.length, layout.place, required⟩ }

/-- Give up the candidates that can no longer be keys; a required one must not be among them. -/
def dropStale : Walk Unit := do
  let layout ← get
  let fresh (candidate : Option Candidate) : Option Candidate :=
    candidate.filter fun c => !layout.isStale c
  let all := layout.candidate :: layout.outer
  if all.any fun candidate => candidate.any fun c => c.required && layout.isStale c then refuse
  set { layout with candidate := fresh layout.candidate, outer := layout.outer.map fresh }

/-! ## 2. Between tokens -/

/-- Where between two tokens a character stands. -/
inductive GapPart where
  /-- At the begin of a line. -/
  | lineStart
  /-- Further on in a line. -/
  | line
  /-- In a comment. -/
  | comment
deriving DecidableEq

/-- The text from the next token on, and whether a line break comes before it. Tabs are skipped
    where `tabs` says so, but in a block not after a line break. A byte order mark is skipped at the
    begin of a line, and takes a column. -/
def skipGap (inFlow : Bool) : (tabs : Bool) → GapPart → (broken : Bool) → List Char →
    Bool × List Char
  | _, _, broken, [] => (broken, [])
  | tabs, part, broken, c :: rest =>
    if isBreak c then skipGap inFlow inFlow .lineStart true rest
    else if part = .comment then skipGap inFlow tabs .comment broken rest
    else if c = ' ' || (tabs && c = '\t') || (part = .lineStart && c = '\uFEFF') then
      skipGap inFlow tabs .line broken rest
    else if c = '#' then skipGap inFlow tabs .comment broken rest
    else (broken, c :: rest)

/-- Go to the next token. In a block a key may begin on a new line. -/
def toNextToken : Walk Unit := do
  let layout ← get
  let part := if layout.place.column = 0 then .lineStart else .line
  let broken ← take fun input =>
    some (skipGap layout.inFlow (layout.inFlow || !layout.keyAllowed) part false input)
  if broken && !layout.inFlow then allowKey true

/-! ## 3. Tokens -/

/-- Takes a number of characters. -/
def skip (count : Nat) : Walk Unit := take fun input => some ((), input.drop count)

/-- End every block. -/
def endBlocks : Walk Unit := do
  modify (·.outdent none)
  dropCandidate
  allowKey false

/-- A directive. -/
def directive : Walk Unit := do
  endBlocks
  skip 1
  emit (.directive (← take Yaml.directive))

/-- The marker of a document. -/
def marker (token : Token) : Walk Unit := do
  endBlocks
  skip 3
  emit token

/-- An opening bracket. -/
def openFlow (kind : Kind) : Walk Unit := do
  mark
  modify fun layout =>
    { layout with candidate := none, outer := layout.candidate :: layout.outer }
  allowKey true
  skip 1
  emit (.flowOpen kind)

/-- A closing bracket; one that closes nothing is left for the grammar to refuse. -/
def closeFlow (kind : Kind) : Walk Unit := do
  dropCandidate
  modify fun layout =>
    match layout.outer with
    | [] => layout
    | candidate :: outer => { layout with candidate, outer }
  allowKey false
  skip 1
  emit (.flowClose kind)

/-- A comma in a flow collection. -/
def comma : Walk Unit := do
  dropCandidate
  allowKey true
  skip 1
  emit .comma

/-- In a block, begin a collection here, where a key may begin. -/
def beginHere (kind : Kind) : Walk Unit := do
  let layout ← get
  unless layout.inFlow do
    if !layout.keyAllowed then refuse
    set (layout.indent kind layout.place.column layout.tokens.length)

/-- The mark of an item. -/
def item : Walk Unit := do
  beginHere .sequence
  dropCandidate
  allowKey true
  skip 1
  emit .item

/-- The mark of a key. -/
def key : Walk Unit := do
  beginHere .mapping
  dropCandidate
  allowKey (!(← get).inFlow)
  skip 1
  emit .key

/-- The colon before a value: it makes a key of the candidate at hand. -/
def value : Walk Unit := do
  let layout ← get
  match layout.candidate with
  | some c =>
    set { (layout.insertToken c.number .key).indent .mapping c.place.column c.number with
      candidate := none, keyAllowed := false }
  | none =>
    beginHere .mapping
    allowKey (!layout.inFlow)
  skip 1
  emit .value

/-- A token that can begin a key, and after which none can begin. -/
def nodePart (reader : Reader Char Token) : Walk Unit := do
  mark
  allowKey false
  emit (← take reader)

/-- A block scalar. -/
def blockScalar (folded : Bool) : Walk Unit := do
  dropCandidate
  allowKey true
  skip 1
  let outer := (← get).indentations.head?
  emit (.scalar (← take (Block.read folded outer)) false)

/-- A plain scalar. After a line break a key may begin again. -/
def plainScalar : Walk Unit := do
  mark
  allowKey false
  let layout ← get
  let (text, broken) ← take (Plain.read layout.inFlow layout.nested)
  if broken then allowKey true
  emit (.scalar text true)

/-- The token that begins with a character. -/
def token (layout : Layout) (c : Char) (second : Option Char) : Walk Unit :=
  let inFlow := layout.inFlow
  let atStart := layout.place.column == 0
  if atStart && c = '%' then directive
  else if atStart && startsWithMarker layout.rest then
    marker (if c = '-' then .documentStart else .documentEnd)
  else if c = '[' then openFlow .sequence
  else if c = '{' then openFlow .mapping
  else if c = ']' then closeFlow .sequence
  else if c = '}' then closeFlow .mapping
  else if c = ',' then comma
  else if c = '-' && isGap? second then item
  else if c = '?' && (inFlow || isGap? second) then key
  else if c = ':' && (inFlow || isGap? second) then value
  else if c = '*' then nodePart do let _ ← Reader.next; return .alias (← anchorName)
  else if c = '&' then nodePart do let _ ← Reader.next; return .anchor (← anchorName)
  else if c = '!' then nodePart do return .tag (← tag inFlow)
  else if (c = '|' || c = '>') && !inFlow then blockScalar (c = '>')
  else if c = '\'' || c = '"' then
    nodePart do let _ ← Reader.next; return .scalar (← Quoted.read c) false
  else if Plain.canStart inFlow c second then plainScalar
  else refuse

/-- Take the next token; at the end of the text, end every block and say that nothing is left. -/
def step : Walk Bool := do
  toNextToken
  dropStale
  modify fun layout => layout.outdent (some layout.place.column)
  let layout ← get
  match layout.rest with
  | [] => endBlocks; return false
  | c :: rest => token layout c rest.head?; return true

/-- Take tokens until nothing is left. The bound is on their number. -/
def steps : Nat → Walk Unit
  | 0 => refuse
  | bound + 1 => do if ← step then steps bound

end Walk

/-- The tokens of a text that is ready to be read. -/
def tokens? (text : List Char) : Option (List Token) :=
  (Walk.steps (text.length + 1) (.start text)).map fun (_, layout) => layout.tokens.reverse

end Picklist.Yaml
