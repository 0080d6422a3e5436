import Picklist.Decimal.Reading
import Picklist.Text
import Picklist.Value
import Picklist.Yaml.Property

/-!
# What scalars mean

A plain scalar is `null`, a truth value, a number or a text, by its spelling; any other scalar is a
text. A core tag asks for one of the kinds; a tag of one's own is refused, and so is the bare
exclamation mark.

* Digits after a leading zero are a text, and so is a number that no finite double comes near.
* Whole numbers beyond 64 bits are refused up to 128 bits, and are reals beyond.
* Documents hold neither infinities nor values that are no number: these come out as `null`.
-/

namespace Picklist.Yaml.Scalar

/-! ## 1. Spellings -/

/-- The spellings of `null`. -/
def isNull (text : String) : Bool := ["null", "Null", "NULL", "~"].contains text

/-- A truth value. -/
def bool? (text : String) : Option Bool :=
  if ["true", "True", "TRUE"].contains text then some true
  else if ["false", "False", "FALSE"].contains text then some false
  else none

/-- A whole number in another base, after its sign. -/
def based? : List Char → Option Nat
  | '0' :: 'x' :: digits => Text.numeral? 16 digits
  | '0' :: 'o' :: digits => Text.numeral? 8 digits
  | '0' :: 'b' :: digits => Text.numeral? 2 digits
  | _ => none

/-- The text without one sign. -/
def unsigned : List Char → List Char
  | '+' :: rest => rest
  | '-' :: rest => rest
  | all => all

/-- Digits after a leading zero. -/
def isPadded (text : List Char) : Bool :=
  match unsigned text with
  | '0' :: d :: digits => (d :: digits).all Char.isDigit
  | _ => false

/-- A whole number in any base, after its sign. -/
def magnitude? (digits : List Char) : Option Nat :=
  based? digits <|> if isPadded digits then none else Text.numeral? 10 digits

/-- A whole number of any size. -/
def whole? : List Char → Option Int
  | '-' :: digits => (magnitude? digits).map fun n => -(n : Int)
  | '+' :: digits => (magnitude? digits).map fun n => (n : Int)
  | digits => (magnitude? digits).map fun n => (n : Int)

/-- The exponent of a decimal after its letter. -/
def exponent? (text : List Char) : Option Int := Text.signed? text

/-- A decimal without its sign: digits, at least one, with a point anywhere among them, and perhaps
    an exponent. -/
def decimal? (text : List Char) : Option Float := do
  let (whole, rest) := text.span Char.isDigit
  let (fraction, rest) := match rest with
    | '.' :: more => more.span Char.isDigit
    | _ => ([], rest)
  let exponent ← match rest with
    | [] => some 0
    | 'e' :: more => exponent? more
    | 'E' :: more => exponent? more
    | _ => none
  let digits ← Text.numeral? 10 (whole ++ fraction)
  let x := Decimal.nearest digits (exponent - fraction.length)
  if x.isInf then none else some x

/-- The spellings of an infinity without its sign. -/
def isInfinity (text : List Char) : Bool :=
  [".inf", ".Inf", ".INF"].contains (String.ofList text)

/-- The spellings of what is no number. -/
def isNoNumber (text : List Char) : Bool :=
  [".nan", ".NaN", ".NAN"].contains (String.ofList text)

/-- A real number, or `null` where documents hold none. -/
def real? (text : List Char) : Option Value :=
  if isInfinity (unsigned text) || isNoNumber text then some .null
  else match text with
    | '-' :: digits => (decimal? digits).map fun x => .number (.real (-x))
    | '+' :: digits => (decimal? digits).map fun x => .number (.real x)
    | digits => (decimal? digits).map fun x => .number (.real x)

/-! ## 2. Values -/

/-- A whole number of 64 bits. -/
def integer? (text : List Char) : Option Value :=
  ((whole? text).filter Number.inRange).map fun n => .number (.integer n)

/-- Whether a whole number has more than 64 bits and at most 128. -/
def isTooWide (n : Int) : Bool :=
  !Number.inRange n && -0x80000000000000000000000000000000 ≤ n &&
    n < 0x100000000000000000000000000000000

/-- What a plain scalar without a tag means. -/
def plain? (text : String) : Option Value :=
  let chars := text.toList
  if text = "" || isNull text then some .null
  else match bool? text with
    | some b => some (.bool b)
    | none =>
      if (whole? chars).any isTooWide then none
      else some ((integer? chars).getD
        (if isPadded chars then .string text else (real? chars).getD (.string text)))

/-- The text of a core tag. -/
def coreTag (name : String) : TagText := bytesOf ("tag:yaml.org,2002:" ++ name)

/-- Whether a tag is one's own: it begins with an exclamation mark. -/
def isOwn (tag : TagText) : Bool := tag.head? == some 0x21

/-- Whether a tag is one's own and is a text. -/
def isRefused (tag : Option TagText) : Bool :=
  tag.any fun t => isOwn t && (String.fromUTF8? ⟨t.toArray⟩).isSome

/-- What a scalar means, if it means anything. -/
def value? (tag : Option TagText) (text : String) (plain : Bool) : Option Value :=
  match tag with
  | none => if plain then plain? text else some (.string text)
  | some t =>
    if isRefused tag then none
    else if t = coreTag "bool" then (bool? text).map .bool
    else if t = coreTag "int" then integer? text.toList
    else if t = coreTag "float" then real? text.toList
    else if t = coreTag "null" then if isNull text then some .null else none
    else if isOwn t && plain then plain? text
    else some (.string text)

end Picklist.Yaml.Scalar
