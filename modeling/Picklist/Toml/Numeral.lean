import Picklist.Decimal.Reading
import Picklist.Number
import Picklist.Reader
import Picklist.Text

/-!
# Numbers of TOML

Digits may be grouped by single underscores between them. Whole numbers have 64 bits with a sign;
in the bases 2, 8 and 16 they have no sign. Reals are rounded to the nearest double; documents
hold neither infinities nor a value that is no number, so these come out as nothing.
-/

namespace Picklist.Toml

open Reader

/-- Digits in groups: the test says what counts as a digit. -/
def grouped (isDigit : Char → Bool) : Reader Char (List Char) := do
  let groups := Text.pieces '_' (← takeSome fun c => isDigit c || c == '_')
  if groups.any (·.isEmpty) then refuse else return groups.flatten

/-- A whole number that fits 64 bits with a sign. -/
def whole? (n : Int) : Option Number :=
  if -0x8000000000000000 ≤ n ∧ n < 0x8000000000000000 then some (.integer n) else none

/-- A whole number in a base other than ten, after its mark. -/
def based (base : Nat) (isDigit : Char → Bool) : Reader Char Number := do
  let digits ← grouped isDigit
  require ((Text.numeral? base digits).bind fun n => whole? n)

/-- The exponent after its letter. -/
def exponent : Reader Char Int := do
  let negative ← accept '-'
  unless negative do let _ ← accept '+'
  let n ← require (Text.numeral? 10 (← grouped Char.isDigit))
  return if negative then -(n : Int) else n

/-- A double with its sign, none for the negative infinity; the positive one is refused. -/
def real (negative : Bool) (digits : List Char) (exponent : Int) : Reader Char (Option Number) := do
  let x := Decimal.nearest (← require (Text.numeral? 10 digits)) exponent
  if x.isInf then if negative then return none else refuse
  return some (.real (if negative then -x else x))

/-- A decimal number after its sign. -/
def decimal (negative : Bool) : Reader Char (Option Number) := do
  let digits ← grouped Char.isDigit
  if digits.head? == some '0' && 1 < digits.length then refuse
  let point ← accept '.'
  let fraction ← if point then grouped Char.isDigit else pure []
  let scaled ← do if ← accept 'e' then pure true else accept 'E'
  let power ← if scaled then exponent else pure 0
  if point || scaled then real negative (digits ++ fraction) (power - fraction.length)
  else
    let n ← require (Text.numeral? 10 digits)
    some <$> require (whole? (if negative then -(n : Int) else n))

/-- The words for an infinity and for what is no number. -/
def unbounded : Reader Char Unit := do
  match ← peek with
  | some 'i' => expectAll ['i', 'n', 'f']
  | _ => expectAll ['n', 'a', 'n']

/-- A number of any kind, none where documents hold none. -/
def number : Reader Char (Option Number)
  | '0' :: 'x' :: rest => (some <$> based 16 fun c => (Text.digit? c).isSome) rest
  | '0' :: 'o' :: rest => (some <$> based 8 Char.isDigit) rest
  | '0' :: 'b' :: rest => (some <$> based 2 Char.isDigit) rest
  | '+' :: rest => (signed false) rest
  | '-' :: rest => (signed true) rest
  | rest => (signed false) rest
where
  /-- A decimal number or a word, after the sign. -/
  signed (negative : Bool) : Reader Char (Option Number) := do
    match ← attempt unbounded with
    | some _ => return none
    | none => decimal negative

end Picklist.Toml
