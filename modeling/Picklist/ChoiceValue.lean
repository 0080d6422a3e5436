import Picklist.Entry
import Picklist.Text

/-!
# The value that a choice submits

A choice submits a text or a number. Keys that spell a whole number in the canonical way become
numbers, all other keys stay texts.

* `ChoiceValue.ofKey`: the value of a key.
* `ChoiceValue.ofValue`: the value of a field.
* `ChoiceValue.same`: equality, of numbers by kind and value.
-/

namespace Picklist

/-- What a choice submits. -/
inductive ChoiceValue where
  | text (s : String)
  | number (n : Number)
deriving DecidableEq, Inhabited

namespace ChoiceValue

/-- The whole number between `-2 ^ 63` and `2 ^ 63` that a key spells canonically: no plus sign,
    no zeros in front, no negative zero. -/
def canonicalInteger? (key : String) : Option Int :=
  (Text.signed? key.toList).filter fun n =>
    -0x8000000000000000 ≤ n && n < 0x8000000000000000 && toString n == key

/-- The value of a key. -/
def ofKey (key : String) : ChoiceValue :=
  match canonicalInteger? key with
  | some n => .number (.integer n)
  | none => .text key

/-- The value of a field: true is `1`, false and `null` are the empty text, containers are their
    JSON text. -/
def ofValue : Value → ChoiceValue
  | .string s => .text s
  | .number n => .number n
  | .bool true => .number (.integer 1)
  | .bool false => .text ""
  | .null => .text ""
  | v => .text (Json.compact v)

/-- The value as a plain value. -/
def toValue : ChoiceValue → Value
  | .text s => .string s
  | .number n => .number n

/-- The submitted text. -/
def display : ChoiceValue → String
  | .text s => s
  | .number n => n.text

/-- Whether the value is a number. -/
def isNumber : ChoiceValue → Bool
  | .text _ => false
  | .number _ => true

/-- The value that stands for all equal ones. -/
def canonical : ChoiceValue → ChoiceValue
  | .text s => .text s
  | .number n => .number n.canonical

/-- Equality: texts with texts, numbers with numbers of the same kind. -/
def same (v w : ChoiceValue) : Bool := v.canonical = w.canonical

end ChoiceValue

end Picklist
