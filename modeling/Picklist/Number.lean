import Picklist.Decimal.Layout

/-!
# Numbers

A number is whole or real, and stays what it was written as: `1` and `1.0` are different numbers.
Whole numbers of documents lie between `-2 ^ 63` and `2 ^ 64`; reals are finite doubles.

* `Number.canonical`: both zeros of the reals are one number.
* `Number.text`: whole numbers in decimal, reals with the fewest digits that read back.
-/

namespace Picklist

/-- A number of a document: a whole number or a double. -/
inductive Number where
  | integer (n : Int)
  | real (x : Float)
deriving DecidableEq, Inhabited

namespace Number

/-- The whole numbers that documents can hold, from `-2 ^ 63` to below `2 ^ 64`. -/
def inRange (n : Int) : Bool := -0x8000000000000000 ≤ n && n < 0x10000000000000000

/-- Whether the number is zero, of either kind and sign. -/
def isZero : Number → Bool
  | .integer n => n == 0
  | .real x => x == 0.0

/-- The number that stands for all equal ones: the negative zero becomes the positive one. -/
def canonical : Number → Number
  | .integer n => .integer n
  | .real x => .real (if x == 0.0 then 0.0 else x)

/-- Reals from `0.00001` to below `10000000000000000.0` are written out in places. -/
def layout : Decimal.Layout := ⟨-5, 16⟩

/-- The text of a number. -/
def text : Number → String
  | .integer n => toString n
  | .real x => String.ofList (layout.text x)

/-- The canonical number is zero exactly when the number is. -/
theorem isZero_canonical (n : Number) : n.canonical.isZero = n.isZero := by
  cases n with
  | integer n => rfl
  | real x =>
    simp only [canonical, isZero]
    split
    · rename_i h; rw [h]; decide +kernel
    · rfl

end Number

end Picklist
