import Picklist.Decimal.Shortest

/-!
# How a double is laid out as text

The digits are the fewest that read back. A layout says which exponents are written out in
places; beyond them one digit stands before the point and the exponent follows with its sign.
-/

namespace Picklist.Decimal

/-- The exponents of the leading digit, from `plainFrom` up to but not including `plainBelow`,
    that are written out in places. -/
structure Layout where
  plainFrom : Int
  plainBelow : Int

/-- Digits without the zeros at their end. -/
def dropFinalZeros (digits : List Char) : List Char :=
  (digits.reverse.dropWhile (· = '0')).reverse

/-- Digits written out in places, at least one of them after the point; `leading` is the exponent
    of the first digit. -/
def inPlaces (digits : List Char) (leading : Int) : List Char :=
  if leading < 0 then
    '0' :: '.' :: List.replicate (-leading - 1).toNat '0' ++ digits
  else
    let whole := leading.toNat + 1
    let fraction := digits.drop whole
    digits.take whole ++ List.replicate (whole - digits.length) '0'
      ++ '.' :: (if fraction.isEmpty then ['0'] else fraction)

/-- Digits with one before the point, and the exponent of that digit with its sign. -/
def withExponent (digits : List Char) (leading : Int) : List Char :=
  let mantissa := match digits with
    | [] => []
    | [d] => [d]
    | d :: fraction => d :: '.' :: fraction
  mantissa ++ 'e' :: (if leading < 0 then '-' else '+') :: Nat.toDigits 10 leading.natAbs

namespace Layout

/-- The text of a decimal that is not zero. -/
def ofDigits (layout : Layout) (d : Digits) : List Char :=
  let written := Nat.toDigits 10 d.digits
  let leading := d.exponent + (written.length : Int) - 1
  let digits := dropFinalZeros written
  if layout.plainFrom ≤ leading ∧ leading < layout.plainBelow then inPlaces digits leading
  else withExponent digits leading

/-- The text of a finite double; both zeros keep their sign. -/
def text (layout : Layout) (x : Float) : List Char :=
  let b := Binary.ofBits x.toBits
  let magnitude := if b.significand = 0 then ['0', '.', '0'] else layout.ofDigits b.shortest
  if x.toBits >>> 63 = 1 then '-' :: magnitude else magnitude

end Layout

end Picklist.Decimal
