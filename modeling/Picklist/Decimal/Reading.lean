/-!
# Reading decimals

A decimal is `digits * 10 ^ exponent`. Two ways of taking it to a double are in use.

* `nearest`: the nearest double, ties to even, whatever the number of digits.
* `scaled?`: the leading digits that fit 64 bits are taken to a double first, which is then scaled
  once by a power of ten; a result beyond the largest double is refused.
-/

namespace Picklist.Decimal

/-- The double nearest to `digits * 10 ^ exponent`, an infinity when it is too large. -/
def nearest (digits : Nat) (exponent : Int) : Float :=
  let size := ((Nat.toDigits 10 digits).length : Int) + exponent
  if digits = 0 ∨ size < -400 then 0.0
  else if 400 < size then 1.0 / 0.0
  else Float.ofScientific digits (exponent < 0) exponent.natAbs

/-- `10 ^ exponent` as a double, for an exponent up to 308. -/
def powerOfTen (exponent : Nat) : Float := Float.ofScientific 1 false exponent

/-- Take digits on to a number as long as the result stays below `2 ^ 64`: the number, and the
    digits that were left over. -/
def absorb (start : Nat) : List Nat → Nat × List Nat
  | [] => (start, [])
  | d :: rest =>
    let next := start * 10 + d
    if next < 2 ^ 64 then absorb next rest else (start, d :: rest)

/-- A double times a power of ten, rounded once; beyond the largest double there is none. Below
    `10 ^ -308` the division is done in steps of that size. -/
def scaleByTen? (x : Float) (exponent : Int) : Option Float :=
  if x == 0.0 then some x
  else if 0 ≤ exponent then
    if exponent ≤ 308 then some (x * powerOfTen exponent.toNat) |>.filter (·.isFinite) else none
  else
    let places := (-exponent).toNat
    if 1000 < places then some 0.0
    else
      let steps := (places - 1) / 308
      let reduced := steps.repeat (· / powerOfTen 308) x
      some (reduced / powerOfTen (places - 308 * steps))

/-- The double of a decimal numeral given as the digits before and after its point and its
    exponent. Digits before the point that no longer fit count as powers of ten; digits after it
    that no longer fit count as nothing. -/
def scaled? (whole fraction : List Nat) (exponent : Int) : Option Float :=
  let (start, dropped) := absorb 0 whole
  let (significand, unused) := absorb start fraction
  let places := fraction.length - unused.length
  scaleByTen? significand.toUInt64.toFloat (exponent + dropped.length - places)

end Picklist.Decimal
