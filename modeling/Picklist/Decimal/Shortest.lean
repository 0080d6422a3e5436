/-!
# The fewest digits of a double

A finite double is `significand * 2 ^ exponent`. The reals that round to it form an interval,
whose ends belong to it exactly when the significand is even. The shortest decimal is found on
the coarsest decimal grid that has a point in that interval, in exact natural arithmetic.

* `Binary.ofBits`: the significand and the exponent.
* `Binary.readsBack`: the interval test.
* `Binary.shortest`: the fewest digits; of two candidates the nearer, of two as near the even one.
-/

namespace Picklist.Decimal

/-- A finite non-negative double, `significand * 2 ^ exponent`. -/
structure Binary where
  significand : Nat
  exponent : Int
  /-- The gap to the value below is half the gap to the value above. -/
  narrowBelow : Bool
deriving DecidableEq

/-- The absolute value of the double with these bits, which must not be those of an infinity or
    of no number. -/
def Binary.ofBits (bits : UInt64) : Binary :=
  let biased := (bits >>> 52 &&& 0x7FF).toNat
  let fraction := (bits &&& 0xFFFFFFFFFFFFF).toNat
  if biased = 0 then ⟨fraction, -1074, false⟩
  else ⟨0x10000000000000 + fraction, (biased : Int) - 1075, fraction = 0 && 1 < biased⟩

/-- The decimal `digits * 10 ^ exponent`. -/
structure Digits where
  digits : Nat
  exponent : Int
deriving DecidableEq

namespace Binary

/-- The value and a decimal unit `10 ^ grid` as two naturals in the proportion of a quarter of the
    last binary place: the value is `4 * significand * scale.1`, the unit is `scale.2`. -/
def scale (b : Binary) (grid : Int) : Nat × Nat :=
  (Nat.pow 2 (b.exponent - 2).toNat * Nat.pow 10 (-grid).toNat,
    Nat.pow 2 (2 - b.exponent).toNat * Nat.pow 10 grid.toNat)

/-- Whether `digits * 10 ^ grid` lies among the reals that round to the double. -/
def readsBack (b : Binary) (digits : Nat) (grid : Int) : Bool :=
  let (quarter, unit) := b.scale grid
  let low := (4 * b.significand - (if b.narrowBelow then 1 else 2)) * quarter
  let high := (4 * b.significand + 2) * quarter
  let point := digits * unit
  if b.significand % 2 = 0 then low ≤ point && point ≤ high else low < point && point < high

/-- The point of the grid that reads back: the nearer of the two neighbours of the value, and
    the even one when both are as near. -/
def onGrid (b : Binary) (grid : Int) : Option Digits :=
  let (quarter, unit) := b.scale grid
  let value := 4 * b.significand * quarter
  let below := value / unit
  let above := below + 1
  match b.readsBack below grid, b.readsBack above grid with
  | false, false => none
  | true, false => some ⟨below, grid⟩
  | false, true => some ⟨above, grid⟩
  | true, true =>
    match compare (2 * value) ((below + above) * unit) with
    | .lt => some ⟨below, grid⟩
    | .gt => some ⟨above, grid⟩
    | .eq => some ⟨if below % 2 = 0 then below else above, grid⟩

/-- The least `k` with the value below `10 ^ k`, for a value that is not zero. -/
def magnitude (b : Binary) : Int :=
  let shifted :=
    b.significand * Nat.pow 2 b.exponent.toNat * Nat.pow 10 340 / Nat.pow 2 (-b.exponent).toNat
  ((Nat.toDigits 10 shifted).length : Int) - 340

/-- The value written out in full. -/
def exact (b : Binary) : Digits :=
  if 0 ≤ b.exponent then ⟨b.significand * Nat.pow 2 b.exponent.toNat, 0⟩
  else ⟨b.significand * Nat.pow 5 (-b.exponent).toNat, b.exponent⟩

/-- The fewest digits that read back, for a value that is not zero. -/
def shortest (b : Binary) : Digits :=
  let top := b.magnitude
  ((List.range 17).findSome? fun fewer => b.onGrid (top - (fewer + 1 : Nat))).getD b.exact

end Binary

end Picklist.Decimal
