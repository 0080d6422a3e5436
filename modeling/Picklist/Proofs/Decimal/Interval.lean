import Mathlib.Algebra.Order.Field.Power
import Mathlib.Tactic.Linarith
import Mathlib.Tactic.Positivity
import Mathlib.Tactic.Ring
import Picklist.Decimal.Shortest

/-!
# The numbers that round to a double

The numbers that round to a double lie between the midpoints to its neighbours; a midpoint belongs
to the neighbour with the even significand.

* `Binary.nth`: the doubles from zero up, numbered by their bits;
* `Binary.RoundsTo`: the interval of a double;
* `readsBack_iff`: the test of a candidate is that interval;
* `nth_eq_of_roundsTo`: a number rounds to one double alone, because the interval of each double
  ends where that of the next begins, and only one of the two has an even significand;
* `shortest_roundsTo`: the fewest digits of a double round to it.
-/

namespace Picklist.Decimal

/-- The number that digits stand for. -/
def Digits.value (d : Digits) : ℚ := d.digits * 10 ^ d.exponent

namespace Binary

/-! ## 1. Doubles in order -/

/-- The doubles from zero up: eleven bits of exponent over 52 bits of fraction. -/
def nth (n : Nat) : Binary :=
  if n / 2 ^ 52 = 0 then ⟨n % 2 ^ 52, -1074, false⟩
  else ⟨2 ^ 52 + n % 2 ^ 52, (n / 2 ^ 52 : Nat) - 1075, n % 2 ^ 52 = 0 && 1 < n / 2 ^ 52⟩

/-- The bits without the sign number the double. -/
theorem ofBits_eq_nth (bits : UInt64) : ofBits bits = nth (bits.toNat % 2 ^ 63) := by
  have hbiased : (bits >>> 52 &&& 0x7FF).toNat = bits.toNat % 2 ^ 63 / 2 ^ 52 := by
    have hmask : bits.toNat >>> 52 &&& 2 ^ 11 - 1 = bits.toNat >>> 52 % 2 ^ 11 :=
      Nat.and_two_pow_sub_one_eq_mod _ _
    rw [UInt64.toNat_and, UInt64.toNat_shiftRight]
    change bits.toNat >>> 52 &&& 2 ^ 11 - 1 = _
    rw [hmask, Nat.shiftRight_eq_div_pow]
    omega
  have hfraction : (bits &&& 0xFFFFFFFFFFFFF).toNat = bits.toNat % 2 ^ 63 % 2 ^ 52 := by
    have hmask : bits.toNat &&& 2 ^ 52 - 1 = bits.toNat % 2 ^ 52 :=
      Nat.and_two_pow_sub_one_eq_mod _ _
    rw [UInt64.toNat_and]
    change bits.toNat &&& 2 ^ 52 - 1 = _
    rw [hmask]
    omega
  unfold ofBits nth
  simp only [hbiased, hfraction]
  rfl

/-- Neighbours have significands of different parity. -/
theorem significand_nth_mod_two (n : Nat) : (nth n).significand % 2 = n % 2 := by
  unfold nth
  split <;> simp only <;> omega

/-! ## 2. The interval -/

/-- The midpoint to the value below. -/
def lower (b : Binary) : ℚ :=
  (4 * b.significand - (if b.narrowBelow then 1 else 2) : Nat) * 2 ^ (b.exponent - 2)

/-- The midpoint to the value above. -/
def upper (b : Binary) : ℚ := (4 * b.significand + 2 : Nat) * 2 ^ (b.exponent - 2)

/-- The numbers that round to a double. -/
structure RoundsTo (b : Binary) (q : ℚ) : Prop where
  lower_le : b.lower ≤ q
  le_upper : q ≤ b.upper
  even_of_end : q = b.lower ∨ q = b.upper → b.significand % 2 = 0

theorem lower_lt_upper (b : Binary) : b.lower < b.upper := by
  unfold lower upper
  have hunit : (0 : ℚ) < 2 ^ (b.exponent - 2) := by positivity
  have hlt : 4 * b.significand - (if b.narrowBelow then 1 else 2) < 4 * b.significand + 2 := by
    omega
  exact mul_lt_mul_of_pos_right (Nat.cast_lt.mpr hlt) hunit

/-- The last fraction of an exponent is followed by the first fraction of the next one. -/
theorem succ_of_last {n : Nat} (hlast : n % 2 ^ 52 = 2 ^ 52 - 1) :
    (n + 1) / 2 ^ 52 = n / 2 ^ 52 + 1 ∧ (n + 1) % 2 ^ 52 = 0 := by
  omega

/-- Any other fraction is followed by one of the same exponent. -/
theorem succ_of_not_last {n : Nat} (hlast : n % 2 ^ 52 ≠ 2 ^ 52 - 1) :
    (n + 1) / 2 ^ 52 = n / 2 ^ 52 ∧ (n + 1) % 2 ^ 52 = n % 2 ^ 52 + 1 := by
  omega

/-- **The interval of each double ends where that of the next begins.** -/
theorem upper_nth (n : Nat) : (nth n).upper = (nth (n + 1)).lower := by
  unfold upper lower nth
  by_cases hlast : n % 2 ^ 52 = 2 ^ 52 - 1
  · obtain ⟨hbiased, hfraction⟩ := succ_of_last hlast
    rw [hbiased, hfraction, hlast]
    by_cases hzero : n / 2 ^ 52 = 0
    · rw [hzero, if_pos rfl, if_neg (Nat.succ_ne_zero _)]
      norm_num
    · -- the unit doubles, and the gap below a power of two is half as wide
      have hunit : (2 : ℚ) ^ (((n / 2 ^ 52 + 1 : Nat) : Int) - 1075 - 2)
          = 2 * 2 ^ (((n / 2 ^ 52 : Nat) : Int) - 1075 - 2) := by
        rw [← zpow_one_add₀ (by norm_num)]
        congr 1
        omega
      have hnarrow : 1 < n / 2 ^ 52 + 1 := by omega
      rw [if_neg hzero, if_neg (Nat.succ_ne_zero _)]
      simp only [hunit, hnarrow, decide_true, Bool.and_self, if_true]
      rw [← mul_assoc]
      congr 1
      norm_num
  · obtain ⟨hbiased, hfraction⟩ := succ_of_not_last hlast
    rw [hbiased, hfraction]
    split
    · simp only [Bool.false_eq_true, if_false]
      congr 2
    · simp only [Nat.succ_ne_zero, decide_false, Bool.false_and, Bool.false_eq_true, if_false]
      congr 2

theorem upper_nth_le_lower_nth {m n : Nat} (h : m < n) : (nth m).upper ≤ (nth n).lower := by
  induction n, h using Nat.le_induction with
  | base => exact (upper_nth m).le
  | succ n _ ih => exact ih.trans ((lower_lt_upper _).le.trans (upper_nth n).le)

/-- Of two different doubles only one has a given number in its interval. -/
theorem not_roundsTo_of_lt {m n : Nat} (h : m < n) {q : ℚ} (hm : (nth m).RoundsTo q) :
    ¬ (nth n).RoundsTo q := by
  intro hn
  have hends : (nth m).upper ≤ (nth n).lower := upper_nth_le_lower_nth h
  have hupper : q = (nth m).upper := le_antisymm hm.le_upper (hends.trans hn.lower_le)
  have hlower : q = (nth n).lower := le_antisymm (hm.le_upper.trans hends) hn.lower_le
  have hnext : n = m + 1 := by
    by_contra hne
    have hbetween : (nth (m + 1)).upper ≤ (nth n).lower := upper_nth_le_lower_nth (by omega)
    have hwide : (nth m).upper < (nth (m + 1)).upper := upper_nth m ▸ lower_lt_upper _
    linarith
  have hevenm := hm.even_of_end (.inr hupper)
  have hevenn := hn.even_of_end (.inl hlower)
  rw [significand_nth_mod_two] at hevenm hevenn
  omega

/-- **A number rounds to one double alone.** -/
theorem nth_eq_of_roundsTo {m n : Nat} {q : ℚ} (hm : (nth m).RoundsTo q) (hn : (nth n).RoundsTo q) :
    m = n := by
  rcases Nat.lt_trichotomy m n with h | h | h
  · exact absurd hn (not_roundsTo_of_lt h hm)
  · exact h
  · exact absurd hm (not_roundsTo_of_lt h hn)

/-! ## 3. The test of a candidate -/

/-- A power with a whole exponent, its numerator over its denominator. -/
theorem pow_toNat {a : ℚ} (ha : a ≠ 0) (z : Int) : a ^ z.toNat = a ^ z * a ^ (-z).toNat := by
  rw [← zpow_natCast, ← zpow_natCast, ← zpow_add₀ ha]
  congr 1
  omega

/-- The two naturals of a grid are a quarter of the last binary place and the decimal unit, both
    times one positive factor. -/
theorem exists_scale (b : Binary) (grid : Int) : ∃ factor : ℚ, 0 < factor ∧
    ((b.scale grid).1 : ℚ) = 2 ^ (b.exponent - 2) * factor ∧
      ((b.scale grid).2 : ℚ) = 10 ^ grid * factor := by
  refine ⟨2 ^ (2 - b.exponent).toNat * 10 ^ (-grid).toNat, by positivity, ?_, ?_⟩
  · have hpow := pow_toNat (a := 2) (by norm_num) (b.exponent - 2)
    rw [neg_sub] at hpow
    simp only [scale, Nat.pow_eq, Nat.cast_mul, Nat.cast_pow, Nat.cast_ofNat, hpow]
    ring
  · have hpow := pow_toNat (a := 10) (by norm_num) grid
    simp only [scale, Nat.pow_eq, Nat.cast_mul, Nat.cast_pow, Nat.cast_ofNat, hpow]
    ring

/-- **The test of a candidate is the interval.** -/
theorem readsBack_iff (b : Binary) (d : Digits) :
    b.readsBack d.digits d.exponent = true ↔ b.RoundsTo d.value := by
  obtain ⟨factor, hpos, hquarter, hunit⟩ := exists_scale b d.exponent
  have hpoint : ((d.digits * (b.scale d.exponent).2 : Nat) : ℚ) = d.value * factor := by
    rw [Nat.cast_mul, hunit, Digits.value, mul_assoc]
  have hlow : (((4 * b.significand - (if b.narrowBelow then 1 else 2))
      * (b.scale d.exponent).1 : Nat) : ℚ) = b.lower * factor := by
    rw [Nat.cast_mul, hquarter, lower, mul_assoc]
  have hhigh : (((4 * b.significand + 2) * (b.scale d.exponent).1 : Nat) : ℚ)
      = b.upper * factor := by
    rw [Nat.cast_mul, hquarter, upper, mul_assoc]
  have hle : ∀ {x y : Nat} {p q : ℚ}, (x : ℚ) = p * factor → (y : ℚ) = q * factor →
      (x ≤ y ↔ p ≤ q) := by
    intro x y p q hx hy
    rw [← Nat.cast_le (α := ℚ), hx, hy, mul_le_mul_iff_left₀ hpos]
  have hlt : ∀ {x y : Nat} {p q : ℚ}, (x : ℚ) = p * factor → (y : ℚ) = q * factor →
      (x < y ↔ p < q) := by
    intro x y p q hx hy
    rw [← Nat.cast_lt (α := ℚ), hx, hy, mul_lt_mul_iff_left₀ hpos]
  unfold readsBack
  simp only
  split
  · rename_i heven
    rw [Bool.and_eq_true, decide_eq_true_eq, decide_eq_true_eq, hle hlow hpoint, hle hpoint hhigh]
    exact ⟨fun h => ⟨h.1, h.2, fun _ => heven⟩, fun h => ⟨h.lower_le, h.le_upper⟩⟩
  · rename_i hodd
    rw [Bool.and_eq_true, decide_eq_true_eq, decide_eq_true_eq, hlt hlow hpoint, hlt hpoint hhigh]
    constructor
    · intro h
      exact ⟨h.1.le, h.2.le, fun e => (e.elim h.1.ne' h.2.ne).elim⟩
    · intro h
      exact ⟨lt_of_le_of_ne h.lower_le fun e => hodd (h.even_of_end (.inl e.symm)),
        lt_of_le_of_ne h.le_upper fun e => hodd (h.even_of_end (.inr e))⟩

/-! ## 4. The fewest digits -/

/-- A point of a grid is one that reads back. -/
theorem roundsTo_of_onGrid {b : Binary} {grid : Int} {d : Digits} (h : b.onGrid grid = some d) :
    b.RoundsTo d.value := by
  rw [← readsBack_iff]
  unfold onGrid at h
  simp only at h
  split at h
  · cases h
  · rename_i hbelow _
    obtain rfl := Option.some.inj h
    exact hbelow
  · rename_i _ habove
    obtain rfl := Option.some.inj h
    exact habove
  · rename_i hbelow habove
    split at h <;> obtain rfl := Option.some.inj h
    · exact hbelow
    · exact habove
    · simp only
      split
      · exact hbelow
      · exact habove

theorem value_exact (b : Binary) : b.exact.value = b.significand * 2 ^ b.exponent := by
  unfold exact Digits.value
  split
  · rename_i hwhole
    have hpow : (2 : ℚ) ^ b.exponent.toNat = 2 ^ b.exponent := by
      rw [pow_toNat (by norm_num), Int.toNat_of_nonpos (by omega), pow_zero, mul_one]
    simp [hpow]
  · rename_i hpart
    have hfive : (5 : ℚ) ^ (-b.exponent).toNat = 5 ^ (-b.exponent) := by
      rw [pow_toNat (by norm_num), neg_neg, Int.toNat_of_nonpos (by omega), pow_zero, mul_one]
    have hten : (10 : ℚ) ^ b.exponent = 2 ^ b.exponent * 5 ^ b.exponent := by
      rw [← mul_zpow]
      norm_num
    have hcancel : (5 : ℚ) ^ (-b.exponent) * 5 ^ b.exponent = 1 := by
      rw [← zpow_add₀ (by norm_num), neg_add_cancel, zpow_zero]
    simp only [Nat.pow_eq, Nat.cast_mul, Nat.cast_pow, Nat.cast_ofNat]
    calc (b.significand : ℚ) * 5 ^ (-b.exponent).toNat * 10 ^ b.exponent
        = b.significand * 2 ^ b.exponent * (5 ^ (-b.exponent) * 5 ^ b.exponent) := by
          rw [hfive, hten]; ring
      _ = b.significand * 2 ^ b.exponent := by rw [hcancel, mul_one]

/-- The value itself is inside the interval. -/
theorem roundsTo_exact {b : Binary} (h : b.significand ≠ 0) : b.RoundsTo b.exact.value := by
  have hunit : (0 : ℚ) < 2 ^ (b.exponent - 2) := by positivity
  have hvalue : b.exact.value = (4 * b.significand : Nat) * 2 ^ (b.exponent - 2) := by
    rw [value_exact, zpow_sub₀ (by norm_num)]
    push_cast
    ring
  have hlower : b.lower < b.exact.value := by
    rw [hvalue]
    refine mul_lt_mul_of_pos_right (Nat.cast_lt.mpr ?_) hunit
    split <;> omega
  have hupper : b.exact.value < b.upper := by
    rw [hvalue]
    refine mul_lt_mul_of_pos_right (Nat.cast_lt.mpr ?_) hunit
    omega
  exact ⟨hlower.le, hupper.le, fun e => (e.elim hlower.ne' hupper.ne).elim⟩

/-- **The fewest digits of a double round to it.** -/
theorem roundsTo_shortest {b : Binary} (h : b.significand ≠ 0) : b.RoundsTo b.shortest.value := by
  unfold shortest
  simp only
  cases hfound : (List.range 17).findSome?
      fun fewer => b.onGrid (b.magnitude - (fewer + 1 : Nat)) with
  | none => exact roundsTo_exact h
  | some d =>
    obtain ⟨fewer, _, hgrid⟩ := List.exists_of_findSome?_eq_some hfound
    exact roundsTo_of_onGrid hgrid

/-- The fewest digits of a double that is not zero are not all zeros. -/
theorem shortest_digits_ne_zero {b : Binary} (h : b.significand ≠ 0) : b.shortest.digits ≠ 0 := by
  intro hdigits
  have hlower : 0 < b.lower := by
    have hcount : 0 < 4 * b.significand - (if b.narrowBelow then 1 else 2) := by
      split <;> omega
    unfold lower
    positivity
  have hle := (roundsTo_shortest h).lower_le
  rw [Digits.value, hdigits] at hle
  simp at hle
  linarith

end Binary

end Picklist.Decimal
