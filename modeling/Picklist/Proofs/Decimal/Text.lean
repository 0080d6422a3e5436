import Mathlib.Data.List.TakeWhile
import Picklist.Decimal.Layout
import Picklist.Proofs.Decimal.Interval
import Picklist.Proofs.Numeral

/-!
# The text of a double names it

A text of a double is read as the number that it writes. Laying digits out keeps their number, so
the text of a double is a number that rounds to the double, and no two doubles share a text.

* `textValue`: digits around a point, and an exponent after an `e`;
* `textValue_inPlaces`, `textValue_withExponent`: the two layouts write the same number;
* `textValue_ofDigits`: any layout writes the number of the digits;
* `Layout.text_injective`: the text of a double names it, its sign included.
-/

namespace Picklist

namespace Decimal

open Text (AllDigits allDigits_replicate_zero allDigits_toDigits)

/-! ## 1. Reading a text -/

/-- The number that digits around a point write. -/
def placesValue (text : List Char) : ℚ :=
  match Text.splitFirst? '.' text with
  | some (whole, fraction) =>
    Nat.ofDigitChars 10 (whole ++ fraction) 0 * 10 ^ (-fraction.length : Int)
  | none => Nat.ofDigitChars 10 text 0

/-- The number that a decimal text writes: digits around a point, and an exponent after an `e`. -/
def textValue (text : List Char) : ℚ :=
  match Text.splitFirst? 'e' text with
  | some (mantissa, exponent) => placesValue mantissa * 10 ^ ((Text.signed? exponent).getD 0)
  | none => placesValue text

/-- Digits around a point have no exponent. -/
theorem exponent_not_mem_point {whole fraction : List Char} (hw : AllDigits whole)
    (hf : AllDigits fraction) : 'e' ∉ whole ++ '.' :: fraction := by
  rw [List.mem_append, List.mem_cons]
  exact not_or.mpr ⟨hw.not_mem rfl, not_or.mpr ⟨by decide, hf.not_mem rfl⟩⟩

/-- A text of digits around a point is read as all its digits, scaled. -/
theorem placesValue_point {whole : List Char} (h : AllDigits whole) (fraction : List Char) :
    placesValue (whole ++ '.' :: fraction)
      = Nat.ofDigitChars 10 (whole ++ fraction) 0 * 10 ^ (-fraction.length : Int) := by
  unfold placesValue
  rw [Text.splitFirst?_append_cons (h.not_mem rfl)]

theorem textValue_point {whole fraction : List Char} (hw : AllDigits whole)
    (hf : AllDigits fraction) :
    textValue (whole ++ '.' :: fraction)
      = Nat.ofDigitChars 10 (whole ++ fraction) 0 * 10 ^ (-fraction.length : Int) := by
  unfold textValue
  rw [Text.splitFirst?_of_not_mem (exponent_not_mem_point hw hf), placesValue_point hw]

/-! ## 2. The layouts -/

/-- Zeros in front count for nothing. -/
theorem ofDigitChars_zeros_append (n : Nat) (digits : List Char) :
    Nat.ofDigitChars 10 (List.replicate n '0' ++ digits) 0 = Nat.ofDigitChars 10 digits 0 := by
  rw [Nat.ofDigitChars_append, Nat.ofDigitChars_replicate_zero, Nat.mul_zero]

/-- Each zero at the end counts ten times. -/
theorem ofDigitChars_append_zeros (digits : List Char) (n : Nat) :
    Nat.ofDigitChars 10 (digits ++ List.replicate n '0') 0
      = 10 ^ n * Nat.ofDigitChars 10 digits 0 := by
  rw [Nat.ofDigitChars_append, Nat.ofDigitChars_replicate_zero]

/-- **Digits written out in places** are read as the digits, the first of them counting
    `10 ^ leading`. -/
theorem textValue_inPlaces {digits : List Char} (h : AllDigits digits) (leading : Int) :
    textValue (inPlaces digits leading)
      = Nat.ofDigitChars 10 digits 0 * 10 ^ (leading + 1 - digits.length) := by
  have hzero : AllDigits ['0'] := allDigits_replicate_zero 1
  unfold inPlaces
  split
  · -- `0.`, zeros, and the digits
    rename_i hnegative
    have hfraction := (allDigits_replicate_zero (-leading - 1).toNat).append h
    have hdigits : Nat.ofDigitChars 10
        (['0'] ++ (List.replicate (-leading - 1).toNat '0' ++ digits)) 0
          = Nat.ofDigitChars 10 digits 0 :=
      (ofDigitChars_zeros_append 1 _).trans (ofDigitChars_zeros_append _ digits)
    change textValue (['0'] ++ '.' :: (List.replicate (-leading - 1).toNat '0' ++ digits)) = _
    rw [textValue_point hzero hfraction, hdigits, List.length_append, List.length_replicate]
    congr 2
    omega
  · rename_i hwhole
    simp only [List.isEmpty_iff, List.drop_eq_nil_iff]
    split
    · -- the digits, zeros, and `.0`
      rename_i hshort
      have hplaces := h.append (allDigits_replicate_zero (leading.toNat + 1 - digits.length))
      have hdigits : Nat.ofDigitChars 10
          (digits ++ List.replicate (leading.toNat + 1 - digits.length) '0' ++ ['0']) 0
          = 10 ^ 1 * (10 ^ (leading.toNat + 1 - digits.length) * Nat.ofDigitChars 10 digits 0) :=
        (ofDigitChars_append_zeros _ 1).trans (by rw [ofDigitChars_append_zeros])
      have hpow : (10 : ℚ) ^ (leading + 1 - digits.length)
          = 10 ^ (leading.toNat + 1 - digits.length) := by
        rw [← zpow_natCast]
        congr 1
        omega
      rw [List.take_of_length_le hshort, textValue_point hplaces hzero, hdigits, hpow]
      push_cast
      norm_num
      ring
    · -- the point is among the digits
      rename_i hlong
      have hnone : leading.toNat + 1 - digits.length = 0 := by omega
      have htake : AllDigits (digits.take (leading.toNat + 1)) :=
        fun c hc => h c (List.mem_of_mem_take hc)
      have hdrop : AllDigits (digits.drop (leading.toNat + 1)) :=
        fun c hc => h c (List.mem_of_mem_drop hc)
      rw [hnone, List.replicate_zero, List.append_nil, textValue_point htake hdrop,
        List.take_append_drop, List.length_drop]
      congr 2
      omega

/-- **Digits with an exponent** are read as the digits, the first of them counting
    `10 ^ leading`. -/
theorem textValue_withExponent {digits : List Char} (h : AllDigits digits) (hne : digits ≠ [])
    (leading : Int) :
    textValue (withExponent digits leading)
      = Nat.ofDigitChars 10 digits 0 * 10 ^ (leading + 1 - digits.length) := by
  have hexponent : Text.signed?
      ((if leading < 0 then '-' else '+') :: Nat.toDigits 10 leading.natAbs) = some leading := by
    split
    · rw [Text.signed?_minus_toDigits]
      congr 1
      omega
    · rw [Text.signed?_plus_toDigits]
      congr 1
      omega
  have hread : ∀ {mantissa : List Char}, 'e' ∉ mantissa →
      textValue (mantissa ++ 'e' :: (if leading < 0 then '-' else '+')
        :: Nat.toDigits 10 leading.natAbs) = placesValue mantissa * 10 ^ leading := by
    intro mantissa hmantissa
    unfold textValue
    rw [Text.splitFirst?_append_cons hmantissa]
    simp only [hexponent, Option.getD_some]
  unfold withExponent
  rcases digits with _ | ⟨d, _ | ⟨c, rest⟩⟩
  · exact absurd rfl hne
  · have hwhole : placesValue [d] = Nat.ofDigitChars 10 [d] 0 := by
      unfold placesValue
      rw [Text.splitFirst?_of_not_mem (h.not_mem rfl)]
    rw [hread (h.not_mem rfl), hwhole, List.length_singleton]
    congr 2
    omega
  · obtain ⟨hd, hrest⟩ := List.forall_mem_cons.mp h
    have hfirst : AllDigits [d] := List.forall_mem_singleton.mpr hd
    have hfraction : AllDigits (c :: rest) := hrest
    have hmantissa : 'e' ∉ d :: '.' :: c :: rest := exponent_not_mem_point hfirst hfraction
    have hpoint : placesValue (d :: '.' :: c :: rest) = _ := placesValue_point hfirst (c :: rest)
    have hpow : (10 : ℚ) ^ (leading + 1 - (d :: c :: rest).length)
        = 10 ^ (-(c :: rest).length : Int) * 10 ^ leading := by
      rw [← zpow_add₀ (by norm_num)]
      congr 1
      simp only [List.length_cons]
      omega
    rw [hread hmantissa, hpoint, hpow, mul_assoc]
    rfl

/-- Digits are the digits that are left and the zeros that were dropped. -/
theorem exists_dropFinalZeros (digits : List Char) :
    ∃ zeros, dropFinalZeros digits ++ List.replicate zeros '0' = digits := by
  have hzeros : digits.reverse.takeWhile (· = '0')
      = List.replicate (digits.reverse.takeWhile (· = '0')).length '0' := by
    refine List.eq_replicate_iff.mpr ⟨rfl, fun c hc => ?_⟩
    have hc := List.mem_takeWhile_imp hc
    exact of_decide_eq_true hc
  refine ⟨(digits.reverse.takeWhile (· = '0')).length, ?_⟩
  unfold dropFinalZeros
  rw [← List.reverse_replicate, ← hzeros, ← List.reverse_append, List.takeWhile_append_dropWhile,
    List.reverse_reverse]

theorem allDigits_dropFinalZeros (n : Nat) : AllDigits (dropFinalZeros (Nat.toDigits 10 n)) := by
  obtain ⟨zeros, hzeros⟩ := exists_dropFinalZeros (Nat.toDigits 10 n)
  intro c hc
  exact allDigits_toDigits n c (hzeros ▸ List.mem_append_left _ hc)

/-- The digits of a number are worth what is left of them and the zeros that were dropped. -/
theorem eq_ofDigitChars_dropFinalZeros (n : Nat) :
    ∃ zeros, (Nat.toDigits 10 n).length = (dropFinalZeros (Nat.toDigits 10 n)).length + zeros
      ∧ n = 10 ^ zeros * Nat.ofDigitChars 10 (dropFinalZeros (Nat.toDigits 10 n)) 0 := by
  obtain ⟨zeros, hzeros⟩ := exists_dropFinalZeros (Nat.toDigits 10 n)
  refine ⟨zeros, ?_, ?_⟩
  · have hlength := congrArg List.length hzeros
    rw [List.length_append, List.length_replicate] at hlength
    exact hlength.symm
  · rw [← ofDigitChars_append_zeros, hzeros, Nat.ofDigitChars_ten_toDigits]

/-- A number that is not zero keeps a digit. -/
theorem dropFinalZeros_ne_nil {n : Nat} (h : n ≠ 0) : dropFinalZeros (Nat.toDigits 10 n) ≠ [] := by
  intro hnil
  obtain ⟨zeros, _, hvalue⟩ := eq_ofDigitChars_dropFinalZeros n
  rw [hnil, Nat.ofDigitChars_nil, Nat.mul_zero] at hvalue
  exact h hvalue

/-- **Any layout of digits that are not all zeros is read as their number.** -/
theorem textValue_ofDigits (layout : Layout) {d : Digits} (h : d.digits ≠ 0) :
    textValue (layout.ofDigits d) = d.value := by
  obtain ⟨zeros, hlength, hcount⟩ := eq_ofDigitChars_dropFinalZeros d.digits
  have hall := allDigits_dropFinalZeros d.digits
  have hvalue : d.value = Nat.ofDigitChars 10 (dropFinalZeros (Nat.toDigits 10 d.digits)) 0
      * 10 ^ (d.exponent + (Nat.toDigits 10 d.digits).length - 1 + 1
        - (dropFinalZeros (Nat.toDigits 10 d.digits)).length) := by
    have hcast : (d.digits : ℚ)
        = 10 ^ zeros * Nat.ofDigitChars 10 (dropFinalZeros (Nat.toDigits 10 d.digits)) 0 := by
      exact_mod_cast hcount
    have hexponent : d.exponent + (Nat.toDigits 10 d.digits).length - 1 + 1
        - (dropFinalZeros (Nat.toDigits 10 d.digits)).length = zeros + d.exponent := by
      omega
    rw [Digits.value, hcast, hexponent, zpow_add₀ (by norm_num), zpow_natCast]
    ring
  unfold Layout.ofDigits
  simp only
  rw [hvalue]
  split
  · exact textValue_inPlaces hall _
  · exact textValue_withExponent hall (dropFinalZeros_ne_nil h) _

/-! ## 3. Absolute values -/

/-- The text of the absolute value of a double. -/
def Layout.magnitude (layout : Layout) (b : Binary) : List Char :=
  if b.significand = 0 then ['0', '.', '0'] else layout.ofDigits b.shortest

/-- **The text of an absolute value is a number that rounds to it**, that of zero included. -/
theorem roundsTo_magnitude (layout : Layout) (b : Binary) :
    b.RoundsTo (textValue (layout.magnitude b)) := by
  unfold Layout.magnitude
  split
  · rename_i hzero
    have hdigit : AllDigits ['0'] := allDigits_replicate_zero 1
    have hvalue : textValue ['0', '.', '0'] = 0 := by
      have hread := textValue_point hdigit hdigit
      exact hread.trans (by simp [Nat.ofDigitChars])
    have hlower : b.lower = 0 := by simp [Binary.lower, hzero]
    have hupper : 0 ≤ b.upper := hlower ▸ b.lower_lt_upper.le
    rw [hvalue]
    exact ⟨hlower.le, hupper, fun _ => by rw [hzero]⟩
  · rename_i hpositive
    rw [textValue_ofDigits layout (Binary.shortest_digits_ne_zero hpositive)]
    exact Binary.roundsTo_shortest hpositive

/-- What tells the text of a double from that of a whole number. -/
theorem point_or_exponent_mem (layout : Layout) (b : Binary) :
    '.' ∈ layout.magnitude b ∨ 'e' ∈ layout.magnitude b := by
  unfold Layout.magnitude
  split
  · exact .inl (by decide)
  · unfold Layout.ofDigits
    simp only
    split
    · refine .inl ?_
      unfold inPlaces
      split <;> simp
    · refine .inr ?_
      unfold withExponent
      simp

/-- The text starts with a digit, so that it is told from a sign. -/
theorem exists_magnitude_eq_cons (layout : Layout) (b : Binary) :
    ∃ c rest, layout.magnitude b = c :: rest ∧ c.isDigit = true := by
  unfold Layout.magnitude
  split
  · exact ⟨'0', ['.', '0'], rfl, rfl⟩
  · rename_i hpositive
    have hall := allDigits_dropFinalZeros b.shortest.digits
    have hne := dropFinalZeros_ne_nil (Binary.shortest_digits_ne_zero hpositive)
    unfold Layout.ofDigits
    simp only
    generalize dropFinalZeros (Nat.toDigits 10 b.shortest.digits) = digits at hall hne
    cases digits with
    | nil => exact absurd rfl hne
    | cons d rest =>
      have hd : d.isDigit = true := hall d List.mem_cons_self
      split
      · unfold inPlaces
        split
        · exact ⟨'0', _, rfl, rfl⟩
        · exact ⟨d, _, rfl, hd⟩
      · unfold withExponent
        cases rest with
        | nil => exact ⟨d, _, rfl, hd⟩
        | cons c rest => exact ⟨d, _, rfl, hd⟩

/-- A sign in front is never mistaken for a text without one. -/
theorem minus_cons_ne_magnitude (layout : Layout) (b : Binary) (text : List Char) :
    '-' :: text ≠ layout.magnitude b := by
  obtain ⟨c, rest, hmagnitude, hdigit⟩ := exists_magnitude_eq_cons layout b
  intro e
  rw [hmagnitude] at e
  obtain rfl := (List.cons.inj e).1
  cases hdigit

/-! ## 4. Doubles -/

/-- A double is its bits. -/
theorem toBits_injective : Function.Injective Float.toBits := by
  intro x y h
  obtain ⟨⟨bits, _⟩⟩ := x
  obtain ⟨⟨_, _⟩⟩ := y
  obtain rfl : bits = _ := h
  rfl

theorem Layout.text_eq (layout : Layout) (x : Float) :
    layout.text x = if x.toBits >>> 63 = 1 then '-' :: layout.magnitude (Binary.ofBits x.toBits)
      else layout.magnitude (Binary.ofBits x.toBits) := rfl

/-- The first bit is the sign. -/
theorem sign_iff (bits : UInt64) : bits >>> 63 = 1 ↔ 2 ^ 63 ≤ bits.toNat := by
  have hlt : bits.toNat < 2 ^ 64 := bits.toNat_lt
  rw [← UInt64.toNat_inj, UInt64.toNat_shiftRight]
  change bits.toNat >>> 63 = 1 ↔ _
  rw [Nat.shiftRight_eq_div_pow]
  omega

/-- Absolute values with the same text have the same bits. -/
theorem magnitude_inj {layout : Layout} {s t : UInt64}
    (h : layout.magnitude (Binary.ofBits s) = layout.magnitude (Binary.ofBits t)) :
    s.toNat % 2 ^ 63 = t.toNat % 2 ^ 63 := by
  have hrounds : ∀ bits : UInt64, (Binary.nth (bits.toNat % 2 ^ 63)).RoundsTo
      (textValue (layout.magnitude (Binary.ofBits bits))) := by
    intro bits
    rw [Binary.ofBits_eq_nth]
    exact roundsTo_magnitude layout _
  have hs := hrounds s
  rw [h] at hs
  exact Binary.nth_eq_of_roundsTo hs (hrounds t)

/-- **The text of a double names it**, its sign included. -/
theorem Layout.text_injective (layout : Layout) : Function.Injective layout.text := by
  intro x y h
  have hx : x.toBits.toNat < 2 ^ 64 := x.toBits.toNat_lt
  have hy : y.toBits.toNat < 2 ^ 64 := y.toBits.toNat_lt
  refine toBits_injective (UInt64.toNat_inj.mp ?_)
  rw [text_eq, text_eq] at h
  simp only [sign_iff] at h
  split at h <;> split at h
  · have hbits := magnitude_inj (List.cons.inj h).2
    omega
  · exact absurd h (minus_cons_ne_magnitude layout _ _)
  · exact absurd h.symm (minus_cons_ne_magnitude layout _ _)
  · have hbits := magnitude_inj h
    omega

end Decimal

end Picklist
