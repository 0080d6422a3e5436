import Picklist.ChoiceValue
import Picklist.Proofs.Decimal.Text

/-!
# When two values are the same

Values are the same by kind and value. In terms of what is submitted this means: a text is never
the same as a number, and values of one kind are the same when their texts are equal. The one
exception is the zero of the reals, a single number with two texts.

* `Decimal.beq_zero_iff`, `Decimal.beq_zero_iff_eq`: the doubles that equal zero are those without a
  bit but the sign, and there are two of them;
* `Number.text_injective`: no two numbers share a text;
* `ChoiceValue.same_iff_alike`: sameness by kind and text.
-/

namespace Picklist

/-! ## 1. The zeros of the reals -/

namespace Decimal

open Float.Model

theorem unpack_zero : (0.0 : Float).toModel.unpack = .zero .positive := by
  have hbits : (0.0 : Float).toBits = 0 := by decide +kernel
  change UnpackedFloat.unpack Format.binary64 (0.0 : Float).toBits.toBitVec = _
  rw [hbits]
  rfl

/-- Nothing but a zero equals zero. -/
theorem compare_zero_iff (u : UnpackedFloat) :
    u.compare (.zero .positive) = some .eq ↔ ∃ s, u = .zero s := by
  cases u with
  | zero s => exact iff_of_true rfl ⟨s, rfl⟩
  | notANumber => exact iff_of_false nofun (fun ⟨_, e⟩ => nomatch e)
  | infinity s | finite s =>
    -- the comparison goes by the sign
    refine iff_of_false (fun h => ?_) fun ⟨_, e⟩ => nomatch e
    cases s <;> cases h

theorem unpackExponent_eq_iff (bits : BitVec 64) (c : BitVec 11) :
    @UnpackedFloat.unpackExponent Format.binary64 bits = c
      ↔ bits.toNat / 2 ^ 52 % 2 ^ 11 = c.toNat := by
  rw [← BitVec.toNat_inj]
  simp [UnpackedFloat.unpackExponent, Nat.shiftRight_eq_div_pow, Format.binary64]

theorem unpackMantissa_eq_iff (bits : BitVec 64) (c : BitVec 52) :
    @UnpackedFloat.unpackMantissa Format.binary64 bits = c ↔ bits.toNat % 2 ^ 52 = c.toNat := by
  rw [← BitVec.toNat_inj]
  simp [UnpackedFloat.unpackMantissa, Format.binary64]

/-- Bits are those of a zero when none but the sign is set. -/
theorem exists_unpack_eq_zero_iff (bits : BitVec 64) :
    (∃ s, UnpackedFloat.unpack Format.binary64 bits = .zero s) ↔ bits.toNat % 2 ^ 63 = 0 := by
  have hexponent := unpackExponent_eq_iff bits 0#11
  have hmantissa := unpackMantissa_eq_iff bits 0#52
  have hzero : bits.toNat % 2 ^ 63 = 0
      ↔ bits.toNat / 2 ^ 52 % 2 ^ 11 = 0 ∧ bits.toNat % 2 ^ 52 = 0 := by omega
  rw [hzero]
  change _ ↔ bits.toNat / 2 ^ 52 % 2 ^ 11 = (0#11).toNat ∧ bits.toNat % 2 ^ 52 = (0#52).toNat
  rw [← hexponent, ← hmantissa]
  unfold UnpackedFloat.unpack
  dsimp only
  by_cases hfull : @UnpackedFloat.unpackExponent Format.binary64 bits = -1#11
  · -- all bits of the exponent are set: an infinity, or no number
    rw [if_pos hfull]
    have hones : (0#11 : BitVec 11) ≠ -1#11 := by decide
    refine iff_of_false (fun h => ?_) fun h => hones (h.1.symm.trans hfull)
    obtain ⟨_, e⟩ := h
    by_cases hmantissa : @UnpackedFloat.unpackMantissa Format.binary64 bits = 0#52
    · rw [if_pos hmantissa] at e
      cases e
    · rw [if_neg hmantissa] at e
      cases e
  · rw [if_neg hfull]
    by_cases hexponent : @UnpackedFloat.unpackExponent Format.binary64 bits = 0#11
    · rw [if_pos hexponent]
      by_cases hmantissa : @UnpackedFloat.unpackMantissa Format.binary64 bits = 0#52
      · rw [dif_pos hmantissa]
        exact iff_of_true ⟨_, rfl⟩ ⟨hexponent, hmantissa⟩
      · rw [dif_neg hmantissa]
        exact iff_of_false (fun ⟨_, e⟩ => nomatch e) fun h => hmantissa h.2
    · rw [if_neg hexponent]
      exact iff_of_false (fun ⟨_, e⟩ => nomatch e) fun h => hexponent h.1

/-- **A double equals zero when no bit but its sign is set.** -/
theorem beq_zero_iff (x : Float) : (x == 0.0) = true ↔ x.toBits.toNat % 2 ^ 63 = 0 := by
  have hbeq : (x == 0.0)
      = (x.toModel.unpack.compare (0.0 : Float).toModel.unpack == some .eq) := rfl
  rw [hbeq, unpack_zero, beq_iff_eq, compare_zero_iff]
  exact exists_unpack_eq_zero_iff _

/-- The zeros of the reals are the positive and the negative one. -/
theorem beq_zero_iff_eq (x : Float) : (x == 0.0) = true ↔ x = 0.0 ∨ x = -0.0 := by
  constructor
  · intro hzero
    have hbits := (beq_zero_iff x).mp hzero
    have hlt : x.toBits.toNat < 2 ^ 64 := x.toBits.toNat_lt
    rcases (show x.toBits.toNat = 0 ∨ x.toBits.toNat = 2 ^ 63 by omega) with hnat | hnat
    · exact .inl <| toBits_injective <| UInt64.toNat_inj.mp <| hnat.trans (by decide +kernel)
    · exact .inr <| toBits_injective <| UInt64.toNat_inj.mp <| hnat.trans (by decide +kernel)
  · intro hx
    rcases hx with rfl | rfl <;> decide +kernel

end Decimal

namespace Number

/-! ## 2. The texts of numbers -/

/-- The texts of the zero of the reals. -/
def zeroTexts : List String := ["0.0", "-0.0"]

/-- Whole numbers are written in digits and a sign. -/
theorem not_mem_toString {c : Char} (hdigit : c.isDigit = false) (hsign : c ≠ '-') (n : Int) :
    c ∉ (toString n).toList := by
  cases n with
  | ofNat n =>
    rw [Text.toList_toString_ofNat]
    exact (Text.allDigits_toDigits n).not_mem hdigit
  | negSucc n =>
    rw [Text.toList_toString_negSucc, List.mem_cons, not_or]
    exact ⟨hsign, (Text.allDigits_toDigits (n + 1)).not_mem hdigit⟩

/-- A whole number and a real are written differently, even where they are equal. -/
theorem text_integer_ne_text_real (n : Int) (x : Float) : (integer n).text ≠ (real x).text := by
  intro e
  have hchars : (toString n).toList = layout.text x := by
    have htexts : toString n = String.ofList (layout.text x) := e
    rw [htexts, String.toList_ofList]
  have hpoint : '.' ∈ layout.text x ∨ 'e' ∈ layout.text x := by
    have hmagnitude := Decimal.point_or_exponent_mem layout (Decimal.Binary.ofBits x.toBits)
    rw [Decimal.Layout.text_eq]
    split
    · exact hmagnitude.imp (List.mem_cons_of_mem _) (List.mem_cons_of_mem _)
    · exact hmagnitude
  rw [← hchars] at hpoint
  exact hpoint.elim (not_mem_toString rfl (by decide) n) (not_mem_toString rfl (by decide) n)

/-- **No two numbers share a text.** -/
theorem text_injective : Function.Injective text := by
  intro m n h
  cases m with
  | integer m =>
    cases n with
    | integer n =>
      have hread := congrArg (fun s : String => Text.signed? s.toList) h
      simp only [text, Text.signed?_toString, Option.some.injEq] at hread
      rw [hread]
    | real y => exact absurd h (text_integer_ne_text_real m y)
  | real x =>
    cases n with
    | integer n => exact absurd h.symm (text_integer_ne_text_real n x)
    | real y =>
      have hchars : layout.text x = layout.text y := String.ofList_injective h
      rw [Decimal.Layout.text_injective layout hchars]

/-- The texts of the doubles that equal zero, and of no other number. -/
theorem text_mem_zeroTexts_iff (n : Number) :
    n.text ∈ zeroTexts ↔ ∃ x, n = real x ∧ (x == 0.0) = true := by
  have hpositive : (real 0.0).text = "0.0" := by decide +kernel
  have hnegative : (real (-0.0)).text = "-0.0" := by decide +kernel
  constructor
  · intro h
    rcases List.mem_cons.mp h with h | h
    · exact ⟨0.0, text_injective (h.trans hpositive.symm), by decide +kernel⟩
    · refine ⟨-0.0, text_injective ((List.mem_singleton.mp h).trans hnegative.symm), ?_⟩
      decide +kernel
  · intro h
    obtain ⟨x, rfl, hzero⟩ := h
    rcases (Decimal.beq_zero_iff_eq x).mp hzero with rfl | rfl
    · rw [hpositive]
      exact List.mem_cons_self
    · rw [hnegative]
      exact List.mem_cons_of_mem _ List.mem_cons_self

/-- Reals are the same when they are equal bit by bit or both are zero. -/
theorem canonical_real_eq_iff (x y : Float) : (real x).canonical = (real y).canonical ↔
    x = y ∨ (x == 0.0) = true ∧ (y == 0.0) = true := by
  have hzero : ((0.0 : Float) == 0.0) = true := by decide +kernel
  simp only [canonical, real.injEq]
  by_cases hx : (x == 0.0) = true <;> by_cases hy : (y == 0.0) = true
  · simp only [hx, hy, if_true, and_self, or_true]
  · have hne : (0.0 : Float) ≠ y := fun e => hy (e ▸ hzero)
    have hxy : x ≠ y := fun e => hy (e ▸ hx)
    simp only [hx, hy, if_true, if_false, hne, hxy, and_false, or_false, Bool.false_eq_true]
  · have hne : x ≠ (0.0 : Float) := fun e => hx (e ▸ hzero)
    have hxy : x ≠ y := fun e => hx (e ▸ hy)
    simp only [hx, hy, if_true, if_false, hne, hxy, false_and, or_false, Bool.false_eq_true]
  · simp only [hx, hy, if_false, false_and, or_false, Bool.false_eq_true]

/-- **Numbers are the same when their texts are**, or when both are texts of the real zero. -/
theorem canonical_eq_iff (m n : Number) : m.canonical = n.canonical ↔
    m.text = n.text ∨ m.text ∈ zeroTexts ∧ n.text ∈ zeroTexts := by
  rw [text_injective.eq_iff, text_mem_zeroTexts_iff, text_mem_zeroTexts_iff]
  cases m with
  | integer m => cases n <;> simp [canonical]
  | real x =>
    cases n with
    | integer n => simp [canonical]
    | real y =>
      rw [canonical_real_eq_iff]
      simp

end Number

namespace ChoiceValue

/-! ## 3. Values -/

/-- Of one kind, and with equal texts; the two texts of the real zero count as equal. -/
def Alike (v w : ChoiceValue) : Prop :=
  v.isNumber = w.isNumber ∧ (v.display = w.display ∨
    v.isNumber = true ∧ v.display ∈ Number.zeroTexts ∧ w.display ∈ Number.zeroTexts)

/-- **Values are the same when they are alike.** -/
theorem same_iff_alike (v w : ChoiceValue) : v.same w = true ↔ v.Alike w := by
  unfold same Alike
  rw [decide_eq_true_iff]
  cases v with
  | text s => cases w <;> simp [canonical, isNumber, display]
  | number m =>
    cases w with
    | text t => simp [canonical, isNumber]
    | number n => simp [canonical, isNumber, display, Number.canonical_eq_iff]

end ChoiceValue

end Picklist
