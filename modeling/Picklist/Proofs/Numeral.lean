import Mathlib.Algebra.Group.Nat.Defs
import Picklist.Text

/-!
# Numerals read back

A numeral that is written in decimal is read as the number that was written:

* `Text.AllDigits`: texts of digits alone;
* `Text.numeral?_toDigits`: digits;
* `Text.signed?_toString`: whole numbers with their sign, so that each has one canonical spelling;
* `Text.index?_toString_eq_some_iff`: positions, as long as they fit 64 bits.
-/

namespace Picklist.Text

/-! ## 1. Digits -/

/-- Digits and nothing else. -/
def AllDigits (text : List Char) : Prop := ∀ c ∈ text, c.isDigit = true

theorem AllDigits.not_mem {text : List Char} (h : AllDigits text) {c : Char}
    (hc : c.isDigit = false) : c ∉ text := by
  intro hmem
  rw [h c hmem] at hc
  cases hc

theorem AllDigits.append {s t : List Char} (hs : AllDigits s) (ht : AllDigits t) :
    AllDigits (s ++ t) := by
  intro c hc
  exact (List.mem_append.mp hc).elim (hs c) (ht c)

theorem allDigits_replicate_zero (n : Nat) : AllDigits (List.replicate n '0') := by
  intro c hc
  rw [List.eq_of_mem_replicate hc]
  rfl

theorem allDigits_toDigits (n : Nat) : AllDigits (Nat.toDigits 10 n) := by
  intro c hc
  exact Nat.isDigit_of_mem_toDigits (by decide) (by decide) hc

/-- Digits do not start with a sign. -/
theorem exists_toDigits_eq_cons (n : Nat) :
    ∃ c rest, Nat.toDigits 10 n = c :: rest ∧ c ≠ '-' ∧ c ≠ '+' := by
  cases hdigits : Nat.toDigits 10 n with
  | nil => exact absurd hdigits Nat.toDigits_ne_nil
  | cons c rest =>
    have hc : c.isDigit = true := allDigits_toDigits n c (hdigits ▸ List.mem_cons_self)
    have hsign : ∀ sign : Char, sign.isDigit = false → c ≠ sign := by
      intro sign hsign e
      rw [e, hsign] at hc
      cases hc
    exact ⟨c, rest, rfl, hsign '-' rfl, hsign '+' rfl⟩

/-! ## 2. Reading -/

theorem digit?_of_isDigit {c : Char} (h : c.isDigit = true) :
    digit? c = some (c.toNat - '0'.toNat) := by
  have hrange : '0' ≤ c ∧ c ≤ '9' := by simpa [Char.isDigit, Char.le_def] using h
  exact if_pos hrange

theorem digit?_lt_of_isDigit {c : Char} (h : c.isDigit = true) : c.toNat - '0'.toNat < 10 := by
  have hrange : 48 ≤ c.toNat ∧ c.toNat ≤ 57 := by
    simpa [Char.isDigit, Char.le_def, UInt32.le_iff_toNat_le] using h
  have hzero : '0'.toNat = 48 := rfl
  omega

/-- **A run of digits is read as the number that it writes.** -/
theorem numeral?_of_allDigits {digits : List Char} (hne : digits ≠ [])
    (hdigits : AllDigits digits) : numeral? 10 digits = some (Nat.ofDigitChars 10 digits 0) := by
  have hfold : ∀ n : Nat, digits.foldlM (fun n c =>
      (digit? c).bind fun d => if d < 10 then some (n * 10 + d) else none) n
        = some (Nat.ofDigitChars 10 digits n) := by
    clear hne
    induction digits with
    | nil => intro n; rfl
    | cons c rest ih =>
      intro n
      obtain ⟨hc, hrest⟩ := List.forall_mem_cons.mp hdigits
      have hstep : ((digit? c).bind fun d => if d < 10 then some (n * 10 + d) else none)
          = some (10 * n + (c.toNat - '0'.toNat)) := by
        rw [digit?_of_isDigit hc, Option.bind_some, if_pos (digit?_lt_of_isDigit hc),
          Nat.mul_comm]
      rw [List.foldlM_cons, hstep, Nat.ofDigitChars_cons]
      exact ih hrest _
  cases digits with
  | nil => exact absurd rfl hne
  | cons c rest => exact hfold 0

theorem numeral?_toDigits (n : Nat) : numeral? 10 (Nat.toDigits 10 n) = some n := by
  rw [numeral?_of_allDigits Nat.toDigits_ne_nil (allDigits_toDigits n),
    Nat.ofDigitChars_ten_toDigits]

theorem numeral?_toString (n : Nat) : numeral? 10 (toString n).toList = some n := by
  rw [Nat.toString_eq_repr, Nat.toList_repr, numeral?_toDigits]

/-- A numeral without a sign is read as its digits. -/
theorem signed?_toDigits (n : Nat) : signed? (Nat.toDigits 10 n) = some (n : Int) := by
  have hread : numeral? 10 (Nat.toDigits 10 n) = some n := numeral?_toDigits n
  obtain ⟨c, rest, hdigits, hminus, hplus⟩ := exists_toDigits_eq_cons n
  rw [hdigits] at hread ⊢
  unfold signed?
  split
  · rename_i e; exact absurd (List.cons.inj e).1 hminus
  · rename_i e; exact absurd (List.cons.inj e).1 hplus
  · rw [hread]; rfl

theorem signed?_minus_toDigits (n : Nat) :
    signed? ('-' :: Nat.toDigits 10 n) = some (-n : Int) := by
  simp only [signed?, numeral?_toDigits]
  rfl

theorem signed?_plus_toDigits (n : Nat) :
    signed? ('+' :: Nat.toDigits 10 n) = some (n : Int) := by
  simp only [signed?, numeral?_toDigits]
  rfl

/-- The text of a whole number: its digits, after a minus sign where it is negative. -/
theorem toList_toString_ofNat (n : Nat) : (toString (Int.ofNat n)).toList = Nat.toDigits 10 n :=
  Nat.toList_repr

theorem toList_toString_negSucc (n : Nat) :
    (toString (Int.negSucc n)).toList = '-' :: Nat.toDigits 10 (n + 1) := by
  rw [← Nat.toList_repr, Int.toString_eq_repr, Int.repr, String.toList_append]
  rfl

/-- **A whole number is read back** with its sign. -/
theorem signed?_toString (n : Int) : signed? (toString n).toList = some n := by
  cases n with
  | ofNat n =>
    rw [toList_toString_ofNat]
    exact signed?_toDigits n
  | negSucc n =>
    rw [toList_toString_negSucc, signed?_minus_toDigits]
    rfl

/-- **A position is read back**, as long as it fits 64 bits. -/
theorem index?_toString_eq_some_iff {n index : Nat} :
    index? (toString n) = some index ↔ n < 2 ^ 64 ∧ n = index := by
  have hread : numeral? 10 (Nat.toDigits 10 n) = some n := numeral?_toDigits n
  have hdigits : (toString n).toList = Nat.toDigits 10 n := by
    rw [Nat.toString_eq_repr, Nat.toList_repr]
  have hindex : index? (toString n) = (some n).filter (· < 0x10000000000000000) := by
    obtain ⟨c, rest, hfirst, _, hplus⟩ := exists_toDigits_eq_cons n
    simp only [index?, hdigits]
    rw [hfirst] at hread ⊢
    split
    · rename_i e; exact absurd (List.cons.inj e).1 hplus
    · rw [hread]
  rw [hindex, Option.filter_eq_some_iff, decide_eq_true_eq, Option.some.injEq]
  constructor
  · intro h
    obtain ⟨rfl, hbound⟩ := h
    exact ⟨hbound, rfl⟩
  · intro h
    obtain ⟨hbound, rfl⟩ := h
    exact ⟨rfl, hbound⟩

theorem index?_toString {n : Nat} (h : n < 2 ^ 64) : index? (toString n) = some n :=
  index?_toString_eq_some_iff.mpr ⟨h, rfl⟩

end Picklist.Text
