import Mathlib.Algebra.Group.Int.Defs
import Picklist.Menu
import Picklist.Proofs.Choice.Keyed
import Picklist.Proofs.Numeral

/-!
# The canonical spelling of whole numbers

A whole number has one canonical spelling: digits without a zero in front of others, after a minus
sign where it is negative. Only keys that are such spellings, of numbers that fit 64 bits with a
sign, have numbers as their values.

* `Text.Spells`: the canonical spellings and the numbers that they spell;
* `Text.spells_iff`: a number is written in its canonical spelling, so there is no other;
* `ChoiceValue.ofKey_eq_integer_iff`, `ChoiceValue.isNumber_ofKey_iff`: the keys that have numbers
  as their values;
* `ChoiceValue.ofKey_lossless`: nothing of a key is lost in its value.
-/

namespace Picklist

/-! ## 1. Spellings -/

namespace Text

/-- The canonical spelling of a whole number: no plus sign, no zero in front of other digits, and
    no sign at zero. -/
inductive Spells : List Char → Int → Prop where
  | zero : Spells ['0'] 0
  | positive {first : Char} {rest : List Char} (hdigits : AllDigits (first :: rest))
      (hfirst : first ≠ '0') :
    Spells (first :: rest) (Nat.ofDigitChars 10 (first :: rest) 0)
  | negative {first : Char} {rest : List Char} (hdigits : AllDigits (first :: rest))
      (hfirst : first ≠ '0') :
    Spells ('-' :: first :: rest) (-Nat.ofDigitChars 10 (first :: rest) 0)

theorem digitChar_of_isDigit {c : Char} (h : c.isDigit = true) :
    Nat.digitChar (c.toNat - '0'.toNat) = c := by
  have hrange : 48 ≤ c.toNat ∧ c.toNat ≤ 57 := by
    simpa [Char.isDigit, Char.le_def, UInt32.le_iff_toNat_le] using h
  have hzero : '0'.toNat = 48 := rfl
  apply Char.toNat_inj.mp
  rw [Nat.toNat_digitChar_of_lt_ten (digit?_lt_of_isDigit h)]
  omega

/-- Digits behind a positive number are the digits of a larger one. -/
theorem toDigits_append_digits {digits : List Char} (hdigits : AllDigits digits) {n : Nat}
    (hn : 0 < n) : Nat.toDigits 10 n ++ digits
      = Nat.toDigits 10 (Nat.ofDigitChars 10 digits n) := by
  induction digits generalizing n with
  | nil => rw [List.append_nil, Nat.ofDigitChars_nil]
  | cons c rest ih =>
    obtain ⟨hc, hrest⟩ := List.forall_mem_cons.mp hdigits
    have hlast : Nat.toDigits 10 n ++ [c]
        = Nat.toDigits 10 (10 * n + (c.toNat - '0'.toNat)) := by
      have hdigit := digit?_lt_of_isDigit hc
      rw [← Nat.toDigits_append_toDigits (by decide) hn hdigit, Nat.toDigits_of_lt_base hdigit,
        digitChar_of_isDigit hc]
    rw [Nat.ofDigitChars_cons, ← ih hrest (by omega), ← hlast, List.append_assoc,
      List.singleton_append]

/-- **Digits without a zero in front are those of the number that they write.** -/
theorem toDigits_ofDigitChars {first : Char} {rest : List Char}
    (hdigits : AllDigits (first :: rest)) (hfirst : first ≠ '0') :
    Nat.toDigits 10 (Nat.ofDigitChars 10 (first :: rest) 0) = first :: rest := by
  obtain ⟨hdigit, hrest⟩ := List.forall_mem_cons.mp hdigits
  have hpos : 0 < first.toNat - '0'.toNat := by
    refine Nat.pos_of_ne_zero fun hzero => hfirst ?_
    rw [← digitChar_of_isDigit hdigit, hzero]
    rfl
  rw [Nat.ofDigitChars_cons, Nat.mul_zero, Nat.zero_add, ← toDigits_append_digits hrest hpos,
    Nat.toDigits_of_lt_base (digit?_lt_of_isDigit hdigit), digitChar_of_isDigit hdigit,
    List.singleton_append]

/-- The digits of a positive number have no zero in front. -/
theorem exists_toDigits_eq_cons_of_pos {n : Nat} (hn : 0 < n) :
    ∃ first rest, Nat.toDigits 10 n = first :: rest ∧ first ≠ '0' := by
  induction n using Nat.strongRecOn with
  | ind n ih =>
    by_cases hsmall : n < 10
    · refine ⟨n.digitChar, [], Nat.toDigits_of_lt_base hsmall, fun hzero => ?_⟩
      rw [Nat.digitChar_eq_zero] at hzero
      omega
    · -- the first digit is that of the number without its last digit
      obtain ⟨first, rest, hdigits, hfirst⟩ := ih (n / 10) (by omega) (by omega)
      rw [Nat.toDigits_of_base_le (by decide) (by omega), hdigits]
      exact ⟨first, _, rfl, hfirst⟩

/-- A positive number and its negative are spelled by the digits of the number. -/
theorem spells_toDigits {n : Nat} (hn : 0 < n) :
    Spells (Nat.toDigits 10 n) n ∧ Spells ('-' :: Nat.toDigits 10 n) (-n) := by
  obtain ⟨first, rest, hdigits, hfirst⟩ := exists_toDigits_eq_cons_of_pos hn
  have hall : AllDigits (first :: rest) := hdigits ▸ allDigits_toDigits n
  have hvalue : Nat.ofDigitChars 10 (first :: rest) 0 = n := by
    rw [← hdigits, Nat.ofDigitChars_ten_toDigits]
  have hpositive := Spells.positive hall hfirst
  have hnegative := Spells.negative hall hfirst
  rw [hvalue, ← hdigits] at hpositive hnegative
  exact ⟨hpositive, hnegative⟩

/-- What digits without a zero in front write is positive. -/
theorem exists_ofDigitChars_eq_succ {first : Char} {rest : List Char}
    (hdigits : AllDigits (first :: rest)) (hfirst : first ≠ '0') :
    ∃ m, Nat.ofDigitChars 10 (first :: rest) 0 = m + 1 := by
  refine Nat.exists_eq_add_one_of_ne_zero fun hzero => hfirst ?_
  have hwritten := toDigits_ofDigitChars hdigits hfirst
  rw [hzero, Nat.toDigits_zero] at hwritten
  exact (List.cons.inj hwritten).1.symm

/-- **A whole number is written in its canonical spelling**, and that is the only one. -/
theorem spells_iff {text : List Char} {n : Int} : Spells text n ↔ text = (toString n).toList := by
  constructor
  · intro h
    cases h with
    | zero => rfl
    | positive hdigits hfirst =>
      rw [← Int.ofNat_eq_natCast, toList_toString_ofNat, toDigits_ofDigitChars hdigits hfirst]
    | @negative first rest hdigits hfirst =>
      obtain ⟨m, hm⟩ := exists_ofDigitChars_eq_succ hdigits hfirst
      have hneg : -(Nat.ofDigitChars 10 (first :: rest) 0 : Int) = Int.negSucc m := by
        rw [hm]
        rfl
      rw [hneg, toList_toString_negSucc, ← hm, toDigits_ofDigitChars hdigits hfirst]
  · intro h
    subst h
    cases n with
    | ofNat n =>
      cases n with
      | zero => exact .zero
      | succ m =>
        rw [toList_toString_ofNat]
        exact (spells_toDigits m.succ_pos).1
    | negSucc m =>
      rw [toList_toString_negSucc]
      exact (spells_toDigits m.succ_pos).2

end Text

/-! ## 2. The keys that have numbers as their values -/

namespace ChoiceValue

/-- Keys are read as numbers where they are written as numbers are, within 64 bits. -/
theorem canonicalInteger?_eq_some_iff {key : String} {n : Int} :
    canonicalInteger? key = some n ↔ (-2 ^ 63 ≤ n ∧ n < 2 ^ 63) ∧ toString n = key := by
  unfold canonicalInteger?
  rw [Option.filter_eq_some_iff]
  simp only [Bool.and_eq_true, decide_eq_true_eq, beq_iff_eq]
  constructor
  · intro h
    obtain ⟨_, hrange, hwritten⟩ := h
    exact ⟨by omega, hwritten⟩
  · intro h
    obtain ⟨hrange, rfl⟩ := h
    exact ⟨Text.signed?_toString n, by omega, rfl⟩

/-- The value of a key is the number that the key spells, if it spells one. -/
theorem ofKey_eq_integer_iff {key : String} {n : Int} : ofKey key = .number (.integer n) ↔
    (-2 ^ 63 ≤ n ∧ n < 2 ^ 63) ∧ toString n = key := by
  rw [← canonicalInteger?_eq_some_iff, ofKey]
  cases canonicalInteger? key with
  | none => simp
  | some read => simp

/-- The numbers among the values of keys are whole. -/
theorem isNumber_ofKey_iff {key : String} :
    (ofKey key).isNumber = true ↔ ∃ n : Int, ofKey key = .number (.integer n) := by
  unfold ofKey
  cases canonicalInteger? key with
  | none => simp [isNumber]
  | some read => simp [isNumber]

/-! ## 3. Nothing is lost -/

/-- **The value of a key keeps the key.** It is written as the key, so no two keys have the same
    value. It is a number exactly where the key is the canonical spelling of a whole number that
    fits 64 bits with a sign, and then it is that number. So the text of a key selects the entry
    that submits it, whatever the condition and the mark of the entry, and the value is marked
    exactly where that text is selected. -/
theorem ofKey_lossless (key : String) :
    (ofKey key).display = key ∧
    ((ofKey key).isNumber = true ↔
      ∃ n : Int, (-2 ^ 63 ≤ n ∧ n < 2 ^ 63) ∧ Text.Spells key.toList n) ∧
    (∀ n : Int, ofKey key = .number (.integer n) ↔
      (-2 ^ 63 ≤ n ∧ n < 2 ^ 63) ∧ Text.Spells key.toList n) ∧
    (∀ other, ofKey other = ofKey key → other = key) ∧
    ∀ (request : Request) (entry : Entry), request.mapping.valuePath? = none →
      (∀ keyName fields, entry ≠ .identified keyName fields) →
        entry.choiceValue key request.mapping = .ok (ofKey key) ∧
        (key ∈ request.selected → request.includes entry (ofKey key) = true) ∧
        ∀ rows, (Menu.ofRows rows request.selected).isSelected (ofKey key) = true ↔
          key ∈ request.selected := by
  have hspelled : ∀ n : Int, ofKey key = .number (.integer n) ↔
      (-2 ^ 63 ≤ n ∧ n < 2 ^ 63) ∧ Text.Spells key.toList n := by
    intro n
    rw [ofKey_eq_integer_iff, Text.spells_iff, String.toList_inj, eq_comm (a := key)]
  refine ⟨display_ofKey key, ?_, hspelled, fun other h => ofKey_injective h,
    fun request entry hrole hkeyed => ?_⟩
  · exact isNumber_ofKey_iff.trans (exists_congr hspelled)
  · refine ⟨Entry.choiceValue_eq_ok_iff.mpr (Entry.submits_ofKey key hrole hkeyed),
      fun hselected => ?_, fun rows => ?_⟩
    · have hcontains : request.selected.contains (ofKey key).display = true := by
        rw [display_ofKey]
        exact List.contains_iff_mem.mpr hselected
      rw [Request.includes, hcontains, Bool.true_or]
    · rw [Menu.isSelected, display_ofKey, List.contains_iff_mem]
      exact Text.mem_sortedSet key request.selected

/-- The least number that is reached, selected against its condition and its mark. -/
theorem ofKey_lossless_least :
    ∃ (key : String) (request : Request) (entry : Entry),
      request.mapping.valuePath? = none ∧ (∀ keyName fields, entry ≠ .identified keyName fields) ∧
      key ∈ request.selected ∧ Text.Spells key.toList (-2 ^ 63) ∧
      ofKey key = .number (.integer (-2 ^ 63)) ∧
      (request.condition.passes entry (ofKey key).toValue = false ∧
        entry.isStale request.mapping = true) ∧
      request.includes entry (ofKey key) = true := by
  let key : String := "-9223372036854775808"
  let request : Request := ⟨[key], .withKey .always (.string key), [], .standard⟩
  let entry : Entry := .record [("is_actual", .bool false)]
  obtain ⟨_, _, hinteger, _, hselects⟩ := ofKey_lossless key
  have hkeyed : ∀ keyName fields, entry ≠ .identified keyName fields := nofun
  have hvalue : ofKey key = .number (.integer (-2 ^ 63)) := by decide +kernel
  have hmember : key ∈ request.selected := List.mem_singleton.mpr rfl
  exact ⟨key, request, entry, rfl, hkeyed, hmember, ((hinteger _).mp hvalue).2, hvalue,
    by decide +kernel, (hselects request entry rfl hkeyed).2.1 hmember⟩

end ChoiceValue

end Picklist
