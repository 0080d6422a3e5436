import Mathlib.Algebra.Group.Int.Defs
import Picklist.Proofs.Condition.Sentinels
import Picklist.Proofs.Spelling

/-!
# Conditions on whole numbers

A condition can expect any whole number that a document can hold, from `-2 ^ 63` to below `2 ^ 64`.
It meets a key, or the name of a member, that spells the number, as far as the values of keys are
numbers: from `2 ^ 63` on they are texts.

* `ChoiceValue.toValue_ofKey_toString`: the value of a key that spells a number;
* `Value.shares_integer_iff`: what has a whole number in common with an object;
* `Condition.numbers_reach_keys`: the numbers that meet the keys which spell them;
* `Condition.numbers_miss_keys`: the least number that does not.
-/

namespace Picklist

/-! ## 1. Keys that spell numbers -/

namespace ChoiceValue

theorem toValue_eq_number_iff {value : ChoiceValue} {m : Number} :
    value.toValue = .number m ↔ value = .number m := by
  cases value with
  | text s => simp [toValue]
  | number n => simp [toValue]

theorem toValue_ofKey_eq_integer_iff {key : String} {n : Int} :
    (ofKey key).toValue = .number (.integer n) ↔
      (-2 ^ 63 ≤ n ∧ n < 2 ^ 63) ∧ toString n = key :=
  toValue_eq_number_iff.trans ofKey_eq_integer_iff

/-- **The value of a key that spells a number** is the number, or the text from `2 ^ 63` on. -/
theorem toValue_ofKey_toString {n : Int} (hrange : Number.inRange n = true) :
    (ofKey (toString n)).toValue
      = if n < 2 ^ 63 then .number (.integer n) else .string (toString n) := by
  split
  · rename_i hsigned
    have hleast : -2 ^ 63 ≤ n := of_decide_eq_true (Bool.and_eq_true_iff.mp hrange).1
    exact toValue_ofKey_eq_integer_iff.mpr ⟨⟨hleast, hsigned⟩, rfl⟩
  · rename_i hlarge
    have hnone : canonicalInteger? (toString n) = none := by
      rw [canonicalInteger?, Text.signed?_toString, Option.filter_some, if_neg]
      simp only [Bool.and_eq_true, decide_eq_true_eq]
      omega
    rw [ofKey, hnone]
    rfl

end ChoiceValue

/-! ## 2. Objects that share a number -/

namespace Value

/-- A whole number is the same as itself alone. -/
theorem same_integer_iff {v : Value} {n : Int} :
    v.same (.number (.integer n)) = true ↔ v = .number (.integer n) := by
  rw [same_iff]
  cases v with
  | number m =>
    cases m with
    | integer k => simp [canonical, Number.canonical]
    | real x => simp [canonical, Number.canonical]
  | _ => simp [canonical]

theorem isListedBy_integer_iff {v : Value} {n : Int} :
    v.IsListedBy (.number (.integer n)) ↔ v = .number (.integer n) := by
  constructor
  · intro h
    obtain ⟨a, hlists, hsame⟩ := h
    cases hlists
    exact same_integer_iff.mp hsame
  · intro h
    exact ⟨_, .number, same_integer_iff.mpr h⟩

/-- **An object has a whole number in common with an expected one** where a member holds it or the
    name of a member spells it. -/
theorem shares_integer_iff {members : Fields} {n : Int} :
    (number (.integer n)).Shares (object members) ↔
      (∃ name, (name, number (.integer n)) ∈ members) ∨
        (-2 ^ 63 ≤ n ∧ n < 2 ^ 63) ∧ toString n ∈ Members.names members := by
  constructor
  · intro h
    cases h with
    | element hlists hlisted =>
      rw [isListedBy_integer_iff.mp hlisted] at hlists
      cases hlists with
      | member hmem => exact .inl ⟨_, hmem⟩
    | name hmem hlisted => cases isListedBy_integer_iff.mp hlisted
    | spelled hmem hlisted =>
      obtain ⟨hsigned, hwritten⟩ :=
        ChoiceValue.toValue_ofKey_eq_integer_iff.mp (isListedBy_integer_iff.mp hlisted)
      exact .inr ⟨hsigned, hwritten ▸ List.mem_map_of_mem hmem⟩
  · intro h
    rcases h with ⟨name, hmem⟩ | ⟨hsigned, hname⟩
    · exact .element (.member hmem) (isListedBy_integer_iff.mpr rfl)
    · obtain ⟨⟨name, v⟩, hmem, hwritten⟩ := List.mem_map.mp hname
      exact .spelled hmem (isListedBy_integer_iff.mpr
        (ChoiceValue.toValue_ofKey_eq_integer_iff.mpr ⟨hsigned, hwritten.symm⟩))

/-- What a choice submits has a whole number in common with an expected one where it is that. -/
theorem shares_integer_toValue_iff {value : ChoiceValue} {n : Int} :
    (number (.integer n)).Shares value.toValue ↔ value.toValue = number (.integer n) := by
  constructor
  · intro h
    cases value with
    | text s =>
      cases h with
      | element hlists hlisted =>
        cases hlists
        exact isListedBy_integer_iff.mp hlisted
    | number m =>
      cases h with
      | element hlists hlisted =>
        cases hlists
        exact isListedBy_integer_iff.mp hlisted
  · intro h
    rw [h]
    exact .element .number (isListedBy_integer_iff.mpr rfl)

/-- Where a number is expected, something must be shared with it. -/
theorem admits_number_iff {v : Value} {m : Number} :
    (Expected.ofValue (.number m)).admits (some v) = true ↔ (number m).Shares v := by
  rw [admits_ofValue_iff]
  constructor
  · intro h
    cases h with
    | shared _ _ hshares => exact hshares
  · intro h
    exact .shared nofun nofun h

end Value

/-! ## 3. The numbers that are reached -/

namespace Condition

open Value

/-- **Numbers reach the keys that spell them below `2 ^ 63`.** The value of such a key is the
    number; from there on it is the text of the key. So a clause that expects the number of the key
    passes for an entry under its spelling exactly below that bound. A clause that expects it of a
    field, where the field is an object with a member named by the spelling, passes below that bound
    too; from there on it passes only where some member holds the number. -/
theorem numbers_reach_keys {n : Int} (hrange : Number.inRange n = true) :
    (ChoiceValue.ofKey (toString n)).toValue
        = (if n < 2 ^ 63 then .number (.integer n) else .string (toString n)) ∧
    (∀ entry, (always.withKey (.number (.integer n))).admits (toString n) entry = true ↔
      n < 2 ^ 63) ∧
    ∀ (entry : Entry) (key : Value) (path : String) (members : Fields), ¬ IsPosition path →
      entry.present? path = some (.object members) → toString n ∈ Members.names members →
        ((always.with path (.number (.integer n))).passes entry key = true ↔
          n < 2 ^ 63 ∨ ∃ name, (name, Value.number (.integer n)) ∈ members) := by
  have hleast : -2 ^ 63 ≤ n := of_decide_eq_true (Bool.and_eq_true_iff.mp hrange).1
  refine ⟨ChoiceValue.toValue_ofKey_toString hrange, fun entry => ?_,
    fun entry key path members hpath hfield hname => ?_⟩
  · have hclause : (always.withKey (.number (.integer n))).admits (toString n) entry
        = (Expected.ofValue (.number (.integer n))).admits
            (some (ChoiceValue.ofKey (toString n)).toValue) :=
      passes_add_always (.key (.number (.integer n)))
    rw [hclause, admits_number_iff, shares_integer_toValue_iff,
      ChoiceValue.toValue_ofKey_eq_integer_iff]
    exact ⟨fun h => h.1.2, fun h => ⟨⟨hleast, h⟩, rfl⟩⟩
  · rw [passes_with hpath, hfield, admits_number_iff, shares_integer_iff]
    constructor
    · intro h
      exact h.symm.imp (fun hspelled => hspelled.1.2) id
    · intro h
      exact h.symm.imp id fun hsigned => ⟨⟨hleast, hsigned⟩, hname⟩

/-- The largest number that is reached. -/
theorem numbers_reach_keys_largest :
    Number.inRange (2 ^ 63 - 1) = true ∧ ¬ IsPosition "slots" ∧
      (Entry.record [("slots", .object [("9223372036854775807", .null)])]).present? "slots"
        = some (.object [("9223372036854775807", .null)]) ∧
      (ChoiceValue.ofKey "9223372036854775807").toValue = .number (.integer (2 ^ 63 - 1)) ∧
      (always.withKey (.number (.integer (2 ^ 63 - 1)))).admits "9223372036854775807"
        (.scalar .null) = true ∧
      (always.with "slots" (.number (.integer (2 ^ 63 - 1)))).passes
        (.record [("slots", .object [("9223372036854775807", .null)])]) (.string "k") = true := by
  have hrange : Number.inRange (2 ^ 63 - 1) = true := by decide
  have hwritten : toString (2 ^ 63 - 1 : Int) = "9223372036854775807" := by rfl
  have hpath : ¬ IsPosition "slots" := fun h => absurd (h.2 's' (by decide)) (by decide)
  have hfield : (Entry.record [("slots", .object [("9223372036854775807", .null)])]).present?
      "slots" = some (.object [("9223372036854775807", .null)]) := by rfl
  obtain ⟨hvalue, hkey, hmember⟩ := numbers_reach_keys hrange
  rw [hwritten] at hvalue hkey hmember
  have hbound : (2 ^ 63 - 1 : Int) < 2 ^ 63 := by decide
  exact ⟨hrange, hpath, hfield, hvalue.trans (if_pos hbound), (hkey _).mpr hbound,
    (hmember _ _ _ _ hpath hfield List.mem_cons_self).mpr (.inl hbound)⟩

/-- The least number that a document can hold and that reaches no key. -/
theorem numbers_miss_keys :
    Number.inRange (2 ^ 63) = true ∧ toString (2 ^ 63 : Int) = "9223372036854775808" ∧
      (ChoiceValue.ofKey "9223372036854775808").toValue = .string "9223372036854775808" ∧
      (always.withKey (.number (.integer (2 ^ 63)))).admits "9223372036854775808" (.scalar .null)
        = false ∧
      (always.with "slots" (.number (.integer (2 ^ 63)))).passes
        (.record [("slots", .object [("9223372036854775808", .null)])]) (.string "k") = false := by
  refine ⟨by decide, by rfl, by rfl, by decide +kernel, by decide +kernel⟩

end Condition

end Picklist
