import Mathlib.Init
import Picklist.Proofs.ChoiceValue
import Picklist.Proofs.Condition.Building
import Picklist.Proofs.Condition.Meaning
import Picklist.Proofs.Path.Extraction

/-!
# What a clause may expect of one field

Where `true` is expected of a field, what is there must be true in the loose sense; where `false` is
expected, it must be as good as nothing; where `null` is expected, there must be nothing. Each has
its own test, and the tests leave a gap.

* `Value.Void.falsy`: what is as good as nothing is false;
* `Value.Slight`, `Value.slight_iff`: the gap: what is false and still something;
* `Expected.not_admits_truthy_and_falsy`, `Expected.admits_neither_iff`: `true` and `false` exclude
  each other, and both are missed exactly in the gap;
* `Condition.sentinels_fit`: how the verdicts of the clauses on one path fit together.
-/

namespace Picklist

namespace Value

/-! ## 1. The gap -/

/-- Something that is false all the same: the whole zero, the zeros of the reals, the empty text and
    the text `0`. -/
inductive Slight : Value → Prop where
  | wholeZero : Slight (.number (.integer 0))
  | realZero : Slight (.number (.real 0.0))
  | negativeZero : Slight (.number (.real (-0.0)))
  | emptyText : Slight (.string "")
  | zeroText : Slight (.string "0")

theorem Void.falsy {v : Value} (h : v.Void) : v.Falsy := by
  cases h with
  | null => exact .null
  | no => exact .no
  | emptyArray => exact .emptyArray
  | emptyObject => exact .emptyObject

theorem slight_of_isZero {n : Number} (h : n.isZero = true) : Slight (.number n) := by
  cases n with
  | integer n =>
    have hn : n = 0 := beq_iff_eq.mp h
    subst hn
    exact .wholeZero
  | real x =>
    rcases (Decimal.beq_zero_iff_eq x).mp h with rfl | rfl
    · exact .realZero
    · exact .negativeZero

/-- **What is false and still something.** -/
theorem slight_iff {v : Value} : v.Slight ↔ v.Falsy ∧ ¬ v.Void := by
  constructor
  · intro h
    cases h with
    | wholeZero => exact ⟨.zero rfl, nofun⟩
    | realZero => exact ⟨.zero ((Decimal.beq_zero_iff_eq _).mpr (.inl rfl)), nofun⟩
    | negativeZero => exact ⟨.zero ((Decimal.beq_zero_iff_eq _).mpr (.inr rfl)), nofun⟩
    | emptyText => exact ⟨.emptyText, nofun⟩
    | zeroText => exact ⟨.zeroText, nofun⟩
  · intro h
    obtain ⟨hfalsy, hvoid⟩ := h
    cases hfalsy with
    | null => exact absurd .null hvoid
    | no => exact absurd .no hvoid
    | zero hzero => exact slight_of_isZero hzero
    | emptyText => exact .emptyText
    | zeroText => exact .zeroText
    | emptyArray => exact absurd .emptyArray hvoid
    | emptyObject => exact absurd .emptyObject hvoid

theorem Slight.ne_null {v : Value} (h : v.Slight) : v ≠ .null := by
  cases h <;> nofun

end Value

/-! ## 2. What is expected of one value -/

namespace Expected

open Value

variable {current : Option Value}

theorem admits_falsy_of_unset (h : unset.admits current = true) : falsy.admits current = true := by
  cases current with
  | none => rfl
  | some v => cases h

theorem admits_oneOf_of_unset (h : unset.admits current = true) (allowed : List Value) :
    (oneOf allowed).admits current = false := by
  cases current with
  | none => rfl
  | some v => cases h

/-- Nothing is both true and as good as nothing. -/
theorem not_admits_truthy_and_falsy :
    ¬ (truthy.admits current = true ∧ falsy.admits current = true) := by
  intro h
  obtain ⟨htruthy, hfalsy⟩ := h
  cases current with
  | none => cases htruthy
  | some v => exact isTruthy_iff.mp htruthy (isEmptyOrFalse_iff.mp hfalsy).falsy

/-- **What is neither is in the gap.** -/
theorem admits_neither_iff : truthy.admits current = false ∧ falsy.admits current = false ↔
    ∃ v, current = some v ∧ v.Slight := by
  cases current with
  | none => exact iff_of_false (fun h => nomatch h.2) fun ⟨_, e, _⟩ => nomatch e
  | some v =>
    have hgap : v.isTruthy = false ∧ v.isEmptyOrFalse = false ↔ v.Slight := by
      rw [isTruthy_eq_false_iff, slight_iff, ← isEmptyOrFalse_iff, Bool.not_eq_true]
    refine hgap.trans ⟨fun hslight => ⟨v, rfl, hslight⟩, fun h => ?_⟩
    obtain ⟨w, hw, hslight⟩ := h
    exact Option.some.inj hw ▸ hslight

/-- Any value but a truth value and `null` expects an element of a list. -/
theorem ofValue_eq_oneOf {expected : Value} (hbool : ∀ b, expected ≠ .bool b)
    (hnull : expected ≠ .null) : ofValue expected = .oneOf expected.elements := by
  cases expected with
  | null => exact absurd rfl hnull
  | bool b => exact absurd rfl (hbool b)
  | number | string | array | object => rfl

end Expected

/-! ## 3. Clauses on one path -/

namespace Condition

open Value

variable {p : String}

/-- A single clause on a path is what is expected of what the path leads to. -/
theorem passes_with (hname : ¬ IsPosition p) (expected : Value) (entry : Entry) (key : Value) :
    (always.with p expected).passes entry key
      = (Expected.ofValue expected).admits (entry.present? p) := by
  have hclause : (always.with p expected).passes entry key
      = (Expected.ofValue expected).admits ((Subject.ofName p).current? entry key) :=
    passes_add_always (.field p expected)
  rw [hclause, ofName_of_not_isPosition hname]
  rfl

/-- **The expectations of one path fit together.** Where `null` is expected and met, `false` would
    be met too, and no list of values would. `true` and `false` are never both met. They are both
    missed exactly where the path leads to a zero, whole or real and of either sign, to the empty
    text or to the text `0`. -/
theorem sentinels_fit (hname : ¬ IsPosition p) (entry : Entry) (key : Value) :
    ((always.with p .null).passes entry key = true →
      (always.with p (.bool false)).passes entry key = true) ∧
    ¬ ((always.with p (.bool true)).passes entry key = true ∧
      (always.with p (.bool false)).passes entry key = true) ∧
    ((always.with p (.bool true)).passes entry key = false ∧
        (always.with p (.bool false)).passes entry key = false ↔
      ∃ v, entry.find? p = some v ∧ v.Slight) ∧
    ((always.with p .null).passes entry key = true → ∀ expected : Value,
      (∀ b, expected ≠ .bool b) → expected ≠ .null →
        (always.with p expected).passes entry key = false) := by
  simp only [passes_with hname]
  refine ⟨Expected.admits_falsy_of_unset, Expected.not_admits_truthy_and_falsy, ?_,
    fun hnull expected hbool hexpected => ?_⟩
  · -- what the path leads to is present, since it is not `null`
    refine Expected.admits_neither_iff.trans
      (exists_congr fun v => and_congr_left fun hslight => ?_)
    rw [Entry.present?_eq_some_iff]
    exact and_iff_left hslight.ne_null
  · rw [Expected.ofValue_eq_oneOf hbool hexpected]
    exact Expected.admits_oneOf_of_unset hnull _

/-- A negative zero in the gap, and a path that leads nowhere. -/
theorem sentinels_fit_stock :
    ¬ IsPosition "stock.left" ∧
      (always.with "stock.left" (.bool true)).passes
        (.record [("stock", .object [("left", .number (.real (-0.0)))])]) (.string "k") = false ∧
      (always.with "stock.left" (.bool false)).passes
        (.record [("stock", .object [("left", .number (.real (-0.0)))])]) (.string "k") = false ∧
      (always.with "stock.left" .null).passes (.record [("stock", .null)]) (.string "k") = true ∧
      (always.with "stock.left" (.bool false)).passes (.record [("stock", .null)]) (.string "k")
        = true ∧
      (always.with "stock.left" (.array [.null])).passes (.record [("stock", .null)]) (.string "k")
        = false := by
  have hname : ¬ IsPosition "stock.left" := fun h => absurd (h.2 '.' (by decide)) (by decide)
  obtain ⟨_, _, hgap, _⟩ := sentinels_fit hname
    (.record [("stock", .object [("left", .number (.real (-0.0)))])]) (.string "k")
  obtain ⟨hfalse, _, _, hlists⟩ := sentinels_fit hname (.record [("stock", .null)]) (.string "k")
  have hnull : (always.with "stock.left" .null).passes (.record [("stock", .null)]) (.string "k")
      = true := by rfl
  obtain ⟨htrue, hvoid⟩ := hgap.mpr ⟨_, rfl, .negativeZero⟩
  exact ⟨hname, htrue, hvoid, hnull, hfalse hnull, hlists hnull (.array [.null]) nofun nofun⟩

end Condition

end Picklist
