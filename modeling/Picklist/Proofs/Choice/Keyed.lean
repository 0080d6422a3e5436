import Mathlib.Data.List.Forall2
import Picklist.Proofs.Choice.Rows

/-!
# Entries that submit their keys

Where the value role is disabled, an entry that nothing identifies submits its key. Keys are told
apart by their values as well as by themselves.

* `ChoiceValue.display_ofKey`: the value of a key is written as the key;
* `ChoiceValue.ofKey_injective`, `ChoiceValue.canonical_ofKey`: no two keys have the same value;
* `Request.values_of_shown`: the values of rows are those of the keys of their entries.
-/

namespace Picklist

/-! ## 1. The values of keys -/

namespace ChoiceValue

/-- **The value of a key is written as the key**, be it a text or a number. -/
theorem display_ofKey (key : String) : (ofKey key).display = key := by
  unfold ofKey
  cases h : canonicalInteger? key with
  | none => rfl
  | some n =>
    obtain ⟨_, hcanonical⟩ := Option.filter_eq_some_iff.mp h
    simp only [Bool.and_eq_true, beq_iff_eq] at hcanonical
    exact hcanonical.2

theorem ofKey_injective : Function.Injective ofKey := by
  intro key other h
  rw [← display_ofKey key, h, display_ofKey]

/-- No key is a real number, so its value stands for itself alone. -/
theorem canonical_ofKey (key : String) : (ofKey key).canonical = ofKey key := by
  unfold ofKey
  cases canonicalInteger? key <;> rfl

end ChoiceValue

/-! ## 2. The values of rows -/

/-- Without a value field an entry that nothing identifies submits its key. -/
theorem Entry.Submits.eq_ofKey {mapping : Mapping} {key : String} {entry : Entry}
    {value : ChoiceValue} (h : entry.Submits mapping key value) (hrole : mapping.valuePath? = none)
    (hkeyed : ∀ keyName fields, entry ≠ .identified keyName fields) : value = .ofKey key := by
  cases h with
  | field hvalue =>
    rw [hrole] at hvalue
    cases hvalue
  | identity => exact absurd rfl (hkeyed _ _)
  | scalarKey => rfl
  | recordKey => rfl

theorem Entry.submits_ofKey {mapping : Mapping} (key : String) {entry : Entry}
    (hrole : mapping.valuePath? = none)
    (hkeyed : ∀ keyName fields, entry ≠ .identified keyName fields) :
    entry.Submits mapping key (.ofKey key) := by
  cases entry with
  | scalar v => exact .scalarKey hrole
  | record fields => exact .recordKey hrole
  | identified keyName fields => exact absurd rfl (hkeyed keyName fields)

/-- **The values of rows are those of the keys of their entries**, in the same order. -/
theorem Request.values_of_shown {mapping : Mapping} {localizer : Localizer} {entries : Entries}
    {rows : List Row} (hrole : mapping.valuePath? = none)
    (hkeyed : ∀ keyed ∈ entries, ∀ keyName fields, keyed.2 ≠ .identified keyName fields)
    (hshown : List.Forall₂ (fun keyed row => row.Shows mapping localizer keyed) entries rows) :
    rows.map (·.choice.value) = entries.map (ChoiceValue.ofKey ·.1) := by
  induction hshown with
  | nil => rfl
  | @cons keyed row entries rows hrow _ ih =>
    obtain ⟨hfirst, hrest⟩ := List.forall_mem_cons.mp hkeyed
    rw [List.map_cons, List.map_cons, ih hrest, hrow.value.eq_ofKey hrole hfirst]

end Picklist
