import Mathlib.Data.List.Basic
import Picklist.Keys
import Picklist.Proofs.Outcome

/-!
# Keys chosen by a condition

The keys of the entries that meet a condition are listed, and one of them is chosen: the only one,
the first if there is any, the first that must be there, or any. What each of these yields, and when
it fails, depends on the listed keys alone.

* `Entries.Lists`: the listed keys, one rule for an entry that meets the condition and one for an
  entry that does not;
* `Entries.key_eq_ok_iff`, `Entries.key_eq_error_iff`: the only key, or the first if there is any;
* `Entries.firstKey_eq_ok_iff`, `Entries.firstKey_eq_error_iff`: the first key that must be there;
* `Entries.exists_anyKey_iff`, `Entries.anyKey_eq_error_iff`: the keys that a pick can yield;
* `Entries.selectors_agree`: where a key is the only one, all ways to choose yield it.
-/

namespace Picklist.Entries

/-! ## 1. The keys that are listed -/

/-- The keys of the entries that meet a condition, one for each such entry, in the order of the
    entries. The condition is asked about an entry and the value of its key. -/
inductive Lists (condition : Condition) : Entries → List String → Prop where
  | none : Lists condition [] []
  | met {key : String} {entry : Entry} {rest : Entries} {listed : List String}
      (hpasses : condition.passes entry (ChoiceValue.ofKey key).toValue = true)
      (hrest : Lists condition rest listed) :
    Lists condition ((key, entry) :: rest) (key :: listed)
  | unmet {key : String} {entry : Entry} {rest : Entries} {listed : List String}
      (hpasses : condition.passes entry (ChoiceValue.ofKey key).toValue = false)
      (hrest : Lists condition rest listed) :
    Lists condition ((key, entry) :: rest) listed

section Selectors

variable {entries : Entries} {condition : Condition} {key : String} {entry : Entry}

theorem keys_cons_of_met (h : condition.passes entry (ChoiceValue.ofKey key).toValue = true) :
    keys ((key, entry) :: entries) condition = key :: entries.keys condition := by
  have hadmits : condition.admits key entry = true := h
  simp only [keys, List.filter_cons, hadmits, if_true, List.map_cons]

theorem keys_cons_of_unmet (h : condition.passes entry (ChoiceValue.ofKey key).toValue = false) :
    keys ((key, entry) :: entries) condition = entries.keys condition := by
  have hadmits : condition.admits key entry = false := h
  simp only [keys, List.filter_cons, hadmits, Bool.false_eq_true, if_false]

/-- **The program lists the listed keys**, and there is no other way to list them. -/
theorem keys_eq_iff {listed : List String} :
    entries.keys condition = listed ↔ Lists condition entries listed := by
  constructor
  · intro h
    induction entries generalizing listed with
    | nil =>
      subst h
      exact .none
    | cons keyed rest ih =>
      obtain ⟨key, entry⟩ := keyed
      cases hpasses : condition.passes entry (ChoiceValue.ofKey key).toValue with
      | true =>
        rw [keys_cons_of_met hpasses] at h
        subst h
        exact .met hpasses (ih rfl)
      | false =>
        rw [keys_cons_of_unmet hpasses] at h
        exact .unmet hpasses (ih h)
  · intro h
    induction h with
    | none => rfl
    | met hpasses _ ih => rw [keys_cons_of_met hpasses, ih]
    | unmet hpasses _ ih => rw [keys_cons_of_unmet hpasses, ih]

/-! ## 2. The only key, or the first if there is any -/

variable {strict : Bool}

/-- A key is chosen, or none, exactly where it is the first that meets the condition, and the only
    one in strict mode. -/
theorem key_eq_ok_iff {found : Option String} : entries.key condition strict = .ok found ↔
    (strict = true → (entries.keys condition).length = 1) ∧
      (entries.keys condition).head? = found := by
  simp only [Entries.key]
  split
  · rename_i h
    simp only [Bool.and_eq_true, decide_eq_true_eq] at h
    exact ⟨fun e => (nomatch e), fun hone => absurd (hone.1 h.1) h.2⟩
  · rename_i h
    simp only [Bool.and_eq_true, decide_eq_true_eq, not_and, not_not] at h
    rw [Except.ok.injEq]
    exact ⟨fun e => ⟨h, e⟩, fun hone => hone.2⟩

/-- Only strict mode fails, where the listed keys are not exactly one, and it counts them. -/
theorem key_eq_error_iff {e : SelectionError} : entries.key condition strict = .error e ↔
    strict = true ∧ (entries.keys condition).length ≠ 1 ∧
      e = .notSingleton (entries.keys condition).length := by
  simp only [Entries.key]
  split
  · rename_i h
    simp only [Bool.and_eq_true, decide_eq_true_eq] at h
    rw [Except.error.injEq]
    exact ⟨fun he => ⟨h.1, h.2, he.symm⟩, fun he => he.2.2.symm⟩
  · rename_i h
    simp only [Bool.and_eq_true, decide_eq_true_eq] at h
    exact ⟨fun he => (nomatch he), fun he => absurd ⟨he.1, he.2.1⟩ h⟩

/-- A chosen key belongs to an entry. -/
theorem exists_mem_of_key {matched : String}
    (h : entries.key condition strict = .ok (some matched)) :
    ∃ entry, (matched, entry) ∈ entries := by
  have hhead := (key_eq_ok_iff.mp h).2
  obtain ⟨⟨key, entry⟩, hmem, rfl⟩ := List.mem_map.mp (List.mem_of_head? hhead)
  exact ⟨entry, List.mem_of_mem_filter hmem⟩

/-- In strict mode a key is chosen exactly where it is all that is listed. -/
theorem key_strict_eq_some_iff :
    entries.key condition true = .ok (some key) ↔ entries.keys condition = [key] := by
  rw [key_eq_ok_iff]
  constructor
  · intro h
    obtain ⟨only, honly⟩ := List.length_eq_one_iff.mp (h.1 rfl)
    rw [honly, List.head?_cons, Option.some.injEq] at h
    rw [honly, h.2]
  · intro h
    rw [h]
    exact ⟨fun _ => rfl, rfl⟩

/-- In strict mode a missing key is an error. -/
theorem key_strict_ne_none : entries.key condition true ≠ .ok none := by
  intro h
  obtain ⟨hone, hhead⟩ := key_eq_ok_iff.mp h
  have hnil : entries.keys condition = [] := List.head?_eq_none_iff.mp hhead
  rw [hnil] at hone
  cases hone rfl

/-- Otherwise the first key is chosen, if there is any. -/
theorem key_lenient_eq : entries.key condition false = .ok (entries.keys condition).head? :=
  key_eq_ok_iff.mpr ⟨nofun, rfl⟩

/-! ## 3. The first key, and any -/

/-- The first key that must be there is the first key, if there is any. -/
theorem firstKey_eq :
    entries.firstKey condition = (entries.keys condition).head?.elim (.error .emptySet) .ok := by
  rw [firstKey, key_lenient_eq]
  cases (entries.keys condition).head? with
  | some first => rfl
  | none => rfl

theorem firstKey_eq_ok_iff :
    entries.firstKey condition = .ok key ↔ (entries.keys condition).head? = some key := by
  rw [firstKey_eq, elim_error_eq_ok_iff]

/-- The first key is missing exactly where no key is listed. -/
theorem firstKey_eq_error_iff {e : SelectionError} :
    entries.firstKey condition = .error e ↔ entries.keys condition = [] ∧ e = .emptySet := by
  rw [firstKey_eq, elim_error_eq_error_iff, List.head?_eq_none_iff]

variable {pick : Nat → Nat}

/-- The key that a pick stands for: the place is its number, taken round the length of the list. -/
def picked? (listed : List String) (pick : Nat → Nat) : Option String :=
  listed[pick listed.length % listed.length]?

/-- Something is picked unless there is nothing. -/
theorem picked?_eq_none_iff {listed : List String} : picked? listed pick = none ↔ listed = [] := by
  rw [picked?, List.getElem?_eq_none_iff]
  constructor
  · intro h
    refine List.length_eq_zero_iff.mp (Nat.eq_zero_of_not_pos fun hpos => ?_)
    exact absurd (Nat.mod_lt _ hpos) (Nat.not_lt.mpr h)
  · intro h
    subst h
    exact Nat.zero_le _

theorem anyKey_eq : entries.anyKey condition pick
    = (picked? (entries.keys condition) pick).elim (.error .emptySet) .ok := by
  simp only [anyKey, picked?]
  cases (entries.keys condition)[pick (entries.keys condition).length
    % (entries.keys condition).length]? with
  | some picked => rfl
  | none => rfl

theorem anyKey_eq_ok_iff :
    entries.anyKey condition pick = .ok key ↔ picked? (entries.keys condition) pick = some key := by
  rw [anyKey_eq, elim_error_eq_ok_iff]

/-- Nothing can be picked exactly where no key is listed, whatever the pick. -/
theorem anyKey_eq_error_iff {e : SelectionError} :
    entries.anyKey condition pick = .error e ↔ entries.keys condition = [] ∧ e = .emptySet := by
  rw [anyKey_eq, elim_error_eq_error_iff, picked?_eq_none_iff]

/-- **The listed keys are those that can be picked.** -/
theorem exists_anyKey_iff :
    (∃ pick, entries.anyKey condition pick = .ok key) ↔ key ∈ entries.keys condition := by
  constructor
  · intro h
    obtain ⟨pick, hpick⟩ := h
    exact List.mem_of_getElem? (anyKey_eq_ok_iff.mp hpick)
  · intro h
    obtain ⟨index, hindex, hget⟩ := List.getElem_of_mem h
    refine ⟨fun _ => index, anyKey_eq_ok_iff.mpr ?_⟩
    rw [picked?, Nat.mod_eq_of_lt hindex, List.getElem?_eq_getElem hindex, hget]

end Selectors

/-! ## 4. Agreement -/

/-- **The ways to choose a key agree.** The keys are listed entry by entry. In strict mode a key is
    chosen exactly where it is all that is listed; where no key or several are listed, their number
    is the error, so it never succeeds with nothing. Otherwise the head of the list is chosen, if
    there is one, and that never fails. The first key that must be there is that head. Any key is a
    member of the list, and each member can be picked. These two fail exactly where the list is
    empty. So where a key is the only one, it is chosen in all ways. -/
theorem selectors_agree (entries : Entries) (condition : Condition) :
    (∀ listed, entries.keys condition = listed ↔ Lists condition entries listed) ∧
    (∀ key, entries.key condition true = .ok (some key) ↔ entries.keys condition = [key]) ∧
    (∀ e, entries.key condition true = .error e ↔ (entries.keys condition).length ≠ 1 ∧
      e = .notSingleton (entries.keys condition).length) ∧
    entries.key condition true ≠ .ok none ∧
    entries.key condition false = .ok (entries.keys condition).head? ∧
    (∀ key, entries.firstKey condition = .ok key ↔
      (entries.keys condition).head? = some key) ∧
    (∀ e, entries.firstKey condition = .error e ↔
      entries.keys condition = [] ∧ e = .emptySet) ∧
    (∀ key, (∃ pick, entries.anyKey condition pick = .ok key) ↔
      key ∈ entries.keys condition) ∧
    (∀ pick e, entries.anyKey condition pick = .error e ↔
      entries.keys condition = [] ∧ e = .emptySet) ∧
    ∀ key, entries.key condition true = .ok (some key) →
      entries.key condition false = .ok (some key) ∧ entries.firstKey condition = .ok key ∧
        ∀ pick, entries.anyKey condition pick = .ok key := by
  refine ⟨fun _ => keys_eq_iff, fun _ => key_strict_eq_some_iff,
    fun _ => key_eq_error_iff.trans (and_iff_right rfl), key_strict_ne_none, key_lenient_eq,
    fun _ => firstKey_eq_ok_iff, fun _ => firstKey_eq_error_iff, fun _ => exists_anyKey_iff,
    fun _ _ => anyKey_eq_error_iff, fun key honly => ?_⟩
  have hlisted : entries.keys condition = [key] := key_strict_eq_some_iff.mp honly
  have hhead : (entries.keys condition).head? = some key := by rw [hlisted, List.head?_cons]
  refine ⟨key_eq_ok_iff.mpr ⟨nofun, hhead⟩, firstKey_eq_ok_iff.mpr hhead, fun pick => ?_⟩
  cases hpick : entries.anyKey condition pick with
  | error e =>
    have hnil := (anyKey_eq_error_iff.mp hpick).1
    rw [hlisted] at hnil
    cases hnil
  | ok picked =>
    have hmem : picked ∈ entries.keys condition := exists_anyKey_iff.mp ⟨pick, hpick⟩
    rw [hlisted, List.mem_singleton] at hmem
    rw [hmem]

/-- One of two entries under the same key is all that meets the condition. -/
theorem selectors_agree_twin :
    ∃ (entries : Entries) (condition : Condition),
      entries.map (·.1) = ["a", "a", "7"] ∧ entries.key condition true = .ok (some "a") ∧
      entries.keys condition = ["a"] ∧ entries.key condition false = .ok (some "a") ∧
      entries.firstKey condition = .ok "a" ∧ ∀ pick, entries.anyKey condition pick = .ok "a" := by
  let entries : Entries := [("a", .record [("open", .bool false)]),
    ("a", .record [("open", .bool true)]), ("7", .scalar (.bool true))]
  let condition : Condition := .with .always "open" (.bool true)
  have honly : entries.key condition true = .ok (some "a") := by rfl
  obtain ⟨_, hstrict, _, _, _, _, _, _, _, hsame⟩ := selectors_agree entries condition
  exact ⟨entries, condition, rfl, honly, (hstrict "a").mp honly, hsame "a" honly⟩

end Picklist.Entries
