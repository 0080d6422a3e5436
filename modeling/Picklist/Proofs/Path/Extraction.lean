import Mathlib.Init
import Picklist.Path
import Picklist.Proofs.Members

/-!
# What extraction finds

A path of an entry is extracted strictly or leniently, each as a function of its own and as a mode
of a common one. All of them look the path up among the fields of the entry and differ only in how
they take a missing path and `null`.

* `Value.Walks`: the walk along segments, one rule for each kind of step;
* `Entry.Finds`: what a path stands for among fields;
* `Entry.require_eq_ok_iff`, `Entry.require_eq_error_iff`: strict extraction yields what the path
  stands for, and names the whole path where it stands for nothing;
* `Entry.present?_eq_some_iff`: lenient extraction yields the same values but `null`;
* `Entry.extractions_agree`: the two modes are the two functions.
-/

namespace Picklist

/-! ## 1. Walks -/

namespace Value

/-- A walk along segments: through an object each segment is the name of a member, through an array
    it is the position of an item. -/
inductive Walks : Value → List String → Value → Prop where
  | here (v : Value) : Walks v [] v
  | member {members : Fields} {name : String} {v w : Value} {rest : List String}
      (hmember : members.lookup name = some v) (hrest : Walks v rest w) :
    Walks (.object members) (name :: rest) w
  | item {items : List Value} {segment : String} {index : Nat} {v w : Value} {rest : List String}
      (hindex : Text.index? segment = some index) (hitem : items[index]? = some v)
      (hrest : Walks v rest w) : Walks (.array items) (segment :: rest) w

/-- The program's walk is the walk. -/
theorem follow_eq_some_iff {v w : Value} {segments : List String} :
    v.follow segments = some w ↔ Walks v segments w := by
  constructor
  · intro h
    induction segments generalizing v with
    | nil =>
      cases h
      exact .here _
    | cons segment rest ih =>
      obtain ⟨u, hstep, hrest⟩ := Option.bind_eq_some_iff.mp h
      cases v with
      | object members => exact .member hstep (ih hrest)
      | array items =>
        obtain ⟨index, hindex, hitem⟩ := Option.bind_eq_some_iff.mp hstep
        exact .item hindex hitem (ih hrest)
      | _ => cases hstep
  · intro h
    induction h with
    | here v => rfl
    | member hmember _ ih => rw [follow, step, hmember, Option.bind_some, ih]
    | item hindex hitem _ ih =>
      rw [follow, step, hindex, Option.bind_some, hitem, Option.bind_some, ih]

end Value

namespace Entry

open Value

/-! ## 2. What a path stands for -/

/-- What a path stands for among fields: the field that has the whole path as its name, and where
    there is none, the end of the walk along the segments. -/
inductive Finds (fields : Fields) (path : String) : Value → Prop where
  | verbatim {v : Value} (hfield : fields.lookup path = some v) : Finds fields path v
  | walk {v : Value} (hname : path ∉ Members.names fields)
      (hwalk : Walks (.object fields) (Path.segments path) v) : Finds fields path v

theorem resolve_eq_some_iff {fields : Fields} {path : String} {v : Value} :
    (Value.object fields).resolve path = some v ↔ Finds fields path v := by
  have hresolve : (Value.object fields).resolve path
      = (fields.lookup path).or ((Value.object fields).follow (Path.segments path)) := rfl
  rw [hresolve]
  constructor
  · intro h
    cases hfield : fields.lookup path with
    | some held =>
      rw [hfield, Option.some_or] at h
      exact .verbatim (hfield.trans h)
    | none =>
      rw [hfield, Option.none_or] at h
      exact .walk (Members.lookup_eq_none_iff.mp hfield) (follow_eq_some_iff.mp h)
  · intro h
    cases h with
    | verbatim hfield => rw [hfield, Option.some_or]
    | walk hname hwalk =>
      rw [Members.lookup_of_not_mem hname, Option.none_or, follow_eq_some_iff.mpr hwalk]

/-- A path stands for something exactly where it names a field or can be walked. -/
theorem exists_finds_iff {fields : Fields} {path : String} :
    (∃ v, Finds fields path v) ↔ path ∈ Members.names fields ∨
      ∃ v, Walks (.object fields) (Path.segments path) v := by
  constructor
  · intro h
    obtain ⟨v, hfinds⟩ := h
    cases hfinds with
    | verbatim hfield => exact .inl (List.mem_map_of_mem (Members.mem_of_lookup hfield))
    | walk _ hwalk => exact .inr ⟨v, hwalk⟩
  · intro h
    by_cases hname : path ∈ Members.names fields
    · cases hfield : fields.lookup path with
      | some v => exact ⟨v, .verbatim hfield⟩
      | none => exact absurd hname (Members.lookup_eq_none_iff.mp hfield)
    · obtain ⟨v, hwalk⟩ := h.resolve_left hname
      exact ⟨v, .walk hname hwalk⟩

variable {entry : Entry} {path : String}

theorem find?_of_fields {fields : Fields} (hfields : entry.fields? = some fields) {v : Value} :
    entry.find? path = some v ↔ Finds fields path v := by
  rw [find?, hfields, Option.bind_some, resolve_eq_some_iff]

theorem find?_of_isScalar (h : entry.isScalar = true) : entry.find? path = none := by
  cases entry with
  | scalar v => rfl
  | record fields => cases h
  | identified keyName fields => cases h

/-! ## 3. The functions and the modes -/

theorem require_eq_ok_iff {v : Value} : entry.require path = .ok v ↔ entry.find? path = some v := by
  unfold require
  cases entry.find? path with
  | some found => simp
  | none => simp

/-- What must be there fails exactly where it is not found; `null` is found. -/
theorem require_eq_error_iff {e : SelectionError} :
    entry.require path = .error e ↔ entry.find? path = none ∧ e = .missingField path := by
  unfold require
  cases entry.find? path with
  | some v => simp
  | none => simp [eq_comm]

theorem isNull_eq_false_iff {v : Value} : v.isNull = false ↔ v ≠ .null := by
  cases v <;> simp [isNull]

/-- Lenient extraction leaves out `null`. -/
theorem present?_eq_some_iff {v : Value} :
    entry.present? path = some v ↔ entry.find? path = some v ∧ v ≠ .null := by
  rw [present?, Option.filter_eq_some_iff, Bool.not_eq_true', isNull_eq_false_iff]

theorem extract_strict_eq_ok_iff {found : Option Value} :
    entry.extract path .strict = .ok found ↔ ∃ v, found = some v ∧ entry.require path = .ok v := by
  unfold extract require
  cases entry.find? path with
  | some v => simp [eq_comm]
  | none => simp

theorem extract_strict_eq_error_iff {e : SelectionError} :
    entry.extract path .strict = .error e ↔ entry.require path = .error e := by
  unfold extract require
  cases entry.find? path with
  | some v => simp
  | none => simp

theorem extract_lenient_eq : entry.extract path .lenient = .ok (entry.present? path) := by
  unfold extract present?
  cases entry.find? path with
  | none => rfl
  | some v => cases v <;> rfl

/-- Whatever is extracted leniently is extracted strictly, and is not `null`. -/
theorem present?_eq_some_iff_require {v : Value} :
    entry.present? path = some v ↔ entry.require path = .ok v ∧ v ≠ .null := by
  rw [present?_eq_some_iff, require_eq_ok_iff]

/-- Nothing is extracted leniently where strict extraction fails or yields `null`. -/
theorem present?_eq_none_iff :
    entry.present? path = none ↔ ∀ v, entry.find? path = some v → v = .null := by
  rw [Option.eq_none_iff_forall_ne_some]
  constructor
  · intro h v hfound
    exact Classical.byContradiction fun hnull => h v (present?_eq_some_iff.mpr ⟨hfound, hnull⟩)
  · intro h v hpresent
    obtain ⟨hfound, hnull⟩ := present?_eq_some_iff.mp hpresent
    exact hnull (h v hfound)

/-! ## 4. Agreement -/

/-- **The ways of extraction agree.** In strict mode extraction never yields nothing, and is what
    must be there: the same value, or the same error, which names the whole path. In lenient mode
    it never fails, and is what is present: the value that must be there, unless that is `null`.
    Among fields a value is there exactly where the path is the name of a field or each of its
    segments can be walked, and the field of that name comes first; so `null` under the whole path
    is nothing in lenient mode, whatever the walk would reach. A scalar has nothing under any
    path. -/
theorem extractions_agree (entry : Entry) (path : String) :
    (∀ found, entry.extract path .strict = .ok found ↔
      ∃ v, found = some v ∧ entry.require path = .ok v) ∧
    (∀ e, entry.extract path .strict = .error e ↔ entry.require path = .error e) ∧
    (∀ e, entry.require path = .error e → e = .missingField path) ∧
    entry.extract path .lenient = .ok (entry.present? path) ∧
    (∀ v, entry.present? path = some v ↔ entry.require path = .ok v ∧ v ≠ .null) ∧
    (∀ fields, entry.fields? = some fields →
      ((∃ v, entry.require path = .ok v) ↔ path ∈ Members.names fields ∨
        ∃ v, Walks (.object fields) (Path.segments path) v) ∧
      (∀ v, entry.require path = .ok v ↔ Finds fields path v) ∧
      (fields.lookup path = some .null →
        entry.require path = .ok .null ∧ entry.present? path = none)) ∧
    (entry.isScalar = true →
      entry.require path = .error (.missingField path) ∧ entry.present? path = none) := by
  refine ⟨fun _ => extract_strict_eq_ok_iff, fun _ => extract_strict_eq_error_iff,
    fun _ h => (require_eq_error_iff.mp h).2, extract_lenient_eq,
    fun _ => present?_eq_some_iff_require, fun fields hfields => ?_, fun hscalar => ?_⟩
  · have hrequire : ∀ v, entry.require path = .ok v ↔ Finds fields path v := fun v =>
      require_eq_ok_iff.trans (find?_of_fields hfields)
    refine ⟨?_, hrequire, fun hnull => ?_⟩
    · rw [exists_congr hrequire, exists_finds_iff]
    · have hfound : entry.find? path = some .null := (find?_of_fields hfields).mpr (.verbatim hnull)
      refine ⟨require_eq_ok_iff.mpr hfound, present?_eq_none_iff.mpr fun v hv => ?_⟩
      exact (Option.some.inj (hfound.symm.trans hv)).symm
  · have hnone : entry.find? path = none := find?_of_isScalar hscalar
    refine ⟨require_eq_error_iff.mpr ⟨hnone, rfl⟩, present?_eq_none_iff.mpr fun v hv => ?_⟩
    rw [hnone] at hv
    cases hv

/-- A field with a dot in its name that holds `null` hides what the walk would reach; and a scalar,
    which has no fields. -/
theorem extractions_agree_flat :
    ∃ (entry : Entry) (fields : Fields), entry.fields? = some fields ∧
      fields.lookup "meta.flat" = some .null ∧
      Walks (.object fields) (Path.segments "meta.flat") (.string "nested") ∧
      entry.require "meta.flat" = .ok .null ∧ entry.present? "meta.flat" = none ∧
      (scalar (.string "plain")).isScalar = true ∧
      (scalar (.string "plain")).require "title" = .error (.missingField "title") := by
  let fields : Fields := [("meta.flat", .null), ("meta", .object [("flat", .string "nested")])]
  have hnull : fields.lookup "meta.flat" = some .null := by rfl
  have hwalk : Walks (.object fields) (Path.segments "meta.flat") (.string "nested") :=
    follow_eq_some_iff.mp (by rfl)
  obtain ⟨_, _, _, _, _, hfields, _⟩ := extractions_agree (.record fields) "meta.flat"
  obtain ⟨_, _, _, _, _, _, hscalar⟩ := extractions_agree (scalar (.string "plain")) "title"
  obtain ⟨hrequire, hpresent⟩ := (hfields fields rfl).2.2 hnull
  exact ⟨.record fields, fields, rfl, hnull, hwalk, hrequire, hpresent, rfl, (hscalar rfl).1⟩

end Entry

end Picklist
