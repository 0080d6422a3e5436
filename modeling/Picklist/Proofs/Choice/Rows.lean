import Mathlib.Data.List.Forall2
import Picklist.Choice
import Picklist.Proofs.Outcome

/-!
# Which entries become rows, and what their rows say

What a row says about its entry is stated field by field, through the strict and the lenient
reading of the entry alone; whether the entry counts is stated beside it.

* `Entry.Submits`, `Entry.Titled`, `Entry.Attributed`, `Entry.Grouped`: the value, the title, the
  attributes and the label that an entry has under a mapping;
* `Row.Shows`: a row that shows a keyed entry;
* `Request.Included`: a keyed entry that counts;
* `Request.rows_eq_ok_iff`: the rows of a request are one for each entry in front, then one for
  each included entry of the data, all in order.
-/

namespace Picklist

/-! ## 1. What an entry says -/

namespace Entry

variable (mapping : Mapping)

/-- The value that an entry submits under its key. -/
inductive Submits (key : String) : Entry → ChoiceValue → Prop where
  /-- The field of the value role, where that role is enabled. -/
  | field {entry : Entry} {path : String} {v : Value} (hrole : mapping.valuePath? = some path)
      (hfield : entry.require path = .ok v) : Submits key entry (.ofValue v)
  /-- The field that identifies a record. -/
  | identity {keyName : String} {fields : Value.Fields} {v : Value}
      (hrole : mapping.valuePath? = none) (hfield : fields.lookup keyName = some v) :
      Submits key (.identified keyName fields) (.ofValue v)
  /-- The key of a scalar. -/
  | scalarKey {v : Value} (hrole : mapping.valuePath? = none) :
      Submits key (.scalar v) (.ofKey key)
  /-- The key of a record that nothing identifies. -/
  | recordKey {fields : Value.Fields} (hrole : mapping.valuePath? = none) :
      Submits key (.record fields) (.ofKey key)

/-- The title of an entry, before it is localized. -/
inductive Titled : Entry → String → Prop where
  /-- A scalar is its own title. -/
  | scalar {v : Value} : Titled (.scalar v) v.plainText
  /-- Any other entry must have the field of the title role. -/
  | field {entry : Entry} {path : String} {v : Value} (hrecord : entry.isScalar = false)
      (hrole : mapping.titlePath? = some path) (hfield : entry.require path = .ok v) :
      Titled entry v.plainText

/-- The attributes of an entry. -/
inductive Attributed (entry : Entry) : Members String → Prop where
  /-- The members of an object, `null` left out. -/
  | object {path : String} {members : Value.Fields} (hrole : mapping.attributesPath? = some path)
      (hfield : entry.present? path = some (.object members)) :
      Attributed entry
        ((members.filter fun (_, v) => !v.isNull).map fun (name, v) => (name, v.plainText))
  /-- Where the role leads to no object there are none. -/
  | none (hfield : ∀ path members, mapping.attributesPath? = some path →
      entry.present? path ≠ some (.object members)) : Attributed entry []

/-- The label of the group of an entry, before it is localized. -/
inductive Grouped (entry : Entry) : Option String → Prop where
  /-- The text of a value that is true in the loose sense. -/
  | label {path : String} {v : Value} (hrole : mapping.optgroupPath? = some path)
      (hfield : entry.present? path = some v) (htrue : v.isTruthy = true) :
      Grouped entry (some v.plainText)
  /-- Where the role leads to no such value there is none. -/
  | none (hfield : ∀ path v, mapping.optgroupPath? = some path → entry.present? path = some v →
      v.isTruthy = false) : Grouped entry none

/-- An entry is actual unless its mark is there and is false in the loose sense. -/
def Actual (entry : Entry) : Prop :=
  ∀ path mark, mapping.isActualPath? = some path → entry.present? path = some mark →
    mark.isTruthy = true

end Entry

/-- A row that shows a keyed entry under a mapping. -/
structure Row.Shows (mapping : Mapping) (localizer : Localizer) (keyed : String × Entry)
    (row : Row) : Prop where
  value : keyed.2.Submits mapping keyed.1 row.choice.value
  title : ∃ title, keyed.2.Titled mapping title ∧ row.choice.title = localizer title
  attributes : keyed.2.Attributed mapping row.choice.attributes
  optgroup : ∃ label, keyed.2.Grouped mapping label ∧ row.choice.optgroup = label.map localizer
  group : row.group = row.choice.optgroup

/-- **The entries of the data that count**: the text of the value is selected, or the entry meets
    the condition and is actual. -/
def Request.Included (request : Request) (keyed : String × Entry) : Prop :=
  ∃ value, keyed.2.Submits request.mapping keyed.1 value ∧
    (value.display ∈ request.selected ∨
      request.condition.passes keyed.2 value.toValue = true ∧ keyed.2.Actual request.mapping)

/-! ## 2. The program reads the same -/

namespace Entry

variable {mapping : Mapping} {entry : Entry} {key : String}

/-- The value that the program derives is the value that the entry submits. -/
theorem choiceValue_eq_ok_iff {value : ChoiceValue} :
    entry.choiceValue key mapping = .ok value ↔ entry.Submits mapping key value := by
  unfold choiceValue
  constructor
  · intro h
    cases hrole : mapping.valuePath? with
    | some path =>
      rw [hrole] at h
      obtain ⟨v, hv, rfl⟩ := map_eq_ok_iff.mp h
      exact .field hrole hv
    | none =>
      rw [hrole] at h
      cases entry with
      | scalar v => cases h; exact .scalarKey hrole
      | record fields => cases h; exact .recordKey hrole
      | identified keyName fields =>
        cases hf : fields.lookup keyName with
        | none => simp [hf] at h
        | some v =>
          simp only [hf, Except.ok.injEq] at h
          subst h
          exact .identity hrole hf
  · intro h
    cases h with
    | field hrole hfield =>
      rw [hrole]
      exact map_eq_ok_iff.mpr ⟨_, hfield, rfl⟩
    | identity hrole hfield => simp [hrole, hfield]
    | scalarKey hrole => simp [hrole]
    | recordKey hrole => simp [hrole]

theorem Submits.unique {value other : ChoiceValue} (h : entry.Submits mapping key value)
    (h' : entry.Submits mapping key other) : value = other := by
  rw [← choiceValue_eq_ok_iff] at h h'
  exact Except.ok.inj (h.symm.trans h')

/-- A record has the title that its title field writes. -/
theorem title_of_record (hrecord : entry.isScalar = false) {title : String} :
    entry.title mapping = .ok title ↔
      ∃ path v, mapping.titlePath? = some path ∧ entry.require path = .ok v ∧
        v.plainText = title := by
  cases entry with
  | scalar v => cases hrecord
  | record fields | identified keyName fields =>
    cases hrole : mapping.titlePath? with
    | none => simp [Entry.title, hrole]
    | some path => simp [Entry.title, hrole, map_eq_ok_iff]

/-- The title that the program finds is the title of the entry. -/
theorem title_eq_ok_iff {title : String} :
    entry.title mapping = .ok title ↔ entry.Titled mapping title := by
  constructor
  · intro h
    cases hs : entry.isScalar with
    | true =>
      cases entry with
      | scalar v => cases h; exact .scalar
      | record fields => cases hs
      | identified keyName fields => cases hs
    | false =>
      obtain ⟨path, v, hrole, hv, rfl⟩ := (title_of_record hs).mp h
      exact .field hs hrole hv
  · intro h
    cases h with
    | scalar => rfl
    | field hrecord hrole hfield =>
      exact (title_of_record hrecord).mpr ⟨_, _, hrole, hfield, rfl⟩

theorem role?_eq_some_iff {role : Option String} {v : Value} :
    entry.role? role = some v ↔ ∃ path, role = some path ∧ entry.present? path = some v :=
  Option.bind_eq_some_iff

/-- The attributes that the program finds are those of the entry. -/
theorem attributes_eq_iff {attributes : Members String} :
    entry.attributes mapping = attributes ↔ entry.Attributed mapping attributes := by
  unfold Entry.attributes
  constructor
  · intro h
    subst h
    cases hrole : entry.role? mapping.attributesPath? with
    | none =>
      refine .none fun path members hp hv => ?_
      rw [role?_eq_some_iff.mpr ⟨path, hp, hv⟩] at hrole
      cases hrole
    | some v =>
      obtain ⟨path, hp, hv⟩ := role?_eq_some_iff.mp hrole
      by_cases hobject : ∃ members, v = .object members
      · obtain ⟨members, rfl⟩ := hobject
        exact .object hp hv
      · have hempty : attributesOf v = [] := by
          cases v with
          | object members => exact absurd ⟨members, rfl⟩ hobject
          | null | bool _ | number _ | string _ | array _ => rfl
        rw [Option.elim_some, hempty]
        refine .none fun path' members hp' hv' => hobject ⟨members, ?_⟩
        rw [hp, Option.some.injEq] at hp'
        rw [← hp', hv, Option.some.injEq] at hv'
        exact hv'
  · intro h
    cases h with
    | object hrole hfield =>
      rw [role?_eq_some_iff.mpr ⟨_, hrole, hfield⟩]
      rfl
    | none hfield =>
      cases hrole : entry.role? mapping.attributesPath? with
      | none => rfl
      | some v =>
        obtain ⟨path, hp, hv⟩ := role?_eq_some_iff.mp hrole
        cases v with
        | object members => exact absurd hv (hfield path members hp)
        | null | bool _ | number _ | string _ | array _ => rfl

/-- The label that the program finds is that of the entry. -/
theorem group?_eq_iff {label : Option String} :
    entry.group? mapping = label ↔ entry.Grouped mapping label := by
  unfold group?
  constructor
  · intro h
    subst h
    cases hlabel : (entry.role? mapping.optgroupPath?).filter Value.isTruthy with
    | none =>
      refine .none fun path v hp hv => ?_
      have hrole := role?_eq_some_iff.mpr ⟨path, hp, hv⟩
      simpa [hrole, Option.filter_some] using hlabel
    | some v =>
      obtain ⟨hrole, htrue⟩ := Option.filter_eq_some_iff.mp hlabel
      obtain ⟨path, hp, hv⟩ := role?_eq_some_iff.mp hrole
      exact .label hp hv htrue
  · intro h
    cases h with
    | label hrole hfield htrue =>
      rw [role?_eq_some_iff.mpr ⟨_, hrole, hfield⟩, Option.filter_some, if_pos htrue]
      rfl
    | none hfield =>
      cases hrole : entry.role? mapping.optgroupPath? with
      | none => rfl
      | some v =>
        obtain ⟨path, hp, hv⟩ := role?_eq_some_iff.mp hrole
        rw [Option.filter_some, hfield path v hp hv]
        rfl

/-- The program keeps an entry that is not selected exactly where it is actual. -/
theorem isStale_eq_false_iff : entry.isStale mapping = false ↔ entry.Actual mapping := by
  unfold isStale Actual
  rw [Option.any_eq_false]
  constructor
  · intro h path mark hp hv
    simpa using h mark (role?_eq_some_iff.mpr ⟨path, hp, hv⟩)
  · intro h mark hrole
    obtain ⟨path, hp, hv⟩ := role?_eq_some_iff.mp hrole
    simpa using h path mark hp hv

end Entry

/-! ## 3. One row for each included entry -/

namespace Request

variable {request : Request} {localizer : Localizer}

/-- The test of the program, for the value that the entry submits. -/
theorem includes_iff {keyed : String × Entry} {value : ChoiceValue}
    (hvalue : keyed.2.Submits request.mapping keyed.1 value) :
    request.includes keyed.2 value = true ↔ request.Included keyed := by
  have htest : request.includes keyed.2 value = true ↔ value.display ∈ request.selected ∨
      request.condition.passes keyed.2 value.toValue = true ∧ keyed.2.Actual request.mapping := by
    simp [includes, Entry.isStale_eq_false_iff]
  rw [htest]
  constructor
  · intro h
    exact ⟨value, hvalue, h⟩
  · intro h
    obtain ⟨other, hother, h⟩ := h
    rw [hvalue.unique hother]
    exact h

/-- An entry counts where its value can be derived and the program says so. -/
def admitsKeyed (request : Request) (keyed : String × Entry) : Bool :=
  match keyed.2.choiceValue keyed.1 request.mapping with
  | .ok value => request.includes keyed.2 value
  | .error _ => false

theorem admitsKeyed_iff {keyed : String × Entry} :
    request.admitsKeyed keyed = true ↔ request.Included keyed := by
  unfold admitsKeyed
  cases h : keyed.2.choiceValue keyed.1 request.mapping with
  | ok value => exact includes_iff (Entry.choiceValue_eq_ok_iff.mp h)
  | error e =>
    simp only [Bool.false_eq_true, false_iff]
    intro h
    obtain ⟨value, hvalue, _⟩ := h
    rw [Entry.choiceValue_eq_ok_iff.mpr hvalue] at h
    cases h

instance : DecidablePred request.Included := fun _ => decidable_of_iff _ admitsKeyed_iff

/-- The row of an entry with a derived value shows it. -/
theorem row_eq_ok_iff {keyed : String × Entry} {value : ChoiceValue} {row : Row}
    (hvalue : keyed.2.Submits request.mapping keyed.1 value) :
    request.row localizer keyed.2 value = .ok row ↔
      row.Shows request.mapping localizer keyed := by
  unfold Request.row
  rw [bind_eq_ok_iff]
  constructor
  · intro h
    obtain ⟨title, htitle, hrow⟩ := h
    cases hrow
    exact ⟨hvalue, ⟨title, Entry.title_eq_ok_iff.mp htitle, rfl⟩, Entry.attributes_eq_iff.mp rfl,
      ⟨_, Entry.group?_eq_iff.mp rfl, rfl⟩, rfl⟩
  · intro h
    obtain ⟨title, htitle, ht⟩ := h.title
    obtain ⟨label, hlabel, hl⟩ := h.optgroup
    refine ⟨title, Entry.title_eq_ok_iff.mpr htitle, ?_⟩
    obtain ⟨group, value', title', attributes, optgroup⟩ := row
    have hg : group = optgroup := h.group
    subst hg
    simp only at ht hl
    rw [Entry.group?_eq_iff.mpr hlabel, Entry.attributes_eq_iff.mpr h.attributes,
      hvalue.unique h.value, ← ht, ← hl]
    rfl

/-- The outcome for one entry: a row exactly where it counts. -/
theorem row?_eq_ok_iff (keyed : String × Entry) {outcome : Option Row} :
    request.row? localizer keyed.1 keyed.2 = .ok outcome ↔
      (∃ value, keyed.2.Submits request.mapping keyed.1 value) ∧
        if request.Included keyed then
          ∃ row, outcome = some row ∧ row.Shows request.mapping localizer keyed
        else outcome = none := by
  unfold row?
  rw [bind_eq_ok_iff]
  constructor
  · intro h
    obtain ⟨value, hvalue, h⟩ := h
    rw [Entry.choiceValue_eq_ok_iff] at hvalue
    refine ⟨⟨value, hvalue⟩, ?_⟩
    by_cases hin : request.Included keyed
    · rw [if_pos ((includes_iff hvalue).mpr hin)] at h
      obtain ⟨row, hrow, hout⟩ := bind_eq_ok_iff.mp h
      cases hout
      rw [if_pos hin]
      exact ⟨row, rfl, (row_eq_ok_iff hvalue).mp hrow⟩
    · rw [if_neg (fun e => hin ((includes_iff hvalue).mp e))] at h
      cases h
      rw [if_neg hin]
  · intro h
    obtain ⟨⟨value, hvalue⟩, h⟩ := h
    refine ⟨value, Entry.choiceValue_eq_ok_iff.mpr hvalue, ?_⟩
    by_cases hin : request.Included keyed
    · rw [if_pos hin] at h
      obtain ⟨row, rfl, hrow⟩ := h
      rw [if_pos ((includes_iff hvalue).mpr hin)]
      exact bind_eq_ok_iff.mpr ⟨row, (row_eq_ok_iff hvalue).mpr hrow, rfl⟩
    · rw [if_neg hin] at h
      subst h
      rw [if_neg (fun e => hin ((includes_iff hvalue).mp e))]
      rfl

/-- **The rows of a list of entries**: every entry submits a value, and the included ones have a
    row each, in order. -/
theorem rowsOf_eq_ok_iff {entries : Entries} {rows : List Row} :
    request.rowsOf localizer entries = .ok rows ↔
      (∀ keyed ∈ entries, ∃ value, keyed.2.Submits request.mapping keyed.1 value) ∧
        List.Forall₂ (fun keyed row => row.Shows request.mapping localizer keyed)
          (entries.filter (request.Included ·)) rows := by
  induction entries generalizing rows with
  | nil => simp [rowsOf, eq_comm]
  | cons keyed rest ih =>
    -- the first failure ends the loop, so both the first entry and the rest must succeed
    obtain ⟨key, entry⟩ := keyed
    have hstep : request.rowsOf localizer ((key, entry) :: rest) = .ok rows ↔
        ∃ outcome, request.row? localizer key entry = .ok outcome ∧
          ∃ more, request.rowsOf localizer rest = .ok more ∧ outcome.toList ++ more = rows := by
      simp only [rowsOf, bind_eq_ok_iff, pure, Except.pure, Except.ok.injEq]
    rw [hstep, List.forall_mem_cons]
    constructor
    · intro h
      obtain ⟨outcome, hfirst, more, hmore, rfl⟩ := h
      obtain ⟨hvalue, hout⟩ := (row?_eq_ok_iff (key, entry)).mp hfirst
      obtain ⟨hrest, hshows⟩ := ih.mp hmore
      refine ⟨⟨hvalue, hrest⟩, ?_⟩
      by_cases hin : request.Included (key, entry)
      · rw [if_pos hin] at hout
        obtain ⟨row, rfl, hrow⟩ := hout
        rw [List.filter_cons_of_pos (by simpa using hin)]
        exact .cons hrow hshows
      · rw [if_neg hin] at hout
        subst hout
        rw [List.filter_cons_of_neg (by simpa using hin)]
        exact hshows
    · intro h
      obtain ⟨⟨hvalue, hrest⟩, hshows⟩ := h
      by_cases hin : request.Included (key, entry)
      · rw [List.filter_cons_of_pos (by simpa using hin)] at hshows
        cases hshows with
        | @cons _ row _ more hrow hmore =>
          refine ⟨some row, ?_, more, ih.mpr ⟨hrest, hmore⟩, rfl⟩
          exact (row?_eq_ok_iff (key, entry)).mpr
            ⟨hvalue, by rw [if_pos hin]; exact ⟨row, rfl, hrow⟩⟩
      · rw [List.filter_cons_of_neg (by simpa using hin)] at hshows
        refine ⟨none, ?_, rows, ih.mpr ⟨hrest, hshows⟩, rfl⟩
        exact (row?_eq_ok_iff (key, entry)).mpr ⟨hvalue, by rw [if_neg hin]⟩

/-- An entry in front that submits a value always counts: there is no condition and no mark. -/
theorem included_front {keyed : String × Entry} {value : ChoiceValue}
    (hvalue : keyed.2.Submits .bare keyed.1 value) : request.front.Included keyed :=
  ⟨value, hvalue, .inr ⟨rfl, fun _ _ hrole => by cases hrole⟩⟩

theorem filter_front {entries : Entries}
    (hvalues : ∀ keyed ∈ entries, ∃ value, keyed.2.Submits .bare keyed.1 value) :
    entries.filter (request.front.Included ·) = entries := by
  refine List.filter_eq_self.mpr fun keyed hmem => ?_
  obtain ⟨value, hvalue⟩ := hvalues keyed hmem
  exact decide_eq_true (included_front hvalue)

theorem rowsOf_front_eq_ok_iff {entries : Entries} {rows : List Row} :
    request.front.rowsOf localizer entries = .ok rows ↔
      List.Forall₂ (fun keyed row => row.Shows .bare localizer keyed) entries rows := by
  rw [rowsOf_eq_ok_iff]
  constructor
  · intro h
    obtain ⟨hvalues, hshows⟩ := h
    rw [filter_front hvalues] at hshows
    exact hshows
  · intro hshows
    have hvalues : ∀ keyed ∈ entries, ∃ value, keyed.2.Submits .bare keyed.1 value :=
      ((List.forall₂_and_left _ _).mp (hshows.imp fun _ _ hrow => ⟨⟨_, hrow.value⟩, hrow⟩)).1
    rw [filter_front hvalues]
    exact ⟨hvalues, hshows⟩

theorem rows_eq_ok_split {data : Entries} {rows : List Row} :
    request.rows localizer data = .ok rows ↔
      ∃ before, request.front.rowsOf localizer request.prepends = .ok before ∧
        ∃ after, request.rowsOf localizer data = .ok after ∧ before ++ after = rows := by
  simp only [Request.rows, bind_eq_ok_iff, pure, Except.pure, Except.ok.injEq]

/-- The rows of a request show the entries in front, and then those of the data that count. -/
theorem exists_shown_of_rows {data : Entries} {rows : List Row}
    (hrows : request.rows localizer data = .ok rows) :
    ∃ before after, rows = before ++ after ∧
      List.Forall₂ (fun keyed row => row.Shows .bare localizer keyed) request.prepends before ∧
      List.Forall₂ (fun keyed row => row.Shows request.mapping localizer keyed)
        (data.filter (request.Included ·)) after := by
  obtain ⟨before, hbefore, after, hafter, rfl⟩ := rows_eq_ok_split.mp hrows
  exact ⟨before, after, rfl, rowsOf_front_eq_ok_iff.mp hbefore, (rowsOf_eq_ok_iff.mp hafter).2⟩

end Request

end Picklist
