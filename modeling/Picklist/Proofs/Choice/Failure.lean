import Picklist.Menu
import Picklist.Proofs.Choice.Rows
import Picklist.Proofs.Path.Extraction

/-!
# Why there are no rows

The rows of a request fail with the first of its entries that fails. Which entries fail is stated
beside what an entry says, through the fields of the entry alone.

* `Entry.SubmitsNothing`: an entry whose value cannot be told, whether or not it would count;
* `Entry.Untitled`: an entry that has no title;
* `Request.Fails`: a keyed entry that fails: without a value, or without a title while it counts;
* `Request.readings`: the entries in the order in which they are read;
* `Request.rowsOf_eq_error_iff`: a list of entries fails with the first that fails;
* `Request.rows_fail_at_first_failure`: so do the rows and the menu of a request.
-/

namespace Picklist

namespace Entry

/-! ## 1. Entries that lack a value or a title -/

variable (mapping : Mapping)

/-- An entry whose value cannot be told, and the error that says what is missing. -/
inductive SubmitsNothing : Entry → SelectionError → Prop where
  /-- The value role is enabled and leads nowhere. -/
  | field {entry : Entry} {path : String} (hrole : mapping.valuePath? = some path)
      (hmissing : entry.find? path = none) : SubmitsNothing entry (.missingField path)
  /-- The value role is disabled, and the field that identifies the record is not there. -/
  | identity {keyName : String} {fields : Value.Fields} (hrole : mapping.valuePath? = none)
      (hmissing : fields.lookup keyName = none) :
      SubmitsNothing (.identified keyName fields) (.missingField keyName)

/-- An entry that has no title, and the error that says what is missing. A scalar always has
    one. -/
inductive Untitled (entry : Entry) : SelectionError → Prop where
  /-- The title role is disabled. -/
  | disabled (hrecord : entry.isScalar = false) (hrole : mapping.titlePath? = none) :
      Untitled entry (.missingField "")
  /-- The title role is enabled and leads nowhere. -/
  | field {path : String} (hrecord : entry.isScalar = false)
      (hrole : mapping.titlePath? = some path) (hmissing : entry.find? path = none) :
      Untitled entry (.missingField path)

variable {mapping} {entry : Entry}

/-- Nothing but a missing field leaves an entry without a value. -/
theorem SubmitsNothing.exists_path {e : SelectionError} (h : entry.SubmitsNothing mapping e) :
    ∃ path, e = .missingField path := by
  cases h with
  | field | identity => exact ⟨_, rfl⟩

theorem Untitled.exists_path {e : SelectionError} (h : entry.Untitled mapping e) :
    ∃ path, e = .missingField path := by
  cases h with
  | disabled | field => exact ⟨_, rfl⟩

/-- The program cannot derive a value exactly where it cannot be told. -/
theorem choiceValue_eq_error_iff {key : String} {e : SelectionError} :
    entry.choiceValue key mapping = .error e ↔ entry.SubmitsNothing mapping e := by
  unfold choiceValue
  constructor
  · intro h
    cases hrole : mapping.valuePath? with
    | some path =>
      rw [hrole] at h
      obtain ⟨hmissing, rfl⟩ := require_eq_error_iff.mp (map_eq_error_iff.mp h)
      exact .field hrole hmissing
    | none =>
      rw [hrole] at h
      cases entry with
      | scalar v => cases h
      | record fields => cases h
      | identified keyName fields =>
        cases hf : fields.lookup keyName with
        | some v => simp [hf] at h
        | none =>
          simp only [hf, Except.error.injEq] at h
          subst h
          exact .identity hrole hf
  · intro h
    cases h with
    | field hrole hmissing =>
      rw [hrole]
      exact map_eq_error_iff.mpr (require_eq_error_iff.mpr ⟨hmissing, rfl⟩)
    | identity hrole hmissing => simp [hrole, hmissing]

/-- What is not a scalar takes its title from the title role. -/
theorem title_of_isScalar_eq_false (hrecord : entry.isScalar = false) :
    entry.title mapping = match mapping.titlePath? with
      | some path => (entry.require path).map Value.plainText
      | none => .error (.missingField "") := by
  cases entry with
  | scalar v => cases hrecord
  | record fields | identified keyName fields => rfl

/-- The program finds no title exactly where the entry has none. -/
theorem title_eq_error_iff {e : SelectionError} :
    entry.title mapping = .error e ↔ entry.Untitled mapping e := by
  constructor
  · intro h
    have hrecord : entry.isScalar = false := by
      cases entry with
      | scalar v => cases h
      | record fields | identified keyName fields => rfl
    rw [title_of_isScalar_eq_false hrecord] at h
    cases hrole : mapping.titlePath? with
    | none =>
      rw [hrole] at h
      cases h
      exact .disabled hrecord hrole
    | some path =>
      rw [hrole] at h
      obtain ⟨hmissing, rfl⟩ := require_eq_error_iff.mp (map_eq_error_iff.mp h)
      exact .field hrecord hrole hmissing
  · intro h
    cases h with
    | disabled hrecord hrole => rw [title_of_isScalar_eq_false hrecord, hrole]
    | field hrecord hrole hmissing =>
      rw [title_of_isScalar_eq_false hrecord, hrole]
      exact map_eq_error_iff.mpr (require_eq_error_iff.mpr ⟨hmissing, rfl⟩)

end Entry

namespace Request

variable {request : Request} {localizer : Localizer}

/-! ## 2. Entries that fail -/

/-- **A keyed entry that fails under a request.** It is without a value, which counts even where
    the entry would be left out; or it is included and without a title. -/
inductive Fails (request : Request) (keyed : String × Entry) (e : SelectionError) : Prop where
  | value (hvalue : keyed.2.SubmitsNothing request.mapping e)
  | title (hin : request.Included keyed) (htitle : keyed.2.Untitled request.mapping e)

theorem row_eq_error_iff {entry : Entry} {value : ChoiceValue} {e : SelectionError} :
    request.row localizer entry value = .error e ↔ entry.Untitled request.mapping e := by
  unfold Request.row
  rw [bind_pure_eq_error_iff, Entry.title_eq_error_iff]

/-- **The outcome for one entry is an error exactly where the entry fails.** -/
theorem row?_eq_error_iff (keyed : String × Entry) {e : SelectionError} :
    request.row? localizer keyed.1 keyed.2 = .error e ↔ request.Fails keyed e := by
  unfold row?
  rw [bind_eq_error_iff, Entry.choiceValue_eq_error_iff]
  constructor
  · intro h
    rcases h with hvalue | ⟨value, hvalue, h⟩
    · exact .value hvalue
    · rw [Entry.choiceValue_eq_ok_iff] at hvalue
      by_cases hin : request.Included keyed
      · rw [if_pos ((includes_iff hvalue).mpr hin), bind_pure_eq_error_iff] at h
        exact .title hin (row_eq_error_iff.mp h)
      · rw [if_neg (fun e => hin ((includes_iff hvalue).mp e))] at h
        cases h
  · intro h
    rcases h with hvalue | ⟨hin, htitle⟩
    · exact .inl hvalue
    · have ⟨value, hvalue, _⟩ := hin
      refine .inr ⟨value, Entry.choiceValue_eq_ok_iff.mpr hvalue, ?_⟩
      rw [if_pos ((includes_iff hvalue).mpr hin), bind_pure_eq_error_iff]
      exact row_eq_error_iff.mpr htitle

/-- Nothing but a missing field makes an entry fail. -/
theorem Fails.exists_path {keyed : String × Entry} {e : SelectionError}
    (h : request.Fails keyed e) : ∃ path, e = .missingField path := by
  rcases h with hvalue | ⟨_, htitle⟩
  · exact hvalue.exists_path
  · exact htitle.exists_path

/-- An entry with a value fails for its title alone, and only where it counts. -/
theorem Fails.untitled {keyed : String × Entry} {value : ChoiceValue} {e : SelectionError}
    (h : request.Fails keyed e) (hvalue : keyed.2.Submits request.mapping keyed.1 value) :
    request.Included keyed ∧ keyed.2.Untitled request.mapping e := by
  rcases h with hnone | ⟨hin, htitle⟩
  · have hderived := Entry.choiceValue_eq_ok_iff.mpr hvalue
    have hfailed : keyed.2.choiceValue keyed.1 request.mapping = .error e :=
      Entry.choiceValue_eq_error_iff.mpr hnone
    cases hderived.symm.trans hfailed
  · exact ⟨hin, htitle⟩

/-! ## 3. The first entry that fails -/

/-- The first entry of a list that fails, each under the request that it is read under, fails with
    the error. -/
def FirstFails (readings : List (Request × (String × Entry))) (e : SelectionError) : Prop :=
  ∃ before reading after, readings = before ++ reading :: after ∧
    (∀ earlier ∈ before, ∀ other, ¬ earlier.1.Fails earlier.2 other) ∧
    reading.1.Fails reading.2 e

variable {first later : List (Request × (String × Entry))} {e : SelectionError}

theorem not_firstFails_nil : ¬ FirstFails [] e := by
  intro h
  obtain ⟨before, reading, after, hsplit, _⟩ := h
  exact List.cons_ne_nil _ _ (List.append_eq_nil_iff.mp hsplit.symm).2

theorem firstFails_cons {reading : Request × (String × Entry)} :
    FirstFails (reading :: first) e ↔ reading.1.Fails reading.2 e ∨
      (∀ other, ¬ reading.1.Fails reading.2 other) ∧ FirstFails first e := by
  constructor
  · intro h
    obtain ⟨before, failing, after, hsplit, hbefore, hfails⟩ := h
    rcases List.cons_eq_append_iff.mp hsplit with ⟨rfl, hhere⟩ | ⟨more, rfl, hrest⟩
    · obtain ⟨rfl, rfl⟩ := List.cons.inj hhere
      exact .inl hfails
    · obtain ⟨hfirst, hmore⟩ := List.forall_mem_cons.mp hbefore
      exact .inr ⟨hfirst, more, failing, after, hrest, hmore, hfails⟩
  · intro h
    rcases h with hfails | ⟨hfirst, before, failing, after, rfl, hbefore, hfails⟩
    · exact ⟨[], reading, first, rfl, fun _ hmem => absurd hmem List.not_mem_nil, hfails⟩
    · exact ⟨reading :: before, failing, after, rfl,
        List.forall_mem_cons.mpr ⟨hfirst, hbefore⟩, hfails⟩

theorem firstFails_append : FirstFails (first ++ later) e ↔ FirstFails first e ∨
    (∀ reading ∈ first, ∀ other, ¬ reading.1.Fails reading.2 other) ∧ FirstFails later e := by
  induction first with
  | nil => simp [not_firstFails_nil]
  | cons reading rest ih =>
    rw [List.cons_append, firstFails_cons, firstFails_cons, ih, List.forall_mem_cons]
    constructor
    · intro h
      rcases h with hfails | ⟨hfirst, hrest | ⟨hnone, hlater⟩⟩
      · exact .inl (.inl hfails)
      · exact .inl (.inr ⟨hfirst, hrest⟩)
      · exact .inr ⟨⟨hfirst, hnone⟩, hlater⟩
    · intro h
      rcases h with (hfails | ⟨hfirst, hrest⟩) | ⟨⟨hfirst, hnone⟩, hlater⟩
      · exact .inl hfails
      · exact .inr ⟨hfirst, .inl hrest⟩
      · exact .inr ⟨hfirst, .inr ⟨hnone, hlater⟩⟩

/-- Where an entry fails there is a first one that does. -/
theorem exists_firstFails_iff :
    (∃ e, FirstFails first e) ↔ ∃ reading ∈ first, ∃ e, reading.1.Fails reading.2 e := by
  induction first with
  | nil => simp [not_firstFails_nil]
  | cons reading rest ih =>
    simp only [firstFails_cons, List.exists_mem_cons_iff, ← ih]
    constructor
    · intro h
      obtain ⟨e, hfails | ⟨_, hrest⟩⟩ := h
      · exact .inl ⟨e, hfails⟩
      · exact .inr ⟨e, hrest⟩
    · intro h
      by_cases hfirst : ∃ e, reading.1.Fails reading.2 e
      · obtain ⟨e, hfails⟩ := hfirst
        exact ⟨e, .inl hfails⟩
      · obtain ⟨e, hrest⟩ := h.resolve_left hfirst
        exact ⟨e, .inr ⟨not_exists.mp hfirst, hrest⟩⟩

/-! ## 4. Rows that fail -/

/-- **A list of entries fails with the first that fails.** -/
theorem rowsOf_eq_error_iff {entries : Entries} :
    request.rowsOf localizer entries = .error e ↔ FirstFails (entries.map (request, ·)) e := by
  induction entries with
  | nil =>
    refine iff_of_false (fun h => ?_) not_firstFails_nil
    cases h
  | cons keyed rest ih =>
    obtain ⟨key, entry⟩ := keyed
    have hfirst : ∀ {other}, request.row? localizer key entry = .error other ↔
        request.Fails (key, entry) other := row?_eq_error_iff (key, entry)
    -- the rest is read only after the first entry has succeeded
    have hpasses : (∃ outcome, request.row? localizer key entry = .ok outcome) ↔
        ∀ other, ¬ request.Fails (key, entry) other :=
      exists_ok_iff.trans (forall_congr' fun _ => not_congr hfirst)
    rw [List.map_cons, firstFails_cons, ← ih, ← hfirst, ← hpasses, rowsOf]
    exact bind_bind_pure_eq_error_iff

theorem exists_rowsOf_eq_ok_iff {entries : Entries} :
    (∃ rows, request.rowsOf localizer entries = .ok rows) ↔
      ∀ reading ∈ entries.map (request, ·), ∀ other, ¬ reading.1.Fails reading.2 other := by
  rw [exists_ok_iff]
  simp only [ne_eq, rowsOf_eq_error_iff]
  rw [← not_exists, exists_firstFails_iff]
  simp only [not_exists, not_and]

/-- The entries in the order in which they are read, each with the request that it is read under:
    those in front under the same selection, but without a condition and under the bare mapping;
    then those of the data under the request itself. -/
def readings (request : Request) (data : Entries) : List (Request × (String × Entry)) :=
  request.prepends.map ((⟨request.selected, .always, request.prepends, .bare⟩ : Request), ·)
    ++ data.map (request, ·)

theorem front_eq (request : Request) :
    request.front = ⟨request.selected, .always, request.prepends, .bare⟩ := rfl

/-- **The rows of a request fail with the first reading that fails.** -/
theorem rows_eq_error_iff {data : Entries} :
    request.rows localizer data = .error e ↔ FirstFails (request.readings data) e := by
  have hfront : request.front.rowsOf localizer request.prepends = .error e ↔
      FirstFails (request.prepends.map (request.front, ·)) e := rowsOf_eq_error_iff
  have hbefore : (∃ before, request.front.rowsOf localizer request.prepends = .ok before) ↔
      ∀ reading ∈ request.prepends.map (request.front, ·), ∀ other,
        ¬ reading.1.Fails reading.2 other := exists_rowsOf_eq_ok_iff
  have hdata : request.rowsOf localizer data = .error e ↔
      FirstFails (data.map (request, ·)) e := rowsOf_eq_error_iff
  unfold rows readings
  rw [← front_eq, firstFails_append, ← hfront, ← hbefore, ← hdata]
  exact bind_bind_pure_eq_error_iff

/-- An entry whose value role leads to `null` submits the empty text. -/
theorem submits_of_null {mapping : Mapping} {keyed : String × Entry} {path : String}
    (hrole : mapping.valuePath? = some path) (hnull : keyed.2.find? path = some .null) :
    keyed.2.Submits mapping keyed.1 (.text "") := by
  have hfield : keyed.2.require path = .ok .null := by rw [Entry.require, hnull]
  exact .field hrole hfield

/-- An entry whose title role leads anywhere, be it to `null`, has a title. -/
theorem not_untitled_of_found {mapping : Mapping} {entry : Entry} {path : String} {v : Value}
    (hrole : mapping.titlePath? = some path) (hfound : entry.find? path = some v)
    (e : SelectionError) : ¬ entry.Untitled mapping e := by
  intro h
  cases h with
  | disabled _ hnone =>
    rw [hrole] at hnone
    cases hnone
  | field _ hother hmissing =>
    rw [hrole, Option.some.injEq] at hother
    subst hother
    rw [hfound] at hmissing
    cases hmissing

/-- **Rows fail at the first failure.** The rows of a request, and its menu, fail with an error
    exactly where it is the error of the first entry that fails: of those in front, read under the
    bare mapping and without a condition, then of those of the data. So they fail exactly where
    some entry does. What fails is a value role that leads nowhere, as it always does in a scalar,
    and a missing identity, both whether or not the entry would count; or a missing title. An entry
    that has a value and is left out does not fail, nor does `null` as a value or as a title make
    an entry fail, and only missing fields are reported. -/
theorem rows_fail_at_first_failure (request : Request) (localizer : Localizer) (data : Entries)
    (e : SelectionError) :
    (request.rows localizer data = .error e ↔ FirstFails (request.readings data) e) ∧
    (Menu.build request localizer data = .error e ↔ FirstFails (request.readings data) e) ∧
    ((∃ error, request.rows localizer data = .error error) ↔
      ∃ reading ∈ request.readings data, ∃ error, reading.1.Fails reading.2 error) ∧
    ∀ (under : Request) (keyed : String × Entry),
      (∀ path, under.mapping.valuePath? = some path → keyed.2.isScalar = true →
        under.Fails keyed (.missingField path)) ∧
      (∀ value, keyed.2.Submits under.mapping keyed.1 value → ¬ under.Included keyed →
        ∀ error, ¬ under.Fails keyed error) ∧
      (∀ path, under.mapping.valuePath? = some path → keyed.2.find? path = some .null →
        keyed.2.Submits under.mapping keyed.1 (.text "")) ∧
      (∀ path value, under.mapping.titlePath? = some path → keyed.2.find? path = some .null →
        keyed.2.Submits under.mapping keyed.1 value → ∀ error, ¬ under.Fails keyed error) ∧
      ∀ error, under.Fails keyed error → ∃ path, error = .missingField path := by
  refine ⟨rows_eq_error_iff, map_eq_error_iff.trans rows_eq_error_iff, ?_, fun under keyed =>
    ⟨fun path hrole hscalar => ?_, fun value hvalue hout error hfails => ?_,
      fun path hrole hnull => submits_of_null hrole hnull,
      fun path value hrole hnull hvalue error hfails => ?_,
      fun error hfails => hfails.exists_path⟩⟩
  · simp only [rows_eq_error_iff]
    exact exists_firstFails_iff
  · have hmissing : keyed.2.find? path = none := by
      obtain ⟨key, entry⟩ := keyed
      cases entry with
      | scalar v => rfl
      | record fields | identified keyName fields => cases hscalar
    exact .value (.field hrole hmissing)
  · exact hout (hfails.untitled hvalue).1
  · exact not_untitled_of_found hrole hnull error (hfails.untitled hvalue).2

end Request

end Picklist
