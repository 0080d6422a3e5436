import Picklist.Proofs.Json.Compact
import Picklist.Proofs.Settings.Layers

/-!
# Settings as JSON records

Settings and the two parts of them are records, each written by name or by position. A mapping
that is left out, a role that is left out and a role that is `null` are three inputs: the first
stands for the standard mapping, the other two for a role that is not set.

* `Value.IsRecord`, `Value.field?`: the records and what they write for a field;
* `OptionalText`: the texts of roles and of the catalog;
* `Mapping.WrittenBy`, `Settings.WrittenBy`: what a record says about each role and the catalog;
* `Settings.read_back`: settings are read back from what is written of them.
-/

namespace Picklist

/-! ## 1. Records -/

namespace Value

/-- The records of so many fields: an object, or an array that is not longer. -/
inductive IsRecord (count : Nat) : Value → Prop where
  | named (members : Fields) : IsRecord count (.object members)
  | placed {items : List Value} (hlength : items.length ≤ count) : IsRecord count (.array items)

/-- What a record writes for a field: what it holds under its name, or at its place. -/
def field? (name : String) (place : Nat) : Value → Option Value
  | .object members => members.lookup name
  | .array items => items[place]?
  | _ => none

end Value

/-- What stands for a text that may be missing. -/
inductive OptionalText : Option Value → Option String → Prop where
  | missing : OptionalText none none
  | null : OptionalText (some .null) none
  | text (s : String) : OptionalText (some (.string s)) (some s)

theorem optionalText_ofText? (text : Option String) :
    OptionalText (some (.ofText? text)) text := by
  cases text with
  | none => exact .null
  | some s => exact .text s

namespace RecordForm

/-- A JSON record has something to say about each field, and no field besides. -/
theorem fields?_json_eq_some_iff {names : List String} {v : Value} {written : List (Option Value)} :
    json.fields? names v = some written ↔ v.IsRecord names.length ∧
      written = names.zipIdx.map fun field => v.field? field.1 field.2 := by
  cases v with
  | object members =>
    have hnames : (names.map fun name => members.lookup name)
        = names.zipIdx.map fun field => (Value.object members).field? field.1 field.2 := by
      have hmap : names.zipIdx.map Prod.fst = names := List.zipIdx_map_fst 0 names
      have hfield := congrArg (List.map fun name => members.lookup name) hmap
      rw [List.map_map] at hfield
      exact hfield.symm
    rw [← hnames, fields?, Option.some.injEq, @eq_comm _ written]
    exact ⟨fun h => ⟨.named members, h⟩, And.right⟩
  | array items =>
    have hfields : json.fields? names (.array items) = if items.length ≤ names.length then
        some (names.zipIdx.map fun field => (Value.array items).field? field.1 field.2)
        else none := by
      simp only [fields?, json, Bool.or_false, decide_eq_true_eq]
      rfl
    rw [hfields, Option.ite_none_right_eq_some, Option.some.injEq, @eq_comm _ written]
    refine and_congr_left fun _ => ⟨.placed, fun h => ?_⟩
    cases h with
    | placed hlength => exact hlength
  | _ =>
    constructor
    · intro h
      cases h
    · intro h
      cases h.1

/-- What is made of a record is made of what it writes for each field. -/
theorem fields?_json_bind_eq_some_iff {α : Type} {names : List String} {v : Value}
    {next : List (Option Value) → Option α} {a : α} :
    json.fields? names v >>= next = some a ↔ v.IsRecord names.length ∧
      next (names.zipIdx.map fun field => v.field? field.1 field.2) = some a := by
  rw [Option.bind_eq_bind, Option.bind_eq_some_iff]
  simp only [fields?_json_eq_some_iff, and_assoc, exists_and_left, exists_eq_left]

theorem text?_json_eq_some_iff {written : Option Value} {text : Option String} :
    json.text? written = some text ↔ OptionalText written text := by
  constructor
  · intro h
    cases written with
    | none =>
      cases h
      exact .missing
    | some v =>
      cases v with
      | null =>
        cases h
        exact .null
      | string s =>
        cases h
        exact .text s
      | _ => cases h
  · intro h
    cases h <;> rfl

end RecordForm

/-! ## 2. Mappings -/

namespace Role

/-- The name of a role. -/
def name : Role → String
  | value => "value"
  | title => "title"
  | optgroup => "optgroup"
  | attributes => "attributes"
  | isActual => "is_actual"

/-- The place of a role among the others. -/
def place : Role → Nat
  | value => 0
  | title => 1
  | optgroup => 2
  | attributes => 3
  | isActual => 4

end Role

namespace Mapping

/-- What a record says about the roles. -/
structure WrittenBy (v : Value) (m : Mapping) : Prop where
  record : v.IsRecord 5
  roles : ∀ role : Role, OptionalText (v.field? role.name role.place) (role.set? m)

/-- **A record is read role by role.** -/
theorem ofValue?_eq_some_iff {v : Value} {m : Mapping} :
    ofValue? .json v = some m ↔ WrittenBy v m := by
  have hread : ofValue? .json v = some m ↔ v.IsRecord 5 ∧
      ∃ value, OptionalText (v.field? "value" 0) value ∧
      ∃ title, OptionalText (v.field? "title" 1) title ∧
      ∃ optgroup, OptionalText (v.field? "optgroup" 2) optgroup ∧
      ∃ attributes, OptionalText (v.field? "attributes" 3) attributes ∧
      ∃ isActual, OptionalText (v.field? "is_actual" 4) isActual ∧
        m = ⟨value, title, optgroup, attributes, isActual⟩ := by
    unfold ofValue?
    rw [RecordForm.fields?_json_bind_eq_some_iff]
    simp only [List.zipIdx_cons, List.zipIdx_nil, List.map_cons, List.map_nil,
      Option.bind_eq_bind, Option.bind_eq_some_iff, RecordForm.text?_json_eq_some_iff,
      Option.pure_def, Option.some.injEq, @eq_comm _ m]
    rfl
  rw [hread]
  constructor
  · intro h
    obtain ⟨hrecord, value, hvalue, title, htitle, optgroup, hoptgroup, attributes, hattributes,
      isActual, hactual, rfl⟩ := h
    refine ⟨hrecord, fun role => ?_⟩
    cases role with
    | value => exact hvalue
    | title => exact htitle
    | optgroup => exact hoptgroup
    | attributes => exact hattributes
    | isActual => exact hactual
  · intro h
    exact ⟨h.record, m.value, h.roles .value, m.title, h.roles .title, m.optgroup,
      h.roles .optgroup, m.attributes, h.roles .attributes, m.isActual, h.roles .isActual, rfl⟩

/-- Each role is written under its name. -/
theorem field?_toValue (m : Mapping) (role : Role) :
    m.toValue.field? role.name role.place = some (.ofText? (role.set? m)) := by
  cases role <;> rfl

theorem writtenBy_toValue (m : Mapping) : WrittenBy m.toValue m := by
  refine ⟨.named _, fun role => ?_⟩
  rw [field?_toValue]
  exact optionalText_ofText? _

end Mapping

/-! ## 3. Settings -/

namespace Settings

/-- What settings write for their mapping, which is the standard one where nothing is written. -/
inductive MappingOf : Option Value → Mapping → Prop where
  | missing : MappingOf none .standard
  | written {v : Value} {m : Mapping} (h : m.WrittenBy v) : MappingOf (some v) m

/-- What settings write for localization; where nothing is written, there is no catalog. -/
inductive CatalogOf : Option Value → Option String → Prop where
  | missing : CatalogOf none none
  | written {v : Value} {catalog : Option String} (hrecord : v.IsRecord 1)
    (htext : OptionalText (v.field? "catalog" 0) catalog) : CatalogOf (some v) catalog

/-- What a record says about the settings. -/
structure WrittenBy (v : Value) (settings : Settings) : Prop where
  record : v.IsRecord 2
  mapping : MappingOf (v.field? "mapping" 0) settings.mapping
  catalog : CatalogOf (v.field? "i18n" 1) settings.catalog

theorem catalog?_eq_some_iff {written : Option Value} {catalog : Option String} :
    catalog? .json written = some catalog ↔ CatalogOf written catalog := by
  cases written with
  | none =>
    constructor
    · intro h
      cases h
      exact .missing
    · intro h
      cases h
      rfl
  | some v =>
    have hread : catalog? .json (some v) = some catalog ↔
        v.IsRecord 1 ∧ OptionalText (v.field? "catalog" 0) catalog := by
      unfold catalog?
      rw [RecordForm.fields?_json_bind_eq_some_iff]
      exact and_congr_right fun _ => RecordForm.text?_json_eq_some_iff
    rw [hread]
    constructor
    · intro h
      exact .written h.1 h.2
    · intro h
      cases h with
      | written hrecord htext => exact ⟨hrecord, htext⟩

theorem mapping?_eq_some_iff {written : Option Value} {m : Mapping} :
    written.elim (some .standard) (Mapping.ofValue? .json) = some m ↔ MappingOf written m := by
  cases written with
  | none =>
    constructor
    · intro h
      cases h
      exact .missing
    · intro h
      cases h
      rfl
  | some v =>
    rw [Option.elim_some, Mapping.ofValue?_eq_some_iff]
    constructor
    · exact .written
    · intro h
      cases h with
      | written h => exact h

/-- **A record is read part by part.** -/
theorem ofValue?_eq_some_iff {v : Value} {settings : Settings} :
    ofValue? v = some settings ↔ WrittenBy v settings := by
  have hread : ofValue? v = some settings ↔ v.IsRecord 2 ∧
      ∃ m, MappingOf (v.field? "mapping" 0) m ∧ ∃ catalog, CatalogOf (v.field? "i18n" 1) catalog ∧
        settings = ⟨m, catalog⟩ := by
    unfold ofValue? parts?
    rw [bind_assoc, RecordForm.fields?_json_bind_eq_some_iff]
    simp only [List.zipIdx_cons, List.zipIdx_nil, List.map_cons, List.map_nil,
      Option.bind_eq_bind, Option.bind_some, Option.bind_eq_some_iff, mapping?_eq_some_iff,
      catalog?_eq_some_iff, Option.pure_def, Option.some.injEq, @eq_comm _ settings]
    rfl
  rw [hread]
  constructor
  · intro h
    obtain ⟨hrecord, m, hmapping, catalog, hcatalog, rfl⟩ := h
    exact ⟨hrecord, hmapping, hcatalog⟩
  · intro h
    exact ⟨h.record, settings.mapping, h.mapping, settings.catalog, h.catalog, rfl⟩

/-- Settings write the record that says what they hold. -/
theorem writtenBy_toValue (settings : Settings) : WrittenBy settings.toValue settings where
  record := .named _
  mapping := .written (Mapping.writtenBy_toValue settings.mapping)
  catalog := .written (.named _) (optionalText_ofText? settings.catalog)

theorem ofValue?_toValue (settings : Settings) : ofValue? settings.toValue = some settings :=
  ofValue?_eq_some_iff.mpr settings.writtenBy_toValue

/-! ## 4. Settings as text -/

theorem readable_ofText? (depth : Nat) (text : Option String) :
    Json.Readable depth (.ofText? text) := by
  cases text with
  | none => exact .null
  | some s => exact .string s

theorem readable_toValue (settings : Settings) : Json.Readable Json.maxDepth settings.toValue := by
  have hroles : ["value", "title", "optgroup", "attributes", "is_actual"].Nodup := by decide
  have hparts : ["mapping", "i18n"].Nodup := by decide
  have hmapping : Json.Readable 126 settings.mapping.toValue := by
    refine .object hroles ?_
    simp only [List.forall_mem_cons, readable_ofText?, true_and]
    exact List.forall_mem_nil _
  have hlocalization :
      Json.Readable 126 (.object [("catalog", .ofText? settings.catalog)]) := by
    refine .object (List.nodup_singleton _) ?_
    exact List.forall_mem_singleton.mpr (readable_ofText? _ _)
  refine .object hparts (List.forall_mem_cons.mpr ⟨hmapping, ?_⟩)
  exact List.forall_mem_singleton.mpr hlocalization

/-- **Settings are read back.** The value that settings write is read as these settings, and so is
    its compact text. A value is read as settings exactly where it is a record of them: each part
    and each role stands under its name or at its place, a mapping that is left out is the standard
    one, and a role or a catalog that is left out or `null` is not set. Whatever value is read, what
    its settings write is read as the same settings. -/
theorem read_back :
    (∀ settings : Settings, ofValue? settings.toValue = some settings) ∧
    (∀ settings : Settings,
      (Json.read? (Json.compact settings.toValue)).bind ofValue? = some settings) ∧
    (∀ (v : Value) (settings : Settings), ofValue? v = some settings ↔ WrittenBy v settings) ∧
    ∀ v : Value, ((ofValue? v).map toValue).bind ofValue? = ofValue? v := by
  refine ⟨ofValue?_toValue, fun settings => ?_, fun v settings => ofValue?_eq_some_iff,
    fun v => ?_⟩
  · rw [Json.read?_compact settings.readable_toValue, Option.bind_some, ofValue?_toValue]
  · cases ofValue? v with
    | none => rfl
    | some settings => exact settings.ofValue?_toValue

/-- A mapping by position that stops early and a mapping that is left out: the roles that are not
    written stay unset in the one, and are the standard ones in the other. -/
example : ofValue? (.array [.array [.string "id", .null]])
      = some ⟨{ Mapping.unset with value := some "id" }, none⟩ ∧
    ofValue? (.object [("other", .null)]) = some standard := ⟨rfl, rfl⟩

end Settings

end Picklist
