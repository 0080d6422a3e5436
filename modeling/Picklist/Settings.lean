import Picklist.Mapping
import Picklist.Record

/-!
# Settings

The settings are the mapping that requests start from and the file of the catalog.
They are folded from layers: what a layer sets wins over the layers before it, and what it leaves
out stays. An empty path counts as set, and disables its role.

* `Settings.ofLayers`: the fold.
* `Settings.ofValue?`, `Settings.toValue`: settings as a record.
-/

namespace Picklist

/-! ## 1. Settings and layers -/

/-- The settings of the program. -/
structure Settings where
  mapping : Mapping
  catalog : Option String
deriving DecidableEq

/-- What one source sets. -/
structure Layer where
  mapping : Option Mapping
  catalog : Option String
deriving DecidableEq

/-- What the surroundings set over all layers. -/
structure Overrides where
  value : Option String
  title : Option String
deriving DecidableEq

namespace Settings

/-- Nothing is set. -/
def unset : Settings := ⟨.unset, none⟩

/-- The settings of records that leave everything out. -/
def standard : Settings := ⟨.standard, none⟩

/-- What the layer sets, over what was set before. -/
def merge (settings : Settings) (layer : Layer) : Settings where
  mapping := layer.mapping.elim settings.mapping settings.mapping.overlay
  catalog := layer.catalog.or settings.catalog

/-- The layer below all others: a value role that is disabled, every other role on its name. -/
def defaults : Layer := ⟨some { Mapping.standard with value := some "" }, none⟩

/-- The settings of layers, the last one on top. -/
def ofLayers (layers : List Layer) : Settings := layers.foldl merge unset

/-- The settings with overrides, which set the value and the title role only. -/
def override (settings : Settings) (overrides : Overrides) : Settings :=
  { settings with mapping := { settings.mapping with
      value := overrides.value.or settings.mapping.value
      title := overrides.title.or settings.mapping.title } }

end Settings

/-! ## 2. As records -/

/-- The mapping that a record writes. -/
def Mapping.ofValue? (form : RecordForm) (v : Value) : Option Mapping := do
  match ← form.fields? ["value", "title", "optgroup", "attributes", "is_actual"] v with
  | [value, title, optgroup, attributes, isActual] =>
    return ⟨← form.text? value, ← form.text? title, ← form.text? optgroup,
      ← form.text? attributes, ← form.text? isActual⟩
  | _ => none

/-- A text or `null`. -/
def Value.ofText? (text : Option String) : Value := text.elim .null .string

/-- The mapping as a record. -/
def Mapping.toValue (m : Mapping) : Value :=
  .object [("value", .ofText? m.value), ("title", .ofText? m.title),
    ("optgroup", .ofText? m.optgroup), ("attributes", .ofText? m.attributes),
    ("is_actual", .ofText? m.isActual)]

namespace Settings

/-- The catalog file that a record of localization settings writes. -/
def catalog? (form : RecordForm) : Option Value → Option (Option String)
  | none => some none
  | some v => do
    match ← form.fields? ["catalog"] v with
    | [catalog] => form.text? catalog
    | _ => none

/-- The parts of settings that a record writes: the mapping, and the localization settings. -/
def parts? (form : RecordForm) (v : Value) : Option (Option Value × Option Value) := do
  match ← form.fields? ["mapping", "i18n"] v with
  | [mapping, localization] => some (mapping, localization)
  | _ => none

/-- The settings that a JSON record writes; a mapping that is left out is the standard one. -/
def ofValue? (v : Value) : Option Settings := do
  let (mapping, localization) ← parts? .json v
  let mapping ← mapping.elim (some .standard) (Mapping.ofValue? .json)
  return ⟨mapping, ← catalog? .json localization⟩

/-- The settings as a record. -/
def toValue (settings : Settings) : Value :=
  .object [("mapping", settings.mapping.toValue),
    ("i18n", .object [("catalog", .ofText? settings.catalog)])]

end Settings

/-- The layer that a TOML record writes. -/
def Layer.ofValue? (v : Value) : Option Layer := do
  let (mapping, localization) ← Settings.parts? .toml v
  let mapping ← match mapping with
    | some m => (Mapping.ofValue? .toml m).map some
    | none => some none
  return ⟨mapping, ← Settings.catalog? .toml localization⟩

end Picklist
