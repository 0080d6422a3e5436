import Mathlib.Init
import Picklist.Proofs.Outcome
import Picklist.Settings.Loading

/-!
# What layers set

Six settings can be set by a layer: the paths of five roles, and the file of the catalog. Each of
them goes its own way through the layers, and the last layer that sets it decides.

* `Role`, `Setting`: the roles of a mapping and the settings of a layer, by name;
* `Mapping.overlay_assoc`, `Mapping.unset_overlay`, `Mapping.overlay_unset`: mappings on top of
  each other;
* `Setting.LastSet`: what the last layer that sets a setting makes of it;
* `Setting.in?_merge`, `Setting.in?_foldl_merge`: one layer, and layer after layer;
* `Settings.LayerOf`: the layer that a file holds;
* `Settings.last_set_wins`: the settings of layers, of a text and of the program.
-/

namespace Picklist

/-! ## 1. Roles -/

/-- A role of a mapping. -/
inductive Role where
  | value
  | title
  | optgroup
  | attributes
  | isActual
deriving DecidableEq

namespace Role

/-- The path that a mapping sets for a role; the empty path counts. -/
def set? : Role → Mapping → Option String
  | value, m => m.value
  | title, m => m.title
  | optgroup, m => m.optgroup
  | attributes, m => m.attributes
  | isActual, m => m.isActual

/-- The path of a role that is enabled. -/
def path? : Role → Mapping → Option String
  | value, m => m.valuePath?
  | title, m => m.titlePath?
  | optgroup, m => m.optgroupPath?
  | attributes, m => m.attributesPath?
  | isActual, m => m.isActualPath?

variable (role : Role)

theorem set?_unset : role.set? .unset = none := by cases role <;> rfl

/-- Each role is overlaid on its own. -/
theorem set?_overlay (lower upper : Mapping) :
    role.set? (lower.overlay upper) = (role.set? upper).or (role.set? lower) := by
  cases role <;> rfl

/-- A role is enabled where a path is set that is not empty. -/
theorem path?_eq_some_iff {m : Mapping} {path : String} :
    role.path? m = some path ↔ role.set? m = some path ∧ path ≠ "" := by
  have hfilter : role.path? m = (role.set? m).filter (· ≠ "") := by cases role <;> rfl
  rw [hfilter, Option.filter_eq_some_iff, decide_eq_true_iff]

end Role

namespace Mapping

/-- A mapping is what it sets for its roles. -/
theorem ext_roles {m other : Mapping} (h : ∀ role : Role, role.set? m = role.set? other) :
    m = other := by
  cases m
  cases other
  simp only [mk.injEq]
  exact ⟨h .value, h .title, h .optgroup, h .attributes, h .isActual⟩

/-- **Mappings on top of each other** may be put together from either end. -/
theorem overlay_assoc (lowest lower upper : Mapping) :
    (lowest.overlay lower).overlay upper = lowest.overlay (lower.overlay upper) := by
  refine ext_roles fun role => ?_
  simp only [Role.set?_overlay, Option.or_assoc]

theorem unset_overlay (m : Mapping) : unset.overlay m = m := by
  refine ext_roles fun role => ?_
  rw [Role.set?_overlay, Role.set?_unset, Option.or_none]

theorem overlay_unset (m : Mapping) : m.overlay unset = m := by
  refine ext_roles fun role => ?_
  rw [Role.set?_overlay, Role.set?_unset, Option.none_or]

end Mapping

/-! ## 2. Settings -/

/-- Something that a layer may set. -/
inductive Setting where
  | role (r : Role)
  | catalog
deriving DecidableEq

namespace Setting

/-- What the settings hold for a setting. -/
def in? : Setting → Settings → Option String
  | role r, settings => r.set? settings.mapping
  | catalog, settings => settings.catalog

/-- What a layer sets; without a mapping it sets no role. -/
def inLayer? : Setting → Layer → Option String
  | role r, layer => layer.mapping.bind r.set?
  | catalog, layer => layer.catalog

/-- What overrides set, which is the value and the title at most. -/
def override? : Setting → Overrides → Option String
  | role .value, overrides => overrides.value
  | role .title, overrides => overrides.title
  | _, _ => none

/-- What the last layer that sets a setting makes of it. -/
inductive LastSet (setting : Setting) (layers : List Layer) : Option String → Prop where
  /-- No layer sets it. -/
  | never (hlayers : ∀ layer ∈ layers, setting.inLayer? layer = none) : LastSet setting layers none
  /-- A layer sets it, and none behind that one does. -/
  | set {before after : List Layer} {layer : Layer} {text : String}
      (hlayers : layers = before ++ layer :: after) (hset : setting.inLayer? layer = some text)
      (hafter : ∀ later ∈ after, setting.inLayer? later = none) : LastSet setting layers (some text)

variable (setting : Setting)

theorem in?_unset : setting.in? .unset = none := by
  cases setting with
  | role r => exact r.set?_unset
  | catalog => rfl

/-- **One layer**: what it sets wins, and what it leaves out stays. -/
theorem in?_merge (settings : Settings) (layer : Layer) :
    setting.in? (settings.merge layer) = (setting.inLayer? layer).or (setting.in? settings) := by
  cases setting with
  | catalog => rfl
  | role r =>
    obtain ⟨mapping, catalog⟩ := layer
    cases mapping with
    | none => rfl
    | some upper => exact r.set?_overlay settings.mapping upper

/-- **Layer after layer**: the first one from the top that sets it decides. -/
theorem in?_foldl_merge (layers : List Layer) (settings : Settings) :
    setting.in? (layers.foldl Settings.merge settings)
      = (layers.reverse.findSome? setting.inLayer?).or (setting.in? settings) := by
  induction layers generalizing settings with
  | nil => rfl
  | cons layer rest ih =>
    rw [List.foldl_cons, ih, in?_merge, List.reverse_cons, List.findSome?_append, Option.or_assoc]
    simp only [List.findSome?_singleton]

/-- The last layer that sets it is the first one from the top. -/
theorem lastSet_iff {layers : List Layer} {found : Option String} :
    setting.LastSet layers found ↔ layers.reverse.findSome? setting.inLayer? = found := by
  constructor
  · intro h
    cases h with
    | never hlayers =>
      rw [List.findSome?_eq_none_iff]
      exact fun layer hmem => hlayers layer (List.mem_reverse.mp hmem)
    | @set before after layer text hlayers hset hafter =>
      rw [List.findSome?_eq_some_iff]
      refine ⟨after.reverse, layer, before.reverse, ?_, hset, fun later hmem => ?_⟩
      · rw [hlayers, List.reverse_append, List.reverse_cons, List.append_assoc,
          List.singleton_append]
      · exact hafter later (List.mem_reverse.mp hmem)
  · intro h
    subst h
    cases hfound : layers.reverse.findSome? setting.inLayer? with
    | none =>
      rw [List.findSome?_eq_none_iff] at hfound
      exact .never fun layer hmem => hfound layer (List.mem_reverse.mpr hmem)
    | some text =>
      obtain ⟨above, layer, below, hlayers, hset, habove⟩ := List.findSome?_eq_some_iff.mp hfound
      have hsplit : layers = below.reverse ++ layer :: above.reverse := by
        rw [← List.reverse_reverse layers, hlayers, List.reverse_append, List.reverse_cons,
          List.append_assoc, List.singleton_append]
      exact .set hsplit hset fun later hmem => habove later (List.mem_reverse.mp hmem)

/-- **The settings of layers hold what the last layer sets.** -/
theorem in?_ofLayers_eq_iff {layers : List Layer} {found : Option String} :
    setting.in? (Settings.ofLayers layers) = found ↔ setting.LastSet layers found := by
  rw [Settings.ofLayers, in?_foldl_merge, in?_unset, Option.or_none, lastSet_iff]

/-- Overrides replace what they set, and nothing else. -/
theorem in?_override (settings : Settings) (overrides : Overrides) :
    setting.in? (settings.override overrides)
      = (setting.override? overrides).or (setting.in? settings) := by
  cases setting with
  | catalog => rfl
  | role r => cases r <;> rfl

end Setting

namespace Settings

/-- Settings are what they hold for each setting. -/
theorem ext_settings {settings other : Settings}
    (h : ∀ setting : Setting, setting.in? settings = setting.in? other) : settings = other := by
  cases settings
  cases other
  simp only [mk.injEq]
  exact ⟨Mapping.ext_roles fun r => h (.role r), h .catalog⟩

/-- The settings of layers are the ones that hold what the last layers set. -/
theorem eq_ofLayers_iff {settings : Settings} {layers : List Layer} :
    settings = ofLayers layers ↔ ∀ setting : Setting, setting.LastSet layers (setting.in? settings) := by
  constructor
  · intro h setting
    rw [h]
    exact setting.in?_ofLayers_eq_iff.mp rfl
  · intro h
    exact ext_settings fun setting => (setting.in?_ofLayers_eq_iff.mpr (h setting)).symm

/-- The same under overrides. -/
theorem eq_override_iff {settings : Settings} {layers : List Layer} {overrides : Overrides} :
    settings = (ofLayers layers).override overrides ↔
      ∀ setting : Setting, ∃ found, setting.LastSet layers found ∧
        setting.in? settings = (setting.override? overrides).or found := by
  constructor
  · intro h setting
    rw [h]
    exact ⟨_, setting.in?_ofLayers_eq_iff.mp rfl, setting.in?_override _ overrides⟩
  · intro h
    refine ext_settings fun setting => ?_
    obtain ⟨found, hfound, hsetting⟩ := h setting
    rw [hsetting, setting.in?_override, setting.in?_ofLayers_eq_iff.mpr hfound]

/-! ## 3. Texts and files -/

theorem ofToml_eq_ok_iff {text : String} {settings : Settings} :
    ofToml text = .ok settings ↔
      ∃ layer, Layer.read text = .ok layer ∧ settings = ofLayers [defaults, layer] := by
  unfold ofToml
  rw [map_eq_ok_iff]
  simp only [eq_comm]

/-- The layer of a file: none where no file is named or none is there, else what its text writes. -/
inductive LayerOf (host : Host Id) : Option String → Option Layer → Prop where
  | unnamed : LayerOf host none none
  | absent {path : String} (hthere : host.isThere path = false) : LayerOf host (some path) none
  | written {path text : String} {layer : Layer} (hthere : host.isThere path = true)
      (htext : host.readText path = some text) (hlayer : Layer.read text = .ok layer) :
      LayerOf host (some path) (some layer)

/-- The file with the settings of the user, if a directory for it is named. -/
def userFile? (host : Host Id) : Option String :=
  (userDirectory? (host.environment "XDG_CONFIG_HOME") (host.environment "HOME")).map
    (joinPath · "cfgselect/config.toml")

/-- The file with the settings of the workspace. -/
def workspaceFile (host : Host Id) : String :=
  joinPath (workspace host : Id String) ".cfgselect/config.toml"

variable {host : Host Id}

theorem layer?_eq_ok_iff {path : String} {found : Option Layer} :
    (layer? host path).run = .ok found ↔ LayerOf host (some path) found := by
  have hrun : (layer? host path).run = bif host.isThere path then
      (host.readText path).elim (.error (.unreadableSettings path)) fun text =>
        (Layer.read text).map some
    else .ok none := by
    unfold layer?
    generalize host.isThere path = there
    generalize host.readText path = text
    cases there with
    | false => rfl
    | true =>
      cases text with
      | none => rfl
      | some text =>
        have hread : (some <$> ExceptT.mk (pure (Layer.read text)) :
            ExceptT LoadError Id (Option Layer)).run = (Layer.read text).map some := by
          cases Layer.read text <;> rfl
        exact hread
  rw [hrun]
  constructor
  · intro h
    cases hthere : host.isThere path with
    | false =>
      rw [hthere] at h
      cases h
      exact .absent hthere
    | true =>
      cases htext : host.readText path with
      | none =>
        rw [hthere, htext] at h
        cases h
      | some text =>
        rw [hthere, htext] at h
        obtain ⟨layer, hlayer, rfl⟩ := map_eq_ok_iff.mp h
        exact .written hthere htext hlayer
  · intro h
    cases h with
    | absent hthere =>
      rw [hthere]
      rfl
    | written hthere htext hlayer =>
      rw [hthere, htext]
      exact map_eq_ok_iff.mpr ⟨_, hlayer, rfl⟩

theorem unnamed_layer_eq_ok_iff {found : Option Layer} :
    (pure none : ExceptT LoadError Id (Option Layer)).run = .ok found ↔ LayerOf host none found := by
  constructor
  · intro h
    cases h
    exact .unnamed
  · intro h
    cases h
    rfl

/-- What the host says is a step that does not fail. -/
theorem run_lift_eq_ok_iff {α : Type} {step : Id α} {a : α} :
    (ExceptT.lift step : ExceptT LoadError Id α).run = .ok a ↔ (step : α) = a := by
  have hrun : (ExceptT.lift step : ExceptT LoadError Id α).run = Except.ok (step : α) := rfl
  rw [hrun, Except.ok.injEq]

/-- The layer of the user, and then that of the workspace. -/
theorem run_layers_eq_ok_iff {reading : ExceptT LoadError Id (Option Layer)} {path : Option String}
    (hreading : ∀ found, reading.run = .ok found ↔ LayerOf host path found) {settings : Settings} :
    (do
      let user ← reading
      let workspace ← layer? host (workspaceFile host)
      return (ofLayers (defaults :: user.toList ++ workspace.toList)).override
        (overrides host : Id Overrides) : ExceptT LoadError Id Settings).run = .ok settings ↔
    ∃ user workspace, LayerOf host path user ∧ LayerOf host (some (workspaceFile host)) workspace ∧
      settings = (ofLayers (defaults :: user.toList ++ workspace.toList)).override
        (overrides host : Id Overrides) := by
  rw [run_bind_eq_ok_iff]
  refine exists_congr fun user => ?_
  rw [hreading, run_bind_eq_ok_iff, ← exists_and_left]
  refine exists_congr fun workspace => and_congr_right fun _ => ?_
  rw [layer?_eq_ok_iff]
  refine and_congr_right fun _ => ⟨fun h => ?_, fun h => ?_⟩
  · cases h
    rfl
  · rw [h]
    rfl

/-- **What the program loads**: the defaults, the layer of the user's file and that of the
    workspace's, and what the environment sets over all of them. -/
theorem load_eq_ok_iff {settings : Settings} : (load host).run = .ok settings ↔
    ∃ user workspace, LayerOf host (userFile? host) user ∧
      LayerOf host (some (workspaceFile host)) workspace ∧
      settings = (ofLayers (defaults :: user.toList ++ workspace.toList)).override
        (overrides host : Id Overrides) := by
  unfold load userFile?
  simp only [run_bind_eq_ok_iff, liftM, monadLift, MonadLift.monadLift, run_lift_eq_ok_iff,
    exists_eq_left']
  cases userDirectory? (host.environment "XDG_CONFIG_HOME") (host.environment "HOME") with
  | none => exact run_layers_eq_ok_iff fun _ => unnamed_layer_eq_ok_iff
  | some directory => exact run_layers_eq_ok_iff fun _ => layer?_eq_ok_iff

/-- **The last layer that sets a setting decides it.** Mappings on top of each other may be put
    together from either end, and a mapping that sets nothing changes none. Settings of any layers
    hold, for each role and for the catalog on its own, what the last layer that sets it makes of
    it; a layer without a mapping sets no role, and the empty path counts as set and leaves its
    role disabled. Overrides replace the value and the title only, where they are there. The
    settings of a text are those of the defaults and its layer; the program adds the layers of two
    files instead, and its overrides at the end. -/
theorem last_set_wins :
    (∀ lowest lower upper : Mapping,
      (lowest.overlay lower).overlay upper = lowest.overlay (lower.overlay upper)) ∧
    (∀ m : Mapping, Mapping.unset.overlay m = m ∧ m.overlay .unset = m) ∧
    (∀ (layers : List Layer) (setting : Setting) (found : Option String),
      setting.in? (ofLayers layers) = found ↔ setting.LastSet layers found) ∧
    (∀ (r : Role) (catalog : Option String), (Setting.role r).inLayer? ⟨none, catalog⟩ = none) ∧
    (∀ (r : Role) (m : Mapping) (path : String),
      r.path? m = some path ↔ r.set? m = some path ∧ path ≠ "") ∧
    (∀ (settings : Settings) (overrides : Overrides) (setting : Setting),
      setting.in? (settings.override overrides)
        = (setting.override? overrides).or (setting.in? settings)) ∧
    (∀ (text : String) (settings : Settings), ofToml text = .ok settings ↔
      ∃ layer, Layer.read text = .ok layer ∧
        ∀ setting : Setting, setting.LastSet [defaults, layer] (setting.in? settings)) ∧
    ∀ (host : Host Id) (settings : Settings), (load host).run = .ok settings ↔
      ∃ user workspace, LayerOf host (userFile? host) user ∧
        LayerOf host (some (workspaceFile host)) workspace ∧
        ∀ setting : Setting, ∃ found,
          setting.LastSet (defaults :: user.toList ++ workspace.toList) found ∧
          setting.in? settings = (setting.override? (overrides host : Id Overrides)).or found := by
  refine ⟨Mapping.overlay_assoc, fun m => ⟨Mapping.unset_overlay m, Mapping.overlay_unset m⟩,
    fun _ setting _ => setting.in?_ofLayers_eq_iff, fun _ _ => rfl,
    fun r _ _ => r.path?_eq_some_iff, fun settings overrides setting =>
      setting.in?_override settings overrides, fun text settings => ?_, fun host settings => ?_⟩
  · rw [ofToml_eq_ok_iff]
    simp only [eq_ofLayers_iff]
  · rw [load_eq_ok_iff]
    simp only [eq_override_iff]

/-- The title and the catalog of one layer, the value of the next and a group that it disables;
    the other roles stay as they were. -/
example : ofLayers [defaults, ⟨some { Mapping.unset with title := some "name" }, some "words.json"⟩,
      ⟨some { Mapping.unset with value := some "id", optgroup := some "" }, none⟩]
    = ⟨⟨some "id", some "name", some "", some "attributes", some "is_actual"⟩,
      some "words.json"⟩ := rfl

end Settings

end Picklist
