import Picklist.Proofs.Members
import Picklist.Proofs.Publication.Passes

/-!
# What localized names hide

Localized names count as visible names. So they keep members that are cut away without them, and
they make a level be cut that is left whole without them. What the second hides is told exactly.

* `Level`: the objects that cutting reaches, the top level or the entries right below it;
* `CutAway`: the paths that cutting removes;
* `headAt?_prune`, `headAt?_prune_of_cutAway`: what cutting leaves at a path;
* `at?_localizeTexts`: what localizing makes of the value at a path;
* `CutByLocalized`, `Hides`: the levels that are cut on account of localized names alone, and the
  paths that are lost by it;
* `cutAway_unlocalized_or_hides`: what is cut away with localized names only is hidden by them;
* `localized_names_hide`: what is published with localized names, beside what is published
  without.
-/

namespace Picklist.Publication

open Value

/-! ## 1. Names of a level -/

theorem holds_iff {names : List String} {members : Fields} :
    holds names members = true ↔ ∃ m ∈ members, m.1 ∈ names := by
  unfold holds
  rw [List.any_eq_true]
  refine exists_congr fun m => and_congr_right fun _ => ?_
  exact List.contains_iff_mem

theorem holds_eq_false_iff {names : List String} {members : Fields} :
    holds names members = false ↔ ∀ m ∈ members, m.1 ∉ names := by
  rw [← Bool.not_eq_true, holds_iff]
  simp only [not_exists, not_and]

theorem holds_of_lookup {names : List String} {members : Fields} {name : String} {v : Value}
    (hfound : members.lookup name = some v) (hname : name ∈ names) :
    holds names members = true := by
  obtain ⟨front, rest, rfl, _⟩ := List.lookup_eq_some_iff.mp hfound
  exact holds_iff.mpr ⟨(name, v), by simp, hname⟩

/-- More names leave fewer levels without one. -/
theorem holds_eq_false_mono {names more : List String} (hsub : ∀ name ∈ names, name ∈ more)
    {members : Fields} (h : holds more members = false) : holds names members = false :=
  holds_eq_false_iff.mpr fun m hm hname => holds_eq_false_iff.mp h m hm (hsub m.1 hname)

/-! ## 2. What cutting leaves at a path -/

section Cutting

variable {names : List String} {v : Value} {edge : Edge} {path : List Edge}

theorem head_pruneEntry (names : List String) (v : Value) : (pruneEntry names v).head = v.head := by
  cases v <;> rfl

theorem head_prune (names : List String) (v : Value) : (prune names v).head = v.head := by
  cases v with
  | array items => exact congrArg Value.array (List.map_map ..)
  | _ => rfl

/-- A level loses the member under a name: it is cut, and the name is not kept. -/
def Loses (names : List String) (v : Value) (edge : Edge) : Prop :=
  ∃ members name, v = .object members ∧ edge = .member name ∧ holds names members = true ∧
    name ∉ names

theorem along?_pruneEntry_of_loses (h : Loses names v edge) :
    (pruneEntry names v).along? edge = none := by
  obtain ⟨members, name, rfl, rfl, hholds, hname⟩ := h
  have hcontains : names.contains name = false := by simpa using hname
  simp only [pruneEntry, hholds, if_true, along?, restrict]
  rw [Members.lookup_filter names.contains, hcontains]
  rfl

theorem along?_pruneEntry_of_not_loses (h : ¬ Loses names v edge) :
    (pruneEntry names v).along? edge = v.along? edge := by
  cases v with
  | object members =>
    cases hholds : holds names members with
    | false => simp only [pruneEntry, hholds, Bool.false_eq_true, if_false]
    | true =>
      cases edge with
      | item position => rfl
      | member name =>
        have hname : name ∈ names :=
          Decidable.byContradiction fun hname => h ⟨members, name, rfl, rfl, hholds, hname⟩
        simp only [pruneEntry, hholds, if_true, along?, restrict]
        rw [Members.lookup_filter names.contains, if_pos (List.contains_iff_mem.mpr hname)]
  | _ => rfl

/-- The top level is left whole: it is no object that holds a name. -/
def WholeTop (names : List String) (v : Value) : Prop :=
  ∀ members, v = .object members → holds names members = false

theorem exists_of_not_wholeTop (h : ¬ WholeTop names v) :
    ∃ members, v = .object members ∧ holds names members = true := by
  cases v with
  | object members =>
    refine ⟨members, rfl, Bool.of_not_eq_false fun hnone => h fun _ hobject => ?_⟩
    cases hobject
    exact hnone
  | _ => exact absurd (fun _ hobject => by cases hobject) h

theorem prune_of_not_wholeTop (h : ¬ WholeTop names v) : prune names v = pruneEntry names v := by
  obtain ⟨members, rfl, hholds⟩ := exists_of_not_wholeTop h
  simp only [prune, pruneEntry, hholds, if_true]

theorem along?_prune_of_wholeTop (h : WholeTop names v) (edge : Edge) :
    (prune names v).along? edge = (v.along? edge).map (pruneEntry names) := by
  cases v with
  | object members =>
    cases edge with
    | item position => simp only [prune, h members rfl, Bool.false_eq_true, if_false, along?]; rfl
    | member name =>
      simp only [prune, h members rfl, Bool.false_eq_true, if_false, along?]
      exact Members.lookup_map (fun _ => pruneEntry names) members name
  | array items =>
    cases edge with
    | item position => exact List.getElem?_map ..
    | member name => rfl
  | _ => rfl

/-- **The objects that cutting reaches**: the top level, or each entry right below a top level that
    is left whole. -/
inductive Level (names : List String) (v : Value) : List Edge → Value → Prop where
  | top : Level names v [] v
  | entry {edge : Edge} {w : Value} (hwhole : WholeTop names v) (hentry : v.along? edge = some w) :
    Level names v [edge] w

/-- A path that cutting removes leads through a member that a level loses. -/
def CutAway (names : List String) (v : Value) (path : List Edge) : Prop :=
  ∃ above level edge below, path = above ++ edge :: below ∧ Level names v above level ∧
    Loses names level edge

theorem headAt?_pruneEntry (h : ∀ edge below, path = edge :: below → ¬ Loses names v edge) :
    (pruneEntry names v).headAt? path = v.headAt? path := by
  cases path with
  | nil => exact congrArg some (head_pruneEntry names v)
  | cons edge below =>
    unfold headAt? at?
    rw [along?_pruneEntry_of_not_loses (h edge below rfl)]

/-- **What cutting does not remove is there as it was.** -/
theorem headAt?_prune (h : ¬ CutAway names v path) :
    (prune names v).headAt? path = v.headAt? path := by
  cases path with
  | nil => exact congrArg some (head_prune names v)
  | cons edge below =>
    by_cases hwhole : WholeTop names v
    · unfold headAt? at?
      rw [along?_prune_of_wholeTop hwhole]
      cases hentry : v.along? edge with
      | none => rfl
      | some w =>
        refine headAt?_pruneEntry fun next rest hpath hloses => h ?_
        exact ⟨[edge], w, next, rest, congrArg _ hpath, .entry hwhole hentry, hloses⟩
    · rw [prune_of_not_wholeTop hwhole]
      refine headAt?_pruneEntry fun next rest hpath hloses => h ?_
      exact ⟨[], v, next, rest, hpath, .top, hloses⟩

/-- **What cutting removes is gone.** -/
theorem headAt?_prune_of_cutAway (h : CutAway names v path) :
    (prune names v).headAt? path = none := by
  obtain ⟨above, level, edge, below, rfl, hlevel, hloses⟩ := h
  unfold headAt?
  rw [Option.map_eq_none_iff]
  cases hlevel with
  | top =>
    have hcut : ¬ WholeTop names v := by
      obtain ⟨members, _, rfl, _, hholds, _⟩ := hloses
      intro hwhole
      rw [hwhole members rfl] at hholds
      cases hholds
    rw [prune_of_not_wholeTop hcut, List.nil_append, at?, along?_pruneEntry_of_loses hloses]
    rfl
  | entry hwhole hentry =>
    rw [List.cons_append, List.nil_append, at?, along?_prune_of_wholeTop hwhole, hentry,
      Option.map_some, Option.bind_some, at?, along?_pruneEntry_of_loses hloses]
    rfl

end Cutting

/-! ## 3. What localizing makes of the value at a path -/

section Localizing

variable (p : Publication) (localizer : Localizer)

/-- The value at a path, localized: a text under a localized name becomes the localized text. -/
def localizeAt (path : List Edge) (v : Value) : Value :=
  match path.getLast? with
  | some (.member name) => p.localize localizer name v
  | _ => v

theorem head_localize (name : String) (v : Value) :
    (p.localize localizer name v).head = p.localize localizer name v.head := by
  cases v <;> rfl

theorem head_localizeTexts (names : List String) (v : Value) :
    (localizeTexts names localizer v).head = v.head := by
  cases v with
  | array items =>
    rw [localizeTexts, localizeItems_eq_map]
    exact congrArg Value.array (List.map_map ..)
  | _ => rfl

theorem head_localizeAt (path : List Edge) (v : Value) :
    (p.localizeAt localizer path v).head = p.localizeAt localizer path v.head := by
  unfold localizeAt
  split
  · exact head_localize p localizer _ v
  · rfl

theorem along?_localize (name : String) (v : Value) (edge : Edge) :
    (p.localize localizer name v).along? edge = v.along? edge := by
  cases v <;> rfl

theorem along?_localizeTexts (v : Value) (edge : Edge) :
    (localizeTexts p.localized localizer v).along? edge = (v.along? edge).map fun w =>
      p.localizeAt localizer [edge] (localizeTexts p.localized localizer w) := by
  cases v with
  | object members =>
    cases edge with
    | item position => rfl
    | member name =>
      rw [localizeTexts, localizeMembers_eq_map]
      exact Members.lookup_map (fun name w =>
        p.localize localizer name (localizeTexts p.localized localizer w)) members name
  | array items =>
    cases edge with
    | item position =>
      rw [localizeTexts, localizeItems_eq_map]
      exact List.getElem?_map ..
    | member name => rfl
  | _ => rfl

/-- **Localizing changes the texts under localized names**, and what stands at a path depends on
    the last step of the path alone. -/
theorem at?_localizeTexts (v : Value) (path : List Edge) :
    (localizeTexts p.localized localizer v).at? path = (v.at? path).map fun w =>
      p.localizeAt localizer path (localizeTexts p.localized localizer w) := by
  induction path generalizing v with
  | nil => rfl
  | cons edge path ih =>
    rw [at?, at?, along?_localizeTexts]
    cases v.along? edge with
    | none => rfl
    | some w =>
      rw [Option.map_some, Option.bind_some, Option.bind_some]
      cases path with
      | nil => rfl
      | cons next rest =>
        -- what was localized on the way is a text, and nothing stands below a text
        have hbelow : ∀ x, (p.localizeAt localizer [edge] x).at? (next :: rest)
            = x.at? (next :: rest) := by
          intro x
          cases edge with
          | item position => rfl
          | member name =>
            have hsame : (p.localizeAt localizer [.member name] x).along? next = x.along? next :=
              along?_localize p localizer name x next
            rw [at?, at?, hsame]
        rw [hbelow, ih w]
        rfl

theorem headAt?_localizeTexts (v : Value) (path : List Edge) :
    (localizeTexts p.localized localizer v).headAt? path
      = (v.headAt? path).map (p.localizeAt localizer path) := by
  unfold headAt?
  rw [at?_localizeTexts, Option.map_map, Option.map_map]
  refine congrArg (Option.map · _) (funext fun w => ?_)
  simp only [Function.comp_apply, head_localizeAt, head_localizeTexts]

end Localizing

theorem headAt?_publish (p : Publication) (localizer : Localizer) (condition : Condition)
    (config : Value) (path : List Edge) :
    (p.publish localizer condition config).headAt? path
      = ((prune p.kept (admitted condition config)).headAt? path).map
          (p.localizeAt localizer path) := by
  unfold publish
  rw [walk_top, headAt?_localizeTexts]

/-! ## 4. Localized names that hide -/

/-- The same visible names without localized ones. -/
def unlocalized (p : Publication) : Publication := { p with localized := [] }

/-- An object is cut on account of localized names alone: cutting is asked for, and the object
    holds a localized name and no visible one. -/
def CutByLocalized (p : Publication) (members : Fields) : Prop :=
  p.visible ≠ [] ∧ holds p.visible members = false ∧ holds p.localized members = true

/-- **The paths that localized names hide.** They lead through a member whose name is not kept, of
    a level that cutting reaches and that is cut on account of localized names alone. -/
def Hides (p : Publication) (v : Value) (path : List Edge) : Prop :=
  ∃ above members name below, path = above ++ .member name :: below ∧
    Level p.kept v above (.object members) ∧ p.CutByLocalized members ∧ name ∉ p.kept

variable {p : Publication} {v : Value} {path : List Edge}

theorem mem_kept_iff {name : String} :
    name ∈ p.kept ↔ p.visible ≠ [] ∧ (name ∈ p.visible ∨ name ∈ p.localized) := by
  unfold kept
  cases p.visible with
  | nil => simp
  | cons first rest => simp [or_assoc]

theorem mem_kept_unlocalized_iff {name : String} :
    name ∈ p.unlocalized.kept ↔ name ∈ p.visible := by
  rw [mem_kept_iff]
  constructor
  · intro h
    exact h.2.resolve_right List.not_mem_nil
  · intro h
    exact ⟨List.ne_nil_of_mem h, .inl h⟩

theorem mem_kept_of_unlocalized {name : String} (h : name ∈ p.unlocalized.kept) :
    name ∈ p.kept := by
  rw [mem_kept_unlocalized_iff] at h
  exact mem_kept_iff.mpr ⟨List.ne_nil_of_mem h, .inl h⟩

/-- A name that only localizing keeps is a localized one. -/
theorem mem_localized_of_kept {name : String} (hkept : name ∈ p.kept)
    (hname : name ∉ p.unlocalized.kept) : name ∈ p.localized := by
  rw [mem_kept_unlocalized_iff] at hname
  exact (mem_kept_iff.mp hkept).2.resolve_left hname

theorem wholeTop_unlocalized (h : WholeTop p.kept v) : WholeTop p.unlocalized.kept v :=
  fun members hobject => holds_eq_false_mono (fun _ => mem_kept_of_unlocalized) (h members hobject)

/-- Cutting reaches no fewer levels without localized names. -/
theorem Level.unlocalized {above : List Edge} {w : Value} (h : Level p.kept v above w) :
    Level p.unlocalized.kept v above w := by
  cases h with
  | top => exact .top
  | entry hwhole hentry => exact .entry (wholeTop_unlocalized hwhole) hentry

/-- What localized names hide is cut away. -/
theorem Hides.cutAway (h : p.Hides v path) : CutAway p.kept v path := by
  obtain ⟨above, members, name, below, hpath, hlevel, ⟨hvisible, _, hlocalized⟩, hname⟩ := h
  obtain ⟨m, hm, hmname⟩ := holds_iff.mp hlocalized
  have hholds : holds p.kept members = true :=
    holds_iff.mpr ⟨m, hm, mem_kept_iff.mpr ⟨hvisible, .inr hmname⟩⟩
  exact ⟨above, _, _, below, hpath, hlevel, members, name, rfl, rfl, hholds, hname⟩

/-- What is cut away is cut away without localized names too, or is hidden by them. -/
theorem cutAway_unlocalized_or_hides (h : CutAway p.kept v path) :
    CutAway p.unlocalized.kept v path ∨ p.Hides v path := by
  obtain ⟨above, _, _, below, hpath, hlevel, members, name, rfl, rfl, hholds, hname⟩ := h
  cases hvisible : holds p.visible members with
  | true =>
    obtain ⟨m, hm, hmname⟩ := holds_iff.mp hvisible
    have hbefore : holds p.unlocalized.kept members = true :=
      holds_iff.mpr ⟨m, hm, mem_kept_unlocalized_iff.mpr hmname⟩
    exact .inl ⟨above, _, _, below, hpath, hlevel.unlocalized, members, name, rfl, rfl, hbefore,
      fun hmem => hname (mem_kept_of_unlocalized hmem)⟩
  | false =>
    obtain ⟨m, hm, hmkept⟩ := holds_iff.mp hholds
    obtain ⟨hsome, hmname⟩ := mem_kept_iff.mp hmkept
    have hlocalized : holds p.localized members = true :=
      holds_iff.mpr ⟨m, hm, hmname.resolve_left (holds_eq_false_iff.mp hvisible m hm)⟩
    exact .inr ⟨above, members, name, below, hpath, hlevel, ⟨hsome, hvisible, hlocalized⟩, hname⟩

/-- What is cut away without localized names alone lies at or below a member with a localized
    name. -/
theorem exists_localized_mem_path (hbefore : CutAway p.unlocalized.kept v path)
    (hafter : ¬ CutAway p.kept v path) : ∃ name ∈ p.localized, .member name ∈ path := by
  obtain ⟨above, _, _, below, rfl, hlevel, members, name, rfl, rfl, hholds, hname⟩ := hbefore
  obtain ⟨m, hm, hmname⟩ := holds_iff.mp hholds
  have hkept : holds p.kept members = true := holds_iff.mpr ⟨m, hm, mem_kept_of_unlocalized hmname⟩
  -- a level that is reached in both runs is cut in both, so the name must be kept by the second
  have hreached : Level p.kept v above (.object members) → name ∈ p.localized := by
    intro hlevel
    refine mem_localized_of_kept (Decidable.byContradiction fun hlost => hafter ?_) hname
    exact ⟨above, _, _, below, rfl, hlevel, members, name, rfl, rfl, hkept, hlost⟩
  cases hlevel with
  | top => exact ⟨name, hreached .top, by simp⟩
  | @entry edge _ hwhole hentry =>
    by_cases hstill : WholeTop p.kept v
    · exact ⟨name, hreached (.entry hstill hentry), by simp⟩
    · -- the second run cuts the top level, so the step to the entry must be kept there
      obtain ⟨top, rfl, hcut⟩ := exists_of_not_wholeTop hstill
      cases edge with
      | item position => cases hentry
      | member first =>
        have hfirst : first ∉ p.unlocalized.kept := by
          intro hmem
          have hheld : holds p.unlocalized.kept top = true := holds_of_lookup hentry hmem
          rw [hwhole top rfl] at hheld
          cases hheld
        refine ⟨first, mem_localized_of_kept (Decidable.byContradiction fun hlost => ?_) hfirst,
          by simp⟩
        exact hafter ⟨[], _, _, _, rfl, .top, top, first, rfl, rfl, hcut, hlost⟩

/-- Without localized names no text changes. -/
theorem localizeAt_unlocalized (localizer : Localizer) (path : List Edge) (v : Value) :
    p.unlocalized.localizeAt localizer path v = v := by
  unfold localizeAt
  split
  · cases v <;> rfl
  · rfl

theorem headAt?_publish_unlocalized (localizer : Localizer) (condition : Condition)
    (config : Value) (path : List Edge) :
    (p.unlocalized.publish localizer condition config).headAt? path
      = (prune p.unlocalized.kept (admitted condition config)).headAt? path := by
  have hsame : p.unlocalized.localizeAt localizer path = id :=
    funext (localizeAt_unlocalized localizer path)
  rw [headAt?_publish, hsame, Option.map_id_fun, id_eq]

/-! ## 5. With and without localized names -/

/-- **What localized names do to what is published.** What is published without them is there with
    them too, at the same path and localized, unless it is hidden: the path leads through a member
    whose name is not kept, of a level that is cut on account of localized names alone. What is
    hidden is gone. What is there with localized names only lies at or below a member with a
    localized name. -/
theorem localized_names_hide (p : Publication) (localizer : Localizer) (condition : Condition)
    (config : Value) :
    (∀ path v, (p.unlocalized.publish localizer condition config).headAt? path = some v →
      ¬ p.Hides (admitted condition config) path →
        (p.publish localizer condition config).headAt? path
          = some (p.localizeAt localizer path v)) ∧
    (∀ path, p.Hides (admitted condition config) path →
      (p.publish localizer condition config).headAt? path = none) ∧
    ∀ path v, (p.publish localizer condition config).headAt? path = some v →
      (p.unlocalized.publish localizer condition config).headAt? path = none →
        ∃ name ∈ p.localized, .member name ∈ path := by
  simp only [headAt?_publish_unlocalized, headAt?_publish p]
  refine ⟨fun path v hbefore hshown => ?_, fun path hhides => ?_, fun path v hafter hbefore => ?_⟩
  · have hkept : ¬ CutAway p.unlocalized.kept (admitted condition config) path := by
      intro hcut
      rw [headAt?_prune_of_cutAway hcut] at hbefore
      cases hbefore
    have hstill : ¬ CutAway p.kept (admitted condition config) path := fun hcut =>
      (cutAway_unlocalized_or_hides hcut).elim hkept hshown
    rw [headAt?_prune hkept] at hbefore
    rw [headAt?_prune hstill, hbefore]
    rfl
  · rw [headAt?_prune_of_cutAway hhides.cutAway]
    rfl
  · obtain ⟨u, hu, _⟩ := Option.map_eq_some_iff.mp hafter
    have hkept : ¬ CutAway p.kept (admitted condition config) path := by
      intro hcut
      rw [headAt?_prune_of_cutAway hcut] at hu
      cases hu
    have hcut : CutAway p.unlocalized.kept (admitted condition config) path := by
      by_cases hcut : CutAway p.unlocalized.kept (admitted condition config) path
      · exact hcut
      · rw [headAt?_prune hcut, ← headAt?_prune hkept, hu] at hbefore
        cases hbefore
    exact exists_localized_mem_path hcut hkept

/-- Asking for localized titles hides an entry: the top level holds a title and no identity, so it
    is cut on account of the title alone. -/
theorem localized_titles_hide_entry :
    (publish ⟨["id"], []⟩ id .always (.object [("a", .object [("id", .number (.integer 1))]),
        ("title", .string "Fruit")])).headAt? [.member "a", .member "id"]
      = some (.number (.integer 1)) ∧
    publish ⟨["id"], ["title"]⟩ id .always (.object [("a", .object [("id", .number (.integer 1))]),
        ("title", .string "Fruit")])
      = .object [("title", .string "Fruit")] ∧
    (publish ⟨["id"], ["title"]⟩ id .always (.object [("a", .object [("id", .number (.integer 1))]),
        ("title", .string "Fruit")])).headAt? [.member "a", .member "id"] = none :=
  ⟨rfl, rfl, rfl⟩

end Picklist.Publication
