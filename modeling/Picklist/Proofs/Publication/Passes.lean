import Picklist.Proofs.Tree
import Picklist.Publication

/-!
# Publishing in three passes

The walk that publishes a structure cuts and localizes at once. It is the same to filter the
structure, then to cut what is left, then to localize all of it:

* `passing`: the top entries that pass the condition;
* `prune`: the top level restricted to the names that are kept, or else the entries right below it
  that hold one;
* `localizeTexts`: the texts under localized names, at every depth;
* `publish_eq_passes`: publishing is the three, one after the other, and each keeps the order of
  what it leaves.
-/

namespace Picklist.Publication

open Value

/-! ## 1. Filtering -/

/-- The entries of a structure that pass a condition: a member under its name, an item under its
    position. A scalar has none, and stays as it is. -/
def passing (condition : Condition) : Value → Value
  | .object members => .object (members.filter fun m =>
      condition.passes (Entry.ofValue m.2) (ChoiceValue.ofKey m.1).toValue)
  | .array items => .array ((items.zipIdx.filter fun m =>
      condition.passes (Entry.ofValue m.1) (ChoiceValue.ofKey (toString m.2)).toValue).map (·.1))
  | v => v

theorem admitted_eq_passing (condition : Condition) (v : Value) :
    admitted condition v = passing condition v := by
  cases v <;> rfl

/-! ## 2. Cutting -/

/-- Whether an object holds one of the names. -/
def holds (names : List String) (members : Fields) : Bool :=
  members.any fun m => names.contains m.1

/-- The members under the names. -/
def restrict (names : List String) (members : Fields) : Fields :=
  members.filter fun m => names.contains m.1

/-- An entry restricted to the names if it is an object that holds one. Nothing below changes. -/
def pruneEntry (names : List String) : Value → Value
  | .object members => .object (if holds names members then restrict names members else members)
  | v => v

/-- A structure restricted to the names if it is an object that holds one, and nothing below
    changes; otherwise each of its entries is restricted so. -/
def prune (names : List String) : Value → Value
  | .object members =>
    .object (if holds names members then restrict names members
      else members.map fun m => (m.1, pruneEntry names m.2))
  | .array items => .array (items.map (pruneEntry names))
  | v => v

/-! ## 3. Localizing -/

mutual

/-- A value with the texts right under the names localized, at every depth. -/
def localizeTexts (names : List String) (localizer : Localizer) : Value → Value
  | .object members => .object (localizeMembers names localizer members)
  | .array items => .array (localizeItems names localizer items)
  | .null => .null
  | .bool b => .bool b
  | .number n => .number n
  | .string s => .string s

/-- `localizeTexts` for every item. A text among them is under no name. -/
def localizeItems (names : List String) (localizer : Localizer) : List Value → List Value
  | [] => []
  | v :: rest => localizeTexts names localizer v :: localizeItems names localizer rest

/-- The members with each text under one of the names localized, and all texts below. -/
def localizeMembers (names : List String) (localizer : Localizer) :
    List (String × Value) → List (String × Value)
  | [] => []
  | (name, .string text) :: rest =>
    (name, .string (if names.contains name then localizer text else text)) ::
      localizeMembers names localizer rest
  | (name, v) :: rest =>
    (name, localizeTexts names localizer v) :: localizeMembers names localizer rest

end

variable (p : Publication) (localizer : Localizer)

theorem localizeItems_eq_map (names : List String) (items : List Value) :
    localizeItems names localizer items = items.map (localizeTexts names localizer) := by
  induction items with
  | nil => rfl
  | cons v rest ih => rw [localizeItems, ih, List.map_cons]

/-- Each member is localized by itself. -/
theorem localizeMembers_eq_map (members : Fields) :
    localizeMembers p.localized localizer members = members.map fun m =>
      (m.1, p.localize localizer m.1 (localizeTexts p.localized localizer m.2)) := by
  induction members with
  | nil => rfl
  | cons m rest ih =>
    obtain ⟨name, v⟩ := m
    rw [List.map_cons, ← ih]
    cases v <;> rfl

/-! ## 4. The walk -/

theorem walkItems_eq_map (reach : Reach) (items : List Value) :
    walkItems p localizer reach items = items.map (walk p localizer reach) := by
  induction items with
  | nil => rfl
  | cons v rest ih => rw [walkItems, ih, List.map_cons]

/-- Each member that stays is walked by itself. -/
theorem walkMembers_eq_map (cut : Bool) (reach : Reach) (members : Fields) :
    walkMembers p localizer cut reach members =
      (if cut then restrict p.kept members else members).map fun m =>
        (m.1, p.localize localizer m.1 (walk p localizer reach m.2)) := by
  induction members with
  | nil => cases cut <;> rfl
  | cons m rest ih =>
    obtain ⟨name, v⟩ := m
    rw [walkMembers, ih]
    cases cut with
    | false => rfl
    | true =>
      simp only [restrict, Bool.true_and, if_true, List.filter_cons]
      cases p.kept.contains name with
      | false => rfl
      | true => rfl

/-- Walked members are localized ones where walking a value is localizing what `g` makes
    of it. -/
theorem walkMembers_eq_localizeMembers {reach : Reach} {g : Value → Value} (cut : Bool)
    {members : Fields} (h : ∀ m ∈ members,
      walk p localizer reach m.2 = localizeTexts p.localized localizer (g m.2)) :
    walkMembers p localizer cut reach members = localizeMembers p.localized localizer
      ((if cut then restrict p.kept members else members).map fun m => (m.1, g m.2)) := by
  rw [walkMembers_eq_map, localizeMembers_eq_map, List.map_map]
  refine List.map_congr_left fun m hm => ?_
  have hmem : m ∈ members := by
    split at hm
    · exact (List.mem_filter.mp hm).1
    · exact hm
  rw [Function.comp_apply, h m hmem]

/-- Members right below which nothing is cut. -/
theorem walkMembers_off (cut : Bool) {members : Fields} (h : ∀ m ∈ members,
    walk p localizer .off m.2 = localizeTexts p.localized localizer m.2) :
    walkMembers p localizer cut .off members = localizeMembers p.localized localizer
      (if cut then restrict p.kept members else members) := by
  rw [walkMembers_eq_localizeMembers p localizer (g := id) cut h]
  exact congrArg _ (List.map_id _)

/-- An object is cut where cutting still reaches and the object holds a kept name. -/
theorem cuts_eq_holds {reach : Reach} (h : reach ≠ .off) (members : Fields) :
    p.cuts reach members = holds p.kept members := by
  unfold cuts holds
  rw [decide_eq_true h, Bool.true_and]

/-- **Deep down a walk only localizes.** -/
theorem walk_off (v : Value) :
    walk p localizer .off v = localizeTexts p.localized localizer v := by
  induction v using tree_induction with
  | array items ih =>
    rw [walk, localizeTexts, walkItems_eq_map, localizeItems_eq_map]
    exact congrArg _ (List.map_congr_left ih)
  | object members ih =>
    have hcut : p.cuts .off members = false := rfl
    simp only [walk, localizeTexts, hcut]
    exact congrArg _ (walkMembers_off p localizer false ih)
  | _ => rfl

/-- **A walk over an entry localizes the entry cut by itself.** -/
theorem walk_entry (v : Value) :
    walk p localizer .entry v = localizeTexts p.localized localizer (pruneEntry p.kept v) := by
  cases v with
  | object members =>
    simp only [walk, pruneEntry, localizeTexts, cuts_eq_holds p (show Reach.entry ≠ .off by decide)]
    exact congrArg _ (walkMembers_off p localizer _ fun m _ => walk_off p localizer m.2)
  | array items =>
    have hwhole : pruneEntry p.kept (.array items) = .array items := rfl
    rw [hwhole, walk, localizeTexts, walkItems_eq_map, localizeItems_eq_map]
    exact congrArg _ (List.map_congr_left fun v _ => walk_off p localizer v)
  | _ => rfl

/-- **A walk from the top localizes the structure cut by itself.** -/
theorem walk_top (v : Value) :
    walk p localizer .top v = localizeTexts p.localized localizer (prune p.kept v) := by
  cases v with
  | object members =>
    simp only [walk, prune, localizeTexts, cuts_eq_holds p (show Reach.top ≠ .off by decide)]
    -- either the top level is cut or the entries below it are, never both
    cases holds p.kept members with
    | true =>
      exact congrArg _ (walkMembers_off p localizer true fun m _ => walk_off p localizer m.2)
    | false =>
      exact congrArg _ (walkMembers_eq_localizeMembers p localizer false fun m _ =>
        walk_entry p localizer m.2)
  | array items =>
    rw [walk, prune, localizeTexts, walkItems_eq_map, localizeItems_eq_map, List.map_map]
    exact congrArg _ (List.map_congr_left fun v _ => walk_entry p localizer v)
  | _ => rfl

/-! ## 5. Order -/

/-- Filtering leaves entries out and moves none. -/
theorem partOf_passing (condition : Condition) (v : Value) : PartOf (passing condition v) v := by
  cases v with
  | object members => exact .object (membersOf_of_sublist List.filter_sublist)
  | array items =>
    have hsublist : ((items.zipIdx.filter fun m => condition.passes (Entry.ofValue m.1)
        (ChoiceValue.ofKey (toString m.2)).toValue).map (·.1)).Sublist
          (items.zipIdx.map (·.1)) := List.filter_sublist.map Prod.fst
    rw [List.zipIdx_map_fst] at hsublist
    exact .array (itemsOf_of_sublist hsublist)
  | _ => exact .whole _

theorem partOf_pruneEntry (names : List String) (v : Value) : PartOf (pruneEntry names v) v := by
  cases v with
  | object members =>
    simp only [pruneEntry]
    split
    · exact .object (membersOf_of_sublist List.filter_sublist)
    · exact .whole _
  | _ => exact .whole _

/-- Cutting leaves members out and moves none. -/
theorem partOf_prune (names : List String) (v : Value) : PartOf (prune names v) v := by
  cases v with
  | object members =>
    simp only [prune]
    split
    · exact .object (membersOf_of_sublist List.filter_sublist)
    · exact .object (membersOf_map (partOf_pruneEntry names) members)
  | array items => exact .array (itemsOf_map (partOf_pruneEntry names) items)
  | _ => exact .whole _

theorem shape_localize (name : String) (v : Value) :
    (p.localize localizer name v).shape = v.shape := by
  cases v <;> rfl

/-- Localizing changes texts only. -/
theorem shape_localizeTexts (names : List String) (v : Value) :
    (localizeTexts names localizer v).shape = v.shape := by
  induction v using tree_induction with
  | array items ih =>
    rw [localizeTexts, shape, shape, localizeItems_eq_map, shapeItems_eq_map, shapeItems_eq_map,
      List.map_map]
    exact congrArg _ (List.map_congr_left ih)
  | object members ih =>
    have hmembers := localizeMembers_eq_map ⟨[], names⟩ localizer members
    rw [localizeTexts, shape, shape, hmembers, shapeMembers_eq_map, shapeMembers_eq_map,
      List.map_map]
    refine congrArg _ (List.map_congr_left fun m hm => ?_)
    rw [Function.comp_apply, shape_localize, ih m hm]
  | _ => rfl

/-- The names that cutting keeps: with nothing visible there are none, and nothing is cut. -/
theorem kept_eq : p.kept = if p.visible = [] then [] else p.visible ++ p.localized := by
  unfold kept
  simp only [List.isEmpty_iff]

/-- **Publishing is three passes.** The entries that pass the condition are kept, and a scalar as it
    is; what is left is cut to the visible names and the localized ones, or not at all if no name is
    visible; and all of that is localized. Filtering and cutting leave out items and members and
    move none; localizing leaves all of them, in order, and changes texts only. -/
theorem publish_eq_passes (condition : Condition) (config : Value) :
    let names := if p.visible = [] then [] else p.visible ++ p.localized
    p.publish localizer condition config =
        localizeTexts p.localized localizer (prune names (passing condition config)) ∧
      (passing condition config).PartOf config ∧
      (∀ v, (prune names v).PartOf v) ∧
      ∀ v, (localizeTexts p.localized localizer v).shape = v.shape := by
  intro names
  have hpublish : p.publish localizer condition config
      = localizeTexts p.localized localizer (prune names (passing condition config)) := by
    rw [publish, walk_top, admitted_eq_passing, kept_eq]
  exact ⟨hpublish, partOf_passing condition config, partOf_prune names,
    shape_localizeTexts localizer p.localized⟩

end Picklist.Publication
