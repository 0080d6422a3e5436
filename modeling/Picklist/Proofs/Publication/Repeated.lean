import Picklist.Proofs.Publication.Passes

/-!
# Publishing what is published

A structure that is published with the empty condition is filtered in vain, so it is cut and then
localized. Cutting goes by the names of members alone, which localizing leaves as they are: the two
can change places. So publishing twice is to cut twice and then to localize twice.

* `prune_prune`: what is cut once is not cut again, at the same levels or at others;
* `prune_localizeTexts`: cutting and localizing change places;
* `localizeTexts_localizeTexts`: texts that are localized stay as they are, if a localizer leaves
  its own texts alone;
* `publish_idempotent`: publishing twice is publishing once.
-/

namespace Picklist.Publication

open Value

/-! ## 1. Cutting twice -/

variable (names : List String)

/-- The kept names that a level holds are still there when it is cut. -/
theorem holds_restrict (members : Fields) :
    holds names (restrict names members) = holds names members := by
  unfold holds restrict
  simp only [List.any_filter, Bool.and_self]

theorem restrict_restrict (members : Fields) :
    restrict names (restrict names members) = restrict names members := by
  unfold restrict
  simp only [List.filter_filter, Bool.and_self]

/-- Members that change under their names hold the names that they held. -/
theorem holds_map (f : String × Value → Value) (members : Fields) :
    holds names (members.map fun m => (m.1, f m)) = holds names members := by
  unfold holds
  rw [List.any_map]
  rfl

theorem restrict_map (f : String × Value → Value) (members : Fields) :
    restrict names (members.map fun m => (m.1, f m))
      = (restrict names members).map fun m => (m.1, f m) := by
  unfold restrict
  rw [List.filter_map]
  rfl

theorem pruneEntry_pruneEntry (v : Value) :
    pruneEntry names (pruneEntry names v) = pruneEntry names v := by
  cases v with
  | object members =>
    cases hholds : holds names members with
    | true => simp only [pruneEntry, hholds, if_true, holds_restrict, restrict_restrict]
    | false => simp only [pruneEntry, hholds, Bool.false_eq_true, if_false]
  | _ => rfl

/-- **What is cut is not cut again.** A level that was cut still holds a kept name, and so the
    entries below it are left alone; a top level that was left whole holds none. -/
theorem prune_prune (v : Value) : prune names (prune names v) = prune names v := by
  cases v with
  | object members =>
    cases hholds : holds names members with
    | true => simp only [prune, hholds, if_true, holds_restrict, restrict_restrict]
    | false =>
      simp only [prune, hholds, Bool.false_eq_true, if_false, holds_map, List.map_map]
      refine congrArg _ (List.map_congr_left fun m _ => ?_)
      rw [Function.comp_apply, pruneEntry_pruneEntry]
  | array items =>
    simp only [prune, List.map_map]
    refine congrArg _ (List.map_congr_left fun v _ => ?_)
    rw [Function.comp_apply, pruneEntry_pruneEntry]
  | _ => rfl

/-! ## 2. Cutting and localizing change places -/

variable (p : Publication) (localizer : Localizer)

theorem holds_localizeMembers (members : Fields) :
    holds names (localizeMembers p.localized localizer members) = holds names members := by
  rw [localizeMembers_eq_map]
  exact holds_map names _ members

theorem restrict_localizeMembers (members : Fields) :
    restrict names (localizeMembers p.localized localizer members)
      = localizeMembers p.localized localizer (restrict names members) := by
  rw [localizeMembers_eq_map, localizeMembers_eq_map]
  exact restrict_map names _ members

theorem pruneEntry_localize (name : String) (v : Value) :
    pruneEntry names (p.localize localizer name v)
      = p.localize localizer name (pruneEntry names v) := by
  cases v <;> rfl

theorem pruneEntry_localizeTexts (v : Value) :
    pruneEntry names (localizeTexts p.localized localizer v)
      = localizeTexts p.localized localizer (pruneEntry names v) := by
  cases v with
  | object members =>
    simp only [localizeTexts, pruneEntry, holds_localizeMembers, restrict_localizeMembers]
    split <;> rfl
  | _ => rfl

/-- **Cutting and localizing change places.** -/
theorem prune_localizeTexts (v : Value) :
    prune names (localizeTexts p.localized localizer v)
      = localizeTexts p.localized localizer (prune names v) := by
  cases v with
  | object members =>
    simp only [localizeTexts, prune, holds_localizeMembers, restrict_localizeMembers]
    split
    · rfl
    · rw [localizeMembers_eq_map, localizeMembers_eq_map, List.map_map, List.map_map]
      refine congrArg _ (List.map_congr_left fun m _ => ?_)
      simp only [Function.comp_apply, pruneEntry_localize, pruneEntry_localizeTexts]
  | array items =>
    simp only [localizeTexts, prune, localizeItems_eq_map, List.map_map]
    refine congrArg _ (List.map_congr_left fun v _ => ?_)
    simp only [Function.comp_apply, pruneEntry_localizeTexts]
  | _ => rfl

/-! ## 3. Localizing twice -/

/-- What is right under a name is localized after all that is below it, or before. -/
theorem localizeTexts_localize (name : String) (v : Value) :
    localizeTexts p.localized localizer (p.localize localizer name v)
      = p.localize localizer name (localizeTexts p.localized localizer v) := by
  cases v <;> rfl

variable {localizer} (hlocalizer : ∀ text, localizer (localizer text) = localizer text)

include hlocalizer in
theorem localize_localize (name : String) (v : Value) :
    p.localize localizer name (p.localize localizer name v) = p.localize localizer name v := by
  cases v with
  | string text =>
    unfold localize
    cases p.localized.contains name with
    | true => simp only [if_true, hlocalizer]
    | false => rfl
  | _ => rfl

include hlocalizer in
/-- **Localized texts stay as they are**, if a localizer leaves its own texts alone. -/
theorem localizeTexts_localizeTexts (v : Value) :
    localizeTexts p.localized localizer (localizeTexts p.localized localizer v)
      = localizeTexts p.localized localizer v := by
  induction v using tree_induction with
  | array items ih =>
    simp only [localizeTexts, localizeItems_eq_map, List.map_map]
    exact congrArg _ (List.map_congr_left ih)
  | object members ih =>
    simp only [localizeTexts, localizeMembers_eq_map, List.map_map]
    refine congrArg _ (List.map_congr_left fun m hm => ?_)
    simp only [Function.comp_apply, localizeTexts_localize, ih m hm, localize_localize p hlocalizer]
  | _ => rfl

/-! ## 4. Publishing twice -/

/-- The empty condition admits all entries. -/
theorem admitted_always (v : Value) : admitted .always v = v := by
  cases v with
  | object members => exact congrArg _ (List.filter_eq_self.mpr fun _ _ => rfl)
  | array items =>
    have hall : (items.zipIdx.filter fun m =>
        Condition.always.admits (toString m.2) (Entry.ofValue m.1)) = items.zipIdx :=
      List.filter_eq_self.mpr fun _ _ => rfl
    exact congrArg _ ((congrArg _ hall).trans (List.zipIdx_map_fst _ items))
  | _ => rfl

/-- With the empty condition a structure is cut and localized. -/
theorem publish_always (config : Value) :
    p.publish localizer .always config
      = localizeTexts p.localized localizer (prune p.kept config) := by
  unfold publish
  rw [admitted_always, walk_top]

/-- **Publishing is idempotent.** With the empty condition, and a localizer that leaves its own
    texts alone, what is published of what is published is the same, member by member and in the
    same order: the second run cuts no level that the first left whole, and none any further. -/
theorem publish_idempotent (p : Publication) (localizer : Localizer) (config : Value)
    (hlocalizer : ∀ text, localizer (localizer text) = localizer text) :
    p.publish localizer .always (p.publish localizer .always config)
      = p.publish localizer .always config := by
  have hcut : prune p.kept (localizeTexts p.localized localizer (prune p.kept config))
      = localizeTexts p.localized localizer (prune p.kept config) := by
    rw [prune_localizeTexts, prune_prune]
  rw [publish_always, publish_always, hcut, localizeTexts_localizeTexts p hlocalizer]

/-- Below a top level without a kept name the entries are cut, and the record below an entry is
    not, although it holds kept names; the second run finds it there. -/
theorem publish_idempotent_apple :
    (∀ text, (Catalog.ofPairs [("Apple", "Apfel")]).localize
        ((Catalog.ofPairs [("Apple", "Apfel")]).localize text)
      = (Catalog.ofPairs [("Apple", "Apfel")]).localize text) ∧
    publish ⟨["id"], ["title"]⟩ (Catalog.ofPairs [("Apple", "Apfel")]).localize .always
        (publish ⟨["id"], ["title"]⟩ (Catalog.ofPairs [("Apple", "Apfel")]).localize .always
          (.object [("a", .object [("title", .string "Apple"), ("note", .null),
            ("id", .object [("id", .null), ("note", .null)])])]))
      = .object [("a", .object [("title", .string "Apfel"),
          ("id", .object [("id", .null), ("note", .null)])])] := by
  have hlocalizer : ∀ text, (Catalog.ofPairs [("Apple", "Apfel")]).localize
      ((Catalog.ofPairs [("Apple", "Apfel")]).localize text)
        = (Catalog.ofPairs [("Apple", "Apfel")]).localize text := by
    intro text
    by_cases h : text = "Apple"
    · subst h; rfl
    · have hsame : (Catalog.ofPairs [("Apple", "Apfel")]).localize text = text := by
        simp [Catalog.localize, Catalog.ofPairs, Members.ofPairs, Members.insert, List.lookup_cons,
          beq_false_of_ne h]
      rw [hsame, hsame]
  refine ⟨hlocalizer, ?_⟩
  rw [publish_idempotent _ _ _ hlocalizer]
  rfl

end Picklist.Publication
