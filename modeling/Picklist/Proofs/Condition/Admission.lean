import Picklist.Keys
import Picklist.Proofs.Choice.Keyed
import Picklist.Proofs.Publication.Passes

/-!
# The entries that a condition admits

Three operations leave out entries that do not meet a condition: choosing keys, making rows and
publishing. Each goes through the entries by itself, and each derives the key that the condition is
asked about. They leave out the same entries.

* `Request.displays_of_rows`: the values of rows, where nothing but the condition decides;
* `Publication.names_publish`, `Publication.publish_array`: what is published of an object and of an
  array, where nothing is cut;
* `Condition.admission_agrees`: all of these are the keys that are chosen.
-/

namespace Picklist

/-! ## 1. Rows -/

namespace Request

variable {condition : Condition} {mapping : Mapping}

/-- Where nothing is selected and there is no mark, the condition alone decides, asked about the
    key. -/
theorem included_iff_admits {keyed : String × Entry} (hvalue : mapping.valuePath? = none)
    (hactual : mapping.isActualPath? = none)
    (hkeyed : ∀ keyName fields, keyed.2 ≠ .identified keyName fields) :
    (⟨[], condition, [], mapping⟩ : Request).Included keyed ↔
      condition.admits keyed.1 keyed.2 = true := by
  constructor
  · intro h
    obtain ⟨value, hsubmits, hin⟩ := h
    have hkey : value = .ofKey keyed.1 := hsubmits.eq_ofKey hvalue hkeyed
    subst hkey
    rcases hin with hselected | hmeets
    · exact absurd hselected List.not_mem_nil
    · exact hmeets.1
  · intro h
    refine ⟨.ofKey keyed.1, Entry.submits_ofKey keyed.1 hvalue hkeyed, .inr ⟨h, ?_⟩⟩
    intro path mark hrole
    rw [hactual] at hrole
    cases hrole

/-- **The values of rows are the keys that the condition admits.** -/
theorem displays_of_rows {localizer : Localizer} {data : Entries} {rows : List Row}
    (hvalue : mapping.valuePath? = none) (hactual : mapping.isActualPath? = none)
    (hkeyed : ∀ keyed ∈ data, ∀ keyName fields, keyed.2 ≠ .identified keyName fields)
    (hrows : (⟨[], condition, [], mapping⟩ : Request).rows localizer data = .ok rows) :
    rows.map (·.choice.value.display) = data.keys condition := by
  obtain ⟨before, after, rfl, hbefore, hafter⟩ := exists_shown_of_rows hrows
  have hnone : before = [] := List.forall₂_nil_left_iff.mp hbefore
  have hincluded : data.filter ((⟨[], condition, [], mapping⟩ : Request).Included ·)
      = data.filter fun keyed => condition.admits keyed.1 keyed.2 := by
    refine List.filter_congr fun keyed hmem => ?_
    rw [Bool.eq_iff_iff, decide_eq_true_iff]
    exact included_iff_admits hvalue hactual (hkeyed keyed hmem)
  rw [hincluded] at hafter
  have hvalues : after.map (·.choice.value)
      = (data.filter fun keyed => condition.admits keyed.1 keyed.2).map (ChoiceValue.ofKey ·.1) :=
    values_of_shown hvalue (fun keyed hmem => hkeyed keyed (List.mem_of_mem_filter hmem)) hafter
  have hdisplay := congrArg (List.map ChoiceValue.display) hvalues
  simp only [List.map_map, Function.comp_def, ChoiceValue.display_ofKey] at hdisplay
  rw [hnone, List.nil_append]
  exact hdisplay

end Request

/-! ## 2. Publishing -/

namespace Publication

open Value

variable (condition : Condition) (localizer : Localizer) (localized : List String)

/-- Without visible names nothing is cut. -/
theorem prune_nil (v : Value) : prune [] v = v := by
  have hentry : pruneEntry [] = id := by
    funext w
    cases w with
    | object members => simp [pruneEntry, holds]
    | _ => rfl
  cases v with
  | object members => simp [prune, holds, hentry]
  | array items => simp [prune, hentry]
  | _ => rfl

theorem publish_of_no_visible (config : Value) :
    publish ⟨[], localized⟩ localizer condition config
      = localizeTexts localized localizer (admitted condition config) := by
  have hkept : kept ⟨[], localized⟩ = [] := rfl
  unfold publish
  rw [walk_top, hkept, prune_nil]

/-- **The names that are published of an object.** -/
theorem names_publish (members : Fields) :
    ∃ published, publish ⟨[], localized⟩ localizer condition (.object members) = .object published ∧
      Members.names published = (Entries.ofValue (.object members)).keys condition := by
  rw [publish_of_no_visible]
  refine ⟨_, rfl, ?_⟩
  have hnames : Members.names (localizeMembers localized localizer
      (members.filter fun m => condition.admits m.1 (Entry.ofValue m.2)))
        = (members.filter fun m => condition.admits m.1 (Entry.ofValue m.2)).map (·.1) := by
    rw [localizeMembers_eq_map ⟨[], localized⟩, Members.names, List.map_map]
    rfl
  have hkeys : (Entries.ofValue (.object members)).keys condition
      = (members.filter fun m => condition.admits m.1 (Entry.ofValue m.2)).map (·.1) := by
    rw [Entries.keys, Entries.ofValue, List.filter_map, List.map_map]
    rfl
  exact hnames.trans hkeys.symm

/-- The positions of the items that the condition admits. -/
def admittedIndices (items : List Value) : List Nat :=
  (items.zipIdx.filter fun m => condition.admits (toString m.2) (Entry.ofValue m.1)).map (·.2)

theorem keys_array (items : List Value) :
    (Entries.ofValue (.array items)).keys condition
      = (admittedIndices condition items).map toString := by
  rw [Entries.keys, Entries.ofValue, numbered, List.map_map, List.filter_map, List.map_map,
    admittedIndices, List.map_map]
  rfl

theorem lt_length_of_mem_admittedIndices {items : List Value} {index : Nat}
    (h : index ∈ admittedIndices condition items) : index < items.length := by
  obtain ⟨⟨v, i⟩, hmem, rfl⟩ := List.mem_map.mp h
  have hget : items[i]? = some v := List.mem_zipIdx_iff_getElem?.mp (List.mem_of_mem_filter hmem)
  exact (List.getElem?_eq_some_iff.mp hget).1

/-- The items that the condition admits are those at these positions. -/
theorem admitted_array (items : List Value) :
    admitted condition (.array items)
      = .array ((admittedIndices condition items).filterMap (items[·]?)) := by
  have hitem : ∀ m ∈ items.zipIdx.filter fun m =>
      condition.admits (toString m.2) (Entry.ofValue m.1),
        ((items[·]?) ∘ fun m : Value × Nat => m.2) m = some m.1 :=
    fun m hmem => List.mem_zipIdx_iff_getElem?.mp (List.mem_of_mem_filter hmem)
  rw [admittedIndices, List.filterMap_map, List.filterMap_congr hitem, List.filterMap_eq_map']
  rfl

/-- **The items that are published of an array.** -/
theorem publish_array (items : List Value) :
    publish ⟨[], localized⟩ localizer condition (.array items)
      = .array (((admittedIndices condition items).filterMap (items[·]?)).map
          (localizeTexts localized localizer)) := by
  rw [publish_of_no_visible, admitted_array, localizeTexts, localizeItems_eq_map]

end Publication

/-! ## 3. The same entries -/

/-- **Rows, keys and publishing admit the same entries.** Where nothing but the condition decides,
    the values of the rows are written as the keys that are chosen. Where nothing is cut, the
    members that are published of an object are named by the keys that are chosen, and the items
    that are published of an array are those at the positions that are chosen, localized. -/
theorem Condition.admission_agrees (condition : Condition) (localizer : Localizer) :
    (∀ (mapping : Mapping) (data : Entries) (rows : List Row),
      mapping.valuePath? = none → mapping.isActualPath? = none →
      (∀ keyed ∈ data, ∀ keyName fields, keyed.2 ≠ .identified keyName fields) →
      (⟨[], condition, [], mapping⟩ : Request).rows localizer data = .ok rows →
      rows.map (·.choice.value.display) = data.keys condition) ∧
    (∀ (localized : List String) (members : Value.Fields), ∃ published,
      Publication.publish ⟨[], localized⟩ localizer condition (.object members)
        = .object published ∧
      Members.names published = (Entries.ofValue (.object members)).keys condition) ∧
    ∀ (localized : List String) (items : List Value), ∃ indices : List Nat,
      (∀ index ∈ indices, index < items.length) ∧
      (Entries.ofValue (.array items)).keys condition = indices.map toString ∧
      Publication.publish ⟨[], localized⟩ localizer condition (.array items)
        = .array ((indices.filterMap (items[·]?)).map
            (Publication.localizeTexts localized localizer)) :=
  ⟨fun _ _ _ hvalue hactual hkeyed hrows =>
      Request.displays_of_rows hvalue hactual hkeyed hrows,
    fun localized members => Publication.names_publish condition localizer localized members,
    fun localized items => ⟨Publication.admittedIndices condition items,
      fun _ hmem => Publication.lt_length_of_mem_admittedIndices condition hmem,
      Publication.keys_array condition items,
      Publication.publish_array condition localizer localized items⟩⟩

/-- The number seven reaches the entry under the key that spells it, and no other. -/
theorem Condition.admission_agrees_seven :
    Mapping.bare.valuePath? = none ∧ Mapping.bare.isActualPath? = none ∧
      (∀ keyed ∈ ([("7", .scalar (.string "Seven")), ("07", .scalar (.string "Padded"))] : Entries),
        ∀ keyName fields, keyed.2 ≠ .identified keyName fields) ∧
      (⟨[], .withKey .always (.number (.integer 7)), [], .bare⟩ : Request).rows id
          [("7", .scalar (.string "Seven")), ("07", .scalar (.string "Padded"))]
        = .ok [⟨none, ⟨.number (.integer 7), "Seven", [], none⟩⟩] ∧
      ([⟨none, ⟨.number (.integer 7), "Seven", [], none⟩⟩] : List Row).map
          (·.choice.value.display)
        = Entries.keys [("7", .scalar (.string "Seven")), ("07", .scalar (.string "Padded"))]
            (.withKey .always (.number (.integer 7))) := by
  have hkeyed : ∀ keyed ∈ ([("7", .scalar (.string "Seven")),
      ("07", .scalar (.string "Padded"))] : Entries),
      ∀ keyName fields, keyed.2 ≠ .identified keyName fields := by simp
  have hrows : (⟨[], .withKey .always (.number (.integer 7)), [], .bare⟩ : Request).rows id
      [("7", .scalar (.string "Seven")), ("07", .scalar (.string "Padded"))]
        = .ok [⟨none, ⟨.number (.integer 7), "Seven", [], none⟩⟩] := by rfl
  have hkeys := (admission_agrees (.withKey .always (.number (.integer 7))) id).1 .bare
    [("7", .scalar (.string "Seven")), ("07", .scalar (.string "Padded"))] _ rfl rfl hkeyed hrows
  exact ⟨rfl, rfl, hkeyed, hrows, hkeys⟩

end Picklist
