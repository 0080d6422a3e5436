import Picklist.Picker
import Picklist.Proofs.Members
import Picklist.Proofs.Publication.Passes

/-!
# Three forms of data

Data is given to a picker as the key of a section, as a value, or as ready entries. The three are
the same to all operations on entries. Publishing works on a structure, and makes one of ready
entries; there an array has become a record of its items.

* `Value.asEntry`: a value as an entry holds it;
* `Entries.toValue_ofValue`: the structure made of the entries of an object;
* `Publication.publish_asEntry`: what is published of it;
* `Picker.forms_agree`: all operations give the same for the three forms, publishing exactly where
  no array is published.
-/

namespace Picklist

/-! ## 1. Structures made of entries -/

namespace Value

/-- A value as an entry holds it: an array is a record of its items under their positions, any
    other value stays as it is. -/
def asEntry (v : Value) : Value := (Entry.ofValue v).toValue

theorem ofValue_asEntry (v : Value) : Entry.ofValue v.asEntry = Entry.ofValue v := by
  cases v <;> rfl

/-- The positions of an array are written as decimals. -/
theorem asEntry_array (items : List Value) :
    (array items).asEntry = .object (items.zipIdx.map fun m => (toString m.2, m.1)) := rfl

theorem asEntry_of_ne_array {v : Value} (h : ∀ items, v ≠ .array items) : v.asEntry = v := by
  cases v with
  | array items => exact absurd rfl (h items)
  | _ => rfl

end Value

/-- **The structure made of the entries of an object** has the members of the object, each as an
    entry holds it. -/
theorem Entries.toValue_ofValue {members : Value.Fields} (h : (Members.names members).Nodup) :
    (Entries.ofValue (.object members)).toValue
      = .object (members.map fun m => (m.1, m.2.asEntry)) := by
  have hpairs : (Entries.ofValue (.object members)).map (fun keyed => (keyed.1, keyed.2.toValue))
      = members.map fun m => (m.1, m.2.asEntry) := by
    rw [Entries.ofValue, List.map_map]
    rfl
  have hnames : Members.names (members.map fun m => (m.1, m.2.asEntry))
      = Members.names members := by
    rw [Members.names, List.map_map]
    rfl
  have hnodup : (Members.names (members.map fun m => (m.1, m.2.asEntry))).Nodup := hnames ▸ h
  exact congrArg Value.object ((congrArg Members.ofPairs hpairs).trans
    (Members.ofPairs_of_nodup hnodup))

/-! ## 2. Publishing them -/

namespace Publication

open Value

variable (p : Publication) (localizer : Localizer) (condition : Condition)

/-- The members that are published of an object, each with what they were. -/
def shown (members : Fields) : Fields :=
  let admitted := members.filter fun m => condition.admits m.1 (Entry.ofValue m.2)
  if p.cuts .top admitted then restrict p.kept admitted else admitted

/-- How far cutting reaches below the top of an object. -/
def reachBelow (members : Fields) : Reach :=
  Reach.top.below (p.cuts .top (members.filter fun m => condition.admits m.1 (Entry.ofValue m.2)))

/-- What is published of a member. -/
def shownAs (reach : Reach) (m : String × Value) : String × Value :=
  (m.1, p.localize localizer m.1 (p.walk localizer reach m.2))

theorem publish_object (members : Fields) :
    p.publish localizer condition (.object members)
      = .object ((p.shown condition members).map
          (p.shownAs localizer (p.reachBelow condition members))) := by
  rw [publish, admitted, walk, walkMembers_eq_map]
  rfl

theorem filter_admits_asEntry (members : Fields) :
    (members.map fun m => (m.1, m.2.asEntry)).filter
        (fun m => condition.admits m.1 (Entry.ofValue m.2))
      = (members.filter fun m => condition.admits m.1 (Entry.ofValue m.2)).map
          fun m => (m.1, m.2.asEntry) := by
  rw [List.filter_map]
  refine congrArg _ (List.filter_congr fun m _ => ?_)
  rw [Function.comp_apply, ofValue_asEntry]

theorem cuts_asEntry (reach : Reach) (members : Fields) :
    p.cuts reach (members.map fun m => (m.1, m.2.asEntry)) = p.cuts reach members := by
  unfold cuts
  rw [List.any_map]
  rfl

theorem reachBelow_asEntry (members : Fields) :
    p.reachBelow condition (members.map fun m => (m.1, m.2.asEntry))
      = p.reachBelow condition members := by
  rw [reachBelow, filter_admits_asEntry, cuts_asEntry]
  rfl

theorem shown_asEntry (members : Fields) :
    p.shown condition (members.map fun m => (m.1, m.2.asEntry))
      = (p.shown condition members).map fun m => (m.1, m.2.asEntry) := by
  simp only [shown, filter_admits_asEntry, cuts_asEntry]
  split
  · rw [restrict, List.filter_map]
    rfl
  · rfl

/-- Publishing makes arrays of arrays and of nothing else. -/
theorem isArray_shownAs_iff {reach : Reach} {m : String × Value} :
    (∃ items, (p.shownAs localizer reach m).2 = .array items) ↔ ∃ items, m.2 = .array items := by
  obtain ⟨name, v⟩ := m
  cases v <;> simp [shownAs, walk, localize]

/-- What is published of a member is the same for what an entry holds, exactly where that is not
    an array. -/
theorem shownAs_asEntry_iff {reach : Reach} {m : String × Value} :
    p.shownAs localizer reach (m.1, m.2.asEntry) = p.shownAs localizer reach m ↔
      ∀ items, (p.shownAs localizer reach m).2 ≠ .array items := by
  rw [← not_exists, isArray_shownAs_iff]
  obtain ⟨name, v⟩ := m
  constructor
  · intro e harray
    obtain ⟨items, hv⟩ := harray
    have hv : v = .array items := hv
    subst hv
    exact Value.noConfusion (Prod.mk.inj e).2
  · intro h
    have hsame : v.asEntry = v := asEntry_of_ne_array fun items e => h ⟨items, e⟩
    exact congrArg (fun w => p.shownAs localizer reach (name, w)) hsame

/-- **Publishing what entries hold** gives the same as publishing the object exactly where no array
    is published. -/
theorem publish_asEntry (members : Fields) :
    ∃ published, p.publish localizer condition (.object members) = .object published ∧
      (p.publish localizer condition (.object (members.map fun m => (m.1, m.2.asEntry)))
          = .object published ↔
        ∀ m ∈ published, ∀ items, m.2 ≠ .array items) := by
  refine ⟨_, p.publish_object localizer condition members, ?_⟩
  rw [publish_object, reachBelow_asEntry, shown_asEntry, List.map_map, Value.object.injEq,
    List.map_inj_left, List.forall_mem_map]
  exact forall₂_congr fun m _ => p.shownAs_asEntry_iff localizer

end Publication

/-! ## 3. The three forms -/

namespace Picker

/-- **The three forms of data agree.** Where a section is an object, choosing keys and making menus
    give the same result, or fail in the same way, for the key of the section, for the object, and
    for its entries. Publishing does so for the key and the object. For the entries it publishes
    the object with each member as an entry holds it; that is the same exactly where no member
    that is published is an array. -/
theorem forms_agree {picker : Picker} {sectionKey : String} {members : Value.Fields}
    (hsource : picker.source sectionKey = some (.object members))
    (hnames : (Members.names members).Nodup) :
    (∀ data ∈ [Data.value (.object members), Data.entries (Entries.ofValue (.object members))],
      (∀ condition, picker.keys (.key sectionKey) condition = picker.keys data condition) ∧
      (∀ condition strict,
        picker.key (.key sectionKey) condition strict = picker.key data condition strict) ∧
      (∀ condition, picker.firstKey (.key sectionKey) condition
        = picker.firstKey data condition) ∧
      (∀ condition pick, picker.anyKey (.key sectionKey) condition pick
        = picker.anyKey data condition pick) ∧
      ∀ request, picker.menu (.key sectionKey) request = picker.menu data request) ∧
    (∀ publication condition, ∃ published,
      picker.publish (.key sectionKey) publication condition = .ok (.object published) ∧
      picker.publish (.value (.object members)) publication condition = .ok (.object published) ∧
      picker.publish (.entries (Entries.ofValue (.object members))) publication condition
        = picker.publish (.value (.object (members.map fun m => (m.1, m.2.asEntry))))
            publication condition ∧
      (picker.publish (.entries (Entries.ofValue (.object members))) publication condition
          = .ok (.object published) ↔
        ∀ m ∈ published, ∀ items, m.2 ≠ .array items)) ∧
    (∀ items, (Value.array items).asEntry
      = .object (items.zipIdx.map fun m => (toString m.2, m.1))) ∧
    ∀ v : Value, (∀ items, v ≠ .array items) → v.asEntry = v := by
  have hresolve : picker.resolve sectionKey = .ok (.object members) := by
    rw [resolve, hsource]
  refine ⟨fun data hdata => ?_, fun publication condition => ?_, Value.asEntry_array,
    fun _ => Value.asEntry_of_ne_array⟩
  · have hentries : picker.entries (.key sectionKey) = picker.entries data := by
      rcases List.mem_pair.mp hdata with rfl | rfl
      · rw [entries, hresolve]; rfl
      · rw [entries, hresolve]; rfl
    refine ⟨fun condition => ?_, fun condition strict => ?_, fun condition => ?_,
      fun condition pick => ?_, fun request => ?_⟩
    · rw [keys, keys, hentries]
    · rw [key, key, hentries]
    · rw [firstKey, firstKey, hentries]
    · rw [anyKey, anyKey, hentries]
    · rw [menu, menu, hentries]
  · obtain ⟨published, hpublished, hiff⟩ :=
      publication.publish_asEntry picker.localizer condition members
    have hvalue : ∀ v, picker.publish (.value v) publication condition
        = .ok (publication.publish picker.localizer condition v) := fun _ => rfl
    have hkey : picker.publish (.key sectionKey) publication condition
        = .ok (publication.publish picker.localizer condition (.object members)) := by
      rw [publish, structureOf, hresolve]
      rfl
    have hready : picker.publish (.entries (Entries.ofValue (.object members))) publication
        condition = .ok (publication.publish picker.localizer condition
          (.object (members.map fun m => (m.1, m.2.asEntry)))) := by
      rw [← Entries.toValue_ofValue hnames]
      rfl
    refine ⟨published, ?_, ?_, ?_, ?_⟩
    · rw [hkey, hpublished]
    · rw [hvalue, hpublished]
    · rw [hready, hvalue]
    · rw [hready, Except.ok.injEq]
      exact hiff

/-- An array below an entry is published alike. -/
theorem forms_agree_plum :
    ∃ (picker : Picker) (members published : Value.Fields),
      picker.source "fruit" = some (.object members) ∧ (Members.names members).Nodup ∧
      (∀ m ∈ published, ∀ items, m.2 ≠ .array items) ∧
      picker.publish (.key "fruit") ⟨["colours"], []⟩ .always = .ok (.object published) ∧
      picker.publish (.entries (Entries.ofValue (.object members))) ⟨["colours"], []⟩ .always
        = .ok (.object published) := by
  let members : Value.Fields :=
    [("plum", .object [("colours", .array [.string "blue"]), ("price", .number (.integer 3))])]
  let picker : Picker := ⟨fun _ => some (.object members), id, .standard⟩
  have hnames : (Members.names members).Nodup := by decide
  obtain ⟨published, hkey, _, _, hiff⟩ :=
    (@forms_agree picker "fruit" members rfl hnames).2.1 ⟨["colours"], []⟩ .always
  have hfields : picker.publish (.key "fruit") ⟨["colours"], []⟩ .always
      = .ok (.object [("plum", .object [("colours", .array [.string "blue"])])]) := by rfl
  have hpublished : published = [("plum", .object [("colours", .array [.string "blue"])])] := by
    rw [hkey, Except.ok.injEq, Value.object.injEq] at hfields
    exact hfields
  have harray : ∀ m ∈ published, ∀ items, m.2 ≠ .array items := by simp [hpublished]
  exact ⟨picker, members, published, rfl, hnames, harray, hkey, hiff.mpr harray⟩

/-- An array right below an object is published of the object as an array, and of its entries as a
    record. -/
theorem forms_disagree_on_array :
    (⟨fun _ => some (.object [("sizes", .array [.number (.integer 7)])]), id, .standard⟩ :
        Picker).publish (.value (.object [("sizes", .array [.number (.integer 7)])])) ⟨[], []⟩ .always
      = .ok (.object [("sizes", .array [.number (.integer 7)])]) ∧
    (⟨fun _ => some (.object [("sizes", .array [.number (.integer 7)])]), id, .standard⟩ :
        Picker).publish
          (.entries (Entries.ofValue (.object [("sizes", .array [.number (.integer 7)])])))
          ⟨[], []⟩ .always
      = .ok (.object [("sizes", .object [("0", .number (.integer 7))])]) := ⟨rfl, rfl⟩

end Picker

end Picklist
