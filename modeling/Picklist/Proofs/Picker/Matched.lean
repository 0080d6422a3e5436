import Picklist.Picker
import Picklist.Proofs.Keys
import Picklist.Proofs.Numeral
import Picklist.Proofs.Path.Positions

/-!
# The value under the matched key

A picker chooses a key among the entries of a section. The value under that key is not taken from
the entry: it is looked up again from the top of the document, by a path in which the key of the
section, the chosen key and the path of the wanted part stand between dots.

* `Value.child?`: the entry of a structure under a key;
* `Entries.step_eq_entry`: one step from a section along a chosen key is the entry;
* `Picker.Leads`: the path leads to the entry;
* `Picker.value_eq_entry`: where it does, the value is the entry or the part of it; from the empty
  key, which names the whole document, it does not.
-/

namespace Picklist

/-! ## 1. Entries by key -/

/-- The entry of a structure under a key: a member of an object, or the item of an array at the
    position that the key spells. -/
def Value.child? : Value → String → Option Value
  | .object members, key => members.lookup key
  | .array items, key => (Value.numbered items).lookup key
  | _, _ => none

namespace Entries

/-- **One step along a key of a section is the entry.** The positions of an array must fit 64
    bits. -/
theorem step_eq_entry {v : Value} {matched : String} {entry : Entry}
    (hpositions : ∀ items, v = .array items → items.length ≤ 2 ^ 64)
    (hmem : (matched, entry) ∈ Entries.ofValue v) :
    ∃ item, v.child? matched = some item ∧ v.step matched = some item := by
  cases v with
  | object members =>
    obtain ⟨⟨name, item⟩, hitem, e⟩ := List.mem_map.mp hmem
    have hname : name = matched := (Prod.mk.inj e).1
    have hsome : (members.lookup matched).isSome = true :=
      List.lookup_isSome_iff.mpr ⟨_, hitem, beq_iff_eq.mpr hname.symm⟩
    obtain ⟨found, hfound⟩ := Option.isSome_iff_exists.mp hsome
    exact ⟨found, hfound, hfound⟩
  | array items =>
    obtain ⟨⟨name, v⟩, hnumbered, e⟩ := List.mem_map.mp hmem
    obtain ⟨⟨item, index⟩, hindexed, e'⟩ := List.mem_map.mp hnumbered
    have hmatched : toString index = matched := ((Prod.mk.inj e').1).trans (Prod.mk.inj e).1
    subst hmatched
    have hget : items[index]? = some item := List.mem_zipIdx_iff_getElem?.mp hindexed
    have hlength : index < items.length := (List.getElem?_eq_some_iff.mp hget).1
    have hbound : index < 2 ^ 64 := Nat.lt_of_lt_of_le hlength (hpositions items rfl)
    refine ⟨item, (Value.lookup_numbered items index).trans hget, ?_⟩
    rw [Value.step, Text.index?_toString hbound, Option.bind_some, hget]
  | _ => cases hmem

end Entries

/-! ## 2. From the top of the document -/

namespace Picker

/-- The segments of the wanted part; the empty path wants the whole entry. -/
def partSegments (part : Option String) : List String :=
  (part.filter (· ≠ "")).elim [] Path.segments

theorem segments_pathTo (sectionKey matched : String) (part : Option String) :
    Path.segments (pathTo sectionKey matched part)
      = Path.segments sectionKey ++ (Path.segments matched ++ partSegments part) := by
  unfold pathTo partSegments
  cases part.filter (· ≠ "") with
  | none => simp [Path.segments_append]
  | some rest => simp [Path.segments_append]

theorem pathTo_ne_empty (sectionKey matched : String) (part : Option String) :
    pathTo sectionKey matched part ≠ "" := by
  simp only [pathTo]
  split <;> simp

/-- Whether the path through a chosen key leads to the entry of the section: the walk along the
    key of the section finds the section, the chosen key is one segment, and no member of the
    document has the whole path as its name. -/
structure Leads (document v : Value) (sectionKey matched : String) (part : Option String) :
    Prop where
  walk : document.follow (Path.segments sectionKey) = some v
  single : '.' ∉ matched.toList
  unshadowed : document.verbatim? (pathTo sectionKey matched part) = none

/-- The path leads from the entry on. -/
theorem Leads.section_eq {document v item : Value} {sectionKey matched : String}
    {part : Option String} (h : Leads document v sectionKey matched part)
    (hstep : v.step matched = some item) :
    document.section? (pathTo sectionKey matched part) = item.follow (partSegments part) := by
  rw [Value.section?, if_neg (pathTo_ne_empty _ _ _), Value.resolve, h.unshadowed, Option.none_or,
    segments_pathTo, Value.follow_append, h.walk, Option.bind_some,
    Path.segments_of_not_mem h.single, List.singleton_append, Value.follow, hstep,
    Option.bind_some]

section Value

variable {picker : Picker} {sectionKey : String} {v : Value} {condition : Condition} {strict : Bool}

/-- The matching key of a section is that of its entries. -/
theorem key_of_section (h : picker.source sectionKey = some v) :
    picker.key (.key sectionKey) condition strict = (Entries.ofValue v).key condition strict := by
  simp only [key, entries, resolve, h]
  rfl

theorem value_of_error {e : SelectionError}
    (h : picker.key (.key sectionKey) condition strict = .error e) (part : Option String) :
    picker.value sectionKey condition part strict = .error e := by
  simp only [value, h]
  rfl

theorem value_of_none (h : picker.key (.key sectionKey) condition strict = .ok none)
    (part : Option String) : picker.value sectionKey condition part strict = .ok none := by
  simp only [value, h]
  rfl

theorem value_of_some {matched : String}
    (h : picker.key (.key sectionKey) condition strict = .ok (some matched))
    (part : Option String) : picker.value sectionKey condition part strict
      = .ok (picker.source (pathTo sectionKey matched part)) := by
  simp only [value, h]
  rfl

end Value

/-- **The value under the matched key is the entry, where the path leads to it.** A failure to
    choose a key is the failure to read a value. Where no key is chosen, that is where there may be
    none and no entry meets the condition, there is no value. A chosen key is the key of an entry;
    where the path leads to that entry, the value is the entry, or what the wanted part is in it.
    From the empty key, which names the whole document, there is no value: the path starts at a
    member with the empty name. -/
theorem value_eq_entry {picker : Picker} {document v : Value} {sectionKey : String}
    (hsource : picker.source = document.section?) (hsection : document.section? sectionKey = some v)
    (hpositions : ∀ items, v = .array items → items.length ≤ 2 ^ 64) (condition : Condition)
    (strict : Bool) (part : Option String) :
    (∀ e, picker.key (.key sectionKey) condition strict = .error e →
      picker.value sectionKey condition part strict = .error e) ∧
    (picker.key (.key sectionKey) condition strict = .ok none →
      picker.value sectionKey condition part strict = .ok none ∧ strict = false ∧
        (Entries.ofValue v).keys condition = []) ∧
    ∀ matched, picker.key (.key sectionKey) condition strict = .ok (some matched) →
      ∃ entry, v.child? matched = some entry ∧
        (Leads document v sectionKey matched part →
          picker.value sectionKey condition part strict
            = .ok (entry.follow (partSegments part))) ∧
        (sectionKey = "" → document.step "" = none →
          document.verbatim? (pathTo "" matched part) = none →
            picker.value sectionKey condition part strict = .ok none) := by
  have hkey : picker.key (.key sectionKey) condition strict
      = (Entries.ofValue v).key condition strict :=
    key_of_section (hsource ▸ hsection)
  refine ⟨fun e h => value_of_error h part, fun h => ?_, fun matched h => ?_⟩
  · obtain ⟨hsingle, hhead⟩ := Entries.key_eq_ok_iff.mp (hkey ▸ h)
    have hnil : (Entries.ofValue v).keys condition = [] := List.head?_eq_none_iff.mp hhead
    refine ⟨value_of_none h part, Bool.eq_false_iff.mpr fun hstrict => ?_, hnil⟩
    have hone := hsingle hstrict
    rw [hnil] at hone
    cases hone
  · obtain ⟨entry, hmem⟩ := Entries.exists_mem_of_key (hkey ▸ h)
    obtain ⟨item, hitem, hstep⟩ := Entries.step_eq_entry hpositions hmem
    refine ⟨item, hitem, fun hleads => ?_, fun hempty hname hshadow => ?_⟩
    · rw [value_of_some h, hsource, hleads.section_eq hstep]
    · subst hempty
      have hpath : document.section? (pathTo "" matched part) = none := by
        rw [Value.section?, if_neg (pathTo_ne_empty _ _ _), Value.resolve, hshadow,
          Option.none_or, segments_pathTo, Value.follow_append]
        have hwalk : document.follow (Path.segments "") = none := by
          rw [Path.segments_of_not_mem (by decide), Value.follow, hname, Option.bind_none]
        rw [hwalk, Option.bind_none]
      rw [value_of_some h, hsource, hpath]

/-- A part of the item that matches in an array. -/
theorem value_eq_entry_tint :
    ∃ (document v : Value) (picker : Picker),
      picker.source = document.section? ∧ document.section? "paint" = some v ∧
      (∀ items, v = .array items → items.length ≤ 2 ^ 64) ∧
      picker.key (.key "paint") (.with .always "sold" (.bool false)) true = .ok (some "1") ∧
      Leads document v "paint" "1" (some "tint.hue") ∧
      picker.value "paint" (.with .always "sold" (.bool false)) (some "tint.hue") true
        = .ok (some (.string "blue")) := by
  let shelf : Value := .array [.object [("sold", .bool true)],
    .object [("tint", .object [("hue", .string "blue")])]]
  let document : Value := .object [("paint", shelf)]
  let picker : Picker := ⟨document.section?, id, .standard⟩
  have hsection : document.section? "paint" = some shelf := rfl
  have hpositions : ∀ items, shelf = .array items → items.length ≤ 2 ^ 64 := by
    intro items e
    rw [← Value.array.inj e]
    decide
  have hkey : picker.key (.key "paint") (.with .always "sold" (.bool false)) true
      = .ok (some "1") := by rfl
  have hleads : Leads document shelf "paint" "1" (some "tint.hue") :=
    ⟨by rfl, by decide, by rfl⟩
  obtain ⟨entry, hentry, hvalue, _⟩ := (value_eq_entry rfl hsection hpositions
    (.with .always "sold" (.bool false)) true (some "tint.hue")).2.2 "1" hkey
  have hitem : shelf.child? "1" = some (.object [("tint", .object [("hue", .string "blue")])]) := by
    rfl
  rw [hitem, Option.some.injEq] at hentry
  subst hentry
  exact ⟨document, shelf, picker, rfl, hsection, hpositions, hkey, hleads, hvalue hleads⟩

/-- From the key of the whole document nothing is read, though an entry matches. -/
theorem value_misses_whole_document :
    (Value.object [("apple", .string "red")]).section? "" = some (.object [("apple", .string "red")])
      ∧ (⟨(Value.object [("apple", .string "red")]).section?, id, .standard⟩ : Picker).key (.key "")
          .always true = .ok (some "apple")
      ∧ (Value.object [("apple", .string "red")]).child? "apple" = some (.string "red")
      ∧ (⟨(Value.object [("apple", .string "red")]).section?, id, .standard⟩ : Picker).value ""
          .always none true = .ok none := by
  have hkey : (⟨(Value.object [("apple", .string "red")]).section?, id, .standard⟩ : Picker).key
      (.key "") .always true = .ok (some "apple") := rfl
  have hpath : (Value.object [("apple", .string "red")]).section? (pathTo "" "apple" none)
      = none := Option.isNone_iff_eq_none.mp (by decide +kernel)
  exact ⟨rfl, hkey, rfl, (value_of_some hkey none).trans (congrArg Except.ok hpath)⟩

end Picker

end Picklist
