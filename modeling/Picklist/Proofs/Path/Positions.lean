import Picklist.Proofs.Numeral
import Picklist.Proofs.Path.Composition
import Picklist.Proofs.Path.Extraction

/-!
# Arrays as entries and as values

An array that is an entry is a record, whose fields are named by the positions of the items. An
array inside a value keeps its items, and a segment of a path is read as a position. A position is
read in more spellings than it is written in, so the two differ in what the first segment may be.

* `Value.lookup_numbered`, `Value.lookup_numbered_eq_some_iff`: the item under the spelling of a
  position;
* `Value.resolve_array_iff`, `Entry.require_single_iff`: an array inside a value;
* `Entry.require_array_iff`: an array that is an entry;
* `Entry.array_paths_agree`: they agree where the first segment is a position as it is written;
* `Entry.array_paths_differ`: and nowhere else, as a plus sign shows.
-/

namespace Picklist

/-! ## 1. Items by position -/

namespace Value

/-- The item at a position is found under the spelling of the position. -/
theorem lookup_numbered (items : List Value) (index : Nat) :
    (numbered items).lookup (toString index) = items[index]? := by
  have hfrom : ∀ first : Nat,
      ((items.zipIdx first).map fun m => (toString m.2, m.1)).lookup (toString (first + index))
        = items[index]? := by
    induction items generalizing index with
    | nil => intro first; rfl
    | cons v rest ih =>
      intro first
      rw [List.zipIdx_cons, List.map_cons, List.lookup_cons]
      cases index with
      | zero => simp
      | succ index =>
        have hne : (toString (first + (index + 1)) == toString first) = false := by
          refine beq_false_of_ne fun e => ?_
          have hread := Text.numeral?_toString (first + (index + 1))
          rw [e, Text.numeral?_toString, Option.some.injEq] at hread
          omega
        have hindex : first + (index + 1) = first + 1 + index := by omega
        rw [hne, List.getElem?_cons_succ, ← ih index (first + 1), hindex]
  have h := hfrom 0
  rw [Nat.zero_add] at h
  exact h

/-- Nothing is found under any other name. -/
theorem lookup_numbered_eq_some_iff {items : List Value} {name : String} {v : Value} :
    (numbered items).lookup name = some v ↔
      ∃ index : Nat, toString index = name ∧ items[index]? = some v := by
  constructor
  · intro h
    obtain ⟨⟨item, index⟩, _, hnamed⟩ := List.mem_map.mp (Members.mem_of_lookup h)
    have hname : toString index = name := (Prod.mk.inj hnamed).1
    subst hname
    exact ⟨index, rfl, (lookup_numbered items index).symm.trans h⟩
  · intro h
    obtain ⟨index, rfl, hget⟩ := h
    exact (lookup_numbered items index).trans hget

/-- Positions are written without dots. -/
theorem not_mem_dot_of_mem_numbered {items : List Value} {m : String × Value}
    (h : m ∈ numbered items) : '.' ∉ m.1.toList := by
  obtain ⟨⟨item, index⟩, _, rfl⟩ := List.mem_map.mp h
  have hdigits : (toString index).toList = Nat.toDigits 10 index := Nat.toList_repr
  rw [hdigits]
  exact (Text.allDigits_toDigits index).not_mem rfl

/-! ## 2. Arrays inside values -/

/-- An array has no names, so a path is its segments. -/
theorem resolve_array (items : List Value) (path : String) :
    (array items).resolve path = (array items).follow (Path.segments path) :=
  Option.none_or

/-- **In an array inside a value the first segment is read as a position**, in any spelling. -/
theorem resolve_array_iff {items : List Value} {path : String} {v : Value} :
    (array items).resolve path = some v ↔ ∃ (segment : String) (index : Nat) (item : Value)
      (rest : List String), Path.segments path = segment :: rest ∧
        Text.index? segment = some index ∧ items[index]? = some item ∧
          item.follow rest = some v := by
  obtain ⟨first, rest, hsegments⟩ := Path.exists_segments_eq_cons path
  rw [resolve_array, hsegments, follow, Option.bind_eq_some_iff]
  constructor
  · intro h
    obtain ⟨item, hstep, hitem⟩ := h
    obtain ⟨index, hindex, hget⟩ := Option.bind_eq_some_iff.mp hstep
    exact ⟨first, index, item, rest, rfl, hindex, hget, hitem⟩
  · intro h
    obtain ⟨segment, index, item, more, hcons, hindex, hget, hitem⟩ := h
    obtain ⟨rfl, rfl⟩ := List.cons.inj hcons
    exact ⟨item, Option.bind_eq_some_iff.mpr ⟨index, hindex, hget⟩, hitem⟩

end Value

namespace Entry

open Value

/-- Where no field has a dot in its name, a path is its segments. -/
theorem require_record_iff {fields : Fields} (hnames : ∀ m ∈ fields, '.' ∉ m.1.toList)
    {path : String} {v : Value} : (record fields).require path = .ok v ↔
      (object fields).follow (Path.segments path) = some v := by
  have hfind : (record fields).find? path = (object fields).resolve path := rfl
  rw [require_eq_ok_iff, hfind,
    resolve_eq_follow_of_verbatim? (verbatim?_eq_none_of_names hnames)]

/-- Behind the name of its only field a record is the value of that field. -/
theorem require_single_iff {name : String} (hname : '.' ∉ name.toList) {v w : Value}
    {path : String} : (record [(name, v)]).require (name ++ "." ++ path) = .ok w ↔
      v.follow (Path.segments path) = some w := by
  have hstep : (object [(name, v)]).step name = some v := List.lookup_cons_self
  rw [require_record_iff (List.forall_mem_singleton.mpr hname), Path.segments_append,
    Path.segments_of_not_mem hname, List.singleton_append, follow, hstep, Option.bind_some]

/-! ## 3. Arrays as entries -/

/-- **In an array that is an entry the first segment is a position as it is written.** -/
theorem require_array_iff {items : List Value} {path : String} {v : Value} :
    (ofValue (.array items)).require path = .ok v ↔ ∃ (index : Nat) (item : Value)
      (rest : List String), Path.segments path = toString index :: rest ∧
        items[index]? = some item ∧ item.follow rest = some v := by
  obtain ⟨first, rest, hsegments⟩ := Path.exists_segments_eq_cons path
  have hfollow : (ofValue (.array items)).require path = .ok v ↔
      ((numbered items).lookup first).bind (follow · rest) = some v := by
    have hrequire : (ofValue (.array items)).require path = .ok v ↔
        (object (numbered items)).follow (Path.segments path) = some v :=
      require_record_iff fun _ hm => not_mem_dot_of_mem_numbered hm
    rw [hrequire, hsegments]
    rfl
  rw [hfollow, Option.bind_eq_some_iff]
  constructor
  · intro h
    obtain ⟨item, hlookup, hitem⟩ := h
    obtain ⟨index, rfl, hget⟩ := lookup_numbered_eq_some_iff.mp hlookup
    exact ⟨index, item, rest, hsegments, hget, hitem⟩
  · intro h
    obtain ⟨index, item, more, hwritten, hget, hitem⟩ := h
    obtain ⟨rfl, rfl⟩ := List.cons.inj (hsegments.symm.trans hwritten)
    exact ⟨item, lookup_numbered_eq_some_iff.mpr ⟨index, rfl, hget⟩, hitem⟩

/-! ## 4. Agreement -/

/-- **Paths of an array agree where positions are spelled as they are written.** Behind the name of
    the field that holds it, an array is what it is as a value. As an entry it has under a path what
    it has as a value, as long as the first segment of the path is a position as it is written; and
    it has nothing under any other path. The positions must fit 64 bits. -/
theorem array_paths_agree {items : List Value} (hpositions : items.length ≤ 2 ^ 64)
    {name : String} (hname : '.' ∉ name.toList) (path : String) (v : Value) :
    ((record [(name, .array items)]).require (name ++ "." ++ path) = .ok v ↔
      (Value.array items).resolve path = some v) ∧
    ((ofValue (.array items)).require path = .ok v ↔
      (Value.array items).resolve path = some v ∧
        ∃ index : Nat, (Path.segments path).head? = some (toString index)) := by
  constructor
  · rw [resolve_array]
    exact require_single_iff hname
  · constructor
    · intro h
      obtain ⟨index, item, rest, hsegments, hget, hitem⟩ := require_array_iff.mp h
      have hlength : index < items.length := (List.getElem?_eq_some_iff.mp hget).1
      have hbound : index < 2 ^ 64 := Nat.lt_of_lt_of_le hlength hpositions
      refine ⟨resolve_array_iff.mpr ⟨toString index, index, item, rest, hsegments,
        Text.index?_toString hbound, hget, hitem⟩, index, ?_⟩
      rw [hsegments, List.head?_cons]
    · intro h
      obtain ⟨hresolve, index, hhead⟩ := h
      obtain ⟨segment, read, item, rest, hsegments, hindex, hget, hitem⟩ :=
        resolve_array_iff.mp hresolve
      rw [hsegments, List.head?_cons, Option.some.injEq] at hhead
      subst hhead
      obtain ⟨_, rfl⟩ := Text.index?_toString_eq_some_iff.mp hindex
      exact require_array_iff.mpr ⟨index, item, rest, hsegments, hget, hitem⟩

/-- The second title of a list. -/
theorem array_paths_agree_plum :
    ∃ (items : List Value) (name path : String) (v : Value), items.length ≤ 2 ^ 64 ∧
      '.' ∉ name.toList ∧ (Value.array items).resolve path = some v ∧
      (record [(name, .array items)]).require (name ++ "." ++ path) = .ok v ∧
      (ofValue (.array items)).require path = .ok v := by
  let items : List Value := [.null, .object [("title", .string "Plum")]]
  have hpositions : items.length ≤ 2 ^ 64 := by decide
  have hname : '.' ∉ "x".toList := by decide
  have hresolve : (Value.array items).resolve "1.title" = some (.string "Plum") := by rfl
  obtain ⟨hrecord, hentry⟩ := array_paths_agree hpositions hname "1.title" (.string "Plum")
  exact ⟨items, "x", "1.title", .string "Plum", hpositions, hname, hresolve,
    hrecord.mpr hresolve, hentry.mpr ⟨hresolve, 1, by rfl⟩⟩

/-- A plus sign or a zero in front of a position reaches the item of a value, and no field of an
    entry. -/
theorem array_paths_differ :
    (Value.array [.string "Apple", .string "Plum"]).resolve "+1" = some (.string "Plum") ∧
      (record [("x", .array [.string "Apple", .string "Plum"])]).require ("x" ++ "." ++ "+1")
        = .ok (.string "Plum") ∧
      (ofValue (.array [.string "Apple", .string "Plum"])).require "+1"
        = .error (.missingField "+1") ∧
      (Value.array [.string "Apple", .string "Plum"]).resolve "01" = some (.string "Plum") ∧
      (ofValue (.array [.string "Apple", .string "Plum"])).require "01"
        = .error (.missingField "01") := by
  refine ⟨by rfl, by rfl, by rfl, by rfl, by rfl⟩

end Entry

end Picklist
