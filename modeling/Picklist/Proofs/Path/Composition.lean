import Mathlib.Init
import Picklist.Path
import Picklist.Proofs.Members

/-!
# Paths cut at a dot

A path is looked up in two ways: as the name of one member, and along its segments. Where no name
holds a dot the first way finds nothing that the second one would not, so a path may be cut at any
of its dots and looked up piece by piece.

* `Path.segments_append`: a dot keeps the segments on its two sides apart;
* `Value.Undotted`: a value in which no name of a member, at any depth, holds a dot;
* `Value.Undotted.follow`: a walk stays among such values;
* `Value.resolve_eq_follow_of_verbatim?`: where a path with a dot is no name, as in such a value, a
  path is its segments and nothing else;
* `Value.resolve_composes`: so paths compose; and in any value a member with the whole path as its
  name comes first.
-/

namespace Picklist

/-! ## 1. Segments -/

theorem Text.pieces_of_not_mem {separator : Char} {text : List Char} (h : separator ∉ text) :
    pieces separator text = [text] := by
  induction text with
  | nil => rfl
  | cons c rest ih =>
    rw [List.mem_cons, not_or] at h
    rw [pieces, if_neg (Ne.symm h.1), ih h.2]

namespace Path

/-- **A dot between two paths keeps their segments apart.** -/
theorem segments_append (first second : String) :
    segments (first ++ "." ++ second) = segments first ++ segments second := by
  have hchars : (first ++ "." ++ second).toList = first.toList ++ '.' :: second.toList := by
    simp [String.toList_append]
  rw [segments, hchars, Text.pieces_append, List.map_append]
  rfl

/-- A path has at least one segment. -/
theorem exists_segments_eq_cons (path : String) : ∃ first rest, segments path = first :: rest := by
  refine List.exists_cons_of_ne_nil fun hnil => ?_
  exact Text.pieces_ne_nil '.' path.toList (List.map_eq_nil_iff.mp hnil)

/-- A path without a dot is one segment. -/
theorem segments_of_not_mem {path : String} (h : '.' ∉ path.toList) : segments path = [path] := by
  rw [segments, Text.pieces_of_not_mem h, List.map_singleton, String.ofList_toList]

end Path

/-! ## 2. Values without dots in their names -/

namespace Value

/-- No name of a member, at any depth, holds a dot. -/
inductive Undotted : Value → Prop where
  | null : Undotted .null
  | bool (b : Bool) : Undotted (.bool b)
  | number (n : Number) : Undotted (.number n)
  | string (s : String) : Undotted (.string s)
  | array {items : List Value} (hitems : ∀ v ∈ items, Undotted v) : Undotted (.array items)
  | object {members : Fields} (hnames : ∀ m ∈ members, '.' ∉ m.1.toList)
      (hmembers : ∀ m ∈ members, Undotted m.2) : Undotted (.object members)

/-- One step leads to a value of the same kind. -/
theorem Undotted.step {v w : Value} {segment : String} (h : v.Undotted)
    (hstep : v.step segment = some w) : w.Undotted := by
  cases h with
  | array hitems =>
    obtain ⟨index, _, hget⟩ := Option.bind_eq_some_iff.mp hstep
    exact hitems w (List.mem_of_getElem? hget)
  | object _ hmembers => exact hmembers (segment, w) (Members.mem_of_lookup hstep)
  | null | bool | number | string => cases hstep

/-- **A walk leads to a value of the same kind.** -/
theorem Undotted.follow {v w : Value} {segments : List String} (h : v.Undotted)
    (hwalk : v.follow segments = some w) : w.Undotted := by
  induction segments generalizing v with
  | nil =>
    cases hwalk
    exact h
  | cons segment rest ih =>
    obtain ⟨u, hstep, hrest⟩ := Option.bind_eq_some_iff.mp hwalk
    exact ih (h.step hstep) hrest

/-- Where no name holds a dot, a path with one is no name. -/
theorem verbatim?_eq_none_of_names {members : Fields} (hnames : ∀ m ∈ members, '.' ∉ m.1.toList)
    {path : String} (hdot : '.' ∈ path.toList) : (object members).verbatim? path = none := by
  refine Members.lookup_of_not_mem fun hmem => ?_
  obtain ⟨m, hm, hname⟩ := List.mem_map.mp hmem
  exact hnames m hm (hname ▸ hdot)

theorem Undotted.verbatim?_eq_none {v : Value} {path : String} (h : v.Undotted)
    (hdot : '.' ∈ path.toList) : v.verbatim? path = none := by
  cases h with
  | object hnames _ => exact verbatim?_eq_none_of_names hnames hdot
  | null | bool | number | string | array => rfl

/-- A single segment leads to the member that has it as its name. -/
theorem verbatim?_or_step (v : Value) (segment : String) :
    (v.verbatim? segment).or (v.step segment) = v.step segment := by
  cases v with
  | object members => exact Option.or_self
  | _ => rfl

/-- **Where a path with a dot is no name, a path is its segments.** A path without a dot is a single
    segment, so the walk finds whatever the name does. -/
theorem resolve_eq_follow_of_verbatim? {v : Value} {path : String}
    (h : '.' ∈ path.toList → v.verbatim? path = none) :
    v.resolve path = v.follow (Path.segments path) := by
  by_cases hdot : '.' ∈ path.toList
  · rw [resolve, h hdot, Option.none_or]
  · have hfollow : v.follow [path] = v.step path := Option.bind_fun_some _
    rw [resolve, Path.segments_of_not_mem hdot, hfollow, verbatim?_or_step]

theorem Undotted.resolve_eq_follow {v : Value} (h : v.Undotted) (path : String) :
    v.resolve path = v.follow (Path.segments path) :=
  resolve_eq_follow_of_verbatim? h.verbatim?_eq_none

/-! ## 3. Composition -/

/-- Where no name holds a dot, a path is looked up piece by piece. -/
theorem Undotted.resolve_append {root : Value} (h : root.Undotted) (first second : String) :
    root.resolve (first ++ "." ++ second)
      = (root.resolve first).bind (·.resolve second) := by
  rw [h.resolve_eq_follow, h.resolve_eq_follow, Path.segments_append, follow_append]
  refine Option.bind_congr fun v hv => ?_
  exact ((h.follow hv).resolve_eq_follow second).symm

/-- A member whose name is the whole path comes before any walk. -/
theorem resolve_of_mem {members : Fields} {path : String} {v : Value}
    (hnames : (Members.names members).Nodup) (hmem : (path, v) ∈ members) :
    (Value.object members).resolve path = some v := by
  have hverbatim : (Value.object members).verbatim? path = some v :=
    (Members.lookup_eq_some_iff_mem hnames).mpr hmem
  rw [resolve, hverbatim, Option.some_or]

/-- **Dotted paths compose.** In a value in which no name of a member, at any depth, holds a dot, a
    path that is cut at a dot leads where its second piece leads from where its first piece leads,
    and nowhere when either piece leads nowhere. In any value, a member of the root whose name is
    the whole path, dots included, is what the path leads to. -/
theorem resolve_composes :
    (∀ (root : Value) (first second : String), root.Undotted →
      root.resolve (first ++ "." ++ second)
        = (root.resolve first).bind (·.resolve second)) ∧
    ∀ (members : Fields) (path : String) (v : Value), (Members.names members).Nodup →
      (path, v) ∈ members → (Value.object members).resolve path = some v :=
  ⟨fun _ first second h => h.resolve_append first second,
    fun _ _ _ hnames hmem => resolve_of_mem hnames hmem⟩

/-- A path through objects and an array, cut in the middle; and a name with a dot in front of the
    walk that it hides. -/
theorem resolve_composes_fruits :
    ∃ shop shelf : Value, shop.Undotted ∧
      shop.resolve "shop.fruits" = some shelf ∧
      shop.resolve "shop.fruits.1.title" = shelf.resolve "1.title" ∧
      shelf.resolve "1.title" = some (.string "Plum") ∧
      (Value.object [("tax.rate", .null), ("tax", .object [("rate", .string "low")])]).resolve
        "tax.rate" = some .null := by
  let shelf : Value := .array [.null, .object [("title", .string "Plum")]]
  let shop : Value := .object [("shop", .object [("fruits", shelf)])]
  have hshelf : shelf.Undotted := by
    refine .array (List.forall_mem_cons.mpr ⟨.null, List.forall_mem_singleton.mpr ?_⟩)
    exact .object (by decide) (List.forall_mem_singleton.mpr (.string _))
  have hshop : shop.Undotted :=
    .object (by decide) (List.forall_mem_singleton.mpr
      (.object (by decide) (List.forall_mem_singleton.mpr hshelf)))
  have hfirst : shop.resolve "shop.fruits" = some shelf := by rfl
  have hcut := resolve_composes.1 shop "shop.fruits" "1.title" hshop
  rw [hfirst, Option.bind_some] at hcut
  exact ⟨shop, shelf, hshop, hfirst, hcut, by rfl,
    resolve_composes.2 _ _ _ (by decide) List.mem_cons_self⟩

end Value

end Picklist
