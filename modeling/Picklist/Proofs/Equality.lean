import Mathlib.Data.List.Sort
import Mathlib.Data.String.Basic
import Picklist.Path
import Picklist.Proofs.Members
import Picklist.Proofs.Tree

/-!
# Equal values

Two values are equal when their canonical forms are: the order of members counts at no depth, and
numbers count by kind and value.

* `Value.canonicalMembers_eq_sort`: the canonical members are the members sorted by name;
* `Value.canonical_canonical`: a canonical form is its own;
* `Value.resolve_canonical`: a path leads to the canonical form of what it led to;
* `Value.Reorders`: members put in another order, in any objects of a value;
* `Value.same_of_reorders`: that gives an equal value;
* `Value.same_array_iff`, `Value.same_object_iff`: arrays are equal item by item, objects when they
  hold equal values under each name.
-/

namespace Picklist.Value

/-! ## 1. Canonical forms -/

/-- The canonical form of a member. -/
def canonicalMember (m : String × Value) : String × Value := (m.1, m.2.canonical)

theorem canonicalItems_eq_map (items : List Value) :
    canonicalItems items = items.map canonical := by
  induction items with
  | nil => rfl
  | cons v rest ih => rw [canonicalItems, ih, List.map_cons]

theorem placeMember_eq_orderedInsert (m : String × Value) (members : Fields) :
    placeMember m members = members.orderedInsert (fun a b => a.1 ≤ b.1) m := by
  induction members with
  | nil => rfl
  | cons first rest ih =>
    rw [placeMember, List.orderedInsert_cons]
    by_cases h : first.1 < m.1
    · rw [if_pos h, if_neg (not_le.mpr h), ih]
    · rw [if_neg h, if_pos (not_lt.mp h)]

/-- **The canonical members are sorted by name.** -/
theorem canonicalMembers_eq_sort (members : Fields) :
    canonicalMembers members
      = (members.map canonicalMember).insertionSort (fun a b => a.1 ≤ b.1) := by
  induction members with
  | nil => rfl
  | cons m rest ih =>
    obtain ⟨name, v⟩ := m
    rw [canonicalMembers, placeMember_eq_orderedInsert, ih, List.map_cons, List.insertionSort_cons]
    rfl

theorem perm_canonicalMembers (members : Fields) :
    (canonicalMembers members).Perm (members.map canonicalMember) := by
  rw [canonicalMembers_eq_sort]
  exact List.perm_insertionSort _ _

/-- Members that are canonical each by itself only need sorting, once. -/
theorem canonicalMembers_canonicalMembers {members : Fields}
    (h : ∀ m ∈ members, m.2.canonical.canonical = m.2.canonical) :
    canonicalMembers (canonicalMembers members) = canonicalMembers members := by
  have hmap : (canonicalMembers members).map canonicalMember = canonicalMembers members := by
    refine (List.map_congr_left fun m hm => ?_).trans (List.map_id _)
    obtain ⟨held, hheld, rfl⟩ := List.mem_map.mp ((perm_canonicalMembers members).mem_iff.mp hm)
    exact congrArg (Prod.mk held.1) (h held hheld)
  have hsorted : (canonicalMembers members).Pairwise fun a b => a.1 ≤ b.1 := by
    rw [canonicalMembers_eq_sort]
    exact List.pairwise_insertionSort _ _
  rw [canonicalMembers_eq_sort, hmap, List.Pairwise.insertionSort_eq hsorted]

/-- **A canonical form is its own canonical form.** -/
@[simp] theorem canonical_canonical (v : Value) : v.canonical.canonical = v.canonical := by
  induction v using tree_induction with
  | number n =>
    cases n with
    | integer n => rfl
    | real x =>
      by_cases h : (x == 0.0) = true
      · simp only [canonical, Number.canonical, h, if_true]
        rfl
      · simp [canonical, Number.canonical, h]
  | array items ih =>
    rw [canonical, canonical, canonicalItems_eq_map, canonicalItems_eq_map, List.map_map]
    exact congrArg array (List.map_congr_left ih)
  | object members ih =>
    rw [canonical, canonical, canonicalMembers_canonicalMembers ih]
  | _ => rfl

theorem same_canonical (v : Value) : v.same v.canonical = true := by
  rw [same_iff, canonical_canonical]

theorem same_symm {v w : Value} (h : v.same w = true) : w.same v = true := by
  rw [same_iff] at h ⊢
  exact h.symm

theorem same_trans {u v w : Value} (h : u.same v = true) (h' : v.same w = true) :
    u.same w = true := by
  rw [same_iff] at h h' ⊢
  exact h.trans h'

/-! ## 2. Paths -/

/-- A member that is placed is found under its name; the others stay where they are found. -/
theorem lookup_placeMember (m : String × Value) (members : Fields) (name : String) :
    (placeMember m members).lookup name
      = if name = m.1 then some m.2 else members.lookup name := by
  induction members with
  | nil =>
    by_cases h : name = m.1
    · rw [placeMember, List.lookup_cons, beq_iff_eq.mpr h, if_pos h]
    · rw [placeMember, List.lookup_cons, beq_false_of_ne h, if_neg h]
  | cons first rest ih =>
    rw [placeMember]
    by_cases hless : first.1 < m.1
    · rw [if_pos hless, List.lookup_cons, ih, List.lookup_cons]
      by_cases h : name = first.1
      · have hne : name ≠ m.1 := fun e => absurd (h ▸ e) (ne_of_lt hless)
        simp only [if_neg hne]
      · rw [beq_false_of_ne h]
    · rw [if_neg hless]
      by_cases h : name = m.1
      · rw [List.lookup_cons, beq_iff_eq.mpr h, if_pos h]
      · rw [List.lookup_cons, beq_false_of_ne h, if_neg h]

theorem lookup_canonicalMembers (members : Fields) (name : String) :
    (canonicalMembers members).lookup name = (members.lookup name).map canonical := by
  induction members with
  | nil => rfl
  | cons m rest ih =>
    obtain ⟨first, v⟩ := m
    rw [canonicalMembers, lookup_placeMember, ih, List.lookup_cons]
    by_cases h : name = first
    · rw [if_pos h, beq_iff_eq.mpr h, Option.map_some]
    · rw [if_neg h, beq_false_of_ne h]

theorem step_canonical (v : Value) (segment : String) :
    v.canonical.step segment = (v.step segment).map canonical := by
  cases v with
  | object members => exact lookup_canonicalMembers members segment
  | array items =>
    rw [canonical, step, step, canonicalItems_eq_map]
    cases Text.index? segment with
    | none => rfl
    | some index => exact List.getElem?_map
  | _ => rfl

theorem follow_canonical (v : Value) (segments : List String) :
    v.canonical.follow segments = (v.follow segments).map canonical := by
  induction segments generalizing v with
  | nil => rfl
  | cons segment rest ih =>
    rw [follow, follow, step_canonical]
    cases v.step segment with
    | none => rfl
    | some w => exact ih w

/-- **A path leads to the canonical form of what it led to.** -/
theorem resolve_canonical (v : Value) (path : String) :
    v.canonical.resolve path = (v.resolve path).map canonical := by
  have hverbatim : v.canonical.verbatim? path = (v.verbatim? path).map canonical := by
    cases v with
    | object members => exact lookup_canonicalMembers members path
    | _ => rfl
  rw [resolve, resolve, hverbatim, follow_canonical]
  cases v.verbatim? path <;> rfl

/-! ## 3. Members in another order -/

/-- The same value with the members of some of its objects in another order. An object has each
    name once. -/
inductive Reorders : Value → Value → Prop where
  | refl (v : Value) : Reorders v v
  | members {members others : Fields} (hnames : (Members.names members).Nodup)
      (h : members.Perm others) : Reorders (.object members) (.object others)
  /-- Inside an item of an array. -/
  | item (before : List Value) {v w : Value} (after : List Value) (h : Reorders v w) :
    Reorders (.array (before ++ v :: after)) (.array (before ++ w :: after))
  /-- Inside a member of an object. -/
  | member (before : Fields) (name : String) {v w : Value} (after : Fields) (h : Reorders v w) :
    Reorders (.object (before ++ (name, v) :: after)) (.object (before ++ (name, w) :: after))
  | trans {u v w : Value} (h : Reorders u v) (h' : Reorders v w) : Reorders u w

/-- Members with different names have one sorted order. -/
theorem canonicalMembers_eq_of_perm {members others : Fields}
    (hnames : (Members.names members).Nodup)
    (h : (members.map canonicalMember).Perm (others.map canonicalMember)) :
    canonicalMembers members = canonicalMembers others := by
  have hperm : (canonicalMembers members).Perm (canonicalMembers others) :=
    (perm_canonicalMembers members).trans (h.trans (perm_canonicalMembers others).symm)
  have hsorted : ∀ members : Fields, (canonicalMembers members).Pairwise fun a b => a.1 ≤ b.1 :=
    fun members => by
      rw [canonicalMembers_eq_sort]
      exact List.pairwise_insertionSort _ _
  have hnodup : (Members.names (canonicalMembers members)).Nodup := by
    refine ((perm_canonicalMembers members).map Prod.fst).nodup_iff.mpr ?_
    rw [List.map_map]
    exact hnames
  refine hperm.eq_of_pairwise (fun a b ha hb hab hba => ?_) (hsorted members) (hsorted others)
  have hname : a.1 = b.1 := le_antisymm hab hba
  exact List.inj_on_of_nodup_map hnodup ha (hperm.mem_iff.mpr hb) hname

/-- **Members in another order make an equal value.** -/
theorem same_of_reorders {v w : Value} (h : Reorders v w) : v.same w = true := by
  rw [same_iff]
  induction h with
  | refl v => rfl
  | members hnames hperm =>
    rw [canonical, canonical, canonicalMembers_eq_of_perm hnames (hperm.map _)]
  | item before after _ ih =>
    simp only [canonical, canonicalItems_eq_map, List.map_append, List.map_cons, ih]
  | member before name after _ ih =>
    simp only [canonical, canonicalMembers_eq_sort, List.map_append, List.map_cons,
      canonicalMember, ih]
  | trans _ _ ih ih' => exact ih.trans ih'

/-! ## 4. Equality part by part -/

/-- **Arrays are equal item by item.** -/
theorem same_array_iff (items others : List Value) :
    (array items).same (array others) = true ↔
      List.Forall₂ (fun v w => v.same w = true) items others := by
  rw [same_iff, canonical, canonical, array.injEq, canonicalItems_eq_map, canonicalItems_eq_map,
    ← List.forall₂_eq_eq_eq, List.forall₂_map_left_iff, List.forall₂_map_right_iff]
  simp only [same_iff]

/-- The canonical members are told by what is found under each name. -/
theorem mem_map_canonicalMember_iff {members : Fields} (hnames : (Members.names members).Nodup)
    (name : String) (c : Value) : (name, c) ∈ members.map canonicalMember ↔
      (members.lookup name).map canonical = some c := by
  rw [List.mem_map, Option.map_eq_some_iff]
  constructor
  · intro h
    obtain ⟨⟨held, v⟩, hmem, e⟩ := h
    obtain ⟨rfl, rfl⟩ := Prod.mk.inj e
    exact ⟨v, (Members.lookup_eq_some_iff_mem hnames).mpr hmem, rfl⟩
  · intro h
    obtain ⟨v, hfound, rfl⟩ := h
    exact ⟨(name, v), (Members.lookup_eq_some_iff_mem hnames).mp hfound, rfl⟩

/-- **Objects are equal when they hold equal values under each name**, wherever it stands. -/
theorem same_object_iff {members others : Fields} (hnames : (Members.names members).Nodup)
    (hothers : (Members.names others).Nodup) :
    (object members).same (object others) = true ↔
      ∀ name, Option.Rel (fun v w => v.same w = true) (members.lookup name)
        (others.lookup name) := by
  have hrel : ∀ found other : Option Value, Option.Rel (fun v w => v.same w = true) found other ↔
      found.map canonical = other.map canonical := by
    intro found other
    cases found <;> cases other <;> simp [same_iff]
  have hnodup : ∀ {members : Fields}, (Members.names members).Nodup →
      (members.map canonicalMember).Nodup := by
    intro members h
    refine List.Nodup.of_map Prod.fst ?_
    rw [List.map_map]
    exact h
  rw [same_iff, canonical, canonical, object.injEq]
  simp only [hrel]
  constructor
  · intro h name
    rw [← lookup_canonicalMembers, ← lookup_canonicalMembers, h]
  · intro h
    refine canonicalMembers_eq_of_perm hnames ?_
    refine (List.perm_ext_iff_of_nodup (hnodup hnames) (hnodup hothers)).mpr fun m => ?_
    rw [mem_map_canonicalMember_iff hnames, mem_map_canonicalMember_iff hothers, h]

end Picklist.Value
