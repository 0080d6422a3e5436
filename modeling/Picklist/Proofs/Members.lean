import Mathlib.Data.List.Nodup
import Picklist.Value

/-!
# Members of distinct names

The members of an object have distinct names. To insert a member changes the value under its name in
the place where it stands, or puts the member behind all others.

* `Members.insert_of_mem`, `Members.insert_of_not_mem`: the two cases;
* `Members.lookup_filter`, `Members.lookup_map`: what is found among members that are left out or
  changed by their names;
* `Members.overlaid`: members with the values of other ones over them;
* `Members.foldl_insert_eq_overlaid`: to insert members one after the other lays them over the
  members that are there.
-/

namespace Picklist.Members

variable {α β : Type}

/-! ## 1. What is found under a name -/

theorem lookup_of_not_mem {name : String} {members : Members α} (h : name ∉ names members) :
    members.lookup name = none :=
  List.lookup_eq_none_iff.mpr fun m hm => bne_iff_ne.mpr fun e =>
    h (List.mem_map.mpr ⟨m, hm, e.symm⟩)

/-- Nothing is found exactly under a name that is not there. -/
theorem lookup_eq_none_iff {name : String} {members : Members α} :
    members.lookup name = none ↔ name ∉ names members := by
  refine ⟨fun h hmem => ?_, lookup_of_not_mem⟩
  obtain ⟨m, hm, rfl⟩ := List.mem_map.mp hmem
  exact bne_iff_ne.mp (List.lookup_eq_none_iff.mp h m hm) rfl

/-- What is found under a name is a member. -/
theorem mem_of_lookup {name : String} {members : Members α} {v : α}
    (h : members.lookup name = some v) : (name, v) ∈ members := by
  obtain ⟨before, after, rfl, _⟩ := List.lookup_eq_some_iff.mp h
  exact List.mem_append_right before List.mem_cons_self

/-- A name that is there once is found with its value. -/
theorem lookup_eq_some_iff_mem {members : Members α} (hnames : (names members).Nodup)
    {name : String} {v : α} : members.lookup name = some v ↔ (name, v) ∈ members := by
  induction members with
  | nil => simp
  | cons m rest ih =>
    obtain ⟨first, held⟩ := m
    obtain ⟨hnew, hrest⟩ := List.nodup_cons.mp (show (first :: names rest).Nodup from hnames)
    rw [List.lookup_cons, List.mem_cons, Prod.mk.injEq]
    by_cases h : name = first
    · have hnot : (name, v) ∉ rest := fun hmem => hnew (h ▸ List.mem_map_of_mem hmem)
      simp [h, eq_comm, h ▸ hnot]
    · rw [beq_false_of_ne h, ← ih hrest]
      simp [h]

/-- Members left out by their names. -/
theorem lookup_filter (keeps : String → Bool) (members : Members α) (name : String) :
    (members.filter fun m => keeps m.1).lookup name
      = if keeps name then members.lookup name else none := by
  induction members with
  | nil => simp
  | cons m rest ih =>
    obtain ⟨first, v⟩ := m
    by_cases hname : name = first
    · subst hname
      by_cases hkeeps : keeps name = true <;> simp [hkeeps, ih]
    · have hne : (name == first) = false := beq_false_of_ne hname
      by_cases hkeeps : keeps first = true <;>
        simp [hkeeps, List.lookup_cons, hne, ih]

/-- Members that change under their names. -/
theorem lookup_map (g : String → α → β) (members : Members α) (name : String) :
    (members.map fun m => (m.1, g m.1 m.2)).lookup name = (members.lookup name).map (g name) := by
  induction members with
  | nil => rfl
  | cons m rest ih =>
    obtain ⟨first, v⟩ := m
    rw [List.map_cons, List.lookup_cons, List.lookup_cons, ih]
    by_cases hname : name = first
    · subst hname
      rw [beq_self_eq_true]
      rfl
    · rw [beq_false_of_ne hname]

/-! ## 2. One member -/

/-- To insert a member adds its name and no other. -/
theorem mem_names_insert {name other : String} {value : α} {members : Members α} :
    other ∈ names (insert name value members) ↔ other = name ∨ other ∈ names members := by
  rw [names_insert]
  split
  · rename_i hmem
    exact ⟨.inr, fun h => h.elim (fun e => e ▸ hmem) id⟩
  · rw [List.mem_append, List.mem_singleton, or_comm]

theorem insert_of_not_mem {name : String} (value : α) {members : Members α}
    (h : name ∉ names members) : insert name value members = members ++ [(name, value)] := by
  induction members with
  | nil => rfl
  | cons member rest ih =>
    obtain ⟨first, held⟩ := member
    rw [names, List.map_cons, List.mem_cons, not_or] at h
    rw [insert, if_neg (Ne.symm h.1), ih h.2, List.cons_append]

/-- A name that is there keeps its place, as all others do. -/
theorem insert_of_mem {name : String} (value : α) {members : Members α}
    (hnodup : (names members).Nodup) (h : name ∈ names members) :
    insert name value members = members.map fun m => if m.1 = name then (name, value) else m := by
  induction members with
  | nil => cases h
  | cons member rest ih =>
    obtain ⟨first, held⟩ := member
    obtain ⟨hfirst, hrest⟩ := List.nodup_cons.mp hnodup
    by_cases e : first = name
    · subst e
      have hother : ∀ m ∈ rest, (if m.1 = first then (first, value) else m) = m := by
        intro m hm
        have hne : m.1 ≠ first := fun e => hfirst (List.mem_map.mpr ⟨m, hm, e⟩)
        exact if_neg hne
      rw [insert, if_pos rfl, List.map_cons, if_pos rfl, List.map_congr_left hother, List.map_id']
    · have hmem : name ∈ names rest := (List.mem_cons.mp h).resolve_left (Ne.symm e)
      rw [insert, if_neg e, ih hrest hmem, List.map_cons, if_neg e]

/-- Names stay distinct. -/
theorem nodup_names_insert {name : String} (value : α) {members : Members α}
    (h : (names members).Nodup) : (names (insert name value members)).Nodup := by
  rw [names_insert]
  split
  · exact h
  · rename_i hnew
    refine List.nodup_append.mpr ⟨h, List.nodup_singleton name, fun other hother n hn e => hnew ?_⟩
    rw [List.mem_singleton] at hn
    rw [← hn, ← e]
    exact hother

/-! ## 3. Several members -/

variable {lower : Members α}

theorem mem_names_foldl_insert {name : String} (upper : Members α) :
    name ∈ names (upper.foldl (fun members m => insert m.1 m.2 members) lower) ↔
      name ∈ names lower ∨ name ∈ names upper := by
  induction upper generalizing lower with
  | nil => simp [names]
  | cons member rest ih =>
    have hcons : name ∈ names (member :: rest) ↔ name = member.1 ∨ name ∈ names rest :=
      List.mem_cons
    rw [List.foldl_cons, ih, mem_names_insert, hcons, or_assoc, or_left_comm]

theorem nodup_names_foldl_insert (h : (names lower).Nodup) (upper : Members α) :
    (names (upper.foldl (fun members m => insert m.1 m.2 members) lower)).Nodup := by
  induction upper generalizing lower with
  | nil => exact h
  | cons member rest ih => exact ih (nodup_names_insert member.2 h)

/-- The lower members with the values that the upper ones have under the same names, and behind
    them the upper ones whose names are new. -/
def overlaid (lower upper : Members α) : Members α :=
  lower.map (fun m => (m.1, (upper.lookup m.1).getD m.2)) ++ upper.filter (·.1 ∉ names lower)

/-- Laying one more member over them is inserting it first. -/
theorem overlaid_insert {rest : Members α} {name : String} {value : α}
    (hlower : (names lower).Nodup) (hnew : name ∉ names rest) :
    overlaid (insert name value lower) rest = overlaid lower ((name, value) :: rest) := by
  have hself : (rest.lookup name).getD value = value := by
    rw [lookup_of_not_mem hnew, Option.getD_none]
  by_cases hmem : name ∈ names lower
  · have hnames : names (insert name value lower) = names lower := by
      rw [names_insert, if_pos hmem]
    have hmap : (insert name value lower).map (fun m => (m.1, (rest.lookup m.1).getD m.2))
        = lower.map fun m => (m.1, (((name, value) :: rest).lookup m.1).getD m.2) := by
      rw [insert_of_mem value hlower hmem, List.map_map]
      refine List.map_congr_left fun m _ => ?_
      by_cases e : m.1 = name
      · simp [e, hself]
      · simp [e, List.lookup_cons, beq_false_of_ne e]
    unfold overlaid
    rw [hmap, hnames, List.filter_cons_of_neg (by simpa using hmem)]
  · have hnames : names (insert name value lower) = names lower ++ [name] := by
      rw [names_insert, if_neg hmem]
    have hmap : (insert name value lower).map (fun m => (m.1, (rest.lookup m.1).getD m.2))
        = lower.map (fun m => (m.1, (((name, value) :: rest).lookup m.1).getD m.2))
          ++ [(name, value)] := by
      rw [insert_of_not_mem value hmem, List.map_append, List.map_singleton, hself]
      refine congrArg (· ++ _) (List.map_congr_left fun m hm => ?_)
      have hne : m.1 ≠ name := fun e => hmem (List.mem_map.mpr ⟨m, hm, e⟩)
      simp [List.lookup_cons, beq_false_of_ne hne]
    have hfilter : rest.filter (·.1 ∉ names lower ++ [name]) = rest.filter (·.1 ∉ names lower) := by
      refine List.filter_congr fun m hm => decide_eq_decide.mpr ?_
      have hne : m.1 ≠ name := fun e => hnew (List.mem_map.mpr ⟨m, hm, e⟩)
      simp [hne]
    unfold overlaid
    rw [hmap, hnames, hfilter, List.filter_cons_of_pos (by simpa using hmem), List.append_assoc,
      List.singleton_append]

/-- **To insert members one after the other lays them over those that are there.** -/
theorem foldl_insert_eq_overlaid {upper : Members α} (hlower : (names lower).Nodup)
    (hupper : (names upper).Nodup) :
    upper.foldl (fun members m => insert m.1 m.2 members) lower = overlaid lower upper := by
  induction upper generalizing lower with
  | nil =>
    unfold overlaid
    rw [List.foldl_nil, List.filter_nil, List.append_nil]
    exact (List.map_id' lower).symm
  | cons member rest ih =>
    obtain ⟨name, value⟩ := member
    obtain ⟨hnew, hrest⟩ := List.nodup_cons.mp hupper
    rw [List.foldl_cons, ih (nodup_names_insert value hlower) hrest, overlaid_insert hlower hnew]

/-- What the upper members do not name stays as it is. -/
theorem filter_overlaid (lower upper : Members α) :
    (overlaid lower upper).filter (·.1 ∉ names upper) = lower.filter (·.1 ∉ names upper) := by
  have hnew : (upper.filter (·.1 ∉ names lower)).filter (·.1 ∉ names upper) = [] := by
    refine List.filter_eq_nil_iff.mpr fun m hm => ?_
    have hmem : m.1 ∈ names upper := List.mem_map.mpr ⟨m, List.mem_of_mem_filter hm, rfl⟩
    simpa using hmem
  have hkept : ∀ m ∈ lower.filter (·.1 ∉ names upper),
      (m.1, (upper.lookup m.1).getD m.2) = m := by
    intro m hm
    have hmem : m.1 ∉ names upper := of_decide_eq_true (List.mem_filter.mp hm).2
    rw [lookup_of_not_mem hmem, Option.getD_none]
  unfold overlaid
  rw [List.filter_append, hnew, List.append_nil, List.filter_map]
  exact List.map_congr_left hkept |>.trans (List.map_id' _)

/-- Each upper member is there. -/
theorem mem_overlaid_of_mem {upper : Members α} {m : String × α} (h : (names upper).Nodup)
    (hm : m ∈ upper) : m ∈ overlaid lower upper := by
  obtain ⟨name, value⟩ := m
  by_cases hmem : name ∈ names lower
  · obtain ⟨held, hheld, rfl⟩ := List.mem_map.mp hmem
    have hlookup : upper.lookup held.1 = some value := (lookup_eq_some_iff_mem h).mpr hm
    refine List.mem_append_left _ (List.mem_map.mpr ⟨held, hheld, ?_⟩)
    rw [hlookup, Option.getD_some]
  · exact List.mem_append_right _ (List.mem_filter.mpr ⟨hm, decide_eq_true hmem⟩)

/-- Pairs whose names are all different stay as they are. -/
theorem ofPairs_of_nodup {pairs : List (String × α)} (h : (names pairs).Nodup) :
    ofPairs pairs = pairs := by
  have hoverlaid : ofPairs pairs = overlaid [] pairs := foldl_insert_eq_overlaid .nil h
  rw [hoverlaid, overlaid, List.map_nil, List.nil_append]
  exact List.filter_eq_self.mpr fun _ _ => rfl

end Picklist.Members
