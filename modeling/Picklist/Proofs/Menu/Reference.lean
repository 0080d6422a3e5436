import Picklist.Proofs.Menu.Placing

/-!
# The menu that rows describe

A menu is worked out a second time, from all its rows at once instead of one after the other.

* `Row.lastWith?`: the choice of the last row with a value;
* `Row.distinctChoices`: one choice for each distinct value, in order of first occurrence;
* `Slot`: what holds a place at the top level, a value outside all groups or a label;
* `Row.reference`: one section for each slot, in order of first occurrence;
* `Menu.shownIn_ofRows`: what a scope shows depends on its own rows alone;
* `Menu.ofRows_eq_reference`: the two menus are the same, and what follows from it.

Values count as equal up to `ChoiceValue.same`, that is when their canonical forms are.
-/

namespace Picklist

namespace Row

/-! ## 1. One scope -/

/-- The rows of a scope: those of a label, or those without one. -/
def inScope (rows : List Row) (scope : Option String) : List Row := rows.filter (·.group = scope)

/-- The canonical form of the value of a row. -/
def key (row : Row) : ChoiceValue := row.choice.value.canonical

/-- The distinct values of rows, in order of first occurrence. -/
def distinctKeys (rows : List Row) : List ChoiceValue := (rows.map key).eraseDups

/-- The choice of the last row with a value. -/
def lastWith? (rows : List Row) (value : ChoiceValue) : Option Choice :=
  (rows.findRev? (·.key = value)).map Row.choice

/-- One choice for each distinct value, in order of first occurrence, each from the last row that
    has the value. -/
def distinctChoices (rows : List Row) : List Choice :=
  (distinctKeys rows).filterMap (lastWith? rows)

theorem inScope_concat (rows : List Row) (row : Row) (scope : Option String) :
    inScope (rows ++ [row]) scope
      = if row.group = scope then inScope rows scope ++ [row] else inScope rows scope := by
  unfold inScope
  rw [List.filter_append]
  by_cases h : row.group = scope <;> simp [h]

theorem lastWith?_concat (rows : List Row) (row : Row) (value : ChoiceValue) :
    lastWith? (rows ++ [row]) value
      = if row.key = value then some row.choice else lastWith? rows value := by
  unfold lastWith?
  by_cases h : row.key = value <;> simp [h]

/-- The last row with a value is one of the rows and has the value. -/
theorem lastWith?_eq_some {rows : List Row} {value : ChoiceValue} {choice : Choice}
    (h : lastWith? rows value = some choice) :
    ∃ row ∈ rows, row.choice = choice ∧ choice.value.canonical = value := by
  obtain ⟨row, hrow, rfl⟩ := Option.map_eq_some_iff.mp h
  rw [List.findRev?_eq_find?_reverse] at hrow
  have hkey := List.find?_some hrow
  exact ⟨row, List.mem_reverse.mp (List.mem_of_find?_eq_some hrow), rfl, of_decide_eq_true hkey⟩

/-- Each value that occurs has a last row. -/
theorem exists_lastWith? {rows : List Row} {row : Row} (h : row ∈ rows) :
    ∃ choice, lastWith? rows row.key = some choice := by
  induction rows using List.reverseRecOn with
  | nil => cases h
  | append_singleton rows last ih =>
    rw [lastWith?_concat]
    by_cases hkey : last.key = row.key
    · exact ⟨last.choice, if_pos hkey⟩
    · rw [if_neg hkey]
      rcases List.mem_append.mp h with h | h
      · exact ih h
      · rw [List.mem_singleton] at h
        exact absurd (congrArg key h).symm hkey

theorem mem_distinctKeys {rows : List Row} {value : ChoiceValue} :
    value ∈ distinctKeys rows ↔ ∃ row ∈ rows, row.key = value := by
  simp [distinctKeys]

theorem distinctKeys_concat (rows : List Row) (row : Row) :
    distinctKeys (rows ++ [row])
      = if row.key ∈ distinctKeys rows then distinctKeys rows
        else distinctKeys rows ++ [row.key] := by
  have hmem : row.key ∈ distinctKeys rows ↔ row.key ∈ rows.map key := List.mem_eraseDups
  simp only [hmem]
  unfold distinctKeys
  rw [List.map_append, List.map_singleton, eraseDups_concat]

/-- **A new row is placed among the distinct choices.** -/
theorem distinctChoices_concat (rows : List Row) (row : Row) :
    distinctChoices (rows ++ [row]) = row.choice.placeIn (distinctChoices rows) := by
  unfold distinctChoices Choice.placeIn
  rw [distinctKeys_concat]
  symm
  refine place_filterMap (nodup_eraseDups _) (fun value hvalue => ?_) (fun value hne => ?_)
    (fun _ _ _ => ?_) fun _ => ?_
  · obtain ⟨held, hheld, rfl⟩ := mem_distinctKeys.mp hvalue
    obtain ⟨choice, hlast⟩ := exists_lastWith? hheld
    obtain ⟨_, _, _, hkey⟩ := lastWith?_eq_some hlast
    refine ⟨choice, hlast, ?_⟩
    rw [← hkey]
    exact decide_eq_true_iff
  · rw [lastWith?_concat, if_neg (Ne.symm hne)]
  · rw [lastWith?_concat, if_pos rfl]
  · rw [lastWith?_concat, if_pos rfl]

/-- The distinct choices have the distinct values, in the same order. -/
theorem map_canonical_distinctChoices (rows : List Row) :
    (distinctChoices rows).map (·.value.canonical) = distinctKeys rows := by
  unfold distinctChoices
  rw [List.map_filterMap]
  have hkeys : ∀ value ∈ distinctKeys rows,
      (lastWith? rows value).map (·.value.canonical) = some value := by
    intro value hvalue
    obtain ⟨row, hrow, rfl⟩ := mem_distinctKeys.mp hvalue
    obtain ⟨choice, hlast⟩ := exists_lastWith? hrow
    obtain ⟨_, _, _, hkey⟩ := lastWith?_eq_some hlast
    rw [hlast, Option.map_some, hkey]
  rw [List.filterMap_congr hkeys, List.filterMap_some]

/-- A choice is among the distinct ones where it is that of the last row with its value. -/
theorem mem_distinctChoices {rows : List Row} {choice : Choice} :
    choice ∈ distinctChoices rows ↔ lastWith? rows choice.value.canonical = some choice := by
  unfold distinctChoices
  rw [List.mem_filterMap]
  constructor
  · intro h
    obtain ⟨value, _, hlast⟩ := h
    obtain ⟨_, _, _, hkey⟩ := lastWith?_eq_some hlast
    rw [hkey]
    exact hlast
  · intro hlast
    obtain ⟨row, hrow, rfl, _⟩ := lastWith?_eq_some hlast
    exact ⟨_, mem_distinctKeys.mpr ⟨row, hrow, rfl⟩, hlast⟩

/-- No two of the distinct choices have the same value. -/
theorem pairwise_distinctChoices (rows : List Row) :
    (distinctChoices rows).Pairwise fun choice other => choice.value.same other.value = false := by
  have hnodup : ((distinctChoices rows).map (·.value.canonical)).Nodup := by
    rw [map_canonical_distinctChoices]
    exact nodup_eraseDups _
  rw [List.Nodup, List.pairwise_map] at hnodup
  exact hnodup.imp fun hne => decide_eq_false hne

/-- The distinct choices have the values of the rows: none is lost and none is new. -/
theorem exists_distinctChoice_iff {rows : List Row} {value : ChoiceValue} :
    (∃ choice ∈ distinctChoices rows, choice.value.same value = true) ↔
      ∃ row ∈ rows, row.choice.value.same value = true := by
  have hkeys : value.canonical ∈ (distinctChoices rows).map (·.value.canonical) ↔
      ∃ row ∈ rows, row.key = value.canonical := by
    rw [map_canonical_distinctChoices, mem_distinctKeys]
  rw [List.mem_map] at hkeys
  simpa only [ChoiceValue.same, decide_eq_true_eq, key] using hkeys

/-! ## 2. The top level -/

/-- What holds a place at the top level. -/
inductive Slot where
  /-- A value outside all groups. -/
  | single (value : ChoiceValue)
  /-- The label of a group. -/
  | group (label : String)
deriving DecidableEq

/-- The slot of a row. -/
def slot (row : Row) : Slot :=
  match row.group with
  | none => .single row.key
  | some label => .group label

/-- The distinct slots of rows, in order of first occurrence. -/
def distinctSlots (rows : List Row) : List Slot := (rows.map slot).eraseDups

/-- The section of a slot: the last choice with the value outside all groups, or the distinct
    choices of the label. -/
def sectionOf? (rows : List Row) : Slot → Option Section
  | .single value => (lastWith? (inScope rows none) value).map .single
  | .group label => some (.group label (distinctChoices (inScope rows (some label))))

/-- The sections that rows describe: one for each distinct slot. -/
def reference (rows : List Row) : List Section := (distinctSlots rows).filterMap (sectionOf? rows)

theorem distinctSlots_concat (rows : List Row) (row : Row) :
    distinctSlots (rows ++ [row])
      = if row.slot ∈ distinctSlots rows then distinctSlots rows
        else distinctSlots rows ++ [row.slot] := by
  have hmem : row.slot ∈ distinctSlots rows ↔ row.slot ∈ rows.map slot := List.mem_eraseDups
  simp only [hmem]
  unfold distinctSlots
  rw [List.map_append, List.map_singleton, eraseDups_concat]

theorem mem_distinctSlots_single {rows : List Row} {value : ChoiceValue} :
    Slot.single value ∈ distinctSlots rows ↔ ∃ row ∈ inScope rows none, row.key = value := by
  simp only [distinctSlots, List.mem_eraseDups, List.mem_map, inScope, List.mem_filter,
    decide_eq_true_eq, and_assoc]
  refine exists_congr fun row => and_congr_right fun _ => ?_
  unfold slot
  cases row.group <;> simp

theorem mem_distinctSlots_group {rows : List Row} {label : String} :
    Slot.group label ∈ distinctSlots rows ↔ ∃ row, row ∈ inScope rows (some label) := by
  simp only [distinctSlots, List.mem_eraseDups, List.mem_map, inScope, List.mem_filter,
    decide_eq_true_eq]
  refine exists_congr fun row => and_congr_right fun _ => ?_
  unfold slot
  cases row.group <;> simp

/-- A new row changes the section of its own slot only. -/
theorem sectionOf?_concat_other {rows : List Row} {row : Row} {held : Slot} (h : held ≠ row.slot) :
    sectionOf? (rows ++ [row]) held = sectionOf? rows held := by
  cases held with
  | single value =>
    simp only [sectionOf?, inScope_concat]
    by_cases hg : row.group = none
    · have hkey : row.key ≠ value := fun e => h (by simp [slot, hg, e])
      rw [if_pos hg, lastWith?_concat, if_neg hkey]
    · rw [if_neg hg]
  | group label =>
    have hg : row.group ≠ some label := fun e => h (by simp [slot, e])
    simp only [sectionOf?, inScope_concat, if_neg hg]

/-- **A new row is placed into the reference.** -/
theorem reference_concat (rows : List Row) (row : Row) :
    reference (rows ++ [row]) = row.placeIn (reference rows) := by
  unfold reference Row.placeIn
  rw [distinctSlots_concat]
  symm
  cases hg : row.group with
  | none =>
    have hslot : row.slot = .single row.key := by simp [slot, hg]
    have hafter : sectionOf? (rows ++ [row]) row.slot = some (.single row.choice) := by
      simp only [hslot, sectionOf?, inScope_concat, hg, if_true, lastWith?_concat, Option.map_some]
    refine place_filterMap (nodup_eraseDups _) (fun held hmem => ?_)
      (fun held => sectionOf?_concat_other) (fun _ _ _ => hafter) fun _ => hafter
    cases held with
    | single value =>
      obtain ⟨held, hheld, rfl⟩ := mem_distinctSlots_single.mp hmem
      obtain ⟨choice, hlast⟩ := exists_lastWith? hheld
      obtain ⟨_, _, _, hkey⟩ := lastWith?_eq_some hlast
      refine ⟨.single choice, by rw [sectionOf?, hlast, Option.map_some], ?_⟩
      rw [hslot, Slot.single.injEq, ← hkey]
      exact decide_eq_true_iff
    | group label => exact ⟨_, rfl, by simp [Section.isSingle, hslot]⟩
  | some label =>
    have hslot : row.slot = .group label := by simp [slot, hg]
    have hafter : sectionOf? (rows ++ [row]) row.slot
        = some (.group label
            (row.choice.placeIn (distinctChoices (inScope rows (some label))))) := by
      simp only [hslot, sectionOf?, inScope_concat, hg, if_true, distinctChoices_concat]
    refine place_filterMap (nodup_eraseDups _) (fun held hmem => ?_)
      (fun held => sectionOf?_concat_other) (fun held _ hheld => ?_) fun hnew => ?_
    · cases held with
      | single value =>
        obtain ⟨held, hheld, rfl⟩ := mem_distinctSlots_single.mp hmem
        obtain ⟨choice, hlast⟩ := exists_lastWith? hheld
        refine ⟨.single choice, by rw [sectionOf?, hlast, Option.map_some], ?_⟩
        simp [Section.isGroup, hslot]
      | group other =>
        refine ⟨_, rfl, ?_⟩
        rw [hslot, Slot.group.injEq]
        exact decide_eq_true_iff
    · rw [hslot, sectionOf?, Option.some.injEq] at hheld
      subst hheld
      exact hafter
    · -- the label is new: nothing is shown in its scope yet
      have hempty : inScope rows (some label) = [] := by
        rw [hslot, mem_distinctSlots_group] at hnew
        exact List.eq_nil_iff_forall_not_mem.mpr fun held hheld => hnew ⟨held, hheld⟩
      rw [hafter, hempty]
      rfl

/-- Each label is in the reference once. -/
theorem nodup_labels_reference (rows : List Row) : (Section.labels (reference rows)).Nodup := by
  unfold Section.labels reference
  rw [List.filterMap_filterMap]
  refine (nodup_eraseDups _).filterMap fun held other label hheld hother => ?_
  have hlabel : ∀ s : Slot, (sectionOf? rows s).bind Section.label? = some label →
      s = .group label := by
    intro s hs
    cases s with
    | single value =>
      rw [sectionOf?, Option.bind_map] at hs
      cases h : lastWith? (inScope rows none) value with
      | none => rw [h] at hs; cases hs
      | some choice => rw [h] at hs; cases hs
    | group l => cases hs; rfl
  rw [hlabel held hheld, hlabel other hother]

/-- A scope shows the distinct choices of its own rows. -/
theorem shownIn_reference (rows : List Row) (scope : Option String) :
    Section.shownIn (reference rows) scope = distinctChoices (inScope rows scope) := by
  induction rows using List.reverseRecOn with
  | nil => rfl
  | append_singleton rows row ih =>
    rw [reference_concat, inScope_concat]
    by_cases h : row.group = scope
    · subst h
      rw [if_pos rfl, distinctChoices_concat, ← ih]
      exact Section.shownIn_placeIn_self (nodup_labels_reference rows)
    · rw [if_neg h, Section.shownIn_placeIn_other _ (Ne.symm h), ih]

/-- The reference has no empty group. -/
theorem reference_group_ne_nil {rows : List Row} {label : String} {choices : List Choice}
    (h : Section.group label choices ∈ reference rows) : choices ≠ [] := by
  obtain ⟨held, hmem, hsection⟩ := List.mem_filterMap.mp h
  cases held with
  | single value =>
    obtain ⟨choice, _, he⟩ := Option.map_eq_some_iff.mp hsection
    cases he
  | group other =>
    cases hsection
    obtain ⟨row, hrow⟩ := mem_distinctSlots_group.mp hmem
    have hkey : row.key ∈
        (distinctChoices (inScope rows (some label))).map (·.value.canonical) := by
      rw [map_canonical_distinctChoices]
      exact mem_distinctKeys.mpr ⟨row, hrow, rfl⟩
    intro hnil
    rw [hnil] at hkey
    cases hkey

end Row

/-! ## 3. Both are the same -/

namespace Menu

theorem sections_ofRows (rows : List Row) (selected : List String) :
    (ofRows rows selected).sections = Row.reference rows := by
  induction rows using List.reverseRecOn with
  | nil => rfl
  | append_singleton rows row ih =>
    rw [Row.reference_concat, ← ih]
    simp only [ofRows, List.foldl_append, List.foldl_cons, List.foldl_nil]

/-- **What a scope shows depends on its own rows alone.** -/
theorem shownIn_ofRows (rows : List Row) (selected : List String) (scope : Option String) :
    (ofRows rows selected).shownIn scope = Row.distinctChoices (Row.inScope rows scope) := by
  unfold Menu.shownIn
  rw [sections_ofRows, Row.shownIn_reference]

/-- The choices that a scope shows are those of rows of the scope. -/
theorem exists_row_of_shown {rows : List Row} {selected : List String} {scope : Option String}
    {choice : Choice} (h : choice ∈ (ofRows rows selected).shownIn scope) :
    ∃ row ∈ rows, row.group = scope ∧ row.choice = choice := by
  rw [shownIn_ofRows, Row.mem_distinctChoices] at h
  obtain ⟨row, hrow, hchoice, _⟩ := Row.lastWith?_eq_some h
  obtain ⟨hmem, hscope⟩ := List.mem_filter.mp hrow
  exact ⟨row, hmem, of_decide_eq_true hscope, hchoice⟩

/-- **The menu of rows is the reference.** Its sections are, in order of first occurrence, a single
    choice for each distinct value outside all groups and a group for each distinct label, with a
    choice for each distinct value of the label; each choice is that of the last row with its label
    and value. So no group is empty, each label is there once, and in each scope each value is
    there once, exactly where a row has it; what a scope shows depends on the rows of the scope
    alone. -/
theorem ofRows_eq_reference (rows : List Row) (selected : List String) :
    (ofRows rows selected).sections = Row.reference rows ∧
      (∀ label choices, .group label choices ∈ (ofRows rows selected).sections → choices ≠ []) ∧
      (Section.labels (ofRows rows selected).sections).Nodup ∧
      (∀ scope, ((ofRows rows selected).shownIn scope).Pairwise fun choice other =>
        choice.value.same other.value = false) ∧
      (∀ scope value, (∃ choice ∈ (ofRows rows selected).shownIn scope,
          choice.value.same value = true) ↔
        ∃ row ∈ Row.inScope rows scope, row.choice.value.same value = true) ∧
      (∀ scope choice, choice ∈ (ofRows rows selected).shownIn scope ↔
        Row.lastWith? (Row.inScope rows scope) choice.value.canonical = some choice) ∧
      ∀ scope others marked, Row.inScope others scope = Row.inScope rows scope →
        (ofRows others marked).shownIn scope = (ofRows rows selected).shownIn scope := by
  refine ⟨sections_ofRows rows selected, fun label choices h => ?_, ?_, fun scope => ?_,
    fun scope value => ?_, fun scope choice => ?_, fun scope others marked h => ?_⟩
  · rw [sections_ofRows] at h
    exact Row.reference_group_ne_nil h
  · rw [sections_ofRows]
    exact Row.nodup_labels_reference rows
  · rw [shownIn_ofRows]
    exact Row.pairwise_distinctChoices _
  · rw [shownIn_ofRows]
    exact Row.exists_distinctChoice_iff
  · rw [shownIn_ofRows]
    exact Row.mem_distinctChoices
  · rw [shownIn_ofRows, shownIn_ofRows, h]

end Menu

end Picklist
