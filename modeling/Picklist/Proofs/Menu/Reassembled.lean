import Picklist.Proofs.Menu.Reference
import Picklist.Proofs.Sorted

/-!
# Menus made from their own rows

The choices of a menu, each with the label of the group that it stands in, are rows again. None of
them meets an earlier one of its scope and value, and the rows of a group follow one another. So
placing them builds one section behind the other, and what comes out is the menu.

* `Section.Settled`: sections without empty groups, each label and each value of a scope there once;
* `Section.foldl_placeIn_group`: further rows of the last label join the last group;
* `Section.foldl_placeIn_section`: the rows of a section build it behind the others;
* `Section.foldl_placeIn_sections`: so do the rows of all sections, by induction;
* `Menu.ofRows_rows`: the menu of the rows of a menu is that menu.
-/

namespace Picklist

namespace Section

/-! ## 1. Settled sections -/

/-- No group is empty, each label is there once, and in each scope each value is there once. -/
structure Settled (sections : List Section) : Prop where
  filled : ∀ label choices, .group label choices ∈ sections → choices ≠ []
  nodup_labels : (labels sections).Nodup
  distinct : ∀ scope, (shownIn sections scope).Pairwise fun choice other =>
    choice.value.same other.value = false

theorem labels_append (front rest : List Section) :
    labels (front ++ rest) = labels front ++ labels rest :=
  List.filterMap_append ..

/-- The first of settled sections are settled. -/
theorem Settled.of_append {front rest : List Section} (h : Settled (front ++ rest)) :
    Settled front where
  filled label choices hmem := h.filled label choices (List.mem_append_left _ hmem)
  nodup_labels := by
    have hnodup := h.nodup_labels
    rw [labels_append] at hnodup
    exact (List.nodup_append.mp hnodup).1
  distinct scope := by
    have hdistinct := h.distinct scope
    rw [shownIn_append] at hdistinct
    exact (List.pairwise_append.mp hdistinct).1

/-- What the last section shows is new to the sections before it. -/
theorem Settled.not_same_last {front : List Section} {last : Section} {choice : Choice}
    {scope : Option String} (h : Settled (front ++ [last])) (hchoice : choice ∈ last.choicesIn scope) :
    ∀ held ∈ shownIn front scope, held.value.same choice.value = false := by
  have hdistinct := h.distinct scope
  rw [shownIn_append] at hdistinct
  intro held hheld
  exact (List.pairwise_append.mp hdistinct).2.2 held hheld choice
    (mem_shownIn_of_mem List.mem_cons_self hchoice)

/-- The label of the last section is new to the sections before it. -/
theorem Settled.not_mem_labels {front : List Section} {label : String} {choices : List Choice}
    (h : Settled (front ++ [.group label choices])) : label ∉ labels front := by
  have hnodup := h.nodup_labels
  rw [labels_append] at hnodup
  intro hmem
  exact (List.nodup_append.mp hnodup).2.2 label hmem label List.mem_cons_self rfl

/-! ## 2. Rows of settled sections -/

/-- A value that is new outside all groups goes to the end. -/
theorem placeIn_single {choice : Choice} {front : List Section}
    (h : ∀ held ∈ shownIn front none, held.value.same choice.value = false) :
    (⟨none, choice⟩ : Row).placeIn front = front ++ [.single choice] := by
  refine place_of_forall_not fun held hmem => ?_
  cases held with
  | single held => exact h held (mem_shownIn_of_mem hmem (by simp [choicesIn]))
  | group label choices => rfl

/-- No section has a label that is not there. -/
theorem isGroup_of_not_mem {label : String} {front : List Section} (h : label ∉ labels front) :
    ∀ held ∈ front, isGroup label held = false := by
  intro held hmem
  cases held with
  | single choice => rfl
  | group other choices =>
    exact decide_eq_false fun e => h (List.mem_filterMap.mpr ⟨_, hmem, congrArg some e⟩)

/-- A row with a new label makes a group at the end. -/
theorem placeIn_new_group {label : String} {front : List Section} (choice : Choice)
    (h : label ∉ labels front) :
    (⟨some label, choice⟩ : Row).placeIn front = front ++ [.group label [choice]] :=
  place_of_forall_not (isGroup_of_not_mem h)

/-- A row with the label of the last section joins it. -/
theorem placeIn_last_group {label : String} {front : List Section} (choice : Choice)
    (shown : List Choice) (h : label ∉ labels front) :
    (⟨some label, choice⟩ : Row).placeIn (front ++ [.group label shown])
      = front ++ [.group label (choice.placeIn shown)] :=
  place_append_cons (isGroup_of_not_mem h) (decide_eq_true rfl)

/-- **Further rows of the last label join the last group**, in their order, if their values are
    new to it and to each other. -/
theorem foldl_placeIn_group {label : String} {front : List Section} (h : label ∉ labels front)
    {shown more : List Choice}
    (hdistinct : (shown ++ more).Pairwise fun choice other =>
      choice.value.same other.value = false) :
    (more.map fun choice => (⟨some label, choice⟩ : Row)).foldl
        (fun sections row => row.placeIn sections) (front ++ [.group label shown])
      = front ++ [.group label (shown ++ more)] := by
  induction more generalizing shown with
  | nil => rw [List.append_nil]; rfl
  | cons choice more ih =>
    have hfresh : ∀ held ∈ shown, held.value.same choice.value = false := fun held hheld =>
      (List.pairwise_append.mp hdistinct).2.2 held hheld choice List.mem_cons_self
    rw [List.append_cons shown choice more] at hdistinct ⊢
    rw [List.map_cons, List.foldl_cons, placeIn_last_group choice shown h,
      Choice.placeIn_of_forall_not_same hfresh, ih hdistinct]

/-- **The rows of a section build it** behind the sections before it. -/
theorem foldl_placeIn_section {front : List Section} {held : Section}
    (h : Settled (front ++ [held])) :
    held.rows.foldl (fun sections row => row.placeIn sections) front = front ++ [held] := by
  cases held with
  | single choice => exact placeIn_single (h.not_same_last (by simp [choicesIn]))
  | group label choices =>
    cases choices with
    | nil => exact absurd rfl (h.filled label [] (by simp))
    | cons first more =>
      have hnew : label ∉ labels front := h.not_mem_labels
      have hdistinct : ([first] ++ more).Pairwise fun choice other =>
          choice.value.same other.value = false := by
        have hshown := h.distinct (some label)
        rw [shownIn_append, shownIn_of_not_mem hnew] at hshown
        simpa [choicesIn] using hshown
      rw [rows, List.map_cons, List.foldl_cons, placeIn_new_group first hnew]
      exact foldl_placeIn_group hnew hdistinct

/-- **The rows of settled sections build them**, one behind the other. -/
theorem foldl_placeIn_sections {front rest : List Section} (h : Settled (front ++ rest)) :
    (rest.flatMap rows).foldl (fun sections row => row.placeIn sections) front
      = front ++ rest := by
  induction rest generalizing front with
  | nil => rw [List.append_nil]; rfl
  | cons held rest ih =>
    rw [List.append_cons] at h ⊢
    rw [List.flatMap_cons, List.foldl_append, foldl_placeIn_section h.of_append]
    exact ih h

end Section

/-! ## 3. Menus -/

namespace Menu

/-- The sections of a menu are settled, whatever its rows are. -/
theorem settled_ofRows (rows : List Row) (selected : List String) :
    Section.Settled (ofRows rows selected).sections where
  filled label choices hmem := by
    rw [sections_ofRows] at hmem
    exact Row.reference_group_ne_nil hmem
  nodup_labels := by
    rw [sections_ofRows]
    exact Row.nodup_labels_reference rows
  distinct scope := by
    rw [sections_ofRows, Row.shownIn_reference]
    exact Row.pairwise_distinctChoices _

/-- Placing the rows of a menu builds its sections. -/
theorem sections_ofRows_rows (rows : List Row) (selected marked : List String) :
    (ofRows (ofRows rows selected).rows marked).sections = (ofRows rows selected).sections :=
  @Section.foldl_placeIn_sections [] _ (settled_ofRows rows selected)

/-- Without their labels the rows of a menu are its choices. -/
theorem map_choice_rows (menu : Menu) : menu.rows.map Row.choice = menu.choices := by
  unfold rows choices
  rw [List.map_flatMap]
  refine List.flatMap_congr fun held _ => ?_
  cases held with
  | single choice => rfl
  | group label choices =>
    rw [Section.rows, List.map_map]
    exact List.map_id choices

/-- **The menu of the rows of a menu is that menu**, section for section and choice for choice,
    under any list of the same marked texts. The rows are its choices, in order, so they are a
    faithful list of every menu that rows can make: two such menus have the same rows exactly where
    they have the same sections. -/
theorem ofRows_rows (rows : List Row) (selected : List String) :
    (ofRows rows selected).rows.map Row.choice = (ofRows rows selected).choices ∧
      (∀ marked, (∀ text, text ∈ marked ↔ text ∈ selected) →
        ofRows (ofRows rows selected).rows marked = ofRows rows selected) ∧
      ofRows (ofRows rows selected).rows (ofRows rows selected).selected
        = ofRows rows selected ∧
      ∀ others marked, (ofRows others marked).rows = (ofRows rows selected).rows ↔
        (ofRows others marked).sections = (ofRows rows selected).sections := by
  have hmarked : ∀ marked, (∀ text, text ∈ marked ↔ text ∈ selected) →
      ofRows (ofRows rows selected).rows marked = ofRows rows selected := by
    intro marked hsame
    have hsections := sections_ofRows_rows rows selected marked
    have hset : Text.sortedSet marked = Text.sortedSet selected :=
      Text.sortedSet_eq_of_mem_iff hsame
    exact congrArg₂ Menu.mk hsections hset
  refine ⟨map_choice_rows _, hmarked, ?_, fun others marked => ⟨fun h => ?_, fun h => ?_⟩⟩
  · exact hmarked _ fun text => Text.mem_sortedSet text selected
  · rw [← sections_ofRows_rows others marked [], h, sections_ofRows_rows]
  · exact congrArg (List.flatMap Section.rows) h

/-- Two groups that are filled in turns, and a value that is there twice outside of them. -/
def interleaved : List Row :=
  [⟨none, ⟨.text "a", "first", [], none⟩⟩, ⟨some "G", ⟨.text "b", "B", [], some "G"⟩⟩,
    ⟨some "H", ⟨.text "a", "A", [], some "H"⟩⟩, ⟨some "G", ⟨.text "e", "E", [], some "G"⟩⟩,
    ⟨none, ⟨.text "a", "second", [], none⟩⟩]

/-- The rows of the menu are in another order than those that it was made of, and one is missing. -/
theorem ofRows_rows_interleaved :
    (∀ text, text ∈ ["a", "e"] ↔ text ∈ ["e", "a", "e"]) ∧
      ofRows [⟨none, ⟨.text "a", "second", [], none⟩⟩, ⟨some "G", ⟨.text "b", "B", [], some "G"⟩⟩,
          ⟨some "G", ⟨.text "e", "E", [], some "G"⟩⟩, ⟨some "H", ⟨.text "a", "A", [], some "H"⟩⟩]
          ["a", "e"]
        = ofRows interleaved ["e", "a", "e"] := by
  have hmarked : ∀ text, text ∈ ["a", "e"] ↔ text ∈ ["e", "a", "e"] := by
    intro text
    simp only [List.mem_cons, List.not_mem_nil, or_false]
    tauto
  exact ⟨hmarked, (ofRows_rows interleaved ["e", "a", "e"]).2.1 ["a", "e"] hmarked⟩

end Menu

end Picklist
