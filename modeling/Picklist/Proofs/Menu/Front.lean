import Picklist.Proofs.Choice.Rows
import Picklist.Proofs.Menu.Reference

/-!
# What stands in front stays in front

The entries in front make rows outside all groups, and these are placed first. So a menu begins with
a single choice for each distinct value among them. Rows of the data leave these places where they
are: one outside all groups with such a value takes the place of the choice that is there, any other
stands behind.

* `Row.lastWith?_append`: the last row with a value, in a list with more rows behind it;
* `Row.reference_append_of_ungrouped`: the sections of rows that begin outside all groups;
* `Row.kept_or_replaced`: what more rows do to the distinct choices of the rows before them;
* `Menu.build_keeps_front`: what this says about the menu of a request.
-/

namespace Picklist

namespace Row

/-! ## 1. Rows outside all groups -/

variable {before : List Row}

/-- Outside all groups each value holds a place of its own. -/
theorem distinctSlots_of_ungrouped (h : ∀ row ∈ before, row.group = none) :
    distinctSlots before = (distinctKeys before).map Slot.single := by
  induction before using List.reverseRecOn with
  | nil => rfl
  | append_singleton before row ih =>
    have hbefore : distinctSlots before = (distinctKeys before).map Slot.single :=
      ih fun held hmem => h held (List.mem_append_left _ hmem)
    have hslot : row.slot = .single row.key := by
      have hgroup : row.group = none := h row (by simp)
      simp [slot, hgroup]
    have hmem : Slot.single row.key ∈ (distinctKeys before).map Slot.single
        ↔ row.key ∈ distinctKeys before :=
      List.mem_map_of_injective fun _ _ => Slot.single.inj
    rw [distinctSlots_concat, distinctKeys_concat, hbefore, hslot]
    by_cases hkey : row.key ∈ distinctKeys before
    · rw [if_pos (hmem.mpr hkey), if_pos hkey]
    · rw [if_neg (fun e => hkey (hmem.mp e)), if_neg hkey, List.map_append, List.map_singleton]

/-- The last row with a value is one of those behind, if any of them has it. -/
theorem lastWith?_append (rows more : List Row) (value : ChoiceValue) :
    lastWith? (rows ++ more) value = (lastWith? more value).or (lastWith? rows value) := by
  unfold lastWith?
  simp only [List.findRev?_eq_find?_reverse, List.reverse_append, List.find?_append]
  cases List.find? (fun row => decide (row.key = value)) more.reverse <;> rfl

theorem inScope_of_ungrouped (h : ∀ row ∈ before, row.group = none) :
    inScope before none = before :=
  List.filter_eq_self.mpr fun row hmem => decide_eq_true (h row hmem)

/-! ## 2. More rows behind them -/

/-- The choices that stand in the places of the first rows: each is that of the last row outside
    all groups that has the value. -/
def standing (before after : List Row) : List Choice :=
  (distinctKeys before).filterMap (lastWith? (before ++ inScope after none))

/-- The sections of the first rows are single choices, each from the last row outside all groups
    that has the value. -/
theorem sections_of_ungrouped (h : ∀ row ∈ before, row.group = none) (rows : List Row) :
    (distinctSlots before).filterMap (sectionOf? rows)
      = ((distinctKeys before).filterMap (lastWith? (inScope rows none))).map .single := by
  rw [distinctSlots_of_ungrouped h, List.filterMap_map, List.map_filterMap]
  exact List.filterMap_congr fun value _ => rfl

/-- **Rows outside all groups hold the front of the menu**, whatever rows come behind them. -/
theorem reference_append_of_ungrouped (h : ∀ row ∈ before, row.group = none)
    (after : List Row) :
    ∃ rest, reference (before ++ after) = (standing before after).map .single ++ rest := by
  -- the slots of the first rows come before those of the others
  have hslots : distinctSlots before <+: distinctSlots (before ++ after) := by
    rw [distinctSlots, distinctSlots, List.map_append]
    exact eraseDups_prefix_append _ _
  obtain ⟨more, hmore⟩ := hslots
  have hscope : inScope (before ++ after) none = before ++ inScope after none := by
    have happend : inScope (before ++ after) none = inScope before none ++ inScope after none :=
      List.filter_append ..
    rw [happend, inScope_of_ungrouped h]
  have hfront := sections_of_ungrouped h (before ++ after)
  rw [hscope] at hfront
  refine ⟨more.filterMap (sectionOf? (before ++ after)), ?_⟩
  rw [reference, ← hmore, List.filterMap_append, hfront, standing]

/-- Alone they are all there is. -/
theorem reference_of_ungrouped (h : ∀ row ∈ before, row.group = none) :
    reference before = (distinctChoices before).map .single := by
  rw [reference, sections_of_ungrouped h, inScope_of_ungrouped h, distinctChoices]

/-- A choice that more rows leave in its place, or that one of them outside all groups replaces by
    its own, of the same value. -/
def KeptOrReplaced (after : List Row) (held shown : Choice) : Prop :=
  held.value.same shown.value = true ∧
    (shown = held ∨ ∃ row ∈ after, row.group = none ∧ row.choice = shown)

/-- **More rows keep the choices before them, or replace them in their places.** -/
theorem kept_or_replaced (before after : List Row) :
    List.Forall₂ (KeptOrReplaced after) (distinctChoices before) (standing before after) := by
  have hkeys : List.Forall₂ (fun value other => value = other ∧ value ∈ distinctKeys before)
      (distinctKeys before) (distinctKeys before) :=
    List.forall₂_same.mpr fun value hvalue => ⟨rfl, hvalue⟩
  refine List.rel_filterMap (fun value other hvalue => ?_) hkeys
  obtain ⟨rfl, hmem⟩ := hvalue
  obtain ⟨row, hrow, rfl⟩ := mem_distinctKeys.mp hmem
  obtain ⟨held, hheld⟩ := exists_lastWith? hrow
  obtain ⟨_, _, _, hkey⟩ := lastWith?_eq_some hheld
  rw [lastWith?_append, hheld]
  cases hlast : lastWith? (inScope after none) row.key with
  | none =>
    rw [Option.none_or]
    exact .some ⟨decide_eq_true rfl, .inl rfl⟩
  | some shown =>
    obtain ⟨other, hother, hchoice, hsame⟩ := lastWith?_eq_some hlast
    obtain ⟨hafter, hgroup⟩ := List.mem_filter.mp hother
    rw [Option.some_or]
    exact .some ⟨decide_eq_true (hkey.trans hsame.symm),
      .inr ⟨other, hafter, of_decide_eq_true hgroup, hchoice⟩⟩

theorem map_canonical_standing (before after : List Row) :
    (standing before after).map (·.value.canonical) = distinctKeys before := by
  have hsame : List.Forall₂
      (fun held shown : Choice => held.value.canonical = shown.value.canonical)
      (distinctChoices before) (standing before after) :=
    (kept_or_replaced before after).imp fun _ _ h => of_decide_eq_true h.1
  rw [← map_canonical_distinctChoices]
  symm
  rw [← List.forall₂_eq_eq_eq, List.forall₂_map_left_iff, List.forall₂_map_right_iff]
  exact hsame

/-- A row of a list that shows entries shows one of them. -/
theorem exists_shown_of_mem {mapping : Mapping} {localizer : Localizer} {entries : Entries}
    {rows : List Row} (h : List.Forall₂ (fun keyed row => row.Shows mapping localizer keyed)
      entries rows) {row : Row} (hrow : row ∈ rows) :
    ∃ keyed ∈ entries, row.Shows mapping localizer keyed := by
  induction h with
  | nil => cases hrow
  | @cons keyed first entries rows hfirst _ ih =>
    rcases List.mem_cons.mp hrow with rfl | hrest
    · exact ⟨keyed, List.mem_cons_self, hfirst⟩
    · obtain ⟨other, hother, hshows⟩ := ih hrest
      exact ⟨other, List.mem_cons_of_mem _ hother, hshows⟩

/-- Under the bare mapping no entry has a label. -/
theorem Shows.group_of_bare {localizer : Localizer} {keyed : String × Entry} {row : Row}
    (h : row.Shows .bare localizer keyed) : row.group = none := by
  obtain ⟨label, hlabel, hoptgroup⟩ := h.optgroup
  cases hlabel with
  | label hrole => cases hrole
  | none => rw [h.group, hoptgroup, Option.map_none]

end Row

namespace Menu

/-! ## 3. The menu of a request -/

/-- **What stands in front stays in front.** Let a menu be built. The entries in front submit
    values, and the menu begins with a single choice for each distinct one of them, in order of
    first occurrence, whatever the data, the selection, the condition and the mapping are. Without
    the data these places are the whole menu. An entry of the data has one of them only where it
    makes a row outside all groups: its choice then takes the place of one with the same value. -/
theorem build_keeps_front {request : Request} {localizer : Localizer} {data : Entries}
    {menu : Menu} (hbuild : build request localizer data = .ok menu) :
    ∃ (values : List ChoiceValue) (front shown : List Choice) (rest : List Section),
      List.Forall₂ (fun keyed value => keyed.2.Submits .bare keyed.1 value)
        request.prepends values ∧
      build request localizer [] = .ok ⟨front.map .single, menu.selected⟩ ∧
      menu.sections = shown.map .single ++ rest ∧
      shown.map (·.value.canonical) = (values.map ChoiceValue.canonical).eraseDups ∧
      List.Forall₂ (fun held choice => held.value.same choice.value = true ∧
        (choice = held ∨ ∃ keyed ∈ data, request.Included keyed ∧
          ∃ row : Row, row.Shows request.mapping localizer keyed ∧ row.group = none ∧
            row.choice = choice)) front shown := by
  obtain ⟨rows, hrows, rfl⟩ := map_eq_ok_iff.mp hbuild
  obtain ⟨before, hbefore, after, hafter, rfl⟩ := Request.rows_eq_ok_split.mp hrows
  have hfront := Request.rowsOf_front_eq_ok_iff.mp hbefore
  obtain ⟨_, hdata⟩ := Request.rowsOf_eq_ok_iff.mp hafter
  have hungrouped : ∀ row ∈ before, row.group = none := by
    intro row hmem
    obtain ⟨keyed, _, hshows⟩ := Row.exists_shown_of_mem hfront hmem
    exact hshows.group_of_bare
  obtain ⟨rest, hrest⟩ := Row.reference_append_of_ungrouped hungrouped after
  have halone : build request localizer []
      = .ok ⟨(Row.distinctChoices before).map .single, Text.sortedSet request.selected⟩ := by
    have hrows : request.rows localizer [] = .ok before :=
      Request.rows_eq_ok_split.mpr ⟨before, hbefore, [], rfl, List.append_nil before⟩
    have hsections : (ofRows before request.selected).sections
        = (Row.distinctChoices before).map .single := by
      rw [sections_ofRows, Row.reference_of_ungrouped hungrouped]
    unfold build
    rw [hrows, ← hsections]
    rfl
  refine ⟨before.map (·.choice.value), Row.distinctChoices before, Row.standing before after, rest,
    ?_, halone, ?_, ?_, ?_⟩
  · rw [List.forall₂_map_right_iff]
    exact hfront.imp fun _ _ hshows => hshows.value
  · rw [sections_ofRows, hrest]
  · rw [Row.map_canonical_standing, List.map_map]
    rfl
  · refine (Row.kept_or_replaced before after).imp fun held choice h => ?_
    obtain ⟨hsame, hkept | ⟨row, hrow, hgroup, hchoice⟩⟩ := h
    · exact ⟨hsame, .inl hkept⟩
    · obtain ⟨keyed, hkeyed, hshows⟩ := Row.exists_shown_of_mem hdata hrow
      obtain ⟨hmem, hincluded⟩ := List.mem_filter.mp hkeyed
      exact ⟨hsame, .inr ⟨keyed, hmem, of_decide_eq_true hincluded, row, hshows, hgroup, hchoice⟩⟩

/-- An invitation, a record that a field identifies, and the invitation again, all in front. -/
def choosing : Request :=
  { Request.ofMapping .standard with
    prepends := [("", .scalar (.string "Choose")),
      ("seven", .identified "id" [("id", .number (.integer 7)), ("title", .string "Seven")]),
      ("", .scalar (.string "Choose one"))] }

/-- A seven in a group, and one outside all groups. -/
def luckyNumbers : Entries :=
  [("7", .record [("title", .string "Lucky"), ("optgroup", .string "Odd")]),
    ("8", .record [("title", .string "Eight")]), ("7", .record [("title", .string "VII")])]

/-- The second invitation has the place of the first, and of the sevens only that outside all groups
    goes to the front. -/
theorem build_keeps_front_choosing :
    ∃ menu, build choosing id luckyNumbers = .ok menu ∧
      menu.sections.map Section.choices = [[⟨.text "", "Choose one", [], none⟩],
        [⟨.number (.integer 7), "VII", [], none⟩],
        [⟨.number (.integer 7), "Lucky", [], some "Odd"⟩],
        [⟨.number (.integer 8), "Eight", [], none⟩]] ∧
      ∃ (shown : List Choice) (rest : List Section), menu.sections = shown.map .single ++ rest ∧
        shown.map (·.value.canonical) = [.text "", .number (.integer 7)] := by
  have hbuild : build choosing id luckyNumbers = .ok _ := rfl
  obtain ⟨values, _, shown, rest, hvalues, _, hsections, hshown, _⟩ := build_keeps_front hbuild
  have hsubmitted : values = [.text "", .number (.integer 7), .text ""] := by
    obtain _ | ⟨hfirst, _ | ⟨hsecond, _ | ⟨hthird, hnil⟩⟩⟩ := hvalues
    cases hnil
    rw [hfirst.unique (.scalarKey rfl), hsecond.unique (.identity rfl rfl),
      hthird.unique (.scalarKey rfl)]
    rfl
  rw [hsubmitted] at hshown
  exact ⟨_, hbuild, rfl, shown, rest, hsections, hshown⟩

end Menu

end Picklist
