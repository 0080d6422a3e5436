import Picklist.Proofs.Menu.Front
import Picklist.Proofs.Menu.Reassembled

/-!
# Choices that carry their label

The label of a group is kept twice: as the scope that a row is placed in, and in the choice that
the row holds. The rows of a request have the same label in both places, whatever the localizer
makes of it, and a choice comes to stand in the scope of its row. So a menu that is built can be
read off its choices alone.

* `Request.group_eq_optgroup`: the scope of a row is the label of its choice;
* `Menu.exists_row_of_mem`: a choice of a section is that of a row of its scope;
* `Menu.Tagged.rows_eq`: where all choices carry the label of their section, they are the rows;
* `Menu.build_tags_choices`: all this of a menu that is built.
-/

namespace Picklist

/-- The row that goes by the label which the choice carries. -/
def Choice.tagged (choice : Choice) : Row := ⟨choice.optgroup, choice⟩

/-! ## 1. Rows -/

/-- **The scope of a row is the label of its choice**, in front as well as among the data. -/
theorem Request.group_eq_optgroup {request : Request} {localizer : Localizer} {data : Entries}
    {rows : List Row} (hrows : request.rows localizer data = .ok rows) :
    ∀ row ∈ rows, row.group = row.choice.optgroup := by
  obtain ⟨before, after, rfl, hbefore, hafter⟩ := exists_shown_of_rows hrows
  intro row hmem
  rcases List.mem_append.mp hmem with hmem | hmem
  · obtain ⟨_, _, hshows⟩ := Row.exists_shown_of_mem hbefore hmem
    exact hshows.group
  · obtain ⟨_, _, hshows⟩ := Row.exists_shown_of_mem hafter hmem
    exact hshows.group

namespace Menu

/-! ## 2. Sections -/

/-- Every choice carries the label of its group, and no label outside all groups. -/
def Tagged (menu : Menu) : Prop :=
  ∀ held ∈ menu.sections, ∀ choice ∈ held.choices, choice.optgroup = held.label?

/-- **A choice of a section is that of a row of its scope.** -/
theorem exists_row_of_mem {rows : List Row} {selected : List String} {held : Section}
    {choice : Choice} (hheld : held ∈ (ofRows rows selected).sections)
    (hchoice : choice ∈ held.choices) :
    ∃ row ∈ rows, row.group = held.label? ∧ row.choice = choice := by
  have hscope : choice ∈ held.choicesIn held.label? := Section.mem_choicesIn.mpr ⟨rfl, hchoice⟩
  exact exists_row_of_shown (Section.mem_shownIn_of_mem hheld hscope)

/-- Rows that go by the labels of their choices make a menu that does. -/
theorem tagged_ofRows {rows : List Row} (h : ∀ row ∈ rows, row.group = row.choice.optgroup)
    (selected : List String) : (ofRows rows selected).Tagged := by
  intro held hheld choice hchoice
  obtain ⟨row, hrow, hgroup, rfl⟩ := exists_row_of_mem hheld hchoice
  rw [← h row hrow, hgroup]

theorem rows_eq_map_of_tagged {held : Section}
    (h : ∀ choice ∈ held.choices, choice.optgroup = held.label?) :
    held.rows = held.choices.map Choice.tagged := by
  cases held with
  | single choice =>
    have hnone : choice.optgroup = none := h choice List.mem_cons_self
    simp [Section.rows, Section.choices, Choice.tagged, hnone]
  | group label choices =>
    refine List.map_congr_left fun choice hmem => ?_
    rw [Choice.tagged, h choice hmem]
    rfl

/-- **The rows of a menu are its choices**, where these carry the labels. -/
theorem Tagged.rows_eq {menu : Menu} (h : menu.Tagged) :
    menu.rows = menu.choices.map Choice.tagged := by
  unfold rows choices
  rw [List.map_flatMap]
  exact List.flatMap_congr fun held hheld => rows_eq_map_of_tagged (h held hheld)

/-- The menu of its choices, each under the label that it carries, is the menu. -/
theorem ofRows_map_tagged {rows : List Row} {selected : List String}
    (h : (ofRows rows selected).Tagged) :
    ofRows ((ofRows rows selected).choices.map Choice.tagged) selected = ofRows rows selected := by
  rw [← h.rows_eq]
  exact congrArg (Menu.mk · _) (sections_ofRows_rows rows selected selected)

/-! ## 3. Menus that are built -/

/-- **In a menu that is built the choices carry the labels of their groups.** A choice outside all
    groups carries none, and one in a group the label of that group; so the choices alone say which
    sections there are. Each of them is the choice of a row, and each row has left a choice of its
    value that carries its label. -/
theorem build_tags_choices {request : Request} {localizer : Localizer} {data : Entries}
    {menu : Menu} (hbuild : build request localizer data = .ok menu) :
    (∀ choice, .single choice ∈ menu.sections → choice.optgroup = none) ∧
      (∀ label choices, .group label choices ∈ menu.sections →
        ∀ choice ∈ choices, choice.optgroup = some label) ∧
      ofRows (menu.choices.map Choice.tagged) request.selected = menu ∧
      ∃ rows, request.rows localizer data = .ok rows ∧
        (∀ choice ∈ menu.choices, ∃ row ∈ rows, row.choice = choice) ∧
        ∀ row ∈ rows, ∃ choice ∈ menu.choices,
          choice.optgroup = row.group ∧ choice.value.same row.choice.value = true := by
  obtain ⟨rows, hrows, rfl⟩ := map_eq_ok_iff.mp hbuild
  have htagged : (ofRows rows request.selected).Tagged :=
    tagged_ofRows (Request.group_eq_optgroup hrows) request.selected
  refine ⟨fun choice hmem => htagged _ hmem choice List.mem_cons_self,
    fun label choices hmem => htagged _ hmem, ofRows_map_tagged htagged,
    rows, hrows, fun choice hchoice => ?_, fun row hrow => ?_⟩
  · obtain ⟨held, hheld, hchoice⟩ := List.mem_flatMap.mp hchoice
    obtain ⟨row, hrow, _, hsame⟩ := exists_row_of_mem hheld hchoice
    exact ⟨row, hrow, hsame⟩
  · have hscope : row ∈ Row.inScope rows row.group :=
      List.mem_filter.mpr ⟨hrow, decide_eq_true rfl⟩
    obtain ⟨choice, hchoice, hsame⟩ :=
      Row.exists_distinctChoice_iff.mpr ⟨row, hscope, decide_eq_true rfl⟩
    rw [← shownIn_ofRows rows request.selected] at hchoice
    obtain ⟨held, hheld, hmem⟩ := List.mem_flatMap.mp hchoice
    obtain ⟨hlabel, hmem⟩ := Section.mem_choicesIn.mp hmem
    exact ⟨choice, List.mem_flatMap.mpr ⟨held, hheld, hmem⟩,
      (htagged held hheld choice hmem).trans hlabel, hsame⟩

/-- The fig is selected, and an invitation stands in front. -/
def offering : Request :=
  { Request.ofMapping .standard with
    selected := ["fig"], prepends := [("", .scalar (.string "Choose"))] }

/-- Four fruit, two of which have the same value. -/
def labelledFruit : Entries :=
  [("plum", .record [("title", .string "Plum"), ("optgroup", .string "Stone")]),
    ("fig", .record [("title", .string "Fig"), ("optgroup", .string "Soft")]),
    ("kiwi", .record [("title", .string "Kiwi"), ("optgroup", .number (.integer 0))]),
    ("plum", .record [("title", .string "Prune"), ("optgroup", .string "Soft")])]

/-- Both labels become the empty text, so the prune takes the place of the plum in the one group
    that is left. -/
theorem build_tags_choices_unlabelled :
    ∃ menu, build offering (Catalog.ofPairs [("Stone", ""), ("Soft", "")]).localize labelledFruit
          = .ok menu ∧
      menu.choices = [⟨.text "", "Choose", [], none⟩, ⟨.text "plum", "Prune", [], some ""⟩,
        ⟨.text "fig", "Fig", [], some ""⟩, ⟨.text "kiwi", "Kiwi", [], none⟩] ∧
      ofRows (menu.choices.map Choice.tagged) ["fig"] = menu := by
  have hbuild : build offering (Catalog.ofPairs [("Stone", ""), ("Soft", "")]).localize labelledFruit
      = .ok _ := rfl
  obtain ⟨_, _, htagged, _⟩ := build_tags_choices hbuild
  exact ⟨_, hbuild, rfl, htagged⟩

end Menu

end Picklist
