import Picklist.Proofs.Markup.Attributes

/-!
# What markup shows

What can be read off the markup of a menu is said here by its sections alone: which of them are
choices and which are groups, in order, with the labels, the titles and the attributes.

* `optionView`, `sectionView`, `view`: what markup shows of a choice, of a section and of a menu;
* `elements_eq_view`: these are the elements that are written;
* `markup_eq_iff_view_eq`: so markup is read back as what it shows, and menus with the same markup
  show the same.
-/

namespace Picklist.Markup

/-! ## 1. Views -/

/-- What is shown of a choice: its title, and its own attributes that are kept, among which each
    bound one is put. A bound attribute takes the place of one of its name, or goes to the end. -/
def optionView (menu : Menu) (choice : Choice) : OptionElement where
  attributes := (bound menu choice).foldl (fun members m => Members.insert m.1 m.2 members)
    (own choice)
  title := choice.title

/-- What is shown of a section: the choice, or the label of the group and its choices in order. -/
def sectionView (menu : Menu) : Section → Element
  | .single choice => .single (optionView menu choice)
  | .group label choices => .group label (choices.map (optionView menu))

/-- What is shown of a menu: its sections in order. -/
def view (menu : Menu) : List Element := menu.sections.map (sectionView menu)

/-! ## 2. Markup and views -/

theorem optionElement_eq_view (menu : Menu) (choice : Choice) :
    optionElement menu choice = optionView menu choice := by
  rw [optionElement, attributes_eq_foldl, optionView]

theorem element_eq_view (menu : Menu) (part : Section) :
    element menu part = sectionView menu part := by
  cases part with
  | single choice => rw [element, sectionView, optionElement_eq_view]
  | group label choices =>
    rw [element, sectionView, List.map_congr_left fun choice _ => optionElement_eq_view menu choice]

/-- **The elements that are written** are what is shown of the menu. -/
theorem elements_eq_view (menu : Menu) : elements menu = view menu :=
  List.map_congr_left fun part _ => element_eq_view menu part

theorem read?_markup_eq_view (menu : Menu) : read? menu.markup = some (view menu) := by
  rw [read?_markup, elements_eq_view]

/-- **Markup is unambiguous.** The reader of the grammar accepts exactly its texts, each for one
    list of elements. The markup of any menu is read back, once the entities are undone, as what it
    shows: the sections in order, each group with its label and its choices, each choice with its
    title, its own attributes that are kept and the bound ones. So menus with the same markup show
    the same, and only they. The attributes are the own ones with the bound values in their places,
    and behind them the bound ones that are new. -/
theorem markup_eq_iff_view_eq :
    (∀ text elements, readDocument? text = some elements ↔ IsDocument text.toList elements) ∧
      (∀ menu : Menu, read? menu.markup = some (view menu)) ∧
      (∀ menu other : Menu, menu.markup = other.markup ↔ view menu = view other) ∧
      ∀ menu : Menu, menu.NamesDistinct → ∀ choice ∈ menu.choices,
        (optionView menu choice).attributes
          = Members.overlaid (own choice) (bound menu choice) := by
  refine ⟨fun _ _ => readDocument?_eq_some_iff, read?_markup_eq_view, fun menu other => ⟨fun h => ?_,
    fun h => ?_⟩, fun menu hnames choice hchoice => ?_⟩
  · have hread := read?_markup_eq_view menu
    rw [h, read?_markup_eq_view other] at hread
    exact (Option.some.inj hread).symm
  · rw [← elements_eq_view, ← elements_eq_view] at h
    unfold Menu.markup render
    rw [h]
  · rw [← optionElement_eq_view]
    exact attributes_eq_overlaid (hnames choice hchoice)

/-- Texts that look like markup, a name that cannot stand in it, and a selected value. -/
def hostile : Menu := Menu.ofRows
  [⟨none, ⟨.text "a\"b", "</option>&lt;", [("on click", "x"), ("title", "<'&'>")], none⟩⟩,
    ⟨some "\"><b>", ⟨.number (.integer 7), "T", [("value", "fake"), ("id", "7")], none⟩⟩] ["7"]

theorem markup_eq_iff_view_eq_hostile :
    hostile.NamesDistinct ∧
      read? hostile.markup = some
        [.single ⟨[("title", "<'&'>"), ("value", "a\"b")], "</option>&lt;"⟩,
          .group "\"><b>" [⟨[("value", "7"), ("id", "7"), ("selected", "selected")], "T"⟩]] ∧
      ∀ choice ∈ hostile.choices, (optionView hostile choice).attributes
        = Members.overlaid (own choice) (bound hostile choice) := by
  have hnames : hostile.NamesDistinct := by decide
  obtain ⟨_, hread, _, hattributes⟩ := markup_eq_iff_view_eq
  refine ⟨hnames, (hread hostile).trans (congrArg some ?_), hattributes hostile hnames⟩
  decide +kernel

end Picklist.Markup
