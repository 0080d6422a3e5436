import Picklist.Proofs.Markup.Attributes

/-!
# The template of markup

Markup is put together from pieces. Some stand in it verbatim: the tags, and the names of
attributes. The others are texts of the menu, and go through the escaper. Which pieces these are
does not depend on the escaper.

* `Piece`, `assemble`: pieces, and the text that they make with an escaper;
* `optionPieces`, `sectionPieces`, `pieces`: the pieces of a menu;
* `optionTexts`, `sectionTexts`: the texts of options and sections, in order;
* `render_eq_assemble`: rendering assembles the pieces, and each text goes through the escaper
  once.
-/

namespace Picklist.Markup

/-! ## 1. Pieces -/

/-- A piece of markup: it stands there as it is, or the escaper writes it. -/
inductive Piece where
  | verbatim (text : String)
  | escaped (text : String)
deriving DecidableEq

/-- The text that the escaper gets. -/
def Piece.text? : Piece → Option String
  | .verbatim _ => none
  | .escaped text => some text

/-- The characters of a piece. -/
def Piece.chars (escape : Escaper) : Piece → List Char
  | .verbatim text => text.toList
  | .escaped text => (escape text).toList

/-- The text that pieces make. -/
def assemble (escape : Escaper) (pieces : List Piece) : String :=
  String.ofList (pieces.flatMap (Piece.chars escape))

/-- The pieces of an attribute. -/
def attributePieces (member : String × String) : List Piece :=
  [.verbatim " ", .verbatim member.1, .verbatim "=\"", .escaped member.2, .verbatim "\""]

/-- The pieces of an option: the bound attributes are laid over the choice's own. -/
def optionPieces (menu : Menu) (choice : Choice) : List Piece :=
  .verbatim "<option" ::
    (Members.overlaid (own choice) (bound menu choice)).flatMap attributePieces ++
    [.verbatim ">", .escaped choice.title, .verbatim "</option>"]

/-- The pieces of a section. -/
def sectionPieces (menu : Menu) : Section → List Piece
  | .single choice => optionPieces menu choice
  | .group label choices =>
    [.verbatim "<optgroup label=\"", .escaped label, .verbatim "\">"] ++
      choices.flatMap (optionPieces menu) ++ [.verbatim "</optgroup>"]

/-- The pieces of a menu. -/
def pieces (menu : Menu) : List Piece := menu.sections.flatMap (sectionPieces menu)

/-! ## 2. Texts -/

/-- The texts of an option: those of its attributes, and its title. -/
def optionTexts (menu : Menu) (choice : Choice) : List String :=
  (Members.overlaid (own choice) (bound menu choice)).map (·.2) ++ [choice.title]

/-- The texts of a section: those of its options, and before them the label of a group. -/
def sectionTexts (menu : Menu) : Section → List String
  | .single choice => optionTexts menu choice
  | .group label choices => label :: choices.flatMap (optionTexts menu)

variable {menu : Menu} {choice : Choice}

theorem filterMap_attributePieces (members : Members String) :
    (members.flatMap attributePieces).filterMap Piece.text? = members.map (·.2) := by
  rw [List.filterMap_flatMap, ← List.flatMap_pure_eq_map]
  rfl

theorem filterMap_optionPieces (menu : Menu) (choice : Choice) :
    (optionPieces menu choice).filterMap Piece.text? = optionTexts menu choice := by
  unfold optionPieces optionTexts
  rw [List.cons_append, List.filterMap_cons_none rfl, List.filterMap_append,
    filterMap_attributePieces]
  rfl

theorem filterMap_sectionPieces (menu : Menu) (part : Section) :
    (sectionPieces menu part).filterMap Piece.text? = sectionTexts menu part := by
  cases part with
  | single choice => exact filterMap_optionPieces menu choice
  | group label choices =>
    have hoptions : (choices.flatMap (optionPieces menu)).filterMap Piece.text?
        = choices.flatMap (optionTexts menu) := by
      rw [List.filterMap_flatMap]
      exact List.flatMap_congr fun choice _ => filterMap_optionPieces menu choice
    unfold sectionPieces sectionTexts
    rw [List.filterMap_append, List.filterMap_append, hoptions]
    exact List.append_nil _

/-! ## 3. Rendering -/

theorem chars_attributePieces (escape : Escaper) (member : String × String) :
    (attributePieces member).flatMap (Piece.chars escape) = attributeText escape member := by
  simp [attributePieces, attributeText, Piece.chars]

/-- The pieces of an option make its text. -/
theorem chars_optionPieces (escape : Escaper) (h : choice.attributes.names.Nodup) :
    (optionPieces menu choice).flatMap (Piece.chars escape)
      = optionText escape (optionElement menu choice) := by
  have hattributes : ((Members.overlaid (own choice) (bound menu choice)).flatMap
      attributePieces).flatMap (Piece.chars escape)
        = (attributes menu choice).flatMap (attributeText escape) := by
    rw [attributes_eq_overlaid h, List.flatMap_assoc]
    exact List.flatMap_congr fun member _ => chars_attributePieces escape member
  unfold optionPieces optionText optionElement
  rw [List.cons_append, List.flatMap_cons, List.flatMap_append, hattributes]
  simp [Piece.chars]

/-- The pieces of a section make the text of its element. -/
theorem chars_sectionPieces (escape : Escaper) {part : Section}
    (h : ∀ choice ∈ part.choices, choice.attributes.names.Nodup) :
    (sectionPieces menu part).flatMap (Piece.chars escape)
      = elementText escape (element menu part) := by
  cases part with
  | single choice => exact chars_optionPieces escape (h choice (List.mem_singleton_self _))
  | group label choices =>
    have hoptions : (choices.flatMap (optionPieces menu)).flatMap (Piece.chars escape)
        = (choices.map (optionElement menu)).flatMap (optionText escape) := by
      rw [List.flatMap_assoc, List.flatMap_map]
      exact List.flatMap_congr fun choice hchoice => chars_optionPieces escape (h choice hchoice)
    unfold sectionPieces element elementText
    rw [List.flatMap_append, List.flatMap_append, hoptions]
    simp [Piece.chars]

/-- **Rendering assembles pieces.** The markup of a menu is made of the same pieces with every
    escaper. The attributes of an option are its own that are kept, with the bound values in their
    places, and behind them the bound ones that are new: no name is there twice, each bound
    attribute is there, and to leave out the bound names leaves the own attributes without them.
    The texts that the escaper gets are the labels, the texts of the attributes and the titles, each
    once and in order. -/
theorem render_eq_assemble (menu : Menu) (hnames : menu.NamesDistinct) :
    (∀ escape, render escape menu = assemble escape (pieces menu)) ∧
      (∀ choice ∈ menu.choices,
        let shown := Members.overlaid (own choice) (bound menu choice)
        shown.names.Nodup ∧ (∀ m ∈ bound menu choice, m ∈ shown) ∧
          shown.filter (·.1 ∉ (bound menu choice).names)
            = (own choice).filter (·.1 ∉ (bound menu choice).names)) ∧
      (pieces menu).filterMap Piece.text? = menu.sections.flatMap (sectionTexts menu) := by
  refine ⟨fun escape => ?_, fun choice hchoice => ?_, ?_⟩
  · unfold render assemble elements pieces
    rw [List.flatMap_map, List.flatMap_assoc]
    refine congrArg String.ofList (List.flatMap_congr fun part hpart => ?_)
    refine (chars_sectionPieces escape fun choice hchoice => ?_).symm
    exact hnames choice (List.mem_flatMap.mpr ⟨part, hpart, hchoice⟩)
  · have hdistinct : choice.attributes.names.Nodup := hnames choice hchoice
    refine ⟨?_, fun m hm => ?_, ?_⟩
    · rw [← attributes_eq_overlaid hdistinct]
      exact nodup_names_attributes hdistinct
    · exact Members.mem_overlaid_of_mem (nodup_names_bound menu choice) hm
    · exact Members.filter_overlaid _ _
  · unfold pieces
    rw [List.filterMap_flatMap]
    exact List.flatMap_congr fun part _ => filterMap_sectionPieces menu part

/-- A choice with a value of its own, and with a name that cannot stand in markup. -/
def hint : Choice :=
  ⟨.text "v", "title", [("title", "hint"), ("value", "fake"), ("a b", "3"), ("data-x", "x")], none⟩

/-- It is selected, in a group. -/
def hinted : Menu := Menu.ofRows [⟨some "grp", hint⟩] ["v"]

theorem render_eq_assemble_hinted :
    (hinted.NamesDistinct ∧ hint ∈ hinted.choices) ∧
      render String.toUpper hinted
        = "<optgroup label=\"GRP\"><option title=\"HINT\" value=\"V\" data-x=\"X\"" ++
          " selected=\"SELECTED\">TITLE</option></optgroup>" ∧
      (Members.overlaid (own hint) (bound hinted hint)).filter (·.1 ∉ (bound hinted hint).names)
        = [("title", "hint"), ("data-x", "x")] ∧
      (pieces hinted).filterMap Piece.text? = ["grp", "hint", "v", "x", "selected", "title"] := by
  have hnames : hinted.NamesDistinct := by decide
  have hmem : hint ∈ hinted.choices := by decide
  obtain ⟨hrender, hattributes, htexts⟩ := render_eq_assemble hinted hnames
  obtain ⟨_, _, hothers⟩ := hattributes hint hmem
  rw [hrender, hothers, htexts]
  exact ⟨⟨hnames, hmem⟩, by decide +kernel, by decide +kernel, by decide +kernel⟩

end Picklist.Markup
