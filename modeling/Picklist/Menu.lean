import Picklist.Choice
import Picklist.Text.Sorted

/-!
# Menus

A menu is a list of sections, each a single choice or a labelled group, and the set of texts that
are marked. Rows are placed one after the other:

* a group stands where its first row stood, and later rows of the label join it;
* a choice whose value repeats in its group, or outside all groups, takes the place of the
  earlier one.
-/

namespace Picklist

/-- A section of a menu. -/
inductive Section where
  | single (choice : Choice)
  | group (label : String) (choices : List Choice)
deriving DecidableEq, Inhabited

/-- Fill the first place that the test finds, or a new one at the end. -/
def place {α : Type} (isPlace : α → Bool) (fill : Option α → α) : List α → List α
  | [] => [fill none]
  | first :: rest =>
    if isPlace first then fill (some first) :: rest else first :: place isPlace fill rest

/-- Put a choice among the choices of a group. -/
def Choice.placeIn (choice : Choice) (choices : List Choice) : List Choice :=
  place (·.value.same choice.value) (fun _ => choice) choices

namespace Section

/-- Whether the section is a single choice with the value. -/
def isSingle (value : ChoiceValue) : Section → Bool
  | .single choice => choice.value.same value
  | .group _ _ => false

/-- Whether the section is the group with the label. -/
def isGroup (label : String) : Section → Bool
  | .single _ => false
  | .group held _ => held = label

/-- The choices of a section. -/
def choices : Section → List Choice
  | .single choice => [choice]
  | .group _ choices => choices

/-- The section as rows. -/
def rows : Section → List Row
  | .single choice => [⟨none, choice⟩]
  | .group label choices => choices.map fun choice => ⟨some label, choice⟩

end Section

/-- Put a row into the sections. -/
def Row.placeIn (row : Row) (sections : List Section) : List Section :=
  match row.group with
  | none => place (Section.isSingle row.choice.value) (fun _ => .single row.choice) sections
  | some label =>
    place (Section.isGroup label)
      (fun held => .group label (row.choice.placeIn (held.elim [] Section.choices))) sections

/-- Sections, and the set of texts that are marked. -/
structure Menu where
  sections : List Section
  selected : List String
deriving DecidableEq, Inhabited

namespace Menu

/-- The menu of rows. -/
def ofRows (rows : List Row) (selected : List String) : Menu where
  sections := rows.foldl (fun sections row => row.placeIn sections) []
  selected := Text.sortedSet selected

/-- Every choice, those of a group at the place of the group. -/
def choices (menu : Menu) : List Choice := menu.sections.flatMap Section.choices

/-- The rows that the menu shows, in order. -/
def rows (menu : Menu) : List Row := menu.sections.flatMap Section.rows

/-- Whether a value is marked: its text counts. -/
def isSelected (menu : Menu) (value : ChoiceValue) : Bool := menu.selected.contains value.display

/-- The menu that a request makes of data. -/
def build (request : Request) (localizer : Localizer) (data : Entries) :
    Except SelectionError Menu :=
  (request.rows localizer data).map (ofRows · request.selected)

end Menu

end Picklist
