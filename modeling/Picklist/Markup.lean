import Picklist.Markup.Escape
import Picklist.Menu
import Picklist.Text.Blank

/-!
# Menus as markup

A menu is written as option elements, those of a group inside an optgroup element. The elements
are worked out first and written then:

* attribute names that could end the name are dropped;
* the attributes `value` and `selected` win over those of the choice and keep their places.
-/

namespace Picklist

namespace Markup

/-! ## 1. Elements -/

/-- An option element: its attributes in order, and its text. -/
structure OptionElement where
  attributes : Members String
  title : String
deriving DecidableEq, Inhabited

/-- A top element: an option, or a group of options with its label. -/
inductive Element where
  | single (option : OptionElement)
  | group (label : String) (options : List OptionElement)
deriving DecidableEq, Inhabited

/-- Whether a character could end the name of an attribute. -/
def endsName (c : Char) : Bool :=
  Text.isBlank c || Text.isControl c || ['"', '\'', '<', '>', '/', '='].contains c

/-- Whether a text can stand as the name of an attribute. -/
def isAttributeName (name : String) : Bool := name ≠ "" && !name.toList.any endsName

/-- The attributes of a choice: its own where their names are valid, its value, and the mark. -/
def attributes (menu : Menu) (choice : Choice) : Members String :=
  let own := choice.attributes.filter fun (name, _) => isAttributeName name
  let valued := Members.insert "value" choice.value.display own
  if menu.isSelected choice.value then Members.insert "selected" "selected" valued else valued

/-- The element of a choice. -/
def optionElement (menu : Menu) (choice : Choice) : OptionElement :=
  ⟨attributes menu choice, choice.title⟩

/-- The element of a section. -/
def element (menu : Menu) : Section → Element
  | .single choice => .single (optionElement menu choice)
  | .group label choices => .group label (choices.map (optionElement menu))

/-- The elements of a menu. -/
def elements (menu : Menu) : List Element := menu.sections.map (element menu)

/-! ## 2. Text -/

variable (escape : Escaper)

/-- An attribute with a blank before it. -/
def attributeText (member : String × String) : List Char :=
  ' ' :: member.1.toList ++ ['=', '"'] ++ (escape member.2).toList ++ ['"']

/-- The text of an option element. -/
def optionText (option : OptionElement) : List Char :=
  "<option".toList ++ option.attributes.flatMap (attributeText escape) ++ '>' ::
    (escape option.title).toList ++ "</option>".toList

/-- The text of an element. -/
def elementText : Element → List Char
  | .single option => optionText escape option
  | .group label options =>
    "<optgroup label=\"".toList ++ (escape label).toList ++ ['"', '>']
      ++ options.flatMap (optionText escape) ++ "</optgroup>".toList

/-- The markup of a menu with a way of escaping text. -/
def render (menu : Menu) : String :=
  String.ofList ((elements menu).flatMap (elementText escape))

end Markup

/-- The markup of a menu. -/
def Menu.markup (menu : Menu) : String := Markup.render Markup.escape menu

end Picklist
