import Picklist.Proofs.Markup.Grammar
import Picklist.Proofs.Members

/-!
# Reading markup back

The markup of a menu is a text of the grammar that stands for its elements with their texts
escaped. Undoing the entities gives the elements, whatever the labels, titles, names and values of
the menu hold.

* `IsValid`: the names of attributes are valid, which the elements of a menu see to;
* `isElement_elementText`: the text of a valid element stands for its escaped form;
* `read?_markup`: so the markup of a menu is read back as its elements.
-/

namespace Picklist.Markup

open Reader

/-! ## 1. Elements with other texts -/

/-- An option element with its texts changed. The names of its attributes stay. -/
def OptionElement.mapTexts (f : String → String) (option : OptionElement) : OptionElement :=
  ⟨option.attributes.map fun member => (member.1, f member.2), f option.title⟩

/-- An element with its texts changed. -/
def Element.mapTexts (f : String → String) : Element → Element
  | .single option => .single (option.mapTexts f)
  | .group label options => .group (f label) (options.map (·.mapTexts f))

/-- The elements of a text of markup, entities undone. -/
def read? (text : String) : Option (List Element) :=
  (readDocument? text).map fun elements => elements.map (·.mapTexts unescape)

variable {f g : String → String}

theorem OptionElement.mapTexts_mapTexts (h : ∀ text, g (f text) = text) (option : OptionElement) :
    (option.mapTexts f).mapTexts g = option := by
  obtain ⟨attributes, title⟩ := option
  have hmembers : (attributes.map fun member => (member.1, f member.2)).map
      (fun member => (member.1, g member.2)) = attributes := by
    rw [List.map_map]
    exact List.map_id'' (fun member => by simp only [Function.comp_apply, h]) attributes
  unfold mapTexts
  rw [hmembers, h]

theorem Element.mapTexts_mapTexts (h : ∀ text, g (f text) = text) (element : Element) :
    (element.mapTexts f).mapTexts g = element := by
  cases element with
  | single option => rw [mapTexts, mapTexts, OptionElement.mapTexts_mapTexts h]
  | group label options =>
    have hoptions : (options.map (·.mapTexts f)).map (·.mapTexts g) = options := by
      rw [List.map_map]
      exact List.map_id'' (OptionElement.mapTexts_mapTexts h) options
    rw [mapTexts, mapTexts, hoptions, h]

/-! ## 2. Valid names -/

/-- The names of the attributes of an option element are valid. -/
def OptionElement.IsValid (option : OptionElement) : Prop :=
  ∀ name ∈ option.attributes.names, isAttributeName name = true

/-- The names of all attributes in an element are valid. -/
def Element.IsValid : Element → Prop
  | .single option => option.IsValid
  | .group _ options => ∀ option ∈ options, option.IsValid

/-- A valid name may be put among valid names. -/
theorem isAttributeName_insert {members : Members String} {name : String} (value : String)
    (h : ∀ n ∈ members.names, isAttributeName n = true) (hname : isAttributeName name = true) :
    ∀ n ∈ (Members.insert name value members).names, isAttributeName n = true := by
  intro n hn
  rcases Members.mem_names_insert.mp hn with rfl | hn
  · exact hname
  · exact h n hn

/-- The element of a choice is valid, as invalid names are left out. -/
theorem isValid_optionElement (menu : Menu) (choice : Choice) :
    (optionElement menu choice).IsValid := by
  have hown : ∀ n ∈ Members.names
      (choice.attributes.filter fun member => isAttributeName member.1),
      isAttributeName n = true := by
    intro n hn
    obtain ⟨member, hmember, rfl⟩ := List.mem_map.mp hn
    exact (List.mem_filter.mp hmember).2
  have hvalued := isAttributeName_insert choice.value.display hown
    (show isAttributeName "value" = true by decide)
  intro n hn
  simp only [optionElement, attributes] at hn
  split at hn
  · exact isAttributeName_insert "selected" hvalued (by decide) n hn
  · exact hvalued n hn

theorem isValid_element (menu : Menu) (part : Section) : (element menu part).IsValid := by
  cases part with
  | single choice => exact isValid_optionElement menu choice
  | group label choices =>
    intro option hoption
    obtain ⟨choice, _, rfl⟩ := List.mem_map.mp hoption
    exact isValid_optionElement menu choice

/-! ## 3. What is written is of the grammar -/

theorem isText_escape (text : String) : IsText (escape text).toList :=
  fun _ h => isTextChar_of_mem_escape h

/-- A written attribute stands for its name and its escaped value. -/
theorem isAttribute_attributeText {member : String × String}
    (h : isAttributeName member.1 = true) :
    IsAttribute (attributeText escape member) (member.1, escape member.2) := by
  have hname : isAttributeName (String.ofList member.1.toList) = true := by
    rw [String.ofList_toList]
    exact h
  simpa [attributeText] using IsAttribute.mk hname (isText_escape member.2)

/-- A written option stands for its escaped form. -/
theorem isOption_optionText {option : OptionElement} (h : option.IsValid) :
    IsOption (optionText escape option) (option.mapTexts escape) := by
  have hattributes : Many IsAttribute (option.attributes.flatMap (attributeText escape))
      (option.attributes.map fun member => (member.1, escape member.2)) :=
    many_flatMap fun member hmember => isAttribute_attributeText
      (h member.1 (List.mem_map.mpr ⟨member, hmember, rfl⟩))
  have hwritten : optionText escape option =
      "<option".toList ++ option.attributes.flatMap (attributeText escape) ++ ">".toList ++
        (escape option.title).toList ++ "</option>".toList := by
    have hclose : ">".toList = ['>'] := by simp
    unfold optionText
    simp only [hclose, List.append_assoc, List.cons_append, List.nil_append]
  have htitle : option.mapTexts escape = ⟨option.attributes.map fun member =>
      (member.1, escape member.2), String.ofList (escape option.title).toList⟩ := by
    rw [String.ofList_toList, OptionElement.mapTexts]
  rw [hwritten, htitle]
  exact .mk hattributes (isText_escape option.title)

/-- A written element stands for its escaped form. -/
theorem isElement_elementText {element : Element} (h : element.IsValid) :
    IsElement (elementText escape element) (element.mapTexts escape) := by
  cases element with
  | single option => exact .single (isOption_optionText h)
  | group label options =>
    have hoptions : Many IsOption (options.flatMap (optionText escape))
        (options.map (·.mapTexts escape)) :=
      many_flatMap fun option hoption => isOption_optionText (h option hoption)
    have hlabel : (Element.group label options).mapTexts escape =
        .group (String.ofList (escape label).toList) (options.map (·.mapTexts escape)) := by
      rw [String.ofList_toList, Element.mapTexts]
    rw [hlabel]
    exact .group (isText_escape label) hoptions

/-- **Markup is of the grammar.** It stands for the elements of the menu with their texts
    escaped. -/
theorem isDocument_markup (menu : Menu) :
    IsDocument menu.markup.toList ((elements menu).map (·.mapTexts escape)) := by
  have hmarkup : menu.markup.toList = (elements menu).flatMap (elementText escape) := by
    unfold Menu.markup render
    rw [String.toList_ofList]
  rw [hmarkup]
  refine many_flatMap fun e he => isElement_elementText ?_
  obtain ⟨part, _, rfl⟩ := List.mem_map.mp he
  exact isValid_element menu part

/-- **The markup of a menu is read back** as its elements. -/
theorem read?_markup (menu : Menu) : read? menu.markup = some (elements menu) := by
  unfold read?
  rw [readDocument?_eq_some_iff.mpr (isDocument_markup menu), Option.map_some, List.map_map]
  exact congrArg some (List.map_id'' (Element.mapTexts_mapTexts unescape_escape) (elements menu))

end Picklist.Markup
