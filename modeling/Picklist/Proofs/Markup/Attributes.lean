import Mathlib.Data.Set.Function
import Picklist.Proofs.Markup.Reading

/-!
# The attributes of an option

An option element has the attributes of its choice whose names can stand in markup. Over these the
menu lays those that it binds itself: the value, and the mark of a selected choice. Names are told
apart by their spelling, so an attribute of the choice yields to a bound one of the same name, and
to no other.

* `IsName`: the names that can stand in markup;
* `own`, `bound`: the attributes of a choice that are kept, and those that the menu binds;
* `attributes_eq_overlaid`: the attributes of an option are the bound ones laid over its own;
* `marked_iff_selected_or_own`: which options have an attribute `selected`;
* `value_overrides_by_spelling`: which attribute is read as the value, and which names are there
  twice if their case does not count.
-/

namespace Picklist

/-- In no choice do two attributes have the same name. Members are such: to insert one under a name
    that is there replaces it. -/
def Menu.NamesDistinct (menu : Menu) : Prop :=
  ∀ choice ∈ menu.choices, choice.attributes.names.Nodup

instance (menu : Menu) : Decidable menu.NamesDistinct :=
  inferInstanceAs (Decidable (∀ choice ∈ menu.choices, choice.attributes.names.Nodup))

namespace Markup

/-! ## 1. The options of elements -/

/-- The option elements in an element, in order. -/
def Element.options : Element → List OptionElement
  | .single option => [option]
  | .group _ options => options

/-- The elements of a menu hold one option for each of its choices. -/
theorem options_elements (menu : Menu) :
    (elements menu).flatMap Element.options = menu.choices.map (optionElement menu) := by
  unfold elements Menu.choices
  rw [List.flatMap_map, List.map_flatMap]
  refine List.flatMap_congr fun held _ => ?_
  cases held <;> rfl

theorem options_mapTexts (f : String → String) (elements : List Element) :
    (elements.map (·.mapTexts f)).flatMap Element.options
      = (elements.flatMap Element.options).map (·.mapTexts f) := by
  rw [List.flatMap_map, List.map_flatMap]
  refine List.flatMap_congr fun element _ => ?_
  cases element <;> rfl

/-! ## 2. Own attributes and bound ones -/

/-- A name that can stand in markup: it is not empty, and holds no white space, no control
    character, no quote, no angle bracket, no slash and no equals sign. -/
def IsName (name : String) : Prop :=
  name ≠ "" ∧ ∀ c ∈ name.toList, Text.isBlank c = false ∧ Text.isControl c = false ∧
    c ∉ ['"', '\'', '<', '>', '/', '=']

theorem isAttributeName_iff {name : String} : isAttributeName name = true ↔ IsName name := by
  unfold isAttributeName IsName
  rw [Bool.and_eq_true, decide_eq_true_iff, Bool.not_eq_true', List.any_eq_false]
  refine and_congr_right fun _ => forall₂_congr fun c _ => ?_
  unfold endsName
  rw [Bool.not_eq_true, Bool.or_eq_false_iff, Bool.or_eq_false_iff, and_assoc,
    List.contains_eq_mem, decide_eq_false_iff_not]

instance : DecidablePred IsName := fun _ => decidable_of_iff _ isAttributeName_iff

/-- The attributes of a choice that are kept: those whose names can stand in markup. -/
def own (choice : Choice) : Members String := choice.attributes.filter (IsName ·.1)

/-- The attributes that the menu binds: the value, and the mark of a selected choice. -/
def bound (menu : Menu) (choice : Choice) : Members String :=
  ("value", choice.value.display) ::
    if choice.value.display ∈ menu.selected then [("selected", "selected")] else []

variable {menu : Menu} {choice : Choice} {name : String}

theorem isSelected_iff {value : ChoiceValue} :
    menu.isSelected value = true ↔ value.display ∈ menu.selected :=
  List.contains_iff_mem

theorem attributes_eq_foldl (menu : Menu) (choice : Choice) :
    attributes menu choice
      = (bound menu choice).foldl (fun members m => Members.insert m.1 m.2 members)
          (own choice) := by
  have hown : own choice = choice.attributes.filter fun m => isAttributeName m.1 := by
    refine List.filter_congr fun m _ => ?_
    rw [Bool.eq_iff_iff, decide_eq_true_iff, isAttributeName_iff]
  unfold attributes bound
  rw [hown]
  by_cases h : choice.value.display ∈ menu.selected
  · simp only [isSelected_iff.mpr h, h, if_true]
    rfl
  · simp only [Bool.eq_false_iff.mpr fun e => h (isSelected_iff.mp e), h, if_false]
    rfl

theorem mem_names_own :
    name ∈ (own choice).names ↔ name ∈ choice.attributes.names ∧ IsName name := by
  unfold own Members.names
  simp only [List.mem_map, List.mem_filter, decide_eq_true_eq]
  constructor
  · intro h
    obtain ⟨m, ⟨hm, hname⟩, rfl⟩ := h
    exact ⟨⟨m, hm, rfl⟩, hname⟩
  · intro h
    obtain ⟨⟨m, hm, rfl⟩, hname⟩ := h
    exact ⟨m, ⟨hm, hname⟩, rfl⟩

theorem mem_names_bound :
    name ∈ (bound menu choice).names ↔
      name = "value" ∨ name = "selected" ∧ choice.value.display ∈ menu.selected := by
  unfold bound Members.names
  split <;> simp_all

/-- The names of an option are those that are kept and those that are bound. -/
theorem mem_names_attributes :
    name ∈ (attributes menu choice).names ↔
      name ∈ (own choice).names ∨ name ∈ (bound menu choice).names := by
  rw [attributes_eq_foldl, Members.mem_names_foldl_insert]

/-- **The mark may be a choice's own.** The elements of a menu are what is read from its markup.
    They hold one option for each choice, and this has an attribute `selected` exactly where the
    text of the value is selected or the choice brings an attribute of that name. -/
theorem marked_iff_selected_or_own (menu : Menu) :
    read? menu.markup = some (elements menu) ∧
      (∀ value, menu.isSelected value = true ↔ value.display ∈ menu.selected) ∧
      List.Forall₂ (fun choice option => "selected" ∈ option.attributes.names ↔
        menu.isSelected choice.value = true ∨ "selected" ∈ choice.attributes.names)
        menu.choices ((elements menu).flatMap Element.options) := by
  refine ⟨read?_markup menu, fun _ => isSelected_iff, ?_⟩
  rw [options_elements, List.forall₂_map_right_iff, List.forall₂_same]
  intro choice _
  have hname : IsName "selected" := isAttributeName_iff.mp (by decide)
  have hmem : "selected" ∈ (optionElement menu choice).attributes.names ↔
      "selected" ∈ (own choice).names ∨ "selected" ∈ (bound menu choice).names :=
    mem_names_attributes
  rw [hmem, mem_names_own, mem_names_bound, isSelected_iff, or_comm]
  simp [hname]

/-- A choice that brings a mark of its own. -/
def premarked : Menu :=
  Menu.ofRows [⟨none, ⟨.text "b", "Beta", [("selected", "no")], none⟩⟩] ["a"]

/-- It is marked, though another value is selected. -/
theorem marked_without_selection :
    read? premarked.markup
        = some [.single ⟨[("selected", "no"), ("value", "b")], "Beta"⟩] ∧
      premarked.isSelected (.text "b") = false ∧
      "selected" ∈ Members.names [("selected", "no"), ("value", "b")] := by
  rw [read?_markup]
  decide

/-! ## 3. Names up to their case -/

theorem nodup_names_own (h : choice.attributes.names.Nodup) : (own choice).names.Nodup :=
  h.sublist (List.filter_sublist.map _)

theorem nodup_names_bound (menu : Menu) (choice : Choice) : (bound menu choice).names.Nodup := by
  unfold bound Members.names
  split <;> simp

/-- **The attributes of an option** are the bound ones laid over its own. -/
theorem attributes_eq_overlaid (h : choice.attributes.names.Nodup) :
    attributes menu choice = Members.overlaid (own choice) (bound menu choice) := by
  rw [attributes_eq_foldl]
  exact Members.foldl_insert_eq_overlaid (nodup_names_own h) (nodup_names_bound menu choice)

theorem nodup_names_attributes (h : choice.attributes.names.Nodup) :
    (attributes menu choice).names.Nodup := by
  rw [attributes_eq_foldl]
  exact Members.nodup_names_foldl_insert (nodup_names_own h) _

/-- **The value attribute is the text of the value**, whatever the attributes of the choice. -/
theorem lookup_value_attributes (menu : Menu) (choice : Choice) :
    (attributes menu choice).lookup "value" = some choice.value.display := by
  unfold attributes
  simp only
  split
  · rw [Members.lookup_insert_of_ne _ _ (by decide), Members.lookup_insert_self]
  · rw [Members.lookup_insert_self]

/-- The bound value is the first attribute that is named `value` up to case, unless another
    spelling comes first among the choice's own. -/
theorem find?_value_attributes (menu : Menu) (h : choice.attributes.names.Nodup) :
    (attributes menu choice).find? (·.1.toLower = "value") = some ("value", choice.value.display) ↔
      ∀ m, (own choice).find? (·.1.toLower = "value") = some m → m.1 = "value" := by
  have hlower : "value".toLower = "value" := by decide +kernel
  have hlookup : (bound menu choice).lookup "value" = some choice.value.display := by
    simp [bound]
  -- laying values over them changes no name
  have hmapped : (own choice).find? ((fun m : String × String => decide (m.1.toLower = "value")) ∘
      fun m => (m.1, ((bound menu choice).lookup m.1).getD m.2))
        = (own choice).find? (·.1.toLower = "value") := rfl
  rw [attributes_eq_overlaid h, Members.overlaid, List.find?_append, List.find?_map, hmapped]
  cases hfind : (own choice).find? (·.1.toLower = "value") with
  | some m =>
    rw [Option.map_some, Option.some_or, Option.some.injEq, Prod.mk.injEq]
    constructor
    · intro hbound other hother
      cases hother
      exact hbound.1
    · intro hfirst
      rw [hfirst m rfl, hlookup]
      exact ⟨rfl, rfl⟩
  | none =>
    have hnew : "value" ∉ (own choice).names := by
      intro hmem
      obtain ⟨m, hm, hname⟩ := List.mem_map.mp hmem
      have hother := List.find?_eq_none.mp hfind m hm
      rw [hname, hlower] at hother
      exact hother (decide_eq_true rfl)
    rw [Option.map_none, Option.none_or, bound, List.filter_cons_of_pos (by simpa using hnew),
      List.find?_cons_of_pos (by simp [hlower])]
    refine iff_of_true rfl fun m hm => ?_
    cases hm

/-- No two names of an option are equal up to case when no two of those that are kept and those
    that are bound are. -/
theorem nodup_lower_names_attributes (h : choice.attributes.names.Nodup) :
    ((attributes menu choice).names.map String.toLower).Nodup ↔
      Set.InjOn String.toLower
        {name | name ∈ (own choice).names ∨ name ∈ (bound menu choice).names} := by
  rw [List.nodup_map_iff_inj_on (nodup_names_attributes h)]
  simp only [mem_names_attributes]
  exact Iff.rfl

/-- **The bound value overrides by spelling.** Let the markup of a menu be read as it is written.
    Each option has each name once, and its attribute `value` holds the escaped text of the value.
    This is also the first one that is named so up to the case of the letters from A to Z exactly
    when the first such attribute of the choice itself, if there is any, is spelled `value`. All
    names of an option differ up to case exactly when the names that are kept and those that are
    bound do. -/
theorem value_overrides_by_spelling (menu : Menu) (hnames : menu.NamesDistinct) :
    ∃ written, readDocument? menu.markup = some written ∧
      List.Forall₂ (fun choice option =>
        option.attributes.names.Nodup ∧
        option.attributes.lookup "value" = some (escape choice.value.display) ∧
        (option.attributes.find? (·.1.toLower = "value")
            = some ("value", escape choice.value.display) ↔
          ∀ m, (own choice).find? (·.1.toLower = "value") = some m → m.1 = "value") ∧
        ((option.attributes.names.map String.toLower).Nodup ↔
          Set.InjOn String.toLower
            {name | name ∈ (own choice).names ∨ name ∈ (bound menu choice).names}))
        menu.choices (written.flatMap Element.options) := by
  refine ⟨_, readDocument?_eq_some_iff.mpr (isDocument_markup menu), ?_⟩
  rw [options_mapTexts, options_elements, List.map_map, List.forall₂_map_right_iff,
    List.forall₂_same]
  intro choice hchoice
  have hdistinct : choice.attributes.names.Nodup := hnames choice hchoice
  -- to escape the texts leaves the names, and tells all texts apart
  have hsame : Members.names ((attributes menu choice).map fun m => (m.1, escape m.2))
      = (attributes menu choice).names := List.map_map ..
  have hescape : Function.Injective fun m : String × String => (m.1, escape m.2) :=
    Function.injective_id.prodMap (Function.LeftInverse.injective unescape_escape)
  rw [Function.comp_apply, OptionElement.mapTexts, optionElement, hsame]
  refine ⟨nodup_names_attributes hdistinct, ?_, ?_, nodup_lower_names_attributes hdistinct⟩
  · rw [Members.lookup_map (fun _ => escape), lookup_value_attributes, Option.map_some]
  · rw [← find?_value_attributes menu hdistinct, List.find?_map]
    exact (Option.map_injective hescape).eq_iff (b := some ("value", choice.value.display))

/-- A selected choice with a value attribute of its own. -/
def pretender : Choice := ⟨.text "a<b", "Title", [("class", "c"), ("value", "fake")], none⟩

theorem value_overrides_by_spelling_pretender :
    (Menu.ofRows [⟨none, pretender⟩] ["a<b"]).NamesDistinct ∧
      (∀ m, (own pretender).find? (·.1.toLower = "value") = some m → m.1 = "value") ∧
      ∃ written option, readDocument? (Menu.ofRows [⟨none, pretender⟩] ["a<b"]).markup
          = some written ∧ written.flatMap Element.options = [option] ∧
        option.attributes.find? (·.1.toLower = "value") = some ("value", "a&lt;b") := by
  have hnames : (Menu.ofRows [⟨none, pretender⟩] ["a<b"]).NamesDistinct := by decide
  have hfirst : ∀ m, (own pretender).find? (·.1.toLower = "value") = some m → m.1 = "value" := by
    have hown : (own pretender).find? (·.1.toLower = "value") = some ("value", "fake") := by
      decide +kernel
    intro m hm
    rw [hown] at hm
    cases hm
    rfl
  obtain ⟨written, hread, hoptions⟩ := value_overrides_by_spelling _ hnames
  obtain ⟨option, rest, ⟨_, _, hvalue, _⟩, hrest, hwritten⟩ :=
    List.forall₂_cons_left_iff.mp hoptions
  cases hrest
  have hescaped : escape pretender.value.display = "a&lt;b" := by decide +kernel
  exact ⟨hnames, hfirst, written, option, hread, hwritten, hescaped ▸ hvalue.mpr hfirst⟩

/-- A choice with a value attribute under another spelling. -/
def shouter : Choice := ⟨.text "real", "Title", [("VALUE", "fake")], none⟩

/-- The other spelling comes first, so the bound value is not the one that is read, and one name is
    there twice up to case. -/
theorem other_spelling_comes_first :
    ∃ option : OptionElement,
      readDocument? (Menu.ofRows [⟨none, shouter⟩] []).markup = some [.single option] ∧
      option.attributes.find? (·.1.toLower = "value") = some ("VALUE", "fake") ∧
      "fake" ≠ escape shouter.value.display ∧
      ¬ (option.attributes.names.map String.toLower).Nodup := by
  have helements : (elements (Menu.ofRows [⟨none, shouter⟩] [])).map (·.mapTexts escape)
      = [.single ⟨[("VALUE", "fake"), ("value", "real")], "Title"⟩] := by
    decide +kernel
  have hread := readDocument?_eq_some_iff.mpr (isDocument_markup (Menu.ofRows [⟨none, shouter⟩] []))
  have hescaped : escape shouter.value.display = "real" := by decide +kernel
  have hlower : "VALUE".toLower = "value" ∧ "value".toLower = "value" := by decide +kernel
  rw [helements] at hread
  refine ⟨_, hread, List.find?_cons_of_pos (decide_eq_true hlower.1), ?_, ?_⟩
  · rw [hescaped]
    decide
  · simp [Members.names, hlower]

end Markup

end Picklist
