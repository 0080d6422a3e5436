import Mathlib.Data.Set.Function
import Picklist.Proofs.Menu.Placing
import Picklist.Proofs.Outcome

/-!
# Menus in another language

What a request includes, and why it fails, has nothing to do with the language of its readers: the
localizer is applied to titles and labels only. Rows are placed by labels that are localized
already, so the menu keeps its structure where no two labels become one.

* `Row.localized`, `Section.localized`: titles and labels replaced, nothing else;
* `Request.rows_eq_map_localized`: the rows of a request are those without a localizer, localized,
  and so are its failures;
* `Row.placeIn_localized`: a localized row is placed into localized sections as before, if no other
  label becomes its own;
* `Menu.sections_ofRows_localized`: the same for all rows;
* `Menu.localizer_only_relabels`: both for the menu of a request.
-/

namespace Picklist

variable (localizer : Localizer)

/-! ## 1. Localized choices -/

/-- The choice with its title and its label localized. -/
def Choice.localized (choice : Choice) : Choice :=
  { choice with title := localizer choice.title, optgroup := choice.optgroup.map localizer }

/-- The row with its label and its choice localized. -/
def Row.localized (row : Row) : Row :=
  ⟨row.group.map localizer, row.choice.localized localizer⟩

/-- The section with its label and its choices localized. -/
def Section.localized : Section → Section
  | .single choice => .single (choice.localized localizer)
  | .group label choices => .group (localizer label) (choices.map (Choice.localized localizer))

/-! ## 2. Rows -/

namespace Request

variable (request : Request)

theorem row_eq_map_localized (entry : Entry) (value : ChoiceValue) :
    request.row localizer entry value
      = (request.row id entry value).map (Row.localized localizer) := by
  unfold Request.row
  cases entry.title request.mapping with
  | error e => rfl
  | ok title =>
    have hlabel : (entry.group? request.mapping).map localizer
        = ((entry.group? request.mapping).map id).map localizer := by
      rw [Option.map_id, id]
    simp only [bind, Except.bind, pure, Except.pure, Except.map, Row.localized, Choice.localized,
      id, hlabel]

/-- Whether an entry counts is settled before anything is localized. -/
theorem row?_eq_map_localized (key : String) (entry : Entry) :
    request.row? localizer key entry
      = (request.row? id key entry).map (Option.map (Row.localized localizer)) := by
  unfold Request.row?
  cases entry.choiceValue key request.mapping with
  | error e => rfl
  | ok value =>
    simp only [bind, Except.bind]
    split
    · rw [row_eq_map_localized]
      cases request.row id entry value <;> rfl
    · rfl

theorem rowsOf_eq_map_localized (entries : Entries) :
    request.rowsOf localizer entries
      = (request.rowsOf id entries).map (List.map (Row.localized localizer)) := by
  induction entries with
  | nil => rfl
  | cons keyed rest ih =>
    obtain ⟨key, entry⟩ := keyed
    simp only [rowsOf, row?_eq_map_localized localizer request, ih]
    cases request.row? id key entry with
    | error e => rfl
    | ok outcome =>
      cases request.rowsOf id rest with
      | error e => rfl
      | ok more => cases outcome <;> rfl

/-- **The rows of a request are localized last.** -/
theorem rows_eq_map_localized (data : Entries) :
    request.rows localizer data
      = (request.rows id data).map (List.map (Row.localized localizer)) := by
  have hfront := rowsOf_eq_map_localized localizer request.front request.prepends
  have hdata := rowsOf_eq_map_localized localizer request data
  unfold rows
  rw [hfront, hdata]
  cases request.front.rowsOf id request.prepends with
  | error e => rfl
  | ok before =>
    cases request.rowsOf id data with
    | error e => rfl
    | ok after =>
      simp only [bind, Except.bind, pure, Except.pure, Except.map, List.map_append]

end Request

/-! ## 3. Placing localized rows -/

variable {localizer}

/-- Values decide the place of a choice, and they are not localized. -/
theorem Choice.placeIn_localized (choice : Choice) (choices : List Choice) :
    (choice.localized localizer).placeIn (choices.map (Choice.localized localizer))
      = (choice.placeIn choices).map (Choice.localized localizer) :=
  place_map (fun _ _ => rfl) (fun _ _ _ => rfl) rfl

/-- **A localized row is placed as before**, if no label of the sections becomes its own without
    being it. -/
theorem Row.placeIn_localized {row : Row} {sections : List Section}
    (hlabel : ∀ held ∈ Section.labels sections, ∀ label, row.group = some label →
      localizer held = localizer label → held = label) :
    (row.localized localizer).placeIn (sections.map (Section.localized localizer))
      = (row.placeIn sections).map (Section.localized localizer) := by
  unfold Row.placeIn
  cases hg : row.group with
  | none =>
    have hlocalized : (row.localized localizer).group = none := by simp [Row.localized, hg]
    rw [hlocalized]
    exact place_map (fun held _ => by cases held <;> rfl) (fun _ _ _ => rfl) rfl
  | some label =>
    have hlocalized : (row.localized localizer).group = some (localizer label) := by
      simp [Row.localized, hg]
    rw [hlocalized]
    refine place_map (fun held hmem => ?_) (fun held _ hplace => ?_) rfl
    · cases held with
      | single choice => rfl
      | group other choices =>
        have hother : other ∈ Section.labels sections := List.mem_filterMap.mpr ⟨_, hmem, rfl⟩
        exact decide_eq_decide.mpr ⟨hlabel other hother label hg, congrArg localizer⟩
    · cases held with
      | single choice => cases hplace
      | group other choices =>
        exact congrArg (Section.group _) (Choice.placeIn_localized row.choice choices)

/-- **Localized rows are placed as before**, if no two of the labels that occur become one. -/
theorem foldl_placeIn_localized {labels : Set String} (hinj : Set.InjOn localizer labels)
    {rows : List Row} (hrows : ∀ row ∈ rows, ∀ label, row.group = some label → label ∈ labels)
    {sections : List Section} (hsections : ∀ label ∈ Section.labels sections, label ∈ labels) :
    (rows.map (Row.localized localizer)).foldl (fun sections row => row.placeIn sections)
        (sections.map (Section.localized localizer))
      = (rows.foldl (fun sections row => row.placeIn sections) sections).map
          (Section.localized localizer) := by
  induction rows generalizing sections with
  | nil => rfl
  | cons row rest ih =>
    rw [List.forall_mem_cons] at hrows
    obtain ⟨hrow, hrest⟩ := hrows
    have hplaced : (row.localized localizer).placeIn (sections.map (Section.localized localizer))
        = (row.placeIn sections).map (Section.localized localizer) :=
      Row.placeIn_localized fun held hheld label hg =>
        hinj (hsections held hheld) (hrow label hg)
    -- placing the row brings in no label but its own
    have hnext : ∀ label ∈ Section.labels (row.placeIn sections), label ∈ labels := by
      intro label hmem
      rcases Section.mem_labels_placeIn hmem with hheld | hg
      · exact hsections label hheld
      · exact hrow label hg
    rw [List.map_cons, List.foldl_cons, List.foldl_cons, hplaced]
    exact ih hrest hnext

/-! ## 4. Menus -/

namespace Menu

theorem sections_ofRows_localized {rows : List Row} (selected : List String)
    (hinj : Set.InjOn localizer {label | ∃ row ∈ rows, row.group = some label}) :
    (ofRows (rows.map (Row.localized localizer)) selected).sections
      = (ofRows rows selected).sections.map (Section.localized localizer) := by
  have hnone : ∀ label ∈ Section.labels [],
      label ∈ {label | ∃ row ∈ rows, row.group = some label} :=
    fun _ hmem => absurd hmem List.not_mem_nil
  exact foldl_placeIn_localized hinj (fun row hmem label hg => ⟨row, hmem, hg⟩) hnone

-- The labels must stay apart: two that become one make one group.
example : (ofRows ([⟨some "Stone", ⟨.text "plum", "Plum", [], some "Stone"⟩⟩,
    ⟨some "Soft", ⟨.text "fig", "Fig", [], some "Soft"⟩⟩].map (Row.localized fun _ => "Fruit"))
      []).sections.length = 1 := by decide

/-- **A localizer only relabels.** A request fails under a localizer exactly as it fails without
    one, and otherwise has the same rows with their titles and labels localized. Where no two labels
    of these rows become one, its menu is the same with the titles and labels of its sections
    localized. -/
theorem localizer_only_relabels (request : Request) (localizer : Localizer) (data : Entries) :
    (∀ e, request.rows localizer data = .error e ↔ request.rows id data = .error e) ∧
      (∀ rows, request.rows localizer data = .ok rows ↔
        ∃ plain, request.rows id data = .ok plain ∧ plain.map (Row.localized localizer) = rows) ∧
      ∀ plain menu, request.rows id data = .ok plain →
        Set.InjOn localizer {label | ∃ row ∈ plain, row.group = some label} →
        build request id data = .ok menu →
        build request localizer data
          = .ok { menu with sections := menu.sections.map (Section.localized localizer) } := by
  have hrows := Request.rows_eq_map_localized localizer request data
  refine ⟨fun e => ?_, fun rows => ?_, fun plain menu hplain hinj hmenu => ?_⟩
  · rw [hrows]
    cases request.rows id data <;> simp [Except.map]
  · rw [hrows, map_eq_ok_iff]
  · unfold build at hmenu ⊢
    rw [hplain] at hmenu
    cases hmenu
    rw [hrows, hplain]
    have hsections := sections_ofRows_localized request.selected hinj
    exact congrArg Except.ok (congrArg (Menu.mk · _) hsections)

/-- The menu of two groups, in German. -/
theorem localizer_only_relabels_fruit :
    Set.InjOn (Catalog.ofPairs [("Plum", "Pflaume"), ("Stone", "Steinobst")]).localize
        {label | ∃ row ∈ ([⟨some "Stone", ⟨.text "plum", "Plum", [], some "Stone"⟩⟩,
          ⟨some "Soft", ⟨.text "fig", "Fig", [], some "Soft"⟩⟩] : List Row),
            row.group = some label} ∧
      build (.ofMapping .standard)
          (Catalog.ofPairs [("Plum", "Pflaume"), ("Stone", "Steinobst")]).localize
          [("plum", .record [("title", .string "Plum"), ("optgroup", .string "Stone")]),
            ("fig", .record [("title", .string "Fig"), ("optgroup", .string "Soft")])]
        = .ok ⟨[.group "Steinobst" [⟨.text "plum", "Pflaume", [], some "Steinobst"⟩],
            .group "Soft" [⟨.text "fig", "Fig", [], some "Soft"⟩]], []⟩ := by
  have hinj : Set.InjOn (Catalog.ofPairs [("Plum", "Pflaume"), ("Stone", "Steinobst")]).localize
      {label | ∃ row ∈ ([⟨some "Stone", ⟨.text "plum", "Plum", [], some "Stone"⟩⟩,
        ⟨some "Soft", ⟨.text "fig", "Fig", [], some "Soft"⟩⟩] : List Row),
          row.group = some label} := by
    have hlabels : ∀ label, (∃ row ∈ ([⟨some "Stone", ⟨.text "plum", "Plum", [], some "Stone"⟩⟩,
        ⟨some "Soft", ⟨.text "fig", "Fig", [], some "Soft"⟩⟩] : List Row),
          row.group = some label) → label = "Stone" ∨ label = "Soft" := by
      simp [eq_comm]
    intro first hfirst second hsecond
    rcases hlabels first hfirst with rfl | rfl <;>
      rcases hlabels second hsecond with rfl | rfl <;> decide
  refine ⟨hinj, ?_⟩
  exact (localizer_only_relabels (.ofMapping .standard) _
    [("plum", .record [("title", .string "Plum"), ("optgroup", .string "Stone")]),
      ("fig", .record [("title", .string "Fig"), ("optgroup", .string "Soft")])]).2.2
    _ ⟨[.group "Stone" [⟨.text "plum", "Plum", [], some "Stone"⟩],
      .group "Soft" [⟨.text "fig", "Fig", [], some "Soft"⟩]], []⟩ rfl hinj rfl

end Menu

end Picklist
