import Mathlib.Data.List.Perm.Basic
import Std.Data.String.ToNat
import Picklist.Proofs.Choice.Keyed
import Picklist.Proofs.Menu.Reference

/-!
# Menus of distinct values

A choice takes the place of another only where the two have the same value and the same scope. Rows
whose values are distinct in each scope are therefore all there in their menu. The entries of a
structure are keyed by distinct keys, and where these are submitted the values are distinct.

* `Row.distinctChoices_of_nodup`: rows of distinct values all stay;
* `Section.perm_choices_placeIn`: a row with a new value adds its choice, and nothing goes;
* `Menu.perm_choices_ofRows`: the choices of a menu of distinct values are those of the rows;
* `Entries.KeysDistinct`: entries under distinct keys, none of which has a value of its own;
* `Menu.build_keeps_distinct_rows`: what all this says about a menu that is built.
-/

namespace Picklist

/-! ## 1. Rows of distinct values -/

namespace Row

/-- The scope of a row and its value: rows that share both are one choice. -/
def scopedKey (row : Row) : Option String × ChoiceValue := (row.group, row.key)

/-- **Rows of distinct values all stay**, in their order. -/
theorem distinctChoices_of_nodup {rows : List Row} (h : (rows.map key).Nodup) :
    distinctChoices rows = rows.map Row.choice := by
  induction rows using List.reverseRecOn with
  | nil => rfl
  | append_singleton rows row ih =>
    rw [List.map_append, List.nodup_append] at h
    obtain ⟨hrows, _, hnew⟩ := h
    rw [distinctChoices_concat, ih hrows, List.map_append]
    refine Choice.placeIn_of_forall_not_same fun held hheld => ?_
    obtain ⟨other, hother, rfl⟩ := List.mem_map.mp hheld
    exact decide_eq_false (hnew other.key (List.mem_map_of_mem hother) row.key (by simp))

/-- Distinct in each scope, the values of one scope are distinct. -/
theorem nodup_key_inScope {rows : List Row} (h : (rows.map scopedKey).Nodup)
    (scope : Option String) : ((inScope rows scope).map key).Nodup := by
  rw [List.Nodup, List.pairwise_map] at h ⊢
  refine (h.filter _).imp_of_mem fun {row other} hrow hother hne hkey => hne ?_
  have hscope : row.group = other.group :=
    (of_decide_eq_true (List.mem_filter.mp hrow).2).trans
      (of_decide_eq_true (List.mem_filter.mp hother).2).symm
  exact Prod.ext hscope hkey

end Row

/-! ## 2. Menus that keep all rows -/

/-- **A row with a value that is new to its scope adds its choice**, and no other goes. -/
theorem Section.perm_choices_placeIn {row : Row} {sections : List Section}
    (h : ∀ held ∈ shownIn sections row.group, held.value.same row.choice.value = false) :
    ((row.placeIn sections).flatMap choices).Perm (sections.flatMap choices ++ [row.choice]) := by
  unfold Row.placeIn
  cases hg : row.group with
  | none =>
    rw [hg] at h
    refine perm_flatMap_place rfl fun held hmem hplace => ?_
    cases held with
    | single choice =>
      have hfresh := h choice (mem_shownIn_of_mem hmem (by simp [choicesIn]))
      exact absurd (hfresh.symm.trans hplace) Bool.false_ne_true
    | group label choices => cases hplace
  | some label =>
    rw [hg] at h
    refine perm_flatMap_place rfl fun held hmem hplace => ?_
    cases held with
    | single choice => cases hplace
    | group other held =>
      have e : other = label := of_decide_eq_true hplace
      subst e
      have hplaced : row.choice.placeIn held = held ++ [row.choice] :=
        Choice.placeIn_of_forall_not_same fun choice hchoice =>
          h choice (mem_shownIn_of_mem hmem (by simpa [choicesIn] using hchoice))
      exact List.Perm.of_eq hplaced

namespace Menu

variable {rows : List Row}

/-- What a scope shows are the choices of its rows, in their order. -/
theorem shownIn_ofRows_of_nodup (h : (rows.map Row.scopedKey).Nodup) (selected : List String)
    (scope : Option String) :
    (ofRows rows selected).shownIn scope = (Row.inScope rows scope).map Row.choice := by
  rw [shownIn_ofRows, Row.distinctChoices_of_nodup (Row.nodup_key_inScope h scope)]

/-- **A menu of distinct values has the choices of all its rows.** -/
theorem perm_choices_ofRows (h : (rows.map Row.scopedKey).Nodup) (selected : List String) :
    (ofRows rows selected).choices.Perm (rows.map Row.choice) := by
  induction rows using List.reverseRecOn with
  | nil => exact .nil
  | append_singleton rows row ih =>
    rw [List.map_append, List.nodup_append] at h
    obtain ⟨hrows, _, hnew⟩ := h
    have hsections : (ofRows (rows ++ [row]) selected).sections
        = row.placeIn (ofRows rows selected).sections := by
      rw [sections_ofRows, sections_ofRows, Row.reference_concat]
    have hfresh : ∀ held ∈ (ofRows rows selected).shownIn row.group,
        held.value.same row.choice.value = false := by
      intro held hheld
      rw [shownIn_ofRows_of_nodup hrows, List.mem_map] at hheld
      obtain ⟨other, hother, rfl⟩ := hheld
      obtain ⟨hmem, hscope⟩ := List.mem_filter.mp hother
      refine decide_eq_false fun hkey => ?_
      refine hnew _ (List.mem_map_of_mem hmem) row.scopedKey (by simp) ?_
      exact Prod.ext (of_decide_eq_true hscope) hkey
    unfold choices
    rw [hsections, List.map_append]
    exact (Section.perm_choices_placeIn hfresh).trans ((ih hrows).append_right _)

end Menu

/-! ## 3. Distinct keys -/

/-- Entries under distinct keys, none of which names a field that identifies it. -/
structure Entries.KeysDistinct (entries : Entries) : Prop where
  nodup : (entries.map (·.1)).Nodup
  unidentified : ∀ keyed ∈ entries, ∀ keyName fields, keyed.2 ≠ .identified keyName fields

theorem Entry.ofValue_ne_identified (v : Value) (keyName : String) (fields : Value.Fields) :
    Entry.ofValue v ≠ .identified keyName fields := by
  cases v <;> exact nofun

theorem Entries.unidentified_map (members : Value.Fields) :
    ∀ keyed ∈ members.map fun m => (m.1, Entry.ofValue m.2),
      ∀ keyName fields, keyed.2 ≠ .identified keyName fields := by
  intro keyed hmem
  obtain ⟨m, _, rfl⟩ := List.mem_map.mp hmem
  exact Entry.ofValue_ne_identified m.2

/-- The members of an object are entries under distinct keys. -/
theorem Entries.keysDistinct_object {members : Value.Fields}
    (h : (Members.names members).Nodup) : (Entries.ofValue (.object members)).KeysDistinct where
  nodup := by
    have hkeys : (Entries.ofValue (.object members)).map (·.1) = Members.names members := by
      rw [Entries.ofValue, List.map_map]
      rfl
    rw [hkeys]
    exact h
  unidentified := Entries.unidentified_map members

/-- The items of an array are entries under the spellings of their positions. -/
theorem Entries.keysDistinct_array (items : List Value) :
    (Entries.ofValue (.array items)).KeysDistinct where
  nodup := by
    have hkeys : (Entries.ofValue (.array items)).map (·.1)
        = (List.range' 0 items.length).map toString := by
      rw [Entries.ofValue, Value.numbered, List.map_map, List.map_map, ← List.zipIdx_map_snd,
        List.map_map]
      rfl
    rw [hkeys]
    exact (List.nodup_range' ..).map fun _ _ => Nat.repr_inj.mp
  unidentified := Entries.unidentified_map (Value.numbered items)

namespace Request

variable {request : Request} {localizer : Localizer} {data : Entries} {rows : List Row}

/-- **Distinct keys make rows of distinct values**, where the keys are submitted. -/
theorem nodup_key_of_keysDistinct (hdata : data.KeysDistinct)
    (hvalue : request.mapping.valuePath? = none) (hfront : request.prepends = [])
    (hrows : request.rows localizer data = .ok rows) : (rows.map Row.key).Nodup := by
  obtain ⟨before, after, rfl, hbefore, hafter⟩ := exists_shown_of_rows hrows
  rw [hfront, List.forall₂_nil_left_iff] at hbefore
  have hvalues := values_of_shown hvalue
    (fun keyed hmem => hdata.unidentified keyed (List.mem_of_mem_filter hmem)) hafter
  have hkeys : after.map Row.key
      = ((data.filter (request.Included ·)).map (·.1)).map ChoiceValue.ofKey := by
    have hcanonical := congrArg (List.map ChoiceValue.canonical) hvalues
    rw [List.map_map, List.map_map] at hcanonical
    rw [List.map_map]
    refine hcanonical.trans (List.map_congr_left fun keyed _ => ?_)
    exact ChoiceValue.canonical_ofKey keyed.1
  rw [hbefore, List.nil_append, hkeys]
  exact (hdata.nodup.sublist (List.filter_sublist.map _)).map ChoiceValue.ofKey_injective

end Request

namespace Menu

/-- **A menu of entries under distinct keys keeps every row.** The entries of an array, or of an
    object, are such. Where they submit their keys and nothing stands in front, a menu that is
    built has the choice of each row once, and outside all groups as well as in each group the
    choices stand in the order of the rows. -/
theorem build_keeps_distinct_rows :
    (∀ items, (Entries.ofValue (.array items)).KeysDistinct) ∧
    (∀ members, (Members.names members).Nodup →
      (Entries.ofValue (.object members)).KeysDistinct) ∧
    ∀ (request : Request) (localizer : Localizer) (data : Entries) (menu : Menu),
      data.KeysDistinct → request.mapping.valuePath? = none → request.prepends = [] →
      build request localizer data = .ok menu →
        ∃ rows, request.rows localizer data = .ok rows ∧
          (rows.map Row.choice).Nodup ∧
          menu.choices.Perm (rows.map Row.choice) ∧
          ∀ scope, menu.shownIn scope = (Row.inScope rows scope).map Row.choice := by
  refine ⟨Entries.keysDistinct_array, fun _ => Entries.keysDistinct_object,
    fun request localizer data menu hdata hvalue hfront hbuild => ?_⟩
  obtain ⟨rows, hrows, rfl⟩ := map_eq_ok_iff.mp hbuild
  have hkeys := Request.nodup_key_of_keysDistinct hdata hvalue hfront hrows
  have hscoped : (rows.map Row.scopedKey).Nodup := by
    refine List.Nodup.of_map Prod.snd ?_
    rw [List.map_map]
    exact hkeys
  have hchoices : (rows.map Row.choice).Nodup := by
    refine List.Nodup.of_map (·.value.canonical) ?_
    rw [List.map_map]
    exact hkeys
  exact ⟨rows, hrows, hchoices, perm_choices_ofRows hscoped request.selected,
    shownIn_ofRows_of_nodup hscoped request.selected⟩

/-- Three ways to spell seven, two of them in one group. -/
def spellings : Value.Fields :=
  [("7", .object [("title", .string "Plain"), ("optgroup", .string "Short")]),
    ("07", .object [("title", .string "Padded")]),
    ("+7", .object [("title", .string "Signed"), ("optgroup", .string "Short")])]

/-- The number and the texts are three values, and the group keeps the order of its rows although
    it is shown in front of the padded spelling. -/
theorem build_keeps_distinct_rows_spellings :
    (Members.names spellings).Nodup ∧ Mapping.standard.valuePath? = none ∧
      ∃ menu, build (.ofMapping .standard) id (Entries.ofValue (.object spellings)) = .ok menu ∧
        menu.choices.map (·.title) = ["Plain", "Signed", "Padded"] ∧
        menu.choices.Perm [⟨.number (.integer 7), "Plain", [], some "Short"⟩,
          ⟨.text "07", "Padded", [], none⟩, ⟨.text "+7", "Signed", [], some "Short"⟩] := by
  have hnames : (Members.names spellings).Nodup := by decide
  obtain ⟨_, hobject, hkeeps⟩ := build_keeps_distinct_rows
  obtain ⟨rows, hrows, _, hperm, _⟩ := hkeeps (.ofMapping .standard) id
    (Entries.ofValue (.object spellings)) _ (hobject spellings hnames) rfl rfl rfl
  have hchoices : rows.map Row.choice = [⟨.number (.integer 7), "Plain", [], some "Short"⟩,
      ⟨.text "07", "Padded", [], none⟩, ⟨.text "+7", "Signed", [], some "Short"⟩] := by
    cases hrows
    rfl
  rw [hchoices] at hperm
  exact ⟨hnames, rfl, _, rfl, rfl, hperm⟩

end Menu

end Picklist
