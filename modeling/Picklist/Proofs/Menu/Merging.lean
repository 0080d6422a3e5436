import Picklist.Proofs.ChoiceValue
import Picklist.Proofs.Markup.Attributes
import Picklist.Proofs.Menu.Reference

/-!
# Which rows become one choice

Each row of a list has a seat: its scope, and the position at which its choice stands there once
the row is placed. Rows with the same seat become one choice.

* `Menu.seat_eq`: the seat of a row is the position of its value among the distinct values of the
  scope, so later rows do not move it;
* `Menu.exists_getElem?_seat`: at each seat the menu shows the choice of a row that has the seat;
* `Menu.merges_by_kind_and_text`: which rows share a seat, and what follows for the value
  attributes.
-/

namespace Picklist

/-! ## 1. Positions of distinct values -/

namespace Row

/-- The distinct values of a scope after some of the rows are the first of those after all. -/
theorem distinctKeys_take_prefix (rows : List Row) (scope : Option String) (n : Nat) :
    distinctKeys (inScope (rows.take n) scope) <+: distinctKeys (inScope rows scope) := by
  have hsplit : inScope rows scope
      = inScope (rows.take n) scope ++ inScope (rows.drop n) scope := by
    unfold inScope
    rw [← List.filter_append, List.take_append_drop]
  rw [hsplit, distinctKeys, distinctKeys, List.map_append]
  exact eraseDups_prefix_append _ _

/-- A distinct choice stands where its value stands among the distinct values. -/
theorem idxOf_distinctChoices {rows : List Row} {choice : Choice}
    (h : choice ∈ distinctChoices rows) :
    (distinctChoices rows).idxOf choice = (distinctKeys rows).idxOf choice.value.canonical := by
  obtain ⟨p, hp, rfl⟩ := List.mem_iff_getElem.mp h
  have hnodup : ((distinctChoices rows).map (·.value.canonical)).Nodup := by
    rw [map_canonical_distinctChoices]
    exact nodup_eraseDups _
  have hchoice := hnodup.of_map.idxOf_getElem p hp
  have hkey := hnodup.idxOf_getElem p (by rwa [List.length_map])
  rw [List.getElem_map] at hkey
  rw [← map_canonical_distinctChoices, hchoice, hkey]

end Row

namespace Menu

/-! ## 2. Seats -/

/-- The seat of a row in a list of rows: its scope, and the position of its choice among those
    that the scope shows once the row is placed. -/
def seat (rows : List Row) (i : Fin rows.length) : Option String × Nat :=
  (rows[i].group, ((ofRows (rows.take (i + 1)) []).shownIn rows[i].group).idxOf rows[i].choice)

/-- **A seat is the position of a value** among the distinct values of the scope. -/
theorem seat_eq (rows : List Row) (i : Fin rows.length) :
    seat rows i = (rows[i].group,
      (Row.distinctKeys (Row.inScope rows rows[i].group)).idxOf rows[i].key) := by
  have htake : rows.take (i + 1) = rows.take i ++ [rows[i]] :=
    List.take_succ_eq_append_getElem i.isLt
  have hscope : Row.inScope (rows.take (i + 1)) rows[i].group
      = Row.inScope (rows.take i) rows[i].group ++ [rows[i]] := by
    rw [htake, Row.inScope_concat, if_pos rfl]
  have hshown : rows[i].choice
      ∈ Row.distinctChoices (Row.inScope (rows.take (i + 1)) rows[i].group) := by
    rw [hscope, Row.mem_distinctChoices, Row.lastWith?_concat]
    exact if_pos rfl
  have hkey : rows[i].key ∈ Row.distinctKeys (Row.inScope (rows.take (i + 1)) rows[i].group) := by
    rw [hscope, Row.mem_distinctKeys]
    exact ⟨rows[i], List.mem_append_right _ (List.mem_singleton_self _), rfl⟩
  obtain ⟨later, hlater⟩ := Row.distinctKeys_take_prefix rows rows[i].group (i + 1)
  unfold seat
  rw [shownIn_ofRows, Row.idxOf_distinctChoices hshown, ← hlater, List.idxOf_append_of_mem hkey]
  rfl

theorem key_mem_distinctKeys (rows : List Row) (i : Fin rows.length) :
    rows[i].key ∈ Row.distinctKeys (Row.inScope rows rows[i].group) :=
  Row.mem_distinctKeys.mpr ⟨rows[i], by simp [Row.inScope], rfl⟩

/-- Rows share a seat when they are of one scope and have the same value. -/
theorem seat_eq_iff (rows : List Row) (i j : Fin rows.length) : seat rows i = seat rows j ↔
    rows[i].group = rows[j].group ∧ rows[i].choice.value.same rows[j].choice.value = true := by
  rw [seat_eq, seat_eq, Prod.mk.injEq, ChoiceValue.same, decide_eq_true_iff]
  refine and_congr_right fun hgroup => ?_
  rw [← hgroup]
  exact List.idxOf_inj (key_mem_distinctKeys rows i)

/-- **At the seat of each row the menu shows the choice of a row that has the seat.** -/
theorem exists_getElem?_seat (rows : List Row) (selected : List String) (i : Fin rows.length) :
    ∃ j, seat rows j = seat rows i ∧
      ((ofRows rows selected).shownIn rows[i].group)[(seat rows i).2]? = some rows[j].choice := by
  have hkey : rows[i].key ∈ Row.distinctKeys (Row.inScope rows rows[i].group) :=
    key_mem_distinctKeys rows i
  have hkeys : ((ofRows rows selected).shownIn rows[i].group).map (·.value.canonical)
      = Row.distinctKeys (Row.inScope rows rows[i].group) := by
    rw [shownIn_ofRows, Row.map_canonical_distinctChoices]
  have hseat : (seat rows i).2
      = (Row.distinctKeys (Row.inScope rows rows[i].group)).idxOf rows[i].key := by
    rw [seat_eq]
  have hheld := List.getElem?_idxOf hkey
  rw [← hseat, ← hkeys, List.getElem?_map, Option.map_eq_some_iff] at hheld
  obtain ⟨choice, hchoice, hsame⟩ := hheld
  obtain ⟨row, hrow, hgroup, rfl⟩ := exists_row_of_shown (List.mem_of_getElem? hchoice)
  obtain ⟨j, hj, rfl⟩ := List.mem_iff_getElem.mp hrow
  exact ⟨⟨j, hj⟩, (seat_eq_iff rows ⟨j, hj⟩ i).mpr ⟨hgroup, decide_eq_true hsame⟩, hchoice⟩

/-! ## 3. What merging goes by -/

/-- **Rows are merged by kind and text.** Rows of one scope get one seat when their values are
    both texts or both numbers and are written alike, the two texts of the real zero counting as
    one. The menu shows one choice at each seat, that of a row with the seat. So two choices of one
    scope with the same value attribute are a text and a number, and in the scope of each row there
    is a choice that is written as its value, up to the sign of a real zero. -/
theorem merges_by_kind_and_text (rows : List Row) (selected : List String) :
    (∀ i j : Fin rows.length, seat rows i = seat rows j ↔
      rows[i].group = rows[j].group ∧ rows[i].choice.value.Alike rows[j].choice.value) ∧
    (∀ i : Fin rows.length, ∃ j, seat rows j = seat rows i ∧
      ((ofRows rows selected).shownIn rows[i].group)[(seat rows i).2]?
        = some rows[j].choice) ∧
    (∀ scope, ((ofRows rows selected).shownIn scope).Pairwise fun choice other =>
      (Markup.attributes (ofRows rows selected) choice).lookup "value"
          = (Markup.attributes (ofRows rows selected) other).lookup "value" →
        choice.value.isNumber ≠ other.value.isNumber) ∧
    ∀ row ∈ rows, ∃ choice ∈ (ofRows rows selected).shownIn row.group,
      choice.value.Alike row.choice.value := by
  have hseats : ∀ i j : Fin rows.length, seat rows i = seat rows j ↔
      rows[i].group = rows[j].group ∧ rows[i].choice.value.Alike rows[j].choice.value := by
    intro i j
    rw [seat_eq_iff, ChoiceValue.same_iff_alike]
  refine ⟨hseats, exists_getElem?_seat rows selected, fun scope => ?_, fun row hrow => ?_⟩
  · have hdistinct := Row.pairwise_distinctChoices (Row.inScope rows scope)
    rw [shownIn_ofRows]
    refine hdistinct.imp fun {choice other} hne hvalue hkind => ?_
    rw [Markup.lookup_value_attributes, Markup.lookup_value_attributes, Option.some.injEq] at hvalue
    have hsame := (ChoiceValue.same_iff_alike _ _).mpr ⟨hkind, .inl hvalue⟩
    rw [hne] at hsame
    cases hsame
  · obtain ⟨i, hi, rfl⟩ := List.mem_iff_getElem.mp hrow
    obtain ⟨j, hseat, hshown⟩ := exists_getElem?_seat rows selected ⟨i, hi⟩
    exact ⟨_, List.mem_of_getElem? hshown, ((hseats _ _).mp hseat).2⟩

/-- The text and the number of seven, and the text again. -/
def sevens : List Row :=
  [⟨none, ⟨.text "7", "text", [], none⟩⟩, ⟨none, ⟨.number (.integer 7), "number", [], none⟩⟩,
    ⟨none, ⟨.text "7", "again", [], none⟩⟩]

theorem merges_by_kind_and_text_sevens :
    (seat sevens (0 : Fin 3) = seat sevens (2 : Fin 3) ∧
      seat sevens (0 : Fin 3) ≠ seat sevens (1 : Fin 3)) ∧
    (∃ choice ∈ (ofRows sevens []).shownIn none, choice.value.Alike (.text "7")) ∧
    ChoiceValue.isNumber (.text "7") ≠ ChoiceValue.isNumber (.number (.integer 7)) := by
  obtain ⟨hseats, _, hattributes, hshown⟩ := merges_by_kind_and_text sevens []
  refine ⟨⟨(hseats (0 : Fin 3) (2 : Fin 3)).mpr ⟨rfl, rfl, .inl rfl⟩, fun e => ?_⟩, ?_, ?_⟩
  · have hkind := ((hseats (0 : Fin 3) (1 : Fin 3)).mp e).2.1
    cases hkind
  · exact hshown ⟨none, ⟨.text "7", "text", [], none⟩⟩ List.mem_cons_self
  · have hshown : (ofRows sevens []).shownIn none
        = [⟨.text "7", "again", [], none⟩, ⟨.number (.integer 7), "number", [], none⟩] := by
      decide +kernel
    have hpair := hattributes none
    rw [hshown, List.pairwise_pair] at hpair
    refine hpair ?_
    rw [Markup.lookup_value_attributes, Markup.lookup_value_attributes]
    decide +kernel

/-- The two texts of the real zero. -/
def zeros : List Row :=
  [⟨none, ⟨.number (.real 0.0), "zero", [], none⟩⟩,
    ⟨none, ⟨.number (.real (-0.0)), "minus zero", [], none⟩⟩]

/-- Equal texts do not decide: seven is there as a text and as a number, with one value attribute,
    and the two zeros are merged, so that the text of the first is gone. -/
theorem merges_not_by_text :
    (sevens[0].choice.value.display = sevens[1].choice.value.display ∧
      seat sevens (0 : Fin 3) ≠ seat sevens (1 : Fin 3) ∧
      ((ofRows sevens []).shownIn none).map (fun choice =>
        (Markup.attributes (ofRows sevens []) choice).lookup "value") = [some "7", some "7"]) ∧
    (zeros.map (·.choice.value.display) = ["0.0", "-0.0"] ∧
      seat zeros (0 : Fin 2) = seat zeros (1 : Fin 2) ∧
      ((ofRows zeros []).shownIn none).map (·.value.display) = ["-0.0"]) := by
  decide +kernel

end Menu

end Picklist
