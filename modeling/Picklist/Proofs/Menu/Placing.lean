import Mathlib.Data.List.Induction
import Mathlib.Data.List.Nodup
import Picklist.Menu

/-!
# Placing rows

Rows are placed one after the other. This file says what one placement does.

* `place_filterMap`: in a list that holds one element for each of its keys, filling the place of a
  key changes the element of that key, or puts a new one at the end;
* `Menu.shownIn`: the choices that a menu shows in a scope -- outside all groups, or in the group
  with a label;
* `shownIn_placeIn_other`: a row changes nothing outside its own scope;
* `shownIn_placeIn_self`: in its own scope it is placed among the choices.
-/

namespace Picklist

/-! ## 1. First occurrences -/

section FirstOccurrences

variable {α : Type} [DecidableEq α]

/-- A new last element counts where it is not there yet. -/
theorem eraseDups_concat (l : List α) (a : α) :
    (l ++ [a]).eraseDups = if a ∈ l then l.eraseDups else l.eraseDups ++ [a] := by
  rw [List.eraseDups_append]
  by_cases h : a ∈ l
  · have hnone : [a].removeAll l = [] := by simp [List.removeAll, h]
    rw [hnone, if_pos h, List.eraseDups_nil, List.append_nil]
  · have hone : [a].removeAll l = [a] := by simp [List.removeAll, h]
    rw [hone, if_neg h]
    rfl

/-- More elements leave the first occurrences where they are. -/
theorem eraseDups_prefix_append (l more : List α) : l.eraseDups <+: (l ++ more).eraseDups := by
  rw [List.eraseDups_append]
  exact List.prefix_append _ _

/-- Each element is left once. -/
theorem nodup_eraseDups (l : List α) : l.eraseDups.Nodup := by
  induction l using List.reverseRecOn with
  | nil => exact List.nodup_nil
  | append_singleton l a ih =>
    rw [eraseDups_concat]
    split
    · exact ih
    · rename_i h
      refine List.nodup_append.mpr ⟨ih, List.nodup_singleton a, fun b hb c hc e => h ?_⟩
      rw [List.mem_singleton] at hc
      rw [List.mem_eraseDups] at hb
      rw [← hc, ← e]
      exact hb

end FirstOccurrences

/-! ## 2. One place -/

section Place

variable {α κ : Type} {isPlace : α → Bool} {fill : Option α → α}

/-- Where no element is the place, a new one goes to the end. -/
theorem place_of_forall_not {l : List α} (h : ∀ a ∈ l, isPlace a = false) :
    place isPlace fill l = l ++ [fill none] := by
  induction l with
  | nil => rfl
  | cons a rest ih =>
    rw [List.forall_mem_cons] at h
    simp only [place, h.1, Bool.false_eq_true, if_false, ih h.2, List.cons_append]

/-- The first element that is the place is filled; the others stay. -/
theorem place_append_cons {front rest : List α} {a : α} (h : ∀ b ∈ front, isPlace b = false)
    (ha : isPlace a = true) :
    place isPlace fill (front ++ a :: rest) = front ++ fill (some a) :: rest := by
  induction front with
  | nil => simp only [List.nil_append, place, ha, if_true]
  | cons b front ih =>
    rw [List.forall_mem_cons] at h
    simp only [List.cons_append, place, h.1, Bool.false_eq_true, if_false, ih h.2]

/-- **Filling the place of a key.** The list holds one element for each of its keys; the test
    finds the element of `key`, and filling turns it into the new element of `key`, the elements
    of the other keys being the same before and after. -/
theorem place_filterMap [DecidableEq κ] {keys : List κ} {key : κ} {before after : κ → Option α}
    (hnodup : keys.Nodup)
    (hplace : ∀ k ∈ keys, ∃ a, before k = some a ∧ (isPlace a = true ↔ k = key))
    (hother : ∀ k, k ≠ key → after k = before k)
    (hheld : ∀ a, key ∈ keys → before key = some a → after key = some (fill (some a)))
    (hnew : key ∉ keys → after key = some (fill none)) :
    place isPlace fill (keys.filterMap before)
      = (if key ∈ keys then keys else keys ++ [key]).filterMap after := by
  -- the test fails on the elements of all keys but the one
  have hnot : ∀ ks : List κ, (∀ k ∈ ks, k ∈ keys ∧ k ≠ key) →
      ∀ a ∈ ks.filterMap before, isPlace a = false := by
    intro ks hks a ha
    obtain ⟨k, hk, hka⟩ := List.mem_filterMap.mp ha
    obtain ⟨b, hb, hiff⟩ := hplace k (hks k hk).1
    rw [hb, Option.some.injEq] at hka
    subst hka
    exact Bool.eq_false_iff.mpr fun h => (hks k hk).2 (hiff.mp h)
  have hsame : ∀ ks : List κ, (∀ k ∈ ks, k ≠ key) → ks.filterMap after = ks.filterMap before :=
    fun ks hks => List.filterMap_congr fun k hk => hother k (hks k hk)
  by_cases hmem : key ∈ keys
  · rw [if_pos hmem]
    obtain ⟨front, rest, rfl⟩ := List.append_of_mem hmem
    obtain ⟨a, ha, hiff⟩ := hplace key hmem
    have hfront : ∀ k ∈ front, k ≠ key := fun k hk e =>
      List.disjoint_of_nodup_append hnodup hk (e ▸ List.mem_cons_self)
    have hrest : ∀ k ∈ rest, k ≠ key := fun k hk e =>
      (List.nodup_cons.mp (List.nodup_append.mp hnodup).2.1).1 (e ▸ hk)
    have hfill : place isPlace fill (front.filterMap before ++ a :: rest.filterMap before)
        = front.filterMap before ++ fill (some a) :: rest.filterMap before :=
      place_append_cons (hnot front fun k hk => ⟨List.mem_append_left _ hk, hfront k hk⟩)
        (hiff.mpr rfl)
    rw [List.filterMap_append, List.filterMap_append, List.filterMap_cons_some ha,
      List.filterMap_cons_some (hheld a hmem ha), hsame front hfront, hsame rest hrest, hfill]
  · rw [if_neg hmem]
    have hall : ∀ k ∈ keys, k ≠ key := fun k hk e => hmem (e ▸ hk)
    rw [place_of_forall_not (hnot keys fun k hk => ⟨hk, hall k hk⟩), List.filterMap_append,
      hsame keys hall, List.filterMap_cons_some (hnew hmem), List.filterMap_nil]

/-- What a list gives piece by piece is the same after a placement whose piece is. -/
theorem flatMap_place {β : Type} {g : α → List β} (l : List α) (hnew : g (fill none) = [])
    (hheld : ∀ a, isPlace a = true → g (fill (some a)) = g a) :
    (place isPlace fill l).flatMap g = l.flatMap g := by
  induction l with
  | nil => simp [place, hnew]
  | cons a rest ih =>
    unfold place
    split
    · rename_i h
      rw [List.flatMap_cons, List.flatMap_cons, hheld a h]
    · rw [List.flatMap_cons, List.flatMap_cons, ih]

/-- What a list gives piece by piece grows by what the placement adds to a piece, or by a piece of
    its own, up to order. -/
theorem perm_flatMap_place {β : Type} {g : α → List β} {added : List β} {l : List α}
    (hnew : g (fill none) = added)
    (hheld : ∀ a ∈ l, isPlace a = true → (g (fill (some a))).Perm (g a ++ added)) :
    ((place isPlace fill l).flatMap g).Perm (l.flatMap g ++ added) := by
  induction l with
  | nil => simp [place, hnew]
  | cons a rest ih =>
    rw [List.forall_mem_cons] at hheld
    unfold place
    split
    · rename_i h
      rw [List.flatMap_cons, List.flatMap_cons, List.append_assoc]
      refine ((hheld.1 h).append_right _).trans ?_
      rw [List.append_assoc]
      exact List.perm_append_comm.append_left _
    · rw [List.flatMap_cons, List.flatMap_cons, List.append_assoc]
      exact (ih hheld.2).append_left _

/-- What is in a list after a placement was there, or fills a new place, or fills the old one. -/
theorem mem_place {l : List α} {a : α} (h : a ∈ place isPlace fill l) :
    a ∈ l ∨ a = fill none ∨ ∃ held ∈ l, isPlace held = true ∧ a = fill (some held) := by
  induction l with
  | nil => exact .inr (.inl (List.mem_singleton.mp h))
  | cons first rest ih =>
    unfold place at h
    split at h
    · rename_i hplace
      rcases List.mem_cons.mp h with rfl | hrest
      · exact .inr (.inr ⟨first, List.mem_cons_self, hplace, rfl⟩)
      · exact .inl (List.mem_cons_of_mem _ hrest)
    · rcases List.mem_cons.mp h with rfl | hrest
      · exact .inl List.mem_cons_self
      · rcases ih hrest with hmem | hnew | ⟨held, hmem, hheld⟩
        · exact .inl (List.mem_cons_of_mem _ hmem)
        · exact .inr (.inl hnew)
        · exact .inr (.inr ⟨held, List.mem_cons_of_mem _ hmem, hheld⟩)

/-- A placement in a changed list is the changed placement, if the test finds the same place and
    filling it makes the same change. -/
theorem place_map {β : Type} {f : α → β} {isPlace' : β → Bool} {fill' : Option β → β} {l : List α}
    (htest : ∀ a ∈ l, isPlace' (f a) = isPlace a)
    (hheld : ∀ a ∈ l, isPlace a = true → fill' (some (f a)) = f (fill (some a)))
    (hnew : fill' none = f (fill none)) :
    place isPlace' fill' (l.map f) = (place isPlace fill l).map f := by
  induction l with
  | nil => exact congrArg (List.cons · []) hnew
  | cons a rest ih =>
    rw [List.forall_mem_cons] at htest hheld
    rw [List.map_cons]
    unfold place
    rw [htest.1]
    split
    · rename_i hplace
      rw [hheld.1 hplace, List.map_cons]
    · rw [ih htest.2 hheld.2, List.map_cons]

end Place

/-- A choice with a new value goes to the end. -/
theorem Choice.placeIn_of_forall_not_same {choice : Choice} {choices : List Choice}
    (h : ∀ held ∈ choices, held.value.same choice.value = false) :
    choice.placeIn choices = choices ++ [choice] :=
  place_of_forall_not h

/-! ## 3. Scopes -/

namespace Section

/-- The label of a group. -/
def label? : Section → Option String
  | .single _ => none
  | .group label _ => some label

/-- The labels of the groups, in order. -/
def labels (sections : List Section) : List String := sections.filterMap label?

/-- Placing a row brings in no label but its own. -/
theorem mem_labels_placeIn {row : Row} {sections : List Section} {label : String}
    (h : label ∈ labels (row.placeIn sections)) :
    label ∈ labels sections ∨ row.group = some label := by
  obtain ⟨held, hmem, hlabel⟩ := List.mem_filterMap.mp h
  unfold Row.placeIn at hmem
  cases hg : row.group with
  | none =>
    rw [hg] at hmem
    rcases mem_place hmem with hheld | rfl | ⟨_, _, _, rfl⟩
    · exact .inl (List.mem_filterMap.mpr ⟨held, hheld, hlabel⟩)
    · cases hlabel
    · cases hlabel
  | some own =>
    rw [hg] at hmem
    rcases mem_place hmem with hheld | rfl | ⟨_, _, _, rfl⟩
    · exact .inl (List.mem_filterMap.mpr ⟨held, hheld, hlabel⟩)
    · exact .inr hlabel
    · exact .inr hlabel

/-- The choices of a section, if it belongs to the scope. -/
def choicesIn (scope : Option String) : Section → List Choice
  | .single choice => if scope = none then [choice] else []
  | .group label choices => if scope = some label then choices else []

/-- The choices of a section belong to its own scope, and to no other. -/
theorem mem_choicesIn {held : Section} {scope : Option String} {choice : Choice} :
    choice ∈ held.choicesIn scope ↔ held.label? = scope ∧ choice ∈ held.choices := by
  cases held with
  | single first => cases scope <;> simp [choicesIn, label?, choices]
  | group label choices =>
    by_cases h : some label = scope
    · subst h
      simp [choicesIn, label?, Section.choices]
    · simp [choicesIn, label?, h, Ne.symm h]

/-- The choices that sections show in a scope. -/
def shownIn (sections : List Section) (scope : Option String) : List Choice :=
  sections.flatMap (choicesIn scope)

@[simp] theorem shownIn_nil (scope : Option String) : shownIn [] scope = [] := rfl

@[simp] theorem shownIn_cons (held : Section) (rest : List Section) (scope : Option String) :
    shownIn (held :: rest) scope = held.choicesIn scope ++ shownIn rest scope := rfl

theorem shownIn_append (front rest : List Section) (scope : Option String) :
    shownIn (front ++ rest) scope = shownIn front scope ++ shownIn rest scope :=
  List.flatMap_append

/-- The choices of a scope are among those of the sections. -/
theorem mem_shownIn_of_mem {sections : List Section} {held : Section} {choice : Choice}
    {scope : Option String} (hmem : held ∈ sections) (hchoice : choice ∈ held.choicesIn scope) :
    choice ∈ shownIn sections scope :=
  List.mem_flatMap.mpr ⟨held, hmem, hchoice⟩

/-- In a group that is not there nothing is shown. -/
theorem shownIn_of_not_mem {sections : List Section} {label : String}
    (h : label ∉ labels sections) : shownIn sections (some label) = [] := by
  refine List.flatMap_eq_nil_iff.mpr fun held hmem => ?_
  cases held with
  | single choice => rfl
  | group other choices =>
    refine if_neg fun e => h ?_
    exact List.mem_filterMap.mpr ⟨_, hmem, e.symm⟩

/-- **A row changes nothing outside its own scope.** -/
theorem shownIn_placeIn_other {row : Row} {scope : Option String} (sections : List Section)
    (h : scope ≠ row.group) : shownIn (row.placeIn sections) scope = shownIn sections scope := by
  unfold Row.placeIn
  cases hg : row.group with
  | none =>
    rw [hg] at h
    refine flatMap_place sections (if_neg h) fun held hplace => ?_
    cases held with
    | single choice => exact (if_neg h).trans (if_neg h).symm
    | group label choices => cases hplace
  | some label =>
    rw [hg] at h
    refine flatMap_place sections (if_neg h) fun held hplace => ?_
    cases held with
    | single choice => cases hplace
    | group other choices =>
      have e : other = label := of_decide_eq_true hplace
      subst e
      exact (if_neg h).trans (if_neg h).symm

/-- Outside all groups a choice is placed among the single ones. -/
theorem shownIn_place_single (choice : Choice) (sections : List Section) :
    shownIn (place (isSingle choice.value) (fun _ => .single choice) sections) none
      = choice.placeIn (shownIn sections none) := by
  induction sections with
  | nil => rfl
  | cons held rest ih =>
    cases held with
    | single first =>
      by_cases hsame : first.value.same choice.value = true
      · simp [place, isSingle, hsame, choicesIn, Choice.placeIn]
      · simp only [place, isSingle, hsame, Bool.false_eq_true, if_false, shownIn_cons, ih]
        simp [choicesIn, Choice.placeIn, place, hsame]
    | group label choices => simpa [place, isSingle, choicesIn] using ih

/-- In a group a choice is placed among those of the group, if its label is there once. -/
theorem shownIn_place_group (choice : Choice) (label : String) {sections : List Section}
    (h : (labels sections).Nodup) :
    shownIn (place (isGroup label)
        (fun held => .group label (choice.placeIn (held.elim [] choices))) sections) (some label)
      = choice.placeIn (shownIn sections (some label)) := by
  induction sections with
  | nil => simp [place, choicesIn]
  | cons held rest ih =>
    cases held with
    | single first => simpa [place, isGroup, choicesIn] using ih h
    | group other held =>
      obtain ⟨hnot, hrest⟩ := List.nodup_cons.mp (show (other :: labels rest).Nodup from h)
      by_cases e : other = label
      · subst e
        simp [place, isGroup, choicesIn, choices, shownIn_of_not_mem hnot]
      · simpa [place, isGroup, choicesIn, e, Ne.symm e] using ih hrest

/-- **In its own scope a row is placed among the choices**, if each label is there once. -/
theorem shownIn_placeIn_self {row : Row} {sections : List Section}
    (h : (labels sections).Nodup) :
    shownIn (row.placeIn sections) row.group = row.choice.placeIn (shownIn sections row.group) := by
  unfold Row.placeIn
  cases hg : row.group with
  | none => exact shownIn_place_single row.choice sections
  | some label => exact shownIn_place_group row.choice label h

end Section

/-- The choices that a menu shows in a scope. -/
def Menu.shownIn (menu : Menu) (scope : Option String) : List Choice :=
  Section.shownIn menu.sections scope

end Picklist
