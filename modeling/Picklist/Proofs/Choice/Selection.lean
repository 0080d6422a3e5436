import Picklist.Menu
import Picklist.Proofs.Choice.Rows
import Picklist.Proofs.Sorted

/-!
# Selecting more values

A selected value counts whatever the condition and the mark of its entry say. So a larger selection
can only bring in rows. It can also bring in an entry that fails, for want of a title, and then
there are no rows at all.

* `Request.selecting`: the request with another selection;
* `Request.AddedBy`: the entries that count in the larger of two selections only;
* `Request.rowsOf_selecting_fewer`: without these entries the smaller selection has the rows of the
  larger one;
* `Menu.build_selecting_congr`: a menu depends on which texts are selected, not on their order;
* `Request.rows_selecting_mono`: what all this says about the rows and the menu of a request.
-/

namespace Picklist

/-! ## 1. Rows beside their entries -/

section Beside

variable {α β : Type} {R : α → β → Prop}

/-- Related lists are the two sides of a list of related pairs. -/
theorem exists_pairs_of_forall₂ {l : List α} {l' : List β} (h : List.Forall₂ R l l') :
    ∃ pairs : List (α × β), pairs.map Prod.fst = l ∧ pairs.map Prod.snd = l' ∧
      ∀ p ∈ pairs, R p.1 p.2 := by
  induction h with
  | nil => exact ⟨[], rfl, rfl, fun _ hmem => absurd hmem List.not_mem_nil⟩
  | @cons a b _ _ hab _ ih =>
    obtain ⟨pairs, rfl, rfl, hpairs⟩ := ih
    exact ⟨(a, b) :: pairs, rfl, rfl, List.forall_mem_cons.mpr ⟨hab, hpairs⟩⟩

theorem forall₂_of_pairs {pairs : List (α × β)} (h : ∀ p ∈ pairs, R p.1 p.2) :
    List.Forall₂ R (pairs.map Prod.fst) (pairs.map Prod.snd) := by
  rw [List.forall₂_map_left_iff, List.forall₂_map_right_iff, List.forall₂_same]
  exact h

end Beside

namespace Request

/-! ## 2. Two selections -/

/-- The request with other texts selected. -/
def selecting (request : Request) (texts : List String) : Request :=
  { request with selected := texts }

variable {request : Request} {fewer more : List String} {keyed : String × Entry}

/-- **The entries that only the larger selection includes**: the text of the value is selected in
    the larger one alone, and the entry does not meet the condition or is not actual. -/
def AddedBy (request : Request) (fewer more : List String) (keyed : String × Entry) : Prop :=
  ∃ value, keyed.2.Submits request.mapping keyed.1 value ∧
    value.display ∈ more ∧ value.display ∉ fewer ∧
    (request.condition.passes keyed.2 value.toValue = false ∨ ¬ keyed.2.Actual request.mapping)

/-- Where the value of an entry is known, whether it counts is told by that value. -/
theorem included_selecting_iff {texts : List String} {value : ChoiceValue}
    (hvalue : keyed.2.Submits request.mapping keyed.1 value) :
    (request.selecting texts).Included keyed ↔ value.display ∈ texts ∨
      request.condition.passes keyed.2 value.toValue = true ∧ keyed.2.Actual request.mapping := by
  constructor
  · intro h
    obtain ⟨other, hother, h⟩ := h
    have e : other = value := Entry.Submits.unique hother hvalue
    subst e
    exact h
  · intro h
    exact ⟨value, hvalue, h⟩

theorem addedBy_iff :
    request.AddedBy fewer more keyed ↔
      (request.selecting more).Included keyed ∧ ¬ (request.selecting fewer).Included keyed := by
  constructor
  · intro h
    obtain ⟨value, hvalue, hmore, hfewer, hfails⟩ := h
    rw [← Bool.not_eq_true, ← not_and_or] at hfails
    rw [included_selecting_iff hvalue, included_selecting_iff hvalue]
    exact ⟨.inl hmore, not_or.mpr ⟨hfewer, hfails⟩⟩
  · intro h
    obtain ⟨hin, hout⟩ := h
    obtain ⟨value, hsubmits, _⟩ := id hin
    have hvalue : keyed.2.Submits request.mapping keyed.1 value := hsubmits
    rw [included_selecting_iff hvalue] at hin hout
    obtain ⟨hfewer, hfails⟩ := not_or.mp hout
    have hmore : value.display ∈ more := hin.resolve_right hfails
    rw [not_and_or, Bool.not_eq_true] at hfails
    exact ⟨value, hvalue, hmore, hfewer, hfails⟩

instance : DecidablePred (request.AddedBy fewer more) :=
  fun _ => decidable_of_iff _ addedBy_iff.symm

theorem included_mono (hsub : ∀ text ∈ fewer, text ∈ more)
    (h : (request.selecting fewer).Included keyed) : (request.selecting more).Included keyed := by
  obtain ⟨value, hvalue, h⟩ := h
  exact ⟨value, hvalue, h.imp (hsub value.display) id⟩

/-- The smaller selection includes what the larger one does, those that it adds left out. -/
theorem filter_included_fewer (hsub : ∀ text ∈ fewer, text ∈ more) (data : Entries) :
    data.filter ((request.selecting fewer).Included ·)
      = (data.filter ((request.selecting more).Included ·)).filter
          (¬ request.AddedBy fewer more ·) := by
  rw [List.filter_filter]
  refine List.filter_congr fun keyed _ => ?_
  rw [← Bool.decide_and]
  refine decide_eq_decide.mpr ?_
  rw [addedBy_iff]
  constructor
  · intro hin
    exact ⟨fun hadded => hadded.2 hin, included_mono hsub hin⟩
  · intro h
    by_contra hout
    exact h.1 ⟨h.2, hout⟩

theorem filter_addedBy (data : Entries) :
    (data.filter ((request.selecting more).Included ·)).filter (request.AddedBy fewer more ·)
      = data.filter (request.AddedBy fewer more ·) := by
  rw [List.filter_filter]
  refine List.filter_congr fun keyed _ => ?_
  rw [← Bool.decide_and]
  exact decide_eq_decide.mpr ⟨fun h => h.1, fun h => ⟨h, (addedBy_iff.mp h).1⟩⟩

/-! ## 3. Rows of two selections -/

variable {localizer : Localizer}

/-- **The rows of the smaller selection** are those of the larger one whose entries are not added
    by it. -/
theorem rowsOf_selecting_fewer (hsub : ∀ text ∈ fewer, text ∈ more) {data : Entries}
    {shown : List ((String × Entry) × Row)}
    (hvalues : ∀ keyed ∈ data, ∃ value, keyed.2.Submits request.mapping keyed.1 value)
    (hshown : shown.map Prod.fst = data.filter ((request.selecting more).Included ·))
    (hshows : ∀ p ∈ shown, p.2.Shows request.mapping localizer p.1) :
    (request.selecting fewer).rowsOf localizer data
      = .ok ((shown.filter fun p => ¬ request.AddedBy fewer more p.1).map Prod.snd) := by
  refine rowsOf_eq_ok_iff.mpr ⟨hvalues, ?_⟩
  have hentries : data.filter ((request.selecting fewer).Included ·)
      = (shown.filter fun p => ¬ request.AddedBy fewer more p.1).map Prod.fst := by
    rw [filter_included_fewer hsub, ← hshown, List.filter_map]
    rfl
  rw [hentries]
  exact forall₂_of_pairs fun p hmem => hshows p (List.mem_of_mem_filter hmem)

/-- An entry in front has its row in any selection. -/
theorem rowsOf_front_selecting (texts : List String) (entries : Entries) (rows : List Row) :
    (request.selecting texts).front.rowsOf localizer entries = .ok rows ↔
      request.front.rowsOf localizer entries = .ok rows := by
  rw [rowsOf_front_eq_ok_iff, rowsOf_front_eq_ok_iff]

/-! ## 4. The same selection in another order -/

theorem row?_selecting_congr {texts others : List String} (h : ∀ text, text ∈ texts ↔ text ∈ others)
    (key : String) (entry : Entry) :
    (request.selecting texts).row? localizer key entry
      = (request.selecting others).row? localizer key entry := by
  have hincludes : (request.selecting texts).includes entry
      = (request.selecting others).includes entry := by
    funext value
    have hcontains : texts.contains value.display = others.contains value.display := by
      rw [Bool.eq_iff_iff, List.contains_iff_mem, List.contains_iff_mem]
      exact h value.display
    unfold includes selecting
    rw [hcontains]
  unfold row?
  rw [hincludes]
  rfl

theorem rowsOf_selecting_congr {texts others : List String}
    (h : ∀ text, text ∈ texts ↔ text ∈ others) (entries : Entries) :
    (request.selecting texts).rowsOf localizer entries
      = (request.selecting others).rowsOf localizer entries := by
  induction entries with
  | nil => rfl
  | cons keyed rest ih =>
    obtain ⟨key, entry⟩ := keyed
    rw [rowsOf, rowsOf, row?_selecting_congr h, ih]

theorem rows_selecting_congr {texts others : List String}
    (h : ∀ text, text ∈ texts ↔ text ∈ others) (data : Entries) :
    (request.selecting texts).rows localizer data
      = (request.selecting others).rows localizer data := by
  have hfront : (request.front.selecting texts).rowsOf localizer request.prepends
      = (request.front.selecting others).rowsOf localizer request.prepends :=
    rowsOf_selecting_congr h request.prepends
  unfold rows
  rw [rowsOf_selecting_congr h data]
  exact congrArg (· >>= _) hfront

end Request

theorem Menu.build_selecting_congr {request : Request} {localizer : Localizer}
    {texts others : List String} (h : ∀ text, text ∈ texts ↔ text ∈ others) (data : Entries) :
    Menu.build (request.selecting texts) localizer data
      = Menu.build (request.selecting others) localizer data := by
  have hmenu : (Menu.ofRows · texts) = (Menu.ofRows · others) := by
    funext rows
    exact congrArg (Menu.mk _) (Text.sortedSet_eq_of_mem_iff h)
  unfold Menu.build
  rw [Request.rows_selecting_congr h data]
  exact congrArg (Except.map · _) hmenu

namespace Request

/-! ## 5. More selected, more rows -/

/-- **Selecting is monotone.** Let each text of the smaller selection be in the larger one, and let
    there be rows for the larger one. Then there are rows for the smaller one, which are some of
    them in the same order. Beside their entries the rows of the larger selection show which: those
    of the entries that it adds are left out, and the entries that it adds are all there. Two
    selections of the same texts make the same menu. -/
theorem rows_selecting_mono (request : Request) (localizer : Localizer) (data : Entries)
    {fewer more : List String} (hsub : ∀ text ∈ fewer, text ∈ more) :
    (∀ rows, (request.selecting more).rows localizer data = .ok rows →
      ∃ kept, (request.selecting fewer).rows localizer data = .ok kept ∧ kept.Sublist rows ∧
        ∃ (before : List Row) (shown : List ((String × Entry) × Row)),
          List.Forall₂ (fun keyed row => row.Shows .bare localizer keyed) request.prepends before ∧
          (∀ p ∈ shown, p.2.Shows request.mapping localizer p.1) ∧
          rows = before ++ shown.map Prod.snd ∧
          kept = before ++ (shown.filter fun p => ¬ request.AddedBy fewer more p.1).map Prod.snd ∧
          shown.map Prod.fst = data.filter ((request.selecting more).Included ·) ∧
          (shown.filter fun p => request.AddedBy fewer more p.1).map Prod.fst
            = data.filter (request.AddedBy fewer more ·)) ∧
      ((∀ text ∈ more, text ∈ fewer) →
        Menu.build (request.selecting fewer) localizer data
          = Menu.build (request.selecting more) localizer data) := by
  refine ⟨fun rows hrows => ?_, fun hsup => ?_⟩
  · obtain ⟨before, hbefore, after, hafter, rfl⟩ := rows_eq_ok_split.mp hrows
    obtain ⟨hvalues, hshows⟩ := rowsOf_eq_ok_iff.mp hafter
    obtain ⟨shown, hentries, rfl, hshown⟩ := exists_pairs_of_forall₂ hshows
    have hfront : request.front.rowsOf localizer request.prepends = .ok before :=
      (rowsOf_front_selecting more _ _).mp hbefore
    have hkept := rowsOf_selecting_fewer hsub hvalues hentries hshown
    have hadded : (shown.filter fun p => request.AddedBy fewer more p.1).map Prod.fst
        = data.filter (request.AddedBy fewer more ·) := by
      rw [← filter_addedBy, ← hentries, List.filter_map]
      rfl
    have hfewer : (request.selecting fewer).rows localizer data = .ok (before ++
        (shown.filter fun p => ¬ request.AddedBy fewer more p.1).map Prod.snd) :=
      rows_eq_ok_split.mpr
        ⟨before, (rowsOf_front_selecting fewer _ _).mpr hfront, _, hkept, rfl⟩
    have hsublist : (before ++
        (shown.filter fun p => ¬ request.AddedBy fewer more p.1).map Prod.snd).Sublist
          (before ++ shown.map Prod.snd) :=
      (List.filter_sublist.map Prod.snd).append_left before
    exact ⟨_, hfewer, hsublist, before, shown, rowsOf_front_eq_ok_iff.mp hfront, hshown, rfl, rfl,
      hentries, hadded⟩
  · exact Menu.build_selecting_congr (fun text => ⟨hsub text, hsup text⟩) data

/-- A pear that is no longer actual is there as long as it is selected. -/
theorem rows_selecting_mono_pear :
    (∀ text ∈ ["plum"], text ∈ ["pear", "plum"]) ∧
      ∃ kept, ((ofMapping .standard).selecting ["plum"]).rows id
          [("plum", .record [("title", .string "Plum")]),
            ("pear", .record [("title", .string "Pear"), ("is_actual", .bool false)])] = .ok kept ∧
        kept.Sublist [⟨none, ⟨.text "plum", "Plum", [], none⟩⟩,
          ⟨none, ⟨.text "pear", "Pear", [], none⟩⟩] := by
  have hsub : ∀ text ∈ ["plum"], text ∈ ["pear", "plum"] := by decide
  obtain ⟨kept, hkept, hsublist, _⟩ := (rows_selecting_mono (ofMapping .standard) id
    [("plum", .record [("title", .string "Plum")]),
      ("pear", .record [("title", .string "Pear"), ("is_actual", .bool false)])] hsub).1
    [⟨none, ⟨.text "plum", "Plum", [], none⟩⟩, ⟨none, ⟨.text "pear", "Pear", [], none⟩⟩] rfl
  exact ⟨hsub, kept, hkept, hsublist⟩

end Request

end Picklist
