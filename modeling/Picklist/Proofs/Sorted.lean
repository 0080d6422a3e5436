import Mathlib.Data.List.Sort
import Mathlib.Data.String.Basic
import Picklist.Text.Sorted

/-!
# Sets of texts

A set of texts is kept as a strictly ascending list. There is one such list for each set:

* `Text.pairwise_sortedSet`: the list is strictly ascending;
* `Text.sortedSet_eq_of_mem_iff`: lists of the same texts give the same set.
-/

namespace Picklist.Text

theorem pairwise_insertSorted (text : String) {set : List String} (h : set.Pairwise (· < ·)) :
    (insertSorted text set).Pairwise (· < ·) := by
  induction set with
  | nil => exact List.pairwise_singleton _ _
  | cons first rest ih =>
    obtain ⟨hfirst, hrest⟩ := List.pairwise_cons.mp h
    unfold insertSorted
    split
    · rename_i hlt
      refine List.pairwise_cons.mpr ⟨fun other hmem => ?_, h⟩
      rcases List.mem_cons.mp hmem with rfl | hmem
      · exact hlt
      · exact hlt.trans (hfirst other hmem)
    · rename_i hnlt
      split
      · exact h
      · rename_i hne
        have hgt : first < text := lt_of_le_of_ne (not_lt.mp hnlt) (Ne.symm hne)
        refine List.pairwise_cons.mpr ⟨fun other hmem => ?_, ih hrest⟩
        rcases (mem_insertSorted text other rest).mp hmem with rfl | hmem
        · exact hgt
        · exact hfirst other hmem

theorem pairwise_sortedSet (texts : List String) : (sortedSet texts).Pairwise (· < ·) := by
  induction texts with
  | nil => exact .nil
  | cons text rest ih => exact pairwise_insertSorted text ih

/-- **Lists of the same texts give the same set.** -/
theorem sortedSet_eq_of_mem_iff {texts others : List String}
    (h : ∀ text, text ∈ texts ↔ text ∈ others) : sortedSet texts = sortedSet others := by
  refine (pairwise_sortedSet texts).eq_of_mem_iff (pairwise_sortedSet others) fun text => ?_
  rw [mem_sortedSet, mem_sortedSet]
  exact h text

end Picklist.Text
