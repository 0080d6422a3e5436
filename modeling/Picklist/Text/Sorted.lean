/-!
# Sorted sets of texts

A set of texts is a strictly ascending list, by code points. Two lists with the same texts
give the same set, whatever their order and repetitions.
-/

namespace Picklist.Text

/-- Put a text into an ascending list; one that is there already stays once. -/
def insertSorted (text : String) : List String → List String
  | [] => [text]
  | first :: rest =>
    if text < first then text :: first :: rest
    else if text = first then first :: rest
    else first :: insertSorted text rest

/-- The set of the texts of a list. -/
def sortedSet (texts : List String) : List String :=
  texts.foldr insertSorted []

/-- Inserting adds the text and nothing else. -/
theorem mem_insertSorted (text other : String) (set : List String) :
    other ∈ insertSorted text set ↔ other = text ∨ other ∈ set := by
  induction set with
  | nil => simp [insertSorted]
  | cons first rest ih =>
    unfold insertSorted
    split
    · simp
    · split
      · rename_i h; subst h; simp
      · simp [ih]; grind

/-- The set has the members of the list. -/
theorem mem_sortedSet (text : String) (texts : List String) :
    text ∈ sortedSet texts ↔ text ∈ texts := by
  induction texts with
  | nil => simp [sortedSet]
  | cons first rest ih =>
    simp only [sortedSet, List.foldr_cons, mem_insertSorted] at ih ⊢
    simp [ih]

end Picklist.Text
