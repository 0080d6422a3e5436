/-!
# Pieces of text

Texts are cut at single characters and read as numerals, character by character.

* `pieces`: the text between separators, `joined` its inverse in the other direction.
* `splitFirst?`: the text around the first separator.
* `numeral?`: a run of digits in a base, and nothing else.
* `signed?`, `index?`: the two spellings of whole numbers that keys and paths use.
-/

namespace Picklist.Text

/-! ## 1. Cutting -/

/-- The pieces of a text between separators; a text without one is a single piece. -/
def pieces (separator : Char) : List Char → List (List Char)
  | [] => [[]]
  | c :: rest =>
    if c = separator then [] :: pieces separator rest
    else
      match pieces separator rest with
      | [] => [[c]]
      | piece :: more => (c :: piece) :: more

/-- The text before and after the first separator, if there is one. -/
def splitFirst? (separator : Char) : List Char → Option (List Char × List Char)
  | [] => none
  | c :: rest =>
    if c = separator then some ([], rest)
    else (splitFirst? separator rest).map fun (before, after) => (c :: before, after)

/-- There is always a first piece. -/
theorem pieces_ne_nil (separator : Char) (text : List Char) : pieces separator text ≠ [] := by
  cases text with
  | nil => simp [pieces]
  | cons c rest =>
    unfold pieces
    split
    · simp
    · split <;> simp

/-- A separator between two texts keeps their pieces apart. -/
theorem pieces_append (separator : Char) (before after : List Char) :
    pieces separator (before ++ separator :: after)
      = pieces separator before ++ pieces separator after := by
  induction before with
  | nil => simp [pieces]
  | cons c rest ih =>
    simp only [List.cons_append, pieces, ih]
    split
    · simp
    · cases h : pieces separator rest with
      | nil => exact absurd h (pieces_ne_nil separator rest)
      | cons piece more => simp

theorem splitFirst?_of_not_mem {separator : Char} {text : List Char} (h : separator ∉ text) :
    splitFirst? separator text = none := by
  induction text with
  | nil => rfl
  | cons c rest ih =>
    rw [List.mem_cons, not_or] at h
    rw [splitFirst?, if_neg (Ne.symm h.1), ih h.2, Option.map_none]

theorem splitFirst?_append_cons {separator : Char} {before : List Char} (h : separator ∉ before)
    (after : List Char) :
    splitFirst? separator (before ++ separator :: after) = some (before, after) := by
  induction before with
  | nil => exact if_pos rfl
  | cons c rest ih =>
    rw [List.mem_cons, not_or] at h
    rw [List.cons_append, splitFirst?, if_neg (Ne.symm h.1), ih h.2, Option.map_some]

/-- A text cannot be cut where it has no separator. -/
theorem splitFirst?_eq_none_iff {separator : Char} {text : List Char} :
    splitFirst? separator text = none ↔ separator ∉ text := by
  refine ⟨fun h hmem => ?_, splitFirst?_of_not_mem⟩
  obtain ⟨before, after, rfl, hbefore⟩ := List.eq_append_cons_of_mem hmem
  rw [splitFirst?_append_cons hbefore] at h
  cases h

/-- A text is cut where no separator is before. -/
theorem splitFirst?_eq_some_iff {separator : Char} {text before after : List Char} :
    splitFirst? separator text = some (before, after) ↔
      separator ∉ before ∧ text = before ++ separator :: after := by
  constructor
  · intro h
    have hmem : separator ∈ text := by
      refine Decidable.byContradiction fun hnot => ?_
      rw [splitFirst?_of_not_mem hnot] at h
      cases h
    obtain ⟨front, back, rfl, hfront⟩ := List.eq_append_cons_of_mem hmem
    rw [splitFirst?_append_cons hfront] at h
    cases h
    exact ⟨hfront, rfl⟩
  · intro h
    obtain ⟨hbefore, rfl⟩ := h
    exact splitFirst?_append_cons hbefore after

/-! ## 2. Numerals -/

/-- The value of a digit; letters stand for ten and above, in either case. -/
def digit? (c : Char) : Option Nat :=
  if '0' ≤ c ∧ c ≤ '9' then some (c.toNat - '0'.toNat)
  else if 'a' ≤ c ∧ c ≤ 'f' then some (c.toNat - 'a'.toNat + 10)
  else if 'A' ≤ c ∧ c ≤ 'F' then some (c.toNat - 'A'.toNat + 10)
  else none

/-- The value of a non-empty text that consists of digits of the base. -/
def numeral? (base : Nat) : List Char → Option Nat
  | [] => none
  | digits => digits.foldlM (fun n c =>
      (digit? c).bind fun d => if d < base then some (n * base + d) else none) 0

/-- A decimal numeral with an optional sign of either kind. -/
def signed? : List Char → Option Int
  | '-' :: digits => (numeral? 10 digits).map fun n => -(n : Int)
  | '+' :: digits => (numeral? 10 digits).map fun n => (n : Int)
  | digits => (numeral? 10 digits).map fun n => (n : Int)

/-- A position: a decimal numeral below `2 ^ 64`, with an optional plus sign. -/
def index? (text : String) : Option Nat :=
  let digits := match text.toList with
    | '+' :: rest => rest
    | all => all
  (numeral? 10 digits).filter (· < 0x10000000000000000)

end Picklist.Text
