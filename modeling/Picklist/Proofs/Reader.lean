import Mathlib.Data.List.TakeDrop
import Mathlib.Data.List.TakeWhile
import Picklist.Reader

/-!
# What readers take

Each reader is characterised by the symbols that it takes off the front of its input.

* `bind_eq_some_iff`, `expectAll_eq_some_iff`, `takeWhile_eq_some_iff`: the single steps;
* `Reader.Reads`: a reader takes exactly the lists of a language, each with what it stands for,
  and leaves alone whatever follows;
* `Reader.many`: one item after the other, as long as the next one can be read;
* `many_sound`, `many_complete`: the items of a language, where what follows is no item.
-/

namespace Picklist.Reader

variable {σ α β : Type}

/-! ## 1. Single steps -/

/-- A sequence takes what its parts take, one after the other. -/
theorem bind_eq_some_iff {first : Reader σ α} {next : α → Reader σ β} {input rest : List σ}
    {b : β} : (first >>= next) input = some (b, rest) ↔
      ∃ a between, first input = some (a, between) ∧ next a between = some (b, rest) := by
  have hbind : (first >>= next) input = (first input).bind fun p => next p.1 p.2 := rfl
  rw [hbind, Option.bind_eq_some_iff]
  exact ⟨fun ⟨⟨a, between⟩, h⟩ => ⟨a, between, h⟩, fun ⟨a, between, h⟩ => ⟨⟨a, between⟩, h⟩⟩

theorem pure_eq_some_iff {a b : α} {input rest : List σ} :
    (pure a : Reader σ α) input = some (b, rest) ↔ b = a ∧ input = rest := by
  have hpure : (pure a : Reader σ α) input = some (a, input) := rfl
  rw [hpure, Option.some.injEq, Prod.mk.injEq, @eq_comm _ a]

/-- A symbol that is not next stays away, and nothing is taken. -/
theorem accept_of_ne [BEq σ] [LawfulBEq σ] {symbol first : σ} (h : first ≠ symbol) (rest : List σ) :
    accept symbol (first :: rest) = some (false, first :: rest) := by
  rw [accept, if_neg (by simpa using h)]

theorem expect_eq_some_iff [BEq σ] [LawfulBEq σ] {symbol : σ} {input rest : List σ} {u : Unit} :
    expect symbol input = some (u, rest) ↔ input = symbol :: rest := by
  unfold expect
  rw [bind_eq_some_iff]
  cases input with
  | nil => simp [accept, refuse]
  | cons first tail =>
    by_cases h : first = symbol
    · subst h
      have hunit : (pure () : Reader σ Unit) tail = some (u, rest) ↔ u = () ∧ tail = rest :=
        pure_eq_some_iff
      simpa [accept] using hunit
    · simp [accept, refuse, h]

/-- A word is taken where it is next. -/
theorem expectAll_eq_some_iff [BEq σ] [LawfulBEq σ] {word input rest : List σ} {u : Unit} :
    expectAll word input = some (u, rest) ↔ input = word ++ rest := by
  induction word generalizing input with
  | nil => exact pure_eq_some_iff.trans (by simp)
  | cons symbol word ih =>
    unfold expectAll
    simp only [bind_eq_some_iff, expect_eq_some_iff, ih]
    constructor
    · intro h
      obtain ⟨_, between, rfl, rfl⟩ := h
      rfl
    · intro h
      subst h
      exact ⟨(), word ++ rest, rfl, rfl⟩

/-- The longest front that passes a test is taken, and nothing that passes follows it. -/
theorem takeWhile_eq_some_iff {test : σ → Bool} {input front rest : List σ} :
    takeWhile test input = some (front, rest) ↔
      input = front ++ rest ∧ (∀ s ∈ front, test s = true) ∧ ∀ s ∈ rest.head?, test s = false := by
  unfold takeWhile
  rw [Option.some.injEq, List.span_eq_takeWhile_dropWhile, Prod.mk.injEq]
  constructor
  · intro h
    obtain ⟨rfl, rfl⟩ := h
    refine ⟨(List.takeWhile_append_dropWhile).symm, fun s hs => List.mem_takeWhile_imp hs, ?_⟩
    intro s hs
    have hdrop := List.head?_dropWhile_not test input
    rw [hs] at hdrop
    simpa using hdrop
  · intro h
    obtain ⟨rfl, hfront, hrest⟩ := h
    rw [List.takeWhile_append_of_pos hfront, List.dropWhile_append_of_pos hfront]
    cases rest with
    | nil => simp
    | cons s rest =>
      have hs := hrest s rfl
      simp [hs]

theorem takeSome_eq_some_iff {test : σ → Bool} {input front rest : List σ} :
    takeSome test input = some (front, rest) ↔
      takeWhile test input = some (front, rest) ∧ front ≠ [] := by
  unfold takeSome
  rw [bind_eq_some_iff]
  constructor
  · intro h
    obtain ⟨taken, between, htaken, h⟩ := h
    cases taken with
    | nil => cases h
    | cons s taken =>
      obtain ⟨rfl, rfl⟩ := pure_eq_some_iff.mp h
      exact ⟨htaken, List.cons_ne_nil _ _⟩
  · intro h
    obtain ⟨htaken, hne⟩ := h
    refine ⟨front, rest, htaken, ?_⟩
    cases front with
    | nil => exact absurd rfl hne
    | cons s front => rfl

/-! ## 2. Languages -/

/-- A language with meanings: which lists stand for what. -/
abbrev Language (σ α : Type) := List σ → α → Prop

/-- A reader takes exactly the lists of a language off the front of any input. -/
structure Reads (item : Reader σ α) (language : Language σ α) : Prop where
  sound : ∀ {input a rest}, item input = some (a, rest) →
    ∃ front, input = front ++ rest ∧ language front a
  complete : ∀ {front a}, language front a → ∀ rest, item (front ++ rest) = some (a, rest)

/-- The lists of a language, one after the other. -/
inductive Many (language : Language σ α) : Language σ (List α) where
  | nil : Many language [] []
  | cons {front rest : List σ} {a : α} {as : List α} (hfirst : language front a)
      (hmore : Many language rest as) : Many language (front ++ rest) (a :: as)

theorem many_flatMap {γ : Type} {language : Language σ α} {l : List γ} {written : γ → List σ}
    {meant : γ → α} (h : ∀ c ∈ l, language (written c) (meant c)) :
    Many language (l.flatMap written) (l.map meant) := by
  induction l with
  | nil => exact .nil
  | cons c rest ih =>
    rw [List.forall_mem_cons] at h
    rw [List.flatMap_cons, List.map_cons]
    exact .cons h.1 (ih h.2)

/-- `many` with a bound on the number of items. -/
def manyWithin (item : Reader σ α) : Nat → Reader σ (List α)
  | 0, input => some ([], input)
  | bound + 1, input =>
    match item input with
    | some (a, rest) => (manyWithin item bound rest).map fun (as, last) => (a :: as, last)
    | none => some ([], input)

/-- Reads items as long as the next one can be read. Items that take a symbol are at most as many
    as there are symbols. -/
def many (item : Reader σ α) : Reader σ (List α) := fun input => manyWithin item input.length input

variable {item : Reader σ α} {language : Language σ α}

/-- Where no list of the language is next, nothing is read. -/
theorem Reads.eq_none (h : Reads item language) {input : List σ}
    (hinput : ∀ front a rest, language front a → input ≠ front ++ rest) : item input = none := by
  cases hitem : item input with
  | none => rfl
  | some p =>
    obtain ⟨front, hfront, hlanguage⟩ := h.sound hitem
    exact absurd hfront (hinput front p.1 p.2 hlanguage)

/-- What is read are items of the language. -/
theorem many_sound (h : Reads item language) {input rest : List σ} {as : List α}
    (hread : many item input = some (as, rest)) :
    ∃ front, input = front ++ rest ∧ Many language front as := by
  have hwithin : ∀ bound input as, manyWithin item bound input = some (as, rest) →
      ∃ front, input = front ++ rest ∧ Many language front as := by
    intro bound
    induction bound with
    | zero =>
      intro input as hread
      cases hread
      exact ⟨[], rfl, .nil⟩
    | succ bound ih =>
      intro input as hread
      unfold manyWithin at hread
      cases hitem : item input with
      | none =>
        rw [hitem] at hread
        cases hread
        exact ⟨[], rfl, .nil⟩
      | some p =>
        obtain ⟨a, between⟩ := p
        rw [hitem] at hread
        obtain ⟨⟨more, last⟩, hmore, he⟩ := Option.map_eq_some_iff.mp hread
        cases he
        obtain ⟨first, rfl, hfirst⟩ := h.sound hitem
        obtain ⟨front, rfl, hfront⟩ := ih between more hmore
        exact ⟨first ++ front, (List.append_assoc ..).symm, .cons hfirst hfront⟩
  exact hwithin _ _ _ hread

/-- Items of the language are read, if none is empty and what follows them is no item. -/
theorem many_complete (h : Reads item language) (hne : ∀ front a, language front a → front ≠ [])
    {front rest : List σ} {as : List α} (hfront : Many language front as)
    (hrest : item rest = none) : many item (front ++ rest) = some (as, rest) := by
  -- every item takes a symbol, so a bound by the symbols of the items is enough
  have hwithin : ∀ bound, front.length ≤ bound →
      manyWithin item bound (front ++ rest) = some (as, rest) := by
    induction hfront with
    | nil =>
      intro bound _
      cases bound with
      | zero => rfl
      | succ bound => rw [List.nil_append, manyWithin, hrest]
    | @cons first more a as hfirst hmore ih =>
      intro bound hbound
      have hlength : 0 < first.length := List.length_pos_iff.mpr (hne first a hfirst)
      rw [List.length_append] at hbound
      cases bound with
      | zero => omega
      | succ bound =>
        rw [List.append_assoc, manyWithin, h.complete hfirst]
        simp only [ih bound (by omega), Option.map_some]
  exact hwithin _ (by rw [List.length_append]; omega)

/-- A reader of whole inputs accepts exactly the items of the language. -/
theorem run?_many_eq_some_iff (h : Reads item language)
    (hne : ∀ front a, language front a → front ≠ []) {input : List σ} {as : List α} :
    (many item).run? input = some as ↔ Many language input as := by
  have hnil : item [] = none := h.eq_none fun front a rest hlanguage hfront =>
    hne front a hlanguage (List.append_eq_nil_iff.mp hfront.symm).1
  unfold run?
  constructor
  · intro hread
    cases hmany : many item input with
    | none => simp [hmany] at hread
    | some p =>
      obtain ⟨more, rest⟩ := p
      rw [hmany] at hread
      cases rest with
      | nil =>
        cases hread
        obtain ⟨front, rfl, hfront⟩ := many_sound h hmany
        rw [List.append_nil]
        exact hfront
      | cons s rest => cases hread
  · intro hmany
    have hread := many_complete h hne hmany hnil
    rw [List.append_nil] at hread
    rw [hread]

end Picklist.Reader
