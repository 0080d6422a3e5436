import Picklist.Markup
import Picklist.Proofs.Markup.Entities
import Picklist.Proofs.Reader

/-!
# The grammar of markup

Markup is a sequence of option elements and of groups of them:

    ( <option( NAME="TEXT")*>TEXT</option>
    | <optgroup label="TEXT">( <option( NAME="TEXT")*>TEXT</option> )*</optgroup> )*

A NAME is a valid attribute name, a TEXT holds no angle bracket and no quote. What a text of the
grammar stands for are the elements with their names and texts as they are written.

* `IsAttribute`, `IsOption`, `IsElement`, `IsDocument`: the grammar;
* `readAttribute`, `readOption`, `readElement`, `readDocument?`: its reader;
* `readDocument?_eq_some_iff`: the reader accepts exactly the texts of the grammar, so no text
  stands for two lists of elements.
-/

namespace Picklist.Markup

open Reader

/-! ## 1. The grammar -/

/-- A text of markup, as it is written. -/
def IsText (text : List Char) : Prop := ∀ c ∈ text, isTextChar c = true

/-- An attribute with a blank before it. -/
inductive IsAttribute : Language Char (String × String) where
  | mk {name value : List Char} (hname : isAttributeName (String.ofList name) = true)
      (hvalue : IsText value) :
      IsAttribute (' ' :: name ++ "=\"".toList ++ value ++ ['"'])
        (String.ofList name, String.ofList value)

/-- An option element. -/
inductive IsOption : Language Char OptionElement where
  | mk {written title : List Char} {attributes : Members String}
      (hattributes : Many IsAttribute written attributes) (htitle : IsText title) :
      IsOption ("<option".toList ++ written ++ ">".toList ++ title ++ "</option>".toList)
        ⟨attributes, String.ofList title⟩

/-- An option, or a group of options with its label. -/
inductive IsElement : Language Char Element where
  | single {written : List Char} {option : OptionElement} (hoption : IsOption written option) :
      IsElement written (.single option)
  | group {label written : List Char} {options : List OptionElement} (hlabel : IsText label)
      (hoptions : Many IsOption written options) :
      IsElement
        ("<optgroup label=\"".toList ++ label ++ "\">".toList ++ written ++ "</optgroup>".toList)
        (.group (String.ofList label) options)

/-- Elements one after the other, and nothing else. -/
abbrev IsDocument : Language Char (List Element) := Many IsElement

/-! ## 2. The reader -/

/-- Reads an attribute. -/
def readAttribute : Reader Char (String × String) := do
  expect ' '
  let name ← takeSome fun c => !endsName c
  expectAll "=\"".toList
  let value ← takeWhile isTextChar
  expect '"'
  return (String.ofList name, String.ofList value)

/-- Reads an option element. -/
def readOption : Reader Char OptionElement := do
  expectAll "<option".toList
  let attributes ← many readAttribute
  expectAll ">".toList
  let title ← takeWhile isTextChar
  expectAll "</option>".toList
  return ⟨attributes, String.ofList title⟩

/-- Reads a group. -/
def readGroup : Reader Char Element := do
  expectAll "<optgroup label=\"".toList
  let label ← takeWhile isTextChar
  expectAll "\">".toList
  let options ← many readOption
  expectAll "</optgroup>".toList
  return .group (String.ofList label) options

/-- Reads an option or else a group. -/
def readElement : Reader Char Element := fun input =>
  match readOption input with
  | some (option, rest) => some (.single option, rest)
  | none => readGroup input

/-- The elements of a whole text, if it is one of the grammar. -/
def readDocument? (text : String) : Option (List Element) :=
  (many readElement).run? text.toList

/-! ## 3. The reader accepts exactly the grammar -/

theorem isAttributeName_ofList {name : List Char} :
    isAttributeName (String.ofList name) = true ↔ name ≠ [] ∧ ∀ c ∈ name, (!endsName c) = true := by
  simp [isAttributeName]

theorem reads_attribute : Reads readAttribute IsAttribute where
  sound := by
    intro input a rest h
    simp only [readAttribute, bind_eq_some_iff, expect_eq_some_iff, takeSome_eq_some_iff,
      takeWhile_eq_some_iff, expectAll_eq_some_iff, pure_eq_some_iff] at h
    obtain ⟨_, _, rfl, name, _, ⟨⟨rfl, hname, _⟩, hne⟩, _, _, rfl, value, _, ⟨rfl, hvalue, _⟩,
      _, _, rfl, rfl, rfl⟩ := h
    exact ⟨_, by simp, .mk (isAttributeName_ofList.mpr ⟨hne, hname⟩) hvalue⟩
  complete := by
    intro front a h rest
    obtain ⟨hname, hvalue⟩ := h
    rename_i name value
    obtain ⟨hne, hname⟩ := isAttributeName_ofList.mp hname
    simp only [readAttribute, bind_eq_some_iff, expect_eq_some_iff, takeSome_eq_some_iff,
      takeWhile_eq_some_iff, expectAll_eq_some_iff, pure_eq_some_iff]
    refine ⟨(), _, rfl, name, "=\"".toList ++ (value ++ '"' :: rest), ⟨⟨?_, hname, ?_⟩, hne⟩, (),
      _, rfl, value, '"' :: rest, ⟨rfl, hvalue, ?_⟩, (), rest, rfl, rfl, rfl⟩
    · simp
    · have hstop : endsName '=' = true := by decide
      simpa using hstop
    · have hstop : isTextChar '"' = false := by decide
      simpa using hstop

theorem IsAttribute.ne_nil (written : List Char) (member : String × String)
    (h : IsAttribute written member) : written ≠ [] := by
  cases h
  simp

/-- Where no blank is next there is no attribute. -/
theorem readAttribute_eq_none {input : List Char} (h : input.head? ≠ some ' ') :
    readAttribute input = none :=
  reads_attribute.eq_none fun written member rest hmember hinput => by
    subst hinput
    cases hmember
    simp at h

theorem reads_option : Reads readOption IsOption where
  sound := by
    intro input a rest h
    simp only [readOption, bind_eq_some_iff, takeWhile_eq_some_iff, expectAll_eq_some_iff,
      pure_eq_some_iff] at h
    obtain ⟨_, _, rfl, attributes, _, hattributes, _, _, rfl, title, _, ⟨rfl, htitle, _⟩, _, _, rfl,
      rfl, rfl⟩ := h
    obtain ⟨written, rfl, hmany⟩ := many_sound reads_attribute hattributes
    exact ⟨_, by simp, .mk hmany htitle⟩
  complete := by
    intro front a h rest
    obtain ⟨hattributes, htitle⟩ := h
    rename_i written title attributes
    simp only [readOption, bind_eq_some_iff, takeWhile_eq_some_iff, expectAll_eq_some_iff,
      pure_eq_some_iff]
    refine ⟨(), written ++ (">".toList ++ (title ++ ("</option>".toList ++ rest))), by simp,
      attributes, _, ?_, (), _, rfl, title, _, ⟨rfl, htitle, ?_⟩, (), _, rfl, rfl, rfl⟩
    · refine many_complete reads_attribute IsAttribute.ne_nil hattributes ?_
      exact readAttribute_eq_none (by simp)
    · have hstop : isTextChar '<' = false := by decide
      simpa using hstop

theorem IsOption.ne_nil (written : List Char) (option : OptionElement)
    (h : IsOption written option) : written ≠ [] := by
  cases h
  simp

theorem readOption_eq_none {input : List Char} (h : input.take 7 ≠ "<option".toList) :
    readOption input = none :=
  reads_option.eq_none fun written option rest hoption hinput => by
    subst hinput
    cases hoption
    simp at h

theorem reads_element : Reads readElement IsElement where
  sound := by
    intro input a rest h
    unfold readElement at h
    cases hoption : readOption input with
    | some p =>
      rw [hoption] at h
      cases h
      obtain ⟨written, rfl, hwritten⟩ := reads_option.sound hoption
      exact ⟨written, rfl, .single hwritten⟩
    | none =>
      rw [hoption] at h
      simp only [readGroup, bind_eq_some_iff, takeWhile_eq_some_iff, expectAll_eq_some_iff,
        pure_eq_some_iff] at h
      obtain ⟨_, _, rfl, label, _, ⟨rfl, hlabel, _⟩, _, _, rfl, options, _, hoptions, _, _, rfl,
        rfl, rfl⟩ := h
      obtain ⟨written, rfl, hmany⟩ := many_sound reads_option hoptions
      exact ⟨_, by simp, .group hlabel hmany⟩
  complete := by
    intro front a h rest
    unfold readElement
    cases h with
    | single hoption => rw [reads_option.complete hoption]
    | @group label written options hlabel hoptions =>
      -- both start with `<opt`, the next character tells them apart
      rw [readOption_eq_none (by simp)]
      simp only [readGroup, bind_eq_some_iff, takeWhile_eq_some_iff, expectAll_eq_some_iff,
        pure_eq_some_iff]
      refine ⟨(), label ++ ("\">".toList ++ (written ++ ("</optgroup>".toList ++ rest))), by simp,
        label, _, ⟨rfl, hlabel, ?_⟩, (), _, rfl, options, _, ?_, (), _, rfl, rfl, rfl⟩
      · have hstop : isTextChar '"' = false := by decide
        simpa using hstop
      · exact many_complete reads_option IsOption.ne_nil hoptions (readOption_eq_none (by simp))

theorem IsElement.ne_nil (written : List Char) (element : Element) (h : IsElement written element) :
    written ≠ [] := by
  cases h with
  | single hoption => exact hoption.ne_nil
  | group => simp

/-- **The reader accepts exactly the grammar.** Every text of the grammar is read as what it stands
    for, so it stands for one list of elements only. -/
theorem readDocument?_eq_some_iff {text : String} {elements : List Element} :
    readDocument? text = some elements ↔ IsDocument text.toList elements :=
  run?_many_eq_some_iff reads_element IsElement.ne_nil

end Picklist.Markup
