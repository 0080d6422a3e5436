import Mathlib.Init
import Picklist.Markup.Escape

/-!
# Undoing entities

Escaped text is read back in one pass from left to right: each of the five entities stands for its
character, and everything else, a stray ampersand included, for itself.

* `unescape_escape`: undoing the entities of an escaped text gives the text;
* `isTextChar_of_mem_escape`: an escaped text holds no angle bracket and no quote;
* `IsEscaped`, `isEscaped_iff`: what escaping leaves, said without it;
* `escaping_reversible`: all of these together.
-/

namespace Picklist.Markup

/-! ## 1. Undoing -/

/-- The characters that an escaped text stands for. -/
def unescapedChars : List Char → List Char
  | '&' :: 'a' :: 'm' :: 'p' :: ';' :: rest => '&' :: unescapedChars rest
  | '&' :: 'l' :: 't' :: ';' :: rest => '<' :: unescapedChars rest
  | '&' :: 'g' :: 't' :: ';' :: rest => '>' :: unescapedChars rest
  | '&' :: 'q' :: 'u' :: 'o' :: 't' :: ';' :: rest => '"' :: unescapedChars rest
  | '&' :: '#' :: '0' :: '3' :: '9' :: ';' :: rest => '\'' :: unescapedChars rest
  | c :: rest => c :: unescapedChars rest
  | [] => []

/-- The text that an escaped text stands for. -/
def unescape (text : String) : String := String.ofList (unescapedChars text.toList)

/-- A character that can stand in the text of markup: no angle bracket and no quote. -/
def isTextChar (c : Char) : Bool := c ∉ ['<', '>', '"', '\'']

/-- The characters that have an entity. -/
def specialChars : List Char := ['&', '<', '>', '"', '\'']

/-- All other characters stand for themselves. -/
theorem escapedChar_of_not_mem {c : Char} (h : c ∉ specialChars) : escapedChar c = [c] := by
  unfold escapedChar
  split <;> simp_all [specialChars]

/-- Nothing but an ampersand begins an entity. -/
theorem unescapedChars_cons {c : Char} (h : c ≠ '&') (rest : List Char) :
    unescapedChars (c :: rest) = c :: unescapedChars rest := by
  rw [unescapedChars]
  all_goals exact fun _ e => absurd e h

/-- The entity of a character stands for the character, whatever follows. -/
theorem unescapedChars_escapedChar (c : Char) (rest : List Char) :
    unescapedChars (escapedChar c ++ rest) = c :: unescapedChars rest := by
  by_cases h : c ∈ specialChars
  · simp only [specialChars, List.mem_cons, List.not_mem_nil, or_false] at h
    rcases h with rfl | rfl | rfl | rfl | rfl <;> rfl
  · have hne : c ≠ '&' := fun e => h (by simp [specialChars, e])
    rw [escapedChar_of_not_mem h]
    exact unescapedChars_cons hne rest

theorem isTextChar_of_mem_escapedChar {c d : Char} (h : d ∈ escapedChar c) :
    isTextChar d = true := by
  by_cases hc : c ∈ specialChars
  · have hall : (specialChars.all fun c => (escapedChar c).all isTextChar) = true := by decide
    exact List.all_eq_true.mp (List.all_eq_true.mp hall c hc) d h
  · rw [escapedChar_of_not_mem hc, List.mem_singleton] at h
    subst h
    simp only [specialChars, List.mem_cons, not_or] at hc
    simp [isTextChar, hc]

theorem unescapedChars_escapedChars (text : List Char) :
    unescapedChars (escapedChars text) = text := by
  induction text with
  | nil => rfl
  | cons c rest ih =>
    have hcons : escapedChars (c :: rest) = escapedChar c ++ escapedChars rest := rfl
    rw [hcons, unescapedChars_escapedChar, ih]

/-- **Undoing the entities of an escaped text gives the text.** -/
theorem unescape_escape (text : String) : unescape (escape text) = text := by
  unfold unescape escape
  rw [String.toList_ofList, unescapedChars_escapedChars, String.ofList_toList]

/-- **An escaped text holds no angle bracket and no quote.** -/
theorem isTextChar_of_mem_escape {text : String} {c : Char} (h : c ∈ (escape text).toList) :
    isTextChar c = true := by
  unfold escape at h
  rw [String.toList_ofList, escapedChars, List.mem_flatMap] at h
  obtain ⟨d, _, hc⟩ := h
  exact isTextChar_of_mem_escapedChar hc

/-! ## 2. What escaping leaves -/

/-- The entities. -/
def entities : List String := ["&amp;", "&lt;", "&gt;", "&quot;", "&#039;"]

/-- Characters as escaping leaves them: no angle bracket and no quote, and no stray ampersand. -/
structure IsEscaped (chars : List Char) : Prop where
  text : ∀ c ∈ chars, isTextChar c = true
  /-- Every ampersand begins an entity. -/
  entity : ∀ before after, chars = before ++ '&' :: after →
    ∃ entity ∈ entities, entity.toList <+: '&' :: after

theorem isEscaped_nil : IsEscaped [] :=
  ⟨fun _ h => absurd h List.not_mem_nil,
    fun _ _ h => absurd h.symm (List.append_ne_nil_of_right_ne_nil _ (List.cons_ne_nil _ _))⟩

theorem isEscaped_cons_iff {c : Char} {rest : List Char} :
    IsEscaped (c :: rest) ↔ isTextChar c = true ∧
      (c = '&' → ∃ entity ∈ entities, entity.toList <+: c :: rest) ∧ IsEscaped rest := by
  constructor
  · intro h
    obtain ⟨htext, hentity⟩ := h
    rw [List.forall_mem_cons] at htext
    refine ⟨htext.1, fun hc => ?_, htext.2, fun before after hsplit => ?_⟩
    · subst hc
      exact hentity [] rest rfl
    · exact hentity (c :: before) after (congrArg (c :: ·) hsplit)
  · intro h
    obtain ⟨hc, hhere, hrest⟩ := h
    refine ⟨List.forall_mem_cons.mpr ⟨hc, hrest.text⟩, fun before after hsplit => ?_⟩
    rcases List.cons_eq_append_iff.mp hsplit with ⟨rfl, hafter⟩ | ⟨more, rfl, hmore⟩
    · obtain ⟨rfl, rfl⟩ := List.cons.inj hafter
      exact hhere rfl
    · exact hrest.entity more after hmore

theorem IsEscaped.of_append {before after : List Char} (h : IsEscaped (before ++ after)) :
    IsEscaped after := by
  induction before with
  | nil => exact h
  | cons c before ih => exact ih (isEscaped_cons_iff.mp h).2.2

/-- A character that is written in front of escaped characters leaves them escaped. -/
theorem isEscaped_escapedChar_append (c : Char) {rest : List Char} (h : IsEscaped rest) :
    IsEscaped (escapedChar c ++ rest) := by
  by_cases hc : c ∈ specialChars
  · -- the characters of an entity behind its ampersand are plain ones
    simp only [specialChars, List.mem_cons, List.not_mem_nil, or_false] at hc
    rcases hc with rfl | rfl | rfl | rfl | rfl <;>
      simp [escapedChar, isEscaped_cons_iff, isTextChar, entities, h]
  · have hself : escapedChar c = [c] := escapedChar_of_not_mem hc
    have htext : isTextChar c = true :=
      isTextChar_of_mem_escapedChar (hself ▸ List.mem_singleton_self c)
    rw [hself]
    exact isEscaped_cons_iff.mpr ⟨htext, fun e => absurd (by simp [specialChars, e]) hc, h⟩

theorem isEscaped_escapedChars (text : List Char) : IsEscaped (escapedChars text) := by
  induction text with
  | nil => exact isEscaped_nil
  | cons c rest ih => exact isEscaped_escapedChar_append c ih

/-- Every entity is written for a character. -/
theorem exists_escapedChar_of_mem_entities {entity : String} (h : entity ∈ entities) :
    ∃ c, escapedChar c = entity.toList := by
  simp only [entities, List.mem_cons, List.not_mem_nil, or_false] at h
  rcases h with rfl | rfl | rfl | rfl | rfl
  · exact ⟨'&', rfl⟩
  · exact ⟨'<', rfl⟩
  · exact ⟨'>', rfl⟩
  · exact ⟨'"', rfl⟩
  · exact ⟨'\'', rfl⟩

theorem escapedChar_ne_nil (c : Char) : escapedChar c ≠ [] := by
  unfold escapedChar
  split <;> exact List.cons_ne_nil _ _

/-- Escaped characters begin with what is written for some character. -/
theorem IsEscaped.exists_escapedChar_append {c : Char} {rest : List Char}
    (h : IsEscaped (c :: rest)) : ∃ d more, c :: rest = escapedChar d ++ more := by
  obtain ⟨htext, hentity, _⟩ := isEscaped_cons_iff.mp h
  by_cases hc : c = '&'
  · obtain ⟨entity, hmem, more, hmore⟩ := hentity hc
    obtain ⟨d, hd⟩ := exists_escapedChar_of_mem_entities hmem
    exact ⟨d, more, by rw [hd, hmore]⟩
  · have hplain : c ∉ specialChars := by
      simp only [isTextChar, decide_eq_true_eq] at htext
      exact List.not_mem_cons_of_ne_of_not_mem hc htext
    exact ⟨c, rest, by rw [escapedChar_of_not_mem hplain, List.singleton_append]⟩

/-- **Escaped characters are written for some text.** The induction takes off what is written for
    one character at a time. -/
theorem IsEscaped.exists_escapedChars {chars : List Char} (h : IsEscaped chars) :
    ∃ text, escapedChars text = chars := by
  cases chars with
  | nil => exact ⟨[], rfl⟩
  | cons c rest =>
    obtain ⟨d, more, hsplit⟩ := h.exists_escapedChar_append
    have hshorter : more.length < (c :: rest).length := by
      have hd : 0 < (escapedChar d).length := List.length_pos_iff.mpr (escapedChar_ne_nil d)
      rw [hsplit, List.length_append]
      omega
    rw [hsplit] at h
    obtain ⟨text, htext⟩ := h.of_append.exists_escapedChars
    exact ⟨d :: text, by rw [hsplit, ← htext]; rfl⟩
termination_by chars.length

/-- **What escaping leaves** is what is written again once its entities are undone. -/
theorem isEscaped_iff {chars : List Char} :
    IsEscaped chars ↔ escapedChars (unescapedChars chars) = chars := by
  constructor
  · intro h
    obtain ⟨text, rfl⟩ := h.exists_escapedChars
    rw [unescapedChars_escapedChars]
  · intro h
    rw [← h]
    exact isEscaped_escapedChars _

/-- **Escaping can be undone.** An escaped text holds no angle bracket and no quote, and every
    ampersand in it begins one of the five entities; undoing these in one pass from left to right
    gives back the text, so no two texts are escaped alike. The texts with the first two properties
    are exactly those that are written again once their entities are undone. Texts are escaped
    piece by piece. -/
theorem escaping_reversible :
    (∀ text, IsEscaped (escape text).toList) ∧
    (∀ text, unescape (escape text) = text) ∧
    Function.Injective escape ∧
    (∀ written, IsEscaped written.toList ↔ escape (unescape written) = written) ∧
    ∀ before after, escape (before ++ after) = escape before ++ escape after := by
  refine ⟨fun text => ?_, unescape_escape, fun text other h => ?_, fun written => ?_,
    fun before after => ?_⟩
  · rw [escape, String.toList_ofList]
    exact isEscaped_escapedChars _
  · rw [← unescape_escape text, h, unescape_escape]
  · rw [isEscaped_iff, ← String.toList_inj, escape, unescape, String.toList_ofList,
      String.toList_ofList]
  · rw [escape, escape, escape, String.toList_append, escapedChars_append, String.ofList_append]

/-- A text that looks escaped but for the ampersand at its end. -/
theorem escaping_reversible_lookalike :
    escape "&amp;lt; &" = "&amp;amp;lt; &amp;" ∧
      unescape "&amp;amp;lt; &amp;" = "&amp;lt; &" ∧
      IsEscaped "&amp;amp;lt; &amp;".toList ∧ ¬ IsEscaped "&amp;lt; &".toList := by
  have hescape : escape "&amp;lt; &" = "&amp;amp;lt; &amp;" := by decide
  obtain ⟨hescaped, hundone, _, hwritten, _⟩ := escaping_reversible
  refine ⟨hescape, hescape ▸ hundone _, hescape ▸ hescaped _, fun h => ?_⟩
  exact absurd ((hwritten _).mp h) (by decide)

end Picklist.Markup
