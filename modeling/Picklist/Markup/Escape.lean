/-!
# Escaping text in markup

Ampersands, angle brackets and quotes are written as entities, all else stands for itself.
-/

namespace Picklist.Markup

/-- How text is made safe for markup. -/
abbrev Escaper := String → String

/-- A character inside markup. -/
def escapedChar (c : Char) : List Char :=
  match c with
  | '&' => ['&', 'a', 'm', 'p', ';']
  | '<' => ['&', 'l', 't', ';']
  | '>' => ['&', 'g', 't', ';']
  | '"' => ['&', 'q', 'u', 'o', 't', ';']
  | '\'' => ['&', '#', '0', '3', '9', ';']
  | c => [c]

/-- The characters of a text inside markup. -/
def escapedChars (text : List Char) : List Char := text.flatMap escapedChar

/-- A text inside markup. -/
def escape : Escaper := fun text => String.ofList (escapedChars text.toList)

/-- Escaping goes piece by piece. -/
theorem escapedChars_append (before after : List Char) :
    escapedChars (before ++ after) = escapedChars before ++ escapedChars after := by
  simp [escapedChars]

end Picklist.Markup
