import Picklist.Json.Reading

/-!
# Catalogs

A localizer turns a text into what the reader of a menu sees. A catalog is a table of
localized texts; a text that it does not hold stays as it is.
-/

namespace Picklist

/-- What a text becomes for its readers. -/
abbrev Localizer := String → String

/-- The localized text of each source text. -/
structure Catalog where
  localized : Members String

namespace Catalog

/-- The catalog without texts. -/
def empty : Catalog := ⟨[]⟩

/-- The catalog of source and target texts; the last target of a source counts. -/
def ofPairs (pairs : List (String × String)) : Catalog := ⟨Members.ofPairs pairs⟩

/-- The localized text of a text, or the text itself. -/
def localize (catalog : Catalog) : Localizer := fun text =>
  (catalog.localized.lookup text).getD text

/-- The number of source texts. -/
def size (catalog : Catalog) : Nat := catalog.localized.length

/-- The catalog that a JSON object of strings writes; every member must be a string. -/
def read? (text : String) : Option Catalog :=
  (do Json.blanks
      Reader.expect '{'
      let pairs ← Json.members do
        Json.blanks
        Reader.expect '"'
        Json.stringBody
      Json.blanks
      return ofPairs pairs : Reader Char Catalog).run? text.toList

end Catalog

end Picklist
