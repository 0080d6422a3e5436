import Picklist.Catalog
import Picklist.Json.Reading
import Picklist.LoadError
import Picklist.Toml.Reading
import Picklist.Yaml.Reading

/-!
# Configuration documents

A document is a value written in JSON, TOML or YAML. The extension of its file says which.
-/

namespace Picklist

/-- A format of documents. -/
inductive Format where
  | json
  | toml
  | yaml
deriving DecidableEq

namespace Format

/-- The format with an extension in lower case. -/
def ofExtension? : String → Option Format
  | "json" => some json
  | "toml" => some toml
  | "yaml" => some yaml
  | "yml" => some yaml
  | _ => none

/-- The name of a format. -/
def name : Format → String
  | json => "JSON"
  | toml => "TOML"
  | yaml => "YAML"

/-- The value that a text writes. -/
def read? : Format → String → Option Value
  | json => Json.read?
  | toml => Toml.read?
  | yaml => Yaml.read?

end Format

namespace Document

/-- The extension of a file: what follows the last point of its name, unless nothing comes before
    that point. -/
def extension (path : String) : String :=
  let name := (Text.pieces '/' path.toList).getLast?.getD []
  match Text.splitFirst? '.' name.reverse with
  | some (after, _ :: _) => String.ofList after.reverse
  | _ => ""

/-- The value of a document: the text of its file if that can be read, under the name of the
    file. -/
def read (name : String) (text : Option String) : Except LoadError Value :=
  match text with
  | none => .error (.unreadableDocument name)
  | some text =>
    let extension := (extension name).map Char.toLower
    match Format.ofExtension? extension with
    | none => .error (.unknownFormat extension name)
    | some format =>
      match format.read? text with
      | some v => .ok v
      | none => .error (.malformedDocument format.name name)

end Document

/-- The catalog in a file: the text of the file if that can be read, under its name. -/
def Catalog.read (name : String) (text : Option String) : Except LoadError Catalog :=
  match text with
  | none => .error (.unreadableCatalog name)
  | some text =>
    match Catalog.read? text with
    | some catalog => .ok catalog
    | none => .error (.malformedCatalog name)

end Picklist
