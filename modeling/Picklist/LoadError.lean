/-!
# Why a file cannot be used

The files of the program are its settings, the configuration document and the catalog of
localized texts. `message` is the wording of each error.
-/

namespace Picklist

/-- Why a file cannot be used. -/
inductive LoadError where
  /-- The file with settings is not a readable text. -/
  | unreadableSettings (path : String)
  /-- The settings are not TOML, or are no record of settings. -/
  | malformedSettings
  /-- The document is not a readable text. -/
  | unreadableDocument (name : String)
  /-- The document is not written in the format of its extension. -/
  | malformedDocument (format name : String)
  /-- No format has the extension. -/
  | unknownFormat (extension name : String)
  /-- The catalog is not a readable text. -/
  | unreadableCatalog (name : String)
  /-- The catalog is no JSON object of strings. -/
  | malformedCatalog (name : String)
deriving DecidableEq

/-- The wording of an error. -/
def LoadError.message : LoadError → String
  | unreadableSettings path => "failed to read config file: " ++ path
  | malformedSettings => "failed to parse TOML config"
  | unreadableDocument name => "failed to read config document: " ++ name
  | malformedDocument format name => "failed to parse " ++ format ++ " document " ++ name
  | unknownFormat extension name =>
    "unsupported config document format '" ++ extension ++ "' for " ++ name
  | unreadableCatalog name => "failed to read translation catalog: " ++ name
  | malformedCatalog name => "invalid translation catalog in " ++ name

end Picklist
