import Picklist.Host
import Picklist.LoadError
import Picklist.Settings
import Picklist.Toml.Reading

/-!
# Loading the settings

The layers are, from below: the built-in defaults, the file of the user, and the file of the
workspace. Two environment variables go over all of them. Files that are not there are left out.
-/

namespace Picklist

/-- The layer that a TOML text writes. -/
def Layer.read (text : String) : Except LoadError Layer :=
  match (Toml.read? text).bind Layer.ofValue? with
  | some layer => .ok layer
  | none => .error .malformedSettings

namespace Settings

/-- The settings of a TOML text over the defaults. -/
def ofToml (text : String) : Except LoadError Settings :=
  (Layer.read text).map fun layer => ofLayers [defaults, layer]

/-- The directory of the user's settings: the one that is named, if it is named from the top, else
    one in the user's home. -/
def userDirectory? (named home : Option String) : Option String :=
  (named.filter fun path => path.toList.head? == some '/') <|>
    (home.filter (· ≠ "")).map (joinPath · ".config")

/-- A directory and those around it, the innermost one first. -/
def enclosing (directory : String) : List String :=
  let names := (Text.pieces '/' directory.toList).map String.ofList
  (List.range names.length).reverse.map fun count =>
    if count = 0 then "/" else String.intercalate "/" (names.take (count + 1))

variable {m : Type → Type} [Monad m] (host : Host m)

/-- The first directory that holds a repository. -/
def repository? : List String → m (Option String)
  | [] => return none
  | directory :: rest => do
    if ← host.isThere (joinPath directory ".git") then return some directory
    else repository? rest

/-- The directory of the workspace: the repository around the current one, or else that one. -/
def workspace : m String := do
  let directory ← host.directory
  return (← repository? host (enclosing directory)).getD directory

/-- The layer of a file, if it is there. -/
def layer? (path : String) : ExceptT LoadError m (Option Layer) := do
  if ← host.isThere path then
    match ← host.readText path with
    | some text => some <$> ExceptT.mk (pure (Layer.read text))
    | none => throw (.unreadableSettings path)
  else return none

/-- What the environment sets over all layers. -/
def overrides : m Overrides := do
  return ⟨← host.environment "CFGSELECT_MAPPING_VALUE", ← host.environment "CFGSELECT_MAPPING_TITLE"⟩

/-- The settings of the program. -/
def load : ExceptT LoadError m Settings := do
  let upper ← (overrides host : m Overrides)
  let directory? := userDirectory? (← host.environment "XDG_CONFIG_HOME") (← host.environment "HOME")
  let workspace ← (workspace host : m String)
  let user ← match directory? with
    | some directory => layer? host (joinPath directory "cfgselect/config.toml")
    | none => pure none
  let local? ← layer? host (joinPath workspace ".cfgselect/config.toml")
  return (ofLayers (defaults :: user.toList ++ local?.toList)).override upper

end Settings

end Picklist
