import Picklist.CommandLine.Arguments
import Picklist.CommandLine.Filter
import Picklist.Document
import Picklist.Markup
import Picklist.Picker
import Picklist.Settings.Loading

/-!
# The program

The settings are loaded first, then the document, then the catalog; the command comes last. What
comes out is a text to print, or the reason why there is none.
-/

namespace Picklist.CommandLine

/-! ## 1. Outcomes -/

/-- Why a command fails. -/
inductive Failure where
  /-- A file cannot be used. -/
  | load (e : LoadError)
  /-- A clause has no equals sign. -/
  | clause (text : String)
  /-- The selection fails. -/
  | selection (e : SelectionError)
  /-- The menu of a key cannot be made. -/
  | menu (key : String) (e : SelectionError)
deriving DecidableEq

/-- The wording of a failure. -/
def Failure.message : Failure → String
  | load e => e.message
  | clause text => "condition '" ++ text ++ "' must look like FIELD=JSON"
  | selection e => e.message
  | menu key _ => "failed to build options for '" ++ key ++ "'"

/-- The reason behind a failure, if its message does not say it. -/
def Failure.cause? : Failure → Option String
  | menu _ e => some e.message
  | _ => none

/-- What the program prints on a failure. -/
def Failure.report (failure : Failure) : String :=
  "Error: " ++ failure.message ++ failure.cause?.elim "" ("\nCaused by:\n" ++ ·)

/-- What comes of a run. -/
inductive Outcome where
  | printed (text : String)
  | failed (failure : Failure)
  /-- The arguments do not fit. -/
  | misused
deriving DecidableEq

/-- What is printed for the version. -/
def versionText : String := "cfgselect 0.1.0"

/-! ## 2. Commands -/

/-- The condition of a command. -/
def Command.condition (command : Command) : Except Failure Condition :=
  (CommandLine.condition command.clauses).mapError .clause

/-- An entry in front of the data, from its value, an equals sign and its title. -/
def prepend (text : String) : String × Entry :=
  let (key, title) := match Text.splitFirst? '=' text.toList with
    | some (key, title) => (String.ofList key, String.ofList title)
    | none => (text, "")
  (key, .scalar (.string title))

/-- The mapping of a command: that of the picker, with the given value field, and without groups if
    that is asked for. -/
def mappingFor (picker : Picker) (valueField : Option String) (noOptgroup : Bool) : Mapping :=
  let mapping := valueField.elim picker.mapping picker.mapping.withValue
  if noOptgroup then mapping.withoutOptgroup else mapping

/-- The text that a command prints, given any number for the draw. -/
def Command.output (command : Command) (picker : Picker) (lot : Nat) : Except Failure String := do
  let condition ← command.condition
  let data : Data := .key command.key
  match command.action with
  | .options selected valueField prepends noOptgroup =>
    let request : Request :=
      ⟨selected, condition, prepends.map prepend, mappingFor picker valueField noOptgroup⟩
    let menu ← (picker.menu data request).mapError (.menu command.key)
    return menu.markup
  | .keys .all =>
    return String.intercalate "\n" (← (picker.keys data condition).mapError .selection)
  | .keys .single =>
    return ((← (picker.key data condition true).mapError .selection).getD "")
  | .keys .random => (picker.anyKey data condition fun _ => lot).mapError .selection
  | .value path =>
    let found ← (picker.value command.key condition path true).mapError .selection
    return Json.compact (found.getD .null)
  | .publish visible localized =>
    let published ← (picker.publish data ⟨visible, localized⟩ condition).mapError .selection
    return Json.pretty published

/-! ## 3. The run -/

variable {m : Type → Type} [Monad m] (host : Host m)

/-- The catalog in a file, or an empty one. -/
def loadCatalog : Option String → ExceptT LoadError m Catalog
  | none => return Catalog.empty
  | some name => do
    let text ← host.readText name
    ExceptT.mk (pure (Catalog.read name text))

/-- What the files make of the arguments. -/
def loadPicker (arguments : Arguments) : ExceptT LoadError m Picker := do
  let settings ← Settings.load host
  let text ← host.readText arguments.document
  let document ← ExceptT.mk (pure (Document.read arguments.document text))
  let catalog ← loadCatalog host (arguments.catalog.or settings.catalog)
  return ⟨document.section?, catalog.localize, settings.mapping⟩

/-- The outcome of a command line. -/
def run (arguments : List String) : m Outcome := do
  match Invocation.read arguments with
  | .misfit => return .misused
  | .version => return .printed versionText
  | .run arguments =>
    match ← (loadPicker host arguments).run with
    | .error e => return .failed (.load e)
    | .ok picker =>
      let lot ← host.lot
      match arguments.command.output picker lot with
      | .ok text => return .printed text
      | .error failure => return .failed failure

end Picklist.CommandLine
