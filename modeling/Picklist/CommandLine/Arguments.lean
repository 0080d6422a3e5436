import Picklist.CommandLine.Words

/-!
# The arguments of the program

The program is told a document, perhaps a catalog, and one of four commands on a key of the
document. The arguments are looked at in order, so that a wish for the version counts unless
something before it does not fit.
-/

namespace Picklist.CommandLine

/-- Which of the matching keys are listed. -/
inductive Listing where
  | all
  /-- The only one. -/
  | single
  /-- Any one. -/
  | random
deriving DecidableEq

/-- What is done with the section under a key. -/
inductive Action where
  /-- Write its menu as markup. -/
  | options (selected : List String) (valueField : Option String) (prepends : List String)
      (noOptgroup : Bool)
  /-- List its keys. -/
  | keys (listing : Listing)
  /-- Write the only matching entry, or a part of it. -/
  | value (path : Option String)
  /-- Write it published. -/
  | publish (visible localized : List String)
deriving DecidableEq

/-- A command: an action on a key, for the entries that meet all clauses. -/
structure Command where
  key : String
  clauses : List String
  action : Action
deriving DecidableEq

/-- What the program is told. -/
structure Arguments where
  document : String
  catalog : Option String
  command : Command
deriving DecidableEq

/-- What a command line asks for. -/
inductive Invocation where
  | run (arguments : Arguments)
  | version
  | misfit
deriving DecidableEq

namespace Command

/-- The grammar of a command. -/
def grammar? : String → Option Grammar
  | "options" => some ⟨["selected", "where", "value-field", "prepend"], ["no-optgroup"], []⟩
  | "keys" => some ⟨["where"], ["single", "random"], []⟩
  | "value" => some ⟨["where", "path"], [], []⟩
  | "publish" => some ⟨["visible", "trans", "where"], [], []⟩
  | _ => none

/-- Which keys are listed; one of the two flags at most is given. -/
def listing? (single random : Bool) : Option Listing :=
  match single, random with
  | false, false => some .all
  | true, false => some .single
  | false, true => some .random
  | true, true => none

/-- The action of a command with the given words. -/
def action? (name : String) (ws : List Word) : Option Action :=
  match name with
  | "options" => do
    return .options (valuesOf "selected" ws) (← valueOf? "value-field" ws) (valuesOf "prepend" ws)
      (← flag? "no-optgroup" ws)
  | "keys" => do return .keys (← listing? (← flag? "single" ws) (← flag? "random" ws))
  | "value" => do return .value (← valueOf? "path" ws)
  | "publish" => some (.publish (valuesOf "visible" ws) (valuesOf "trans" ws))
  | _ => none

/-- The command with a name and arguments. -/
def read? (name : String) (arguments : List String) : Option Command := do
  let ws := words (← grammar? name) arguments
  if ws.contains .misfit then none
  else return ⟨← operand? ws, valuesOf "where" ws, ← action? name ws⟩

end Command

namespace Invocation

/-- The options and flags in front of the command. -/
def grammar : Grammar :=
  ⟨["config", "catalog"], ["version"], [('c', "config"), ('V', "version")]⟩

/-- A file name that may be given once and is not empty. -/
def fileName? (given : Option String) (value : String) : Option String :=
  if given.isSome || value = "" then none else some value

/-- Go through the words in front of the command, then take the command. -/
def ofWords (command : Option (String × List String)) :
    (document catalog : Option String) → List Word → Invocation
  | document, catalog, .option name value :: rest =>
    if name = "config" then
      match fileName? document value with
      | some found => ofWords command (some found) catalog rest
      | none => misfit
    else
      match fileName? catalog value with
      | some found => ofWords command document (some found) rest
      | none => misfit
  | _, _, .flag _ :: _ => version
  | _, _, .operand _ :: _ => misfit
  | _, _, .misfit :: _ => misfit
  | document, catalog, [] =>
    match document, command.bind fun (name, arguments) => Command.read? name arguments with
    | some found, some command => run ⟨found, catalog, command⟩
    | _, _ => misfit

/-- What the arguments of the program ask for. -/
def read (arguments : List String) : Invocation :=
  let (ws, command) := wordsBefore grammar arguments
  ofWords command none none ws

end Invocation

end Picklist.CommandLine
