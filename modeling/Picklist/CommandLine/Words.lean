import Picklist.Text

/-!
# Words of a command line

The arguments of a command line are options with values, flags and operands. A value stands after
its option or is attached to it; on its own it does not begin with a dash, unless that is all of it.
After two dashes every argument is an operand.

* `words`: the arguments, as far as they fit.
-/

namespace Picklist.CommandLine

/-- The options and flags of a command by their long names, and the letters that stand for them. -/
structure Grammar where
  options : List String
  flags : List String
  letters : List (Char × String)

/-- An argument, or an option with its value. -/
inductive Word where
  | option (name value : String)
  | flag (name : String)
  | operand (text : String)
  /-- The arguments do not fit from here on. -/
  | misfit
deriving DecidableEq

/-- What an argument is by itself. -/
inductive Shape where
  | operand
  /-- Operands follow. -/
  | ending
  | flag (name : String)
  /-- An option whose value is attached. -/
  | attached (name value : String)
  /-- An option whose value follows. -/
  | awaiting (name : String)
  | unknown

namespace Shape

/-- An argument by its long name and what follows an equals sign. -/
def ofLong (g : Grammar) (body : List Char) : Shape :=
  match Text.splitFirst? '=' body with
  | some (name, value) =>
    if g.options.contains (String.ofList name) then
      attached (String.ofList name) (String.ofList value)
    else unknown
  | none =>
    let name := String.ofList body
    if g.options.contains name then awaiting name
    else if g.flags.contains name then flag name
    else unknown

/-- An argument by a letter and what follows it. A flag counts whatever follows. -/
def ofLetter (g : Grammar) (letter : Char) (attachment : List Char) : Shape :=
  match g.letters.lookup letter with
  | none => unknown
  | some name =>
    if g.flags.contains name then flag name
    else match attachment with
      | [] => awaiting name
      | '=' :: value => attached name (String.ofList value)
      | value => attached name (String.ofList value)

/-- The shape of an argument. -/
def of (g : Grammar) (argument : String) : Shape :=
  match argument.toList with
  | ['-', '-'] => ending
  | '-' :: '-' :: body => ofLong g body
  | '-' :: letter :: attachment => ofLetter g letter attachment
  | _ => operand

end Shape

/-- Whether an argument can be a value on its own. -/
def isValue (argument : String) : Bool :=
  argument = "-" || argument.toList.head? ≠ some '-'

/-- The words of a command's arguments. -/
def words (g : Grammar) : List String → List Word
  | [] => []
  | [argument] =>
    match Shape.of g argument with
    | .operand => [.operand argument]
    | .ending => []
    | .flag name => [.flag name]
    | .attached name value => [.option name value]
    | _ => [.misfit]
  | argument :: following :: rest =>
    match Shape.of g argument with
    | .operand => .operand argument :: words g (following :: rest)
    | .ending => .operand following :: rest.map .operand
    | .flag name => .flag name :: words g (following :: rest)
    | .attached name value => .option name value :: words g (following :: rest)
    | .awaiting name =>
      if isValue following then .option name following :: words g rest else [.misfit]
    | .unknown => [.misfit]

/-- The words up to the first operand, with the operand and the arguments after it. -/
def wordsBefore (g : Grammar) : List String → List Word × Option (String × List String)
  | [] => ([], none)
  | [argument] =>
    match Shape.of g argument with
    | .operand => ([], some (argument, []))
    | .flag name => ([.flag name], none)
    | .attached name value => ([.option name value], none)
    | _ => ([.misfit], none)
  | argument :: following :: rest =>
    let more (word : Word) (found : List Word × Option (String × List String)) :=
      (word :: found.1, found.2)
    match Shape.of g argument with
    | .operand => ([], some (argument, following :: rest))
    | .flag name => more (.flag name) (wordsBefore g (following :: rest))
    | .attached name value => more (.option name value) (wordsBefore g (following :: rest))
    | .awaiting name =>
      if isValue following then more (.option name following) (wordsBefore g rest)
      else ([.misfit], none)
    | _ => ([.misfit], none)

/-! ## What words say -/

/-- The values of an option, in order. -/
def valuesOf (name : String) (ws : List Word) : List String :=
  ws.filterMap fun
    | .option held value => if held = name then some value else none
    | _ => none

/-- The value of an option that may be given once, if it is given. -/
def valueOf? (name : String) (ws : List Word) : Option (Option String) :=
  match valuesOf name ws with
  | [] => some none
  | [value] => some (some value)
  | _ => none

/-- Whether a flag that may be given once is given. -/
def flag? (name : String) (ws : List Word) : Option Bool :=
  match ws.count (.flag name) with
  | 0 => some false
  | 1 => some true
  | _ => none

/-- The only operand. -/
def operand? (ws : List Word) : Option String :=
  match ws.filterMap (fun | .operand text => some text | _ => none) with
  | [text] => some text
  | _ => none

end Picklist.CommandLine
