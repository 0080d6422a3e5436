import Picklist.CommandLine

/-!
# The executable

The program on a real machine. The text goes to the output; a failure goes to the error output with
exit status 1, arguments that do not fit with 2.
-/

namespace Picklist

/-- The result of an action, none where it fails. -/
def succeeded {α : Type} (action : IO α) : IO (Option α) := do
  match ← action.toBaseIO with
  | .ok a => return some a
  | .error _ => return none

/-- The machine that the program runs on. -/
def machine : Host IO where
  readText path := succeeded (IO.FS.readFile path)
  isThere path := Option.isSome <$> succeeded (IO.FS.realPath path)
  environment name := IO.getEnv name
  directory := toString <$> IO.currentDir
  lot := IO.rand 0 0x80000000

end Picklist

/-- Run a command line. -/
def main (arguments : List String) : IO UInt32 := do
  match ← Picklist.CommandLine.run Picklist.machine arguments with
  | .printed text => IO.println text; return 0
  | .failed failure => IO.eprintln failure.report; return 1
  | .misused => IO.eprintln "error: the arguments do not fit"; return 2
