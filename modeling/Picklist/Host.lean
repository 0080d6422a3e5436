/-!
# What the program asks of its surroundings

The program reads files and variables, and draws lots. Everything it asks for goes through a
`Host`, so that it runs on a real machine and on a described one alike.
-/

namespace Picklist

/-- The surroundings of the program, in a monad `m`. Paths are as the program was given them or
    made them. -/
structure Host (m : Type → Type) where
  /-- The text of a file, none where there is no file or it is not a text. -/
  readText : String → m (Option String)
  /-- Whether there is a file or directory at a path. -/
  isThere : String → m Bool
  /-- The value of an environment variable. -/
  environment : String → m (Option String)
  /-- The directory that the program runs in, from the top. -/
  directory : m String
  /-- Any number. -/
  lot : m Nat

/-- A path below a directory. -/
def joinPath (directory below : String) : String :=
  if directory = "" || directory.toList.getLast? == some '/' then directory ++ below
  else directory ++ "/" ++ below

end Picklist
