import Picklist.Host
import Picklist.Text

/-!
# Described file trees

A tree is a list of directories and files by the names on the way to them from the top. A path is
walked name by name: every name but the last must be that of a directory, and two points lead up.
-/

namespace Picklist

/-- What stands in a tree: a directory, or a file with its text if it is one. -/
inductive Tree.Node where
  | directory
  | file (text : Option String)
deriving DecidableEq

/-- A tree of directories and files. -/
structure Tree where
  nodes : List (List String × Tree.Node)

namespace Tree

/-- The tree that has only the top. -/
def empty : Tree := ⟨[]⟩

/-- What stands at the end of a way. -/
def at? (tree : Tree) (way : List String) : Option Node :=
  if way = [] then some .directory else tree.nodes.lookup way

/-- Put a node at the end of a way; the directories on the way are made. -/
def add (tree : Tree) (way : List String) (node : Node) : Tree :=
  let above := (List.range way.length).map fun count => (way.take count, Node.directory)
  ⟨(way, node) :: tree.nodes ++ above⟩

/-- The names of a path. -/
def names (path : String) : List String := (Text.pieces '/' path.toList).map String.ofList

/-- Walk names from a way on. -/
def walk (tree : Tree) (way : List String) : List String → Option (List String)
  | [] => some way
  | name :: rest =>
    if tree.at? way = some .directory then
      walk tree
        (if name = "" || name = "." then way
         else if name = ".." then way.dropLast
         else way ++ [name]) rest
    else none

/-- The way that a path means for a program that runs at the end of another way. -/
def way? (tree : Tree) (current : List String) (path : String) : Option (List String) :=
  if path = "" then none
  else tree.walk (if path.toList.head? == some '/' then [] else current) (names path)

/-- What stands at a path. -/
def find? (tree : Tree) (current : List String) (path : String) : Option Node :=
  (tree.way? current path).bind tree.at?

/-- The text of the file at a path. -/
def text? (tree : Tree) (current : List String) (path : String) : Option String :=
  match tree.find? current path with
  | some (.file text) => text
  | _ => none

/-- The path of a way from the top. -/
def pathOf (way : List String) : String := way.foldl (fun path name => path ++ "/" ++ name) ""

/-- The surroundings of a program that runs in a tree. -/
def host (tree : Tree) (current : List String) (environment : List (String × String)) : Host Id where
  readText path := tree.text? current path
  isThere path := (tree.find? current path).isSome
  environment name := environment.lookup name
  directory := if current = [] then "/" else pathOf current
  lot := 0

end Tree

end Picklist
