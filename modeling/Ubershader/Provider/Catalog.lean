import Ubershader.Provider.Basic

/-!
# Files in memory

A catalog is a provider without a world: its files are a list of paths with texts. Contexts are
directories. A path is looked up in the directory that it is written in, and an alias may then
send it elsewhere.
-/

namespace Ubershader

structure Catalog where
  /-- Resolved paths with the texts of their files. -/
  files : List (String × String) := []
  /-- Full paths with the paths that they stand for. -/
  aliases : List (String × String) := []
  /-- Written paths that are not resolved. -/
  denied : List String := []
  /-- Whether a file's own directory is the context of the paths written in it. If not, these are
  full paths. -/
  relative : Bool := false
deriving Repr

namespace Catalog

/-- What stands before the last slash of a path given by its characters, if there is one. -/
def parent? : List Char → Option (List Char)
  | [] => none
  | c :: cs =>
    match parent? cs with
    | some parent => some (c :: parent)
    | none => if c = '/' then some [] else none

/-- A path in a directory. The empty directory adds nothing. -/
def fullPath (directory path : String) : String :=
  if directory = "" then path else directory ++ "/" ++ path

def directoryOf (catalog : Catalog) (path : String) : String :=
  if catalog.relative then String.ofList ((parent? path.toList).getD []) else ""

/-- The path that a full path stands for. -/
def unaliased (catalog : Catalog) (path : String) : String :=
  (catalog.aliases.lookup path).getD path

/-- Find the file that a path stands for in a directory. -/
def resolve (catalog : Catalog) (path directory : String) : Except String (Target String) :=
  if catalog.denied.contains path then .error ("cannot resolve " ++ path)
  else
    let full := catalog.unaliased (fullPath directory path)
    .ok ⟨full, catalog.directoryOf full⟩

def fetch (catalog : Catalog) (path : String) : Except String String :=
  match catalog.files.lookup path with
  | some text => .ok text
  | none => .error (path ++ " not found")

def provider (catalog : Catalog) : Provider Unit String where
  resolve path directory world := (catalog.resolve path directory, world)
  fetch path world := (catalog.fetch path, world)

end Catalog

end Ubershader
