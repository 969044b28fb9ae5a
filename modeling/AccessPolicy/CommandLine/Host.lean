import AccessPolicy.FileSystem

/-!
# What the program needs from outside

The program is written over a record of the effects that it needs.  One such record answers from a file system and a
text, so that a run is a function of its inputs.
-/

namespace AccessPolicy.CommandLine

structure Host (m : Type → Type) where
  /-- The path leads somewhere. -/
  holds : String → m Bool
  readText : String → m (Except ReadError String)
  /-- What is at a path, with all that is below it. -/
  find : String → m (Except OsError FileTree)
  /-- The working directory and those above it, the nearest first. -/
  enclosing : m (List String)
  readInput : m (Except ReadError String)

/-- The host of a run in a file system. -/
def Host.ofSystem (system : FileSystem) (input : String) : Host Id where
  holds path := (system.find path).isOk
  readText := system.readText
  find := system.find
  enclosing := system.enclosing
  readInput := .ok input

/-- The host of a run in the root of a tree. -/
def Host.ofTree (tree : FileTree) (input : String) : Host Id := .ofSystem tree.system input

end AccessPolicy.CommandLine
