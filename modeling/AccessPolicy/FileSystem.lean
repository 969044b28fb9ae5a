import AccessPolicy.FileTree

/-!
# File systems

A file system is one tree and the directory in it where a program works: an absolute path starts at the root, any
other path in that directory.
-/

namespace AccessPolicy

structure FileSystem where
  root : FileTree
  /-- The names that lead from the root to the working directory. -/
  workplace : List String := []

/-- The file system in which a tree is the working directory, and in which there is nothing else. -/
def FileTree.system (tree : FileTree) : FileSystem where
  root := .directory [("work", tree)]
  workplace := ["work"]

namespace FileSystem

open FileTree

/-- What is at a path, whether its parts can be reached through it or not. -/
def node (system : FileSystem) (path : String) : Except OsError FileTree :=
  if path.contains '\x00' then .error .zeroByte
  else if path = "" then .error .notFound
  else if maxPath < path.utf8ByteSize then .error .nameTooLong
  else
    let names := Text.splitText '/' path
    follow maxLinks [] system.root (if isAbsolute path then names else system.workplace ++ names)

/-- What is at a path, as it shows itself there. -/
def find (system : FileSystem) (path : String) : Except OsError FileTree :=
  (system.node path).map (seen (sizeBefore path))

/-- The text of the file at a path. -/
def readText (system : FileSystem) (path : String) : Except ReadError String :=
  match system.find path with
  | .ok (.file content) => decode content
  | .ok (.sealed cause) => .error (.system cause)
  | .ok (.closed cause) => .error (.system cause)
  | .ok _ => .error (.system .isDirectory)
  | .error cause => .error (.system cause)

/-- The paths of the working directory and of those above it, the nearest first; an entry of theirs has a slash in
front. -/
def enclosing (system : FileSystem) : List String :=
  (List.range (system.workplace.length + 1)).reverse.map fun depth =>
    String.join ((system.workplace.take depth).map ("/" ++ ·))

end FileSystem

end AccessPolicy
