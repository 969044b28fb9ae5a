import AccessPolicy.FileSystem
import AccessPolicy.Policy.Reading

/-!
# Loading a directory of policies

Every file below a directory whose name is a text with the suffix is read as a policy, in the order of the walk.  A
file that is no policy is a failure and stops nothing, and so is a directory that cannot be listed, whatever its name.
-/

namespace AccessPolicy

/-- Why a file is no policy. -/
inductive FileError
  | read (cause : ReadError)
  | document (cause : DocumentError)
deriving DecidableEq, Repr

def FileError.message : FileError → String
  | read cause => "read failed: " ++ cause.message
  | document cause => cause.message

structure FileFailure where
  path : String
  cause : FileError
deriving DecidableEq, Repr

def FileFailure.message (f : FileFailure) : String := f.path ++ ": " ++ f.cause.message

/-- Why a path is no directory to load. -/
inductive DirectoryError
  | system (cause : OsError)
  | notDirectory
deriving DecidableEq, Repr

def DirectoryError.message : DirectoryError → String
  | system cause => cause.message
  | notDirectory => "not a directory"

inductive LoadError
  | directory (path : String) (cause : DirectoryError)
  | files (failures : List FileFailure)
deriving DecidableEq, Repr

def LoadError.message : LoadError → String
  | directory path cause => "Failed to read policy directory " ++ path ++ ": " ++ cause.message
  | files failures =>
    Text.renderInt failures.length ++ " policy file(s) failed to load: " ++
      "; ".intercalate (failures.map FileFailure.message)

/-- What was loaded and what was not, both in the order of the walk. -/
structure Loaded where
  policies : List (String × Policy) := []
  failures : List FileFailure := []
deriving DecidableEq, Repr

namespace Loaded

/-- The failures as one error, if there are any. -/
def error? (loaded : Loaded) : Option LoadError :=
  if loaded.failures.isEmpty then none else some (.files loaded.failures)

def addFile (loaded : Loaded) (path : String) : Except FileError Policy → Loaded
  | .ok policy => { loaded with policies := loaded.policies ++ [(path, policy)] }
  | .error cause => { loaded with failures := loaded.failures ++ [⟨path, cause⟩] }

end Loaded

/-- The policy in the text of a file. -/
def Policy.ofText (text : Except ReadError String) : Except FileError Policy := do
  (Policy.parse (← text.mapError .read)).mapError .document

namespace FileTree

/-- The text of a file that a walk came to. -/
def Found.text (found : Found) : Except ReadError String :=
  match found.content with
  | .file content => do decode (← content.mapError .system)
  | .closed cause => .error (.listing found.path cause)

/-- The policies in what a walk reports. -/
def loadEach (suffix : String) (reported : List Found) : Loaded :=
  (reported.filter (·.isSelected suffix)).foldl
    (fun loaded found => loaded.addFile found.path (Policy.ofText found.text)) {}

/-- The policies below a directory that was found, or not, at a path. -/
def loadFrom (path suffix : String) : Except OsError FileTree → Except LoadError Loaded
  | .ok (directory entries) => .ok (loadEach suffix (walkEntries path entries))
  | .ok (closed cause) => .ok { failures := [⟨path, .read (.listing path cause)⟩] }
  | .ok _ => .error (.directory path .notDirectory)
  | .error cause => .error (.directory path (.system cause))

end FileTree

namespace FileSystem

/-- The policy in the file at a path. -/
def loadFile (system : FileSystem) (path : String) : Except FileError Policy := Policy.ofText (system.readText path)

/-- The policies below the directory at a path. -/
def loadAll (system : FileSystem) (path suffix : String) : Except LoadError Loaded :=
  FileTree.loadFrom path suffix (system.find path)

end FileSystem

namespace FileTree

/-! ### In a tree of its own -/

def loadFile (tree : FileTree) (path : String) : Except FileError Policy := tree.system.loadFile path

def loadAll (tree : FileTree) (path suffix : String) : Except LoadError Loaded := tree.system.loadAll path suffix

end FileTree

end AccessPolicy
