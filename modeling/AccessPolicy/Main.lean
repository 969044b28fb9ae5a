import AccessPolicy.CommandLine

/-!
# The executable

The host of a real run: files, the environment and the standard streams of the system.
-/

namespace AccessPolicy.Main

open CommandLine

/-- The error of a path as the system words it. -/
def osError : IO.Error → OsError
  | .noFileOrDirectory _ _ _ => .notFound
  | .permissionDenied _ _ _ => .permissionDenied
  | .inappropriateType _ 20 _ => .notDirectory
  | .inappropriateType _ 21 _ => .isDirectory
  | .invalidArgument _ 36 _ => .nameTooLong
  | .invalidArgument _ 40 _ => .tooManyLinks
  | e => .other (toString e)

/-- The result of an action, or why the system refuses it. -/
def attempt (action : IO α) : IO (Except OsError α) := do
  match ← action.toBaseIO with
  | .ok a => return .ok a
  | .error e => return .error (osError e)

/-- The content of a file and whether it can be read. -/
def fileAt (path : String) : IO FileTree := do
  match ← attempt (IO.FS.readBinFile path) with
  | .ok content => return .file content
  | .error cause => return .sealed cause

mutual

/-- An entry of a directory.  Links are not followed. -/
partial def treeAt (entry : IO.FS.DirEntry) : IO (Option FileTree) := do
  match ← attempt entry.path.symlinkMetadata with
  | .error cause => return some (.sealed cause)
  | .ok metadata =>
    match metadata.type with
    | .file => return some (← fileAt entry.path.toString)
    | .symlink => return some (.link "")
    | .other => return none
    | .dir => return some (← directoryAt entry.path.toString)

/-- A directory, with all that is below it. -/
partial def directoryAt (path : String) : IO FileTree := do
  let root : IO.FS.DirEntry := ⟨path, ""⟩
  match ← attempt root.root.readDir with
  | .error cause => return .closed cause
  | .ok entries =>
    let mut tree := FileTree.empty
    for child in entries do
      if let some node ← treeAt child then
        tree := tree.insert child.fileName node
    return tree

end

/-- What a path leads to. -/
def metadataAt (path : String) : IO (Except OsError IO.FS.Metadata) :=
  let root : IO.FS.DirEntry := ⟨path, ""⟩
  attempt root.root.metadata

/-- What is at a path; a link is followed here. -/
def find (path : String) : IO (Except OsError FileTree) := do
  match ← metadataAt path with
  | .error cause => return .error cause
  | .ok metadata =>
    match metadata.type with
    | .dir => return .ok (← directoryAt path)
    | _ => return .ok (.file .empty)

def readText (path : String) : IO (Except ReadError String) := do
  match ← attempt (IO.FS.readBinFile path) with
  | .ok content => return FileTree.decode content
  | .error cause => return .error (.system cause)

partial def readAll (stream : IO.FS.Stream) (begun : ByteArray) : IO ByteArray := do
  let chunk ← stream.read 65536
  if chunk.isEmpty then return begun else readAll stream (begun ++ chunk)

def readInput : IO (Except ReadError String) := do
  match ← attempt (do readAll (← IO.getStdin) .empty) with
  | .ok content => return FileTree.decode content
  | .error cause => return .error (.system cause)

/-- The working directory and those above it, each without its last slash. -/
def enclosing : IO (List String) := do
  match ← attempt IO.currentDir with
  | .error _ => return []
  | .ok directory =>
    let names := (Text.splitText '/' directory.toString).filter (· ≠ "")
    return ({ root := .empty, workplace := names } : FileSystem).enclosing

def host : Host IO where
  holds path := do return (← metadataAt path).isOk
  readText := readText
  find := find
  enclosing := enclosing
  readInput := readInput

/-- A definition in the environment: a name, an equals sign and a value. -/
def definition? (line : String) : Option (String × String) :=
  let name := line.toList.takeWhile (· ≠ '=')
  let rest := line.toList.drop name.length
  if name.isEmpty || rest.isEmpty then none else some (String.ofList name, String.ofList (rest.drop 1))

/-- The environment, as the system shows it to the process. -/
def environment : IO Variables := do
  match ← readText "/proc/self/environ" with
  | .error _ => return []
  | .ok text => return (Text.splitText '\x00' text).filterMap definition?

def logLine (event : LogEvent) : String :=
  "INFO " ++ event.directive.message ++ " route=" ++ event.route ++ " policy_id=" ++ event.policyId ++ " source=" ++
    event.directive.source ++ " priority=" ++ Text.renderInt event.directive.priority.toInt

end AccessPolicy.Main

open AccessPolicy in
def main (args : List String) : IO UInt32 := do
  let o ← CommandLine.run Main.host (← Main.environment) args
  for line in o.errors do IO.eprintln line
  for event in o.log do IO.eprintln (Main.logLine event)
  for line in o.output do IO.println line
  return o.code.toUInt32
