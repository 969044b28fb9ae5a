import AccessPolicy.FileName
import AccessPolicy.Text.Split

/-!
# File trees

A tree of files, directories and symbolic links, and how a row of names leads through it.  The names are followed
from the left: a name goes down, two dots go up, and a link is replaced by the path that it holds.
-/

namespace AccessPolicy

/-- Why the system refuses a path. -/
inductive OsError
  | notFound
  | notDirectory
  | isDirectory
  | permissionDenied
  | tooManyLinks
  | nameTooLong
  | zeroByte
  | other (text : String)
deriving DecidableEq, Repr

def OsError.message : OsError → String
  | notFound => "No such file or directory (os error 2)"
  | notDirectory => "Not a directory (os error 20)"
  | isDirectory => "Is a directory (os error 21)"
  | permissionDenied => "Permission denied (os error 13)"
  | tooManyLinks => "Too many levels of symbolic links (os error 40)"
  | nameTooLong => "File name too long (os error 36)"
  | zeroByte => "file name contained an unexpected NUL byte"
  | other text => text

/-- Why a text cannot be read from a file. -/
inductive ReadError
  | system (cause : OsError)
  /-- A walk cannot list the directory at a path. -/
  | listing (path : String) (cause : OsError)
  | notText
deriving DecidableEq, Repr

def ReadError.message : ReadError → String
  | system cause => cause.message
  | listing path cause => "IO error for operation on " ++ path ++ ": " ++ cause.message
  | notText => "stream did not contain valid UTF-8"

/-- The entries of a directory stand in ascending order of their names, one to a name. -/
inductive FileTree
  | file (content : ByteArray)
  /-- A file that is there but cannot be read. -/
  | sealed (cause : OsError)
  | directory (entries : List (FileName × FileTree))
  /-- A directory that is there but cannot be entered or listed. -/
  | closed (cause : OsError)
  | link (target : String)

namespace FileTree

def empty : FileTree := directory []

/-- The text of a content. -/
def decode (content : ByteArray) : Except ReadError String :=
  match String.fromUTF8? content with
  | some text => .ok text
  | none => .error .notText

/-- The most links that a path may lead through. -/
def maxLinks : Nat := 40

/-- The most bytes in the name of an entry. -/
def maxName : Nat := 255

/-- The most bytes in a path. -/
def maxPath : Nat := 4095

def isAbsolute (path : String) : Bool := path.toList.head? = some '/'

/-- What names lead to, from a directory with these ancestors, the nearest first.  Above the root is the root. -/
def follow (links : Nat) (ancestors : List FileTree) (here : FileTree) :
    List String → Except OsError FileTree
  | [] => .ok here
  | name :: names =>
    match here with
    | directory entries =>
      if name = "" ∨ name = "." then follow links ancestors here names
      else if name = ".." then
        match ancestors with
        | [] => follow links [] here names
        | parent :: rest => follow links rest parent names
      else
        match entries.lookup (name : FileName) with
        | none => .error (if maxName < name.utf8ByteSize then .nameTooLong else .notFound)
        | some (link target) =>
          match links with
          | 0 => .error .tooManyLinks
          | links + 1 =>
            if target = "" then .error .notFound
            else if isAbsolute target then
              follow links [] (ancestors.getLast?.getD here) (Text.splitText '/' target ++ names)
            else follow links ancestors here (Text.splitText '/' target ++ names)
        | some next => follow links (here :: ancestors) next names
    | closed cause => if name = "" then follow links ancestors here names else .error cause
    | _ => .error .notDirectory
termination_by names => (links, names.length)

/-! ### What can be reached -/

/-- How many bytes of an entry's path stand before its name. -/
def sizeBefore (path : String) : Nat := if path.endsWith "/" then path.utf8ByteSize else path.utf8ByteSize + 1

/-- An entry whose path is too long: nothing of it can be opened. -/
def outOfReach : FileTree → FileTree
  | file _ | sealed _ => sealed .nameTooLong
  | directory _ | closed _ => closed .nameTooLong
  | link target => link target

mutual

/-- The tree as it shows itself at a path, with so many bytes before the names of its entries. -/
def seen (size : Nat) : FileTree → FileTree
  | directory entries => directory (seenEntries size entries)
  | tree => tree

def seenEntries (size : Nat) : List (FileName × FileTree) → List (FileName × FileTree)
  | [] => []
  | (name, tree) :: entries =>
    let length := size + name.bytes.length
    (name, if length ≤ maxPath then seen (length + 1) tree else tree.outOfReach) :: seenEntries size entries

end

/-! ### Building a tree -/

/-- The entries with one of them changed, or added in its place. -/
def setEntry (name : FileName) (change : Option FileTree → FileTree) :
    List (FileName × FileTree) → List (FileName × FileTree)
  | [] => [(name, change none)]
  | (n, tree) :: entries =>
    if name < n then (name, change none) :: (n, tree) :: entries
    else if name = n then (name, change (some tree)) :: entries
    else (n, tree) :: setEntry name change entries

/-- The tree with something put at a path, below directories that are made where there are none. -/
def put (node : FileTree) : List String → Option FileTree → FileTree
  | [], _ => node
  | name :: names, tree =>
    let entries := match tree with
      | some (directory entries) => entries
      | _ => []
    directory (setEntry name (put node names) entries)

/-- The tree with something put at a path. -/
def insert (tree : FileTree) (path : String) (node : FileTree) : FileTree :=
  put node ((Text.splitText '/' path).filter fun name => name ≠ "" ∧ name ≠ ".") (some tree)

/-! ### Walking a tree -/

/-- The path of an entry, as it is shown. -/
def join (path : String) (name : FileName) : String :=
  if path.endsWith "/" then path ++ name.display else path ++ "/" ++ name.display

/-- What a walk has to report: a file, with what is in it, or a directory that it cannot list. -/
inductive Content
  | file (content : Except OsError ByteArray)
  | closed (cause : OsError)

/-- Something to report, with where it is. -/
structure Found where
  path : String
  name : FileName
  content : Content

/-- Files are told apart by their names; a directory that cannot be listed is reported in any case. -/
def Found.isSelected (suffix : String) (found : Found) : Bool :=
  match found.content with
  | .file _ => found.name.hasSuffix suffix
  | .closed _ => true

mutual

/-- What a walk reports at and below an entry; links are not followed. -/
def walk (path : String) (name : FileName) : FileTree → List Found
  | file content => [⟨path, name, .file (.ok content)⟩]
  | sealed cause => [⟨path, name, .file (.error cause)⟩]
  | directory entries => walkEntries path entries
  | closed cause => [⟨path, name, .closed cause⟩]
  | link _ => []

/-- What a walk reports below a directory, entry by entry. -/
def walkEntries (path : String) : List (FileName × FileTree) → List Found
  | [] => []
  | (name, tree) :: entries => walk (join path name) name tree ++ walkEntries path entries

end

end FileTree

end AccessPolicy
