import AccessPolicy.Toml.Atom

/-!
# TOML documents

A document is a list of statements: headers, which open a table, and assignments to keys of the open table.  A
statement that would define something twice, or extend something that is closed, is refused: a table may have one
header, inline tables and arrays are closed, and an assignment reaches only into tables that assignments made.
-/

namespace AccessPolicy.Toml

/-- How a table came to be. -/
inductive Origin
  /-- By the header of a table below it. -/
  | implied
  /-- By an assignment to a key below it. -/
  | assigned
  /-- By its own header. -/
  | declared
deriving DecidableEq, Repr

/-- What a key holds while a document is read. -/
inductive Node
  | closed (value : Setting)
  | table (origin : Origin) (entries : List (String × Node))
  /-- Tables with one header each, the last one first. -/
  | tables (rows : List (List (String × Node)))

namespace Node

/-- A change of a table, if it is allowed. -/
abbrev Change := Origin → List (String × Node) → Option (Origin × List (String × Node))

private def replace (key : String) (node : Node) (entries : List (String × Node)) : List (String × Node) :=
  entries.map fun (k, old) => if k = key then (k, node) else (k, old)

/-- The change of the table at a path.  Tables that are missing on the way come to be by `made`. -/
def changeAt (made : Origin) (change : Change) : List String → Change
  | [], origin, entries => change origin entries
  | key :: path, origin, entries => do
    match entries.lookup key with
    | none =>
      let (o, es) ← changeAt made change path made []
      return (origin, entries ++ [(key, table o es)])
    | some (table o es) =>
      if made = .assigned ∧ o = .declared then none
      else do
        let (o, es) ← changeAt made change path o es
        return (origin, replace key (table o es) entries)
    | some (tables (row :: rows)) =>
      let (_, row) ← changeAt made change path .declared row
      return (origin, replace key (tables (row :: rows)) entries)
    | some (tables []) => none
    | some (closed _) => none

/-- An assignment to a key of a table at a path. -/
def assign (path : List String) (key : String) (value : Setting) : Change :=
  changeAt .assigned (fun origin entries =>
    if !path.isEmpty && origin ≠ .assigned then none
    else if (entries.lookup key).isSome then none
    else some (origin, entries ++ [(key, closed value)])) path

/-- The header of a table. -/
def declare (path : List String) (key : String) : Change :=
  changeAt .implied (fun origin entries =>
    match entries.lookup key with
    | none => some (origin, entries ++ [(key, table .declared [])])
    | some (table .implied es) => some (origin, replace key (table .declared es) entries)
    | _ => none) path

/-- The header of one more table of an array. -/
def declareRow (path : List String) (key : String) : Change :=
  changeAt .implied (fun origin entries =>
    match entries.lookup key with
    | none => some (origin, entries ++ [(key, tables [[]])])
    | some (tables rows) => some (origin, replace key (tables ([] :: rows)) entries)
    | _ => none) path

mutual

def toSetting : Node → Setting
  | closed value => value
  | table _ entries => .table (toEntries entries)
  | tables rows => .items (toRows rows).reverse

def toEntries : List (String × Node) → List (String × Setting)
  | [] => []
  | (key, node) :: entries => (key, toSetting node) :: toEntries entries

def toRows : List (List (String × Node)) → List Setting
  | [] => []
  | row :: rows => .table (toEntries row) :: toRows rows

end

end Node

inductive Statement
  | header (path : List String)
  | rowHeader (path : List String)
  | assignment (path : List String) (value : Setting)

/-- The document after a statement, with the path of the open table beside it. -/
def Statement.apply (entries : List (String × Node)) (opened : List String) :
    Statement → Option (List (String × Node) × List String)
  | header path => do
    let (_, es) ← Node.declare path.dropLast (← path.getLast?) .declared entries
    return (es, path)
  | rowHeader path => do
    let (_, es) ← Node.declareRow path.dropLast (← path.getLast?) .declared entries
    return (es, path)
  | assignment path value => do
    let key ← path.getLast?
    let (_, es) ← Node.changeAt .implied (Node.assign path.dropLast key value) opened .declared entries
    return (es, opened)

/-! ### Values -/

private def lineBreak : Scan Bool := do
  if ← skip ['\r', '\n'] then return true
  skip ['\n']

private def comment : Scan Bool := do
  if ← skip ['#'] then
    let _ ← takeAll isPlain
    return true
  else return false

/-- Blanks, comments and ends of lines. -/
private def skipLines : Nat → Scan Unit
  | 0 => return
  | fuel + 1 => do
    skipBlanks
    if (← comment) || (← lineBreak) then skipLines fuel

private def gap : Scan Unit := do skipLines ((← get).length + 1)

/-- The items of an array after its bracket; a comma may follow the last one. -/
private def arrayItems (item : Scan Setting) : Nat → Scan (List Setting)
  | 0 => failure
  | fuel + 1 => do
    gap
    if ← skip [']'] then return []
    let value ← item
    gap
    if ← skip [','] then return value :: (← arrayItems item fuel)
    if ← skip [']'] then return [value]
    failure

private def equation (item : Scan Setting) : Scan (List String × Setting) := do
  let path ← keyPath
  skipBlanks
  if !(← skip ['=']) then failure
  skipBlanks
  return (path, ← item)

/-- The equations of an inline table, which stands on one line. -/
private def inlineEquations (item : Scan Setting) : Nat → Scan (List (List String × Setting))
  | 0 => failure
  | fuel + 1 => do
    skipBlanks
    let e ← equation item
    skipBlanks
    if ← skip [','] then return e :: (← inlineEquations item fuel)
    if ← skip ['\x7d'] then return [e]
    failure

private def inlineTable (item : Scan Setting) : Scan Setting := do
  skipBlanks
  if ← skip ['\x7d'] then return .table []
  let equations ← inlineEquations item (← get).length
  let entries ← equations.foldlM (fun entries (path, value) => do
    let (_, es) ← Node.assign path.dropLast (← path.getLast?) value .declared entries
    some es) []
  return .table (Node.toEntries entries)

/-- A value with at most so many arrays and inline tables in one another. -/
def value : Nat → Scan Setting
  | 0 => failure
  | depth + 1 => do
    match ← next? with
    | some '"' | some '\'' => return .text (← quoted)
    | some '[' =>
      drop 1
      return .items (← arrayItems (value depth) (← get).length)
    | some '\x7b' =>
      drop 1
      inlineTable (value depth)
    | _ => atom

/-- The nesting that is accepted. -/
def maxDepth : Nat := 80

/-! ### Statements -/

/-- Nothing but blanks and a comment may follow a statement on its line. -/
private def endOfLine : Scan Unit := do
  skipBlanks
  let _ ← comment
  if (← get).isEmpty then return
  if ← lineBreak then return
  failure

private def headerPath (closing : List Char) : Scan (List String) := do
  skipBlanks
  let path ← keyPath
  skipBlanks
  if ← skip closing then return path
  failure

private def statement : Scan Statement := do
  if ← skip ['[', '['] then return .rowHeader (← headerPath [']', ']'])
  if ← skip ['['] then return .header (← headerPath [']'])
  let (path, v) ← equation (value maxDepth)
  return .assignment path v

private def statements : Nat → Scan (List Statement)
  | 0 => failure
  | fuel + 1 => do
    gap
    if (← get).isEmpty then return []
    let s ← statement
    endOfLine
    return s :: (← statements fuel)

/-- The table that a document stands for. -/
def parse? (text : String) : Option (List (String × Setting)) := do
  let cs := text.toList
  let (all, _) ← (statements (cs.length + 1)).run cs
  let (entries, _) ← all.foldlM (fun (entries, opened) s => s.apply entries opened) ([], [])
  return Node.toEntries entries

end AccessPolicy.Toml
