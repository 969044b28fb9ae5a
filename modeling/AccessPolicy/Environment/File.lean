import AccessPolicy.Environment
import AccessPolicy.Text.Blank

/-!
# Files of variables

A file defines variables, one to a line, which may go on where a quoted text does.  A value is plain or in quotes;
after a dollar sign, outside of single quotes, the name of a variable stands for its value.  A definition does not
change a variable that there is, and the first bad line ends the reading.
-/

namespace AccessPolicy

/-- A line that is no definition, and where in it that was seen. -/
structure DefinitionFault where
  line : List Char
  offset : Nat
deriving DecidableEq, Repr

def DefinitionFault.message (f : DefinitionFault) : String :=
  "Error parsing line: '" ++ String.ofList f.line ++ "', error at line index: " ++ Text.renderInt f.offset

namespace Variables

/-! ### Lines -/

/-- What the characters so far mean for the next one. -/
inductive Quoting
  | bare
  /-- After a blank, where a comment may begin. -/
  | blank
  | escaped
  | single
  | singleEscaped
  | double
  | doubleEscaped
deriving DecidableEq, Repr

/-- After one more character; a comment has no further characters. -/
def Quoting.next (q : Quoting) (c : Char) : Option Quoting :=
  match q with
  | escaped => some bare
  | single => some (if c == '\\' then singleEscaped else if c == '\'' then bare else single)
  | singleEscaped => some single
  | double => some (if c == '\\' then doubleEscaped else if c == '"' then bare else double)
  | doubleEscaped => some double
  | bare | blank =>
    if q = blank && c == '#' then none
    else if c == '\\' then some escaped
    else if c == '"' then some double
    else if c == '\'' then some single
    else if q = bare && Text.isBlank c && c ≠ '\n' && c ≠ '\r' then some blank
    else some bare

/-- The state after a line, or the part of the line before its comment. -/
private def scanLine (q : Quoting) : List Char → Except (List Char) Quoting
  | [] => .ok q
  | c :: cs =>
    match q.next c with
    | none => .error []
    | some q => (scanLine q cs).mapError (c :: ·)

/-- Each line with its end. -/
private def physicalLines : List Char → List (List Char)
  | [] => []
  | c :: cs =>
    if c = '\n' then [c] :: physicalLines cs
    else
      match physicalLines cs with
      | [] => [[c]]
      | line :: lines => (c :: line) :: lines

private def withoutEnd (line : List Char) : List Char :=
  match line.reverse with
  | '\n' :: '\r' :: cs => cs.reverse
  | '\n' :: cs => cs.reverse
  | _ => line

/-- The lines that belong together, without their comments; the last one may be incomplete. -/
private def joinLines (begun : List Char) (q : Quoting) : List (List Char) → List (Except DefinitionFault (List Char))
  | [] => if q = .bare then [] else [.error ⟨begun, Text.byteSize begun⟩]
  | line :: lines =>
    let whole := begun ++ line
    if (Text.trimStart whole).head? == some '#' then joinLines [] .bare lines
    else
      match scanLine q line with
      | .error beforeComment => .ok (begun ++ beforeComment) :: joinLines [] .bare lines
      | .ok .bare => .ok (withoutEnd whole) :: joinLines [] .bare lines
      | .ok q => joinLines whole q lines

/-! ### Values -/

/-- What is being read in a value. -/
inductive ValuePhase
  | plain (quoted : Bool)
  | escape (quoted : Bool)
  | single
  /-- A name after a dollar sign. -/
  | name (quoted : Bool) (letters : List Char)
  /-- A name in braces. -/
  | braced (quoted : Bool) (letters : List Char)
  /-- After the value. -/
  | finished
deriving DecidableEq, Repr

/-- What a character of a value does. -/
inductive ValueStep
  | go (text : List Char) (phase : ValuePhase)
  /-- A comment begins. -/
  | stop
  | wrong

/-- The step of a character; names are looked up. -/
def ValuePhase.step (lookUp : List Char → List Char) (c : Char) : ValuePhase → ValueStep
  | finished => if c == ' ' || c == '\t' then .go [] finished else if c == '#' then .stop else .wrong
  | escape quoted =>
    if c == 'n' then .go ['\n'] (plain quoted)
    else if c == '\\' || c == '\'' || c == '"' || c == '$' || c == ' ' then .go [c] (plain quoted)
    else .wrong
  | single => if c == '\'' then .go [] (plain false) else .go [c] single
  | name quoted letters =>
    if c.isAlphanum then .go [] (name quoted (letters ++ [c]))
    else if c == '\x7b' && letters.isEmpty then .go [] (braced quoted [])
    else if c == '$' then .go (lookUp letters) (name quoted [])
    else .go (lookUp letters ++ [c]) (plain quoted)
  | braced quoted letters =>
    if c == '\x7d' then .go (lookUp letters) (plain quoted) else .go [] (braced quoted (letters ++ [c]))
  | plain quoted =>
    if c == '$' then .go [] (name quoted [])
    else if c == '\\' then .go [] (escape quoted)
    else if c == '"' then .go [] (plain !quoted)
    else if quoted then .go [c] (plain true)
    else if c == '\'' then .go [] single
    else if c == ' ' || c == '\t' then .go [] finished
    else .go [c] (plain false)

/-- What is still to be added when a value ends here. -/
def ValuePhase.finish? (lookUp : List Char → List Char) : ValuePhase → Option (List Char)
  | plain false | escape false | finished => some []
  | name false letters => some (lookUp letters)
  | _ => none

/-- The value in a text, or the offset of the character that does not belong there. -/
private def readValue (lookUp : List Char → List Char) (size : Nat) :
    ValuePhase → Nat → List Char → Except Nat (List Char)
  | phase, _, [] =>
    match phase.finish? lookUp with
    | some text => .ok text
    | none => .error (size - 1)
  | phase, offset, c :: cs =>
    match phase.step lookUp c with
    | .go text phase => (readValue lookUp size phase (offset + 1) cs).map (text ++ ·)
    | .stop => .ok []
    | .wrong => .error offset

/-! ### Definitions -/

private def isNameStart (c : Char) : Bool := c.isAlpha || c == '_'

private def isNameChar (c : Char) : Bool := c.isAlphanum || c == '_' || c == '.'

/-- The name and the value of a line; a blank line has none. -/
private def readDefinition (lookUp : List Char → List Char) (line : List Char) :
    Except DefinitionFault (Option (List Char × List Char)) := do
  let cs := Text.trimEnd line
  let fault {α : Type} (rest : List Char) : Except DefinitionFault α :=
    .error ⟨line, Text.byteSize cs - Text.byteSize rest⟩
  let readName (cs : List Char) : Except DefinitionFault (List Char × List Char) :=
    if cs.head?.any isNameStart then .ok (cs.takeWhile isNameChar, Text.trimStart (cs.dropWhile isNameChar))
    else fault cs
  let afterEquals (cs : List Char) : Except DefinitionFault (List Char) :=
    if cs.head? == some '=' then .ok (Text.trimStart (cs.drop 1)) else fault cs
  let start := Text.trimStart cs
  if start.isEmpty || start.head? == some '#' then return none
  let (word, rest) ← readName start
  let (name, rest) ←
    if word = "export".toList && rest.head? ≠ some '=' then readName rest else .ok (word, rest)
  let text ← afterEquals rest
  if text.isEmpty || text.head? == some '#' then return some (name, [])
  match readValue lookUp (Text.byteSize text) (.plain false) 0 text with
  | .ok value => return some (name, value)
  | .error offset => throw ⟨text, offset⟩

private def define (vars : Variables) :
    List (Except DefinitionFault (List Char)) → Variables × Option DefinitionFault
  | [] => (vars, none)
  | .error fault :: _ => (vars, some fault)
  | .ok line :: lines =>
    let lookUp (name : List Char) : List Char := ((vars.get? (String.ofList name)).getD "").toList
    match readDefinition lookUp line with
    | .error fault => (vars, some fault)
    | .ok none => define vars lines
    | .ok (some (name, value)) => define (vars.addNew (String.ofList name) (String.ofList value)) lines

/-- The variables after the definitions of a file, up to the first bad line. -/
def defineAll (vars : Variables) (text : String) : Variables × Option DefinitionFault :=
  let cs := if text.toList.head? == some '\uFEFF' then text.toList.drop 1 else text.toList
  define vars (joinLines [] .bare (physicalLines cs))

end Variables

end AccessPolicy
