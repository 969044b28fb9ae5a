import AccessPolicy.Policy.Basic
import AccessPolicy.Markup.Lexeme

/-!
# Reading a policy from a document

The lexemes of a document are taken one after the other, each moving a reading from one place to the next: before
the root, at policy level, in a section, in an element of a section, after the root.  `Reading.step` says where a
lexeme leads; reading a document is a fold of it.  At each place all that does not concern the place is passed
over, so an unknown element is not entered: what stands in it counts as if it stood around it.
-/

namespace AccessPolicy

open Markup Text

/-- The five sections of a policy. -/
inductive Section
  | manifest
  | paths
  | effects
  | conditions
  | logging
deriving DecidableEq, Repr

/-- The elements that a section may hold. -/
inductive Element
  | id
  | scope
  | version
  | name
  | description
  | priority
  | path
  | allow
  | deny
  | redirect
  | returnMessage
  | returnCode
  | condition
  | onPermit
  | onDeny
  | onAny
deriving DecidableEq, Repr

def Section.tag : Section → String
  | manifest => "manifest"
  | paths => "paths"
  | effects => "effects"
  | conditions => "matches"
  | logging => "log"

def Section.ofTag? : String → Option Section
  | "manifest" => some manifest
  | "paths" => some paths
  | "effects" => some effects
  | "matches" => some conditions
  | "log" => some logging
  | _ => none

namespace Element

def tag : Element → String
  | id => "id"
  | scope => "ns"
  | version => "v"
  | name => "name"
  | description => "desc"
  | priority => "priority"
  | path => "path"
  | allow => "allow"
  | deny => "deny"
  | redirect => "redirect"
  | returnMessage => "return"
  | returnCode => "returncode"
  | condition => "match"
  | onPermit => "onpermit"
  | onDeny => "ondeny"
  | onAny => "onany"

/-- The section that the element belongs to. -/
def parent : Element → Section
  | id | scope | version | name | description | priority => .manifest
  | path => .paths
  | allow | deny | redirect | returnMessage | returnCode => .effects
  | condition => .conditions
  | onPermit | onDeny | onAny => .logging

def isDirective : Element → Bool
  | onPermit | onDeny | onAny => true
  | _ => false

end Element

/-- The elements of a section. -/
def Section.elements : Section → List Element
  | manifest => [.id, .scope, .version, .name, .description, .priority]
  | paths => [.path]
  | effects => [.allow, .deny, .redirect, .returnMessage, .returnCode]
  | conditions => [.condition]
  | logging => [.onPermit, .onDeny, .onAny]

/-- The element that a tag opens in a section. -/
def Section.element? (s : Section) (tag : String) : Option Element := s.elements.find? (·.tag = tag)

/-- Why a document is not a policy. -/
inductive DocumentError
  | markup (fault : Fault)
  | missingRoot
  /-- The text ends before the element does. -/
  | unclosed (tag : String)
  | repeatedSection (s : Section)
  | repeatedCondition
  | conditionType (type : String)
  | invalidInteger (field value : String)
deriving DecidableEq, Repr

def DocumentError.message : DocumentError → String
  | markup fault => "unexpected error: " ++ fault.message
  | missingRoot => "missing <policy> root element"
  | unclosed tag => s!"unexpected eof, {tag} not closed"
  | repeatedSection s => "duplicate <" ++ s.tag ++ "> section"
  | repeatedCondition => "more than one <match> element"
  | conditionType type => s!"unsupported match type '{type}'"
  | invalidInteger field value => s!"invalid integer for {field}: '{value}'"

/-! ### Elements -/

/-- What the open tag of a directive says. -/
structure Opening where
  source : String := ""
  priority : Int64 := 0
deriving DecidableEq, Repr

/-- ASCII letters in lower case, the rest as it is. -/
def lowerAscii (s : String) : String := String.ofList (s.toList.map Char.toLower)

/-- What the attributes of an element's open tag say; of two with one name, the first counts. -/
def Element.opening (e : Element) (attributes : List (String × String)) : Except DocumentError Opening :=
  if e.isDirective then
    let source := (attributes.lookup "source").getD ""
    match attributes.lookup "priority" with
    | none => .ok { source }
    | some raw =>
      match readInt64 (trim raw.toList) with
      | some n => .ok { source, priority := n }
      | none => .error (.invalidInteger (e.tag ++ " priority") raw)
  else if e = .condition then
    match attributes.lookup "type" with
    | none => .ok {}
    | some type => if lowerAscii type = "json" then .ok {} else .error (.conditionType type)
  else .ok {}

/-- The text without one quote of either kind at each end. -/
def stripQuotes (cs : List Char) : List Char :=
  let isQuote (c : Char) : Bool := c == '"' || c == '\''
  let cs := if cs.head?.any isQuote then cs.drop 1 else cs
  if cs.getLast?.any isQuote then cs.dropLast else cs

/-- A body as it stands in the document, and the quoted texts in it. -/
structure Body where
  text : List Char := []
  literals : List String := []
deriving DecidableEq, Repr

/-- The body with one more lexeme. -/
def Body.push (body : Body) (l : Lexeme) : Body where
  text := body.text ++ l.gap ++ l.source
  literals :=
    match l.token with
    | .literal s => body.literals ++ [String.ofList (stripQuotes s.toList)]
    | _ => body.literals

/-- The policy after an element with this body.  Of two equal routes, the first is kept; rights and directives
add up; of any other element, the last one counts. -/
def Element.close (e : Element) (opening : Opening) (body : Body) (p : Policy) : Except DocumentError Policy :=
  let core := trim body.text
  let text := String.ofList core
  let directive : Directive := { source := opening.source, priority := opening.priority, message := text }
  match e with
  | id => .ok { p with manifest := { p.manifest with id := text } }
  | scope => .ok { p with manifest := { p.manifest with scope := text } }
  | version => .ok { p with manifest := { p.manifest with version := text } }
  | name => .ok { p with manifest := { p.manifest with name := text } }
  | description => .ok { p with manifest := { p.manifest with description := text } }
  | priority =>
    match readInt64 core with
    | some n => .ok { p with manifest := { p.manifest with priority := n } }
    | none => .error (.invalidInteger e.tag text)
  | path => .ok (if core.isEmpty || p.routes.contains text then p else { p with routes := p.routes ++ [text] })
  | allow => .ok { p with effects := { p.effects with allowed := p.effects.allowed ++ body.literals } }
  | deny => .ok { p with effects := { p.effects with denied := p.effects.denied ++ body.literals } }
  | redirect => .ok { p with effects := { p.effects with redirect := some (String.ofList (stripQuotes core)) } }
  | returnMessage => .ok { p with effects := { p.effects with returnMessage := some text } }
  | returnCode =>
    match readUInt16 core with
    | some n => .ok { p with effects := { p.effects with returnCode := some n } }
    | none => .error (.invalidInteger e.tag text)
  | condition => .ok { p with condition := text }
  | onPermit => .ok { p with logging := { p.logging with onPermit := p.logging.onPermit ++ [directive] } }
  | onDeny => .ok { p with logging := { p.logging with onDeny := p.logging.onDeny ++ [directive] } }
  | onAny => .ok { p with logging := { p.logging with onAny := p.logging.onAny ++ [directive] } }

/-! ### Places -/

/-- How far a document has been read. -/
inductive Place
  | prolog
  | rootTag
  | root
  | sectionTag (s : Section)
  | inside (s : Section)
  | elementTag (e : Element) (attributes : List (String × String))
  | body (e : Element) (opening : Opening) (body : Body)
  | closed
deriving DecidableEq, Repr

/-- The innermost element that is open. -/
def Place.tag? : Place → Option String
  | prolog | closed => none
  | rootTag | root => some "policy"
  | sectionTag s | inside s => some s.tag
  | elementTag e _ | body e _ _ => some e.tag

/-- A policy as far as it has been read, with the sections and the condition that were met. -/
structure Reading where
  place : Place := .prolog
  policy : Policy := {}
  opened : List Section := []
  conditionMet : Bool := false
deriving DecidableEq, Repr

namespace Reading

def moveTo (r : Reading) (place : Place) : Reading := { r with place }

/-- A known section is entered, once. -/
def openSection (r : Reading) (tag : String) : Except DocumentError Reading :=
  match Section.ofTag? tag with
  | none => .ok r
  | some s =>
    if s ∈ r.opened then .error (.repeatedSection s)
    else .ok { r with place := .sectionTag s, opened := r.opened ++ [s] }

/-- A known element is entered, the condition once. -/
def openElement (r : Reading) (s : Section) (tag : String) : Except DocumentError Reading :=
  match s.element? tag with
  | none => .ok r
  | some e =>
    if e = .condition ∧ r.conditionMet then .error .repeatedCondition
    else .ok { r with place := .elementTag e [], conditionMet := r.conditionMet || e == .condition }

/-- An element ends, and the reading is back in its section. -/
def closeElement (r : Reading) (e : Element) (opening : Opening) (body : Body) : Except DocumentError Reading := do
  let policy ← e.close opening body r.policy
  return { r with place := .inside e.parent, policy }

/-- Where a lexeme leads.  The end of the text leads nowhere: whether it came too soon is seen afterwards. -/
def step (r : Reading) (l : Lexeme) : Except DocumentError Reading :=
  match r.place, l.token with
  | .closed, _ => .ok r
  | _, .endOfText => .ok r
  | _, .fault fault => .error (.markup fault)
  | .prolog, .openTag "policy" => .ok (r.moveTo .rootTag)
  | .prolog, _ => .ok r
  | .rootTag, .attr _ _ => .ok r
  | .rootTag, .tagEnd => .ok (r.moveTo .root)
  | .rootTag, .selfClose => .ok (r.moveTo .closed)
  | .rootTag, _ => .error (.unclosed "policy")
  | .root, .closeTag "policy" => .ok (r.moveTo .closed)
  | .root, .openTag tag => r.openSection tag
  | .root, _ => .ok r
  | .sectionTag _, .attr _ _ => .ok r
  | .sectionTag s, .tagEnd => .ok (r.moveTo (.inside s))
  | .sectionTag _, .selfClose => .ok (r.moveTo .root)
  | .sectionTag s, _ => .error (.unclosed s.tag)
  | .inside s, .closeTag tag => .ok (if tag = s.tag then r.moveTo .root else r)
  | .inside s, .openTag tag => r.openElement s tag
  | .inside _, _ => .ok r
  | .elementTag e attributes, .attr name value => .ok (r.moveTo (.elementTag e (attributes ++ [(name, value)])))
  | .elementTag e attributes, .tagEnd => do
    let opening ← e.opening attributes
    return r.moveTo (.body e opening {})
  | .elementTag e attributes, .selfClose => do
    let opening ← e.opening attributes
    r.closeElement e opening {}
  | .elementTag e _, _ => .error (.unclosed e.tag)
  | .body e opening body, .closeTag tag =>
    if tag = e.tag then r.closeElement e opening { body with text := body.text ++ l.gap }
    else .ok (r.moveTo (.body e opening (body.push l)))
  | .body e opening body, _ => .ok (r.moveTo (.body e opening (body.push l)))

/-- The policy, once its root has ended. -/
def finish (r : Reading) : Except DocumentError Policy :=
  match r.place, r.place.tag? with
  | .closed, _ => .ok r.policy
  | _, some tag => .error (.unclosed tag)
  | _, none => .error .missingRoot

end Reading

/-- The policy that a document describes. -/
def Policy.parse (document : String) : Except DocumentError Policy := do
  let reading ← (lexemes document).foldlM Reading.step {}
  reading.finish

end AccessPolicy
