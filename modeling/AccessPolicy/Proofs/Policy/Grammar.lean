import AccessPolicy.Policy.Reading

/-!
# The grammar of policy documents

`DocumentReads` says which lexemes make up a policy document, and which sections and elements stand in it: a root, in
it sections, in those elements, each from its open tag to its own close tag (`Tagged`), with anything else between them
that neither ends the level nor opens what it knows (`Sequence`).  `Valid` is what the elements have to say for
themselves, and `Policy.ofItems` the policy that they give.
-/

namespace AccessPolicy

open Markup Text

/-- Reading goes on over all these lexemes, and none of them is the given token. -/
def Avoids (token : Token) (ls : List Lexeme) : Prop := ∀ l ∈ ls, l.token.goesOn = true ∧ l.token ≠ token

/-- The lexemes are an open tag with its attributes, and the token that ends it. -/
def IsTag (tag : String) (attributes : List (String × String)) (stop : Token) (ls : List Lexeme) : Prop :=
  ls.map Lexeme.token = .openTag tag :: (attributes.map fun (name, value) => .attr name value) ++ [stop]

/-! ### Elements and levels -/

section

variable {α : Type}

/-- The lexemes from an open tag to its end, with what stands between the two; a tag that closes itself has nothing in
it.  What stands between goes up to the close tag, with the gap before that. -/
inductive Tagged (tag : String) (content : List Lexeme → List Char → α → Prop) (nothing : α) :
    List Lexeme → List (String × String) → α → Prop
  | selfClose {head : List Lexeme} {attributes : List (String × String)} : IsTag tag attributes .selfClose head →
    Tagged tag content nothing head attributes nothing
  | closed {head between : List Lexeme} {close : Lexeme} {attributes : List (String × String)} {x : α} :
    IsTag tag attributes .tagEnd head → content between close.gap x → close.token = .closeTag tag →
    Tagged tag content nothing (head ++ between ++ [close]) attributes x

/-- The items of a level, and what is passed over between them: neither the close tag of the level nor an open tag that
is known there. -/
inductive Sequence (closing : String) (known : String → Prop) (item : List Lexeme → α → Prop) :
    List Lexeme → List α → Prop
  | nil : Sequence closing known item [] []
  | skip {l : Lexeme} {ls : List Lexeme} {xs : List α} : l.token.goesOn = true → l.token ≠ .closeTag closing →
    (∀ tag, l.token = .openTag tag → ¬known tag) → Sequence closing known item ls xs →
    Sequence closing known item (l :: ls) xs
  | item {ls rest : List Lexeme} {x : α} {xs : List α} : item ls x → Sequence closing known item rest xs →
    Sequence closing known item (ls ++ rest) (x :: xs)

end

/-- The body that these lexemes make up, with the gap after them. -/
def Body.ofLexemes (ls : List Lexeme) (gap : List Char) : Body where
  text := ls.flatMap (fun l => l.gap ++ l.source) ++ gap
  literals := ls.filterMap fun l =>
    match l.token with
    | .literal s => some (String.ofList (stripQuotes s.toList))
    | _ => none

/-- An element as it stands in a document. -/
structure Item where
  element : Element
  attributes : List (String × String)
  body : Body

/-- The lexemes are a body: they have no close tag of the element, and the gap after them is the last part of it. -/
def BodyReads (e : Element) (ls : List Lexeme) (gap : List Char) (body : Body) : Prop :=
  Avoids (.closeTag e.tag) ls ∧ body = .ofLexemes ls gap

namespace Item

/-- The lexemes are the element, up to the first close tag of its name. -/
def Reads (x : Item) (ls : List Lexeme) : Prop :=
  Tagged x.element.tag (BodyReads x.element) {} ls x.attributes x.body

/-- The body without blanks at its ends. -/
def core (x : Item) : List Char := trim x.body.text

def text (x : Item) : String := String.ofList x.core

end Item

/-- The lexemes are elements of a section, and what is passed over between them. -/
def ItemsRead (s : Section) (ls : List Lexeme) (_gap : List Char) (items : List Item) : Prop :=
  Sequence s.tag (fun tag => ∃ e : Element, e.parent = s ∧ e.tag = tag) (fun ls x => x.element.parent = s ∧ x.Reads ls)
    ls items

/-- The lexemes are the section, with these elements in it. -/
def SectionReads (ls : List Lexeme) (s : Section) (items : List Item) : Prop :=
  ∃ attributes, Tagged s.tag (ItemsRead s) [] ls attributes items

/-- The lexemes are sections, and what is passed over between them. -/
def SectionsRead (ls : List Lexeme) (_gap : List Char) (sections : List (Section × List Item)) : Prop :=
  Sequence "policy" (fun tag => ∃ s : Section, s.tag = tag) (fun ls x => SectionReads ls x.1 x.2) ls sections

/-- The lexemes are the root, with these sections in it. -/
def RootReads (ls : List Lexeme) (sections : List (Section × List Item)) : Prop :=
  ∃ attributes, Tagged "policy" SectionsRead [] ls attributes sections

/-- The first open tag of a policy opens the root.  After the root anything may follow. -/
def DocumentReads (ls : List Lexeme) (sections : List (Section × List Item)) : Prop :=
  ∃ prolog root rest, ls = prolog ++ root ++ rest ∧ Avoids (.openTag "policy") prolog ∧ RootReads root sections

/-! ### What the elements say -/

/-- The elements of all these sections, in order. -/
def itemsIn (sections : List (Section × List Item)) : List Item := sections.flatMap Prod.snd

/-- The elements of one kind, in order. -/
def itemsOf (e : Element) (items : List Item) : List Item := items.filter (·.element = e)

/-- Numbers are numbers, and a condition is of a known type. -/
structure Item.WellFormed (x : Item) : Prop where
  priority : x.element = .priority → (readInt64 x.core).isSome = true
  returnCode : x.element = .returnCode → (readUInt16 x.core).isSome = true
  directive : x.element.isDirective = true →
    ∀ raw ∈ x.attributes.lookup "priority", (readInt64 (trim raw.toList)).isSome = true
  type : x.element = .condition → ∀ type ∈ x.attributes.lookup "type", lowerAscii type = "json"

/-- The elements are well-formed, and there is at most one condition. -/
structure Valid (items : List Item) : Prop where
  wellFormed : ∀ x ∈ items, x.WellFormed
  condition : (itemsOf .condition items).length ≤ 1

/-- The text of the last element of a kind. -/
def lastText? (e : Element) (items : List Item) : Option String := (itemsOf e items).getLast?.map Item.text

/-- The number in the last element of a kind. -/
def lastNumber? {α : Type} (read : List Char → Option α) (e : Element) (items : List Item) : Option α :=
  (itemsOf e items).getLast?.bind fun x => read x.core

/-- The quoted texts in all elements of a kind. -/
def literalsOf (e : Element) (items : List Item) : List String := (itemsOf e items).flatMap (·.body.literals)

def Item.directive (x : Item) : Directive where
  source := (x.attributes.lookup "source").getD ""
  priority := ((x.attributes.lookup "priority").bind fun raw => readInt64 (trim raw.toList)).getD 0
  message := x.text

/-- The policy that the elements of a document give. -/
def Policy.ofItems (items : List Item) : Policy where
  manifest := {
    id := (lastText? .id items).getD ""
    priority := (lastNumber? readInt64 .priority items).getD 0
    scope := (lastText? .scope items).getD ""
    version := (lastText? .version items).getD ""
    name := (lastText? .name items).getD ""
    description := (lastText? .description items).getD "" }
  routes := (((itemsOf .path items).map Item.text).filter (· ≠ "")).eraseDups
  effects := {
    allowed := literalsOf .allow items
    denied := literalsOf .deny items
    redirect := (itemsOf .redirect items).getLast?.map fun x => String.ofList (stripQuotes x.core)
    returnCode := lastNumber? readUInt16 .returnCode items
    returnMessage := lastText? .returnMessage items }
  logging := {
    onPermit := (itemsOf .onPermit items).map Item.directive
    onDeny := (itemsOf .onDeny items).map Item.directive
    onAny := (itemsOf .onAny items).map Item.directive }
  condition := (lastText? .condition items).getD ""

end AccessPolicy
