import AccessPolicy.Json.Token

/-!
# Reading JSON

The values that are begun and not yet ended form a stack of frames, and each token of the text changes the top of
it.  The length of the stack is the depth of nesting, so a limit on depth is a limit on the stack.
-/

namespace AccessPolicy.Json

/-- A value begun and not yet ended; items stand in reverse order. -/
inductive Frame
  | array (items : List Json)
  | object (fields : List (String × Json))
  /-- An object after the name of a field, which waits for its value. -/
  | field (fields : List (String × Json)) (key : String)
deriving Repr

/-- What may come next. -/
inductive Expected
  | value
  /-- An array has begun: a value, or its end. -/
  | firstItem
  /-- An object has begun: a name, or its end. -/
  | firstKey
  | key
  | colon
  /-- A value has ended: a comma, or the end of what it stands in. -/
  | separator
  | nothing (root : Json)
deriving Repr

structure Builder where
  stack : List Frame
  expected : Expected
deriving Repr

namespace Builder

/-- A value has been read to its end. -/
def complete (value : Json) : List Frame → Option Builder
  | [] => some ⟨[], .nothing value⟩
  | .array items :: stack => some ⟨.array (value :: items) :: stack, .separator⟩
  | .field fields key :: stack => some ⟨.object (setField key value fields) :: stack, .separator⟩
  | .object _ :: _ => none

/-- A value begins, in at most `depth` others. -/
def beginValue (depth : Nat) (stack : List Frame) : Token → Option Builder
  | .beginArray => if stack.length < depth then some ⟨.array [] :: stack, .firstItem⟩ else none
  | .beginObject => if stack.length < depth then some ⟨.object [] :: stack, .firstKey⟩ else none
  | .atom value => complete value stack
  | _ => none

def beginKey : List Frame → Token → Option Builder
  | .object fields :: stack, .atom (.string key) => some ⟨.field fields key :: stack, .colon⟩
  | _, _ => none

def endValue : List Frame → Token → Option Builder
  | .array items :: stack, .endArray => complete (.array items.reverse) stack
  | .object fields :: stack, .endObject => complete (.object fields) stack
  | _, _ => none

def feed (depth : Nat) (builder : Builder) (token : Token) : Option Builder :=
  let stack := builder.stack
  match builder.expected with
  | .value => beginValue depth stack token
  | .firstItem => (beginValue depth stack token).or (endValue stack token)
  | .firstKey => (beginKey stack token).or (endValue stack token)
  | .key => beginKey stack token
  | .colon =>
    match token with
    | .colon => some ⟨stack, .value⟩
    | _ => none
  | .separator =>
    match stack, token with
    | .array _ :: _, .comma => some ⟨stack, .value⟩
    | .object _ :: _, .comma => some ⟨stack, .key⟩
    | _, _ => endValue stack token
  | .nothing _ => none

end Builder

/-- The value that a text of tokens stands for, with at most `depth` arrays and objects around a value. -/
def ofTokens? (depth : Nat) (tokens : List Token) : Option Json := do
  let builder ← tokens.foldlM (Builder.feed depth) ⟨[], .value⟩
  match builder.expected with
  | .nothing root => some root
  | _ => none

/-- The nesting that is accepted in texts from outside. -/
def maxDepth : Nat := 127

/-- The value of a JSON text. -/
def parse? (text : String) : Option Json := do
  let tokens ← tokens? text.toList
  ofTokens? maxDepth tokens

end AccessPolicy.Json
