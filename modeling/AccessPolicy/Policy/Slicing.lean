import AccessPolicy.Policy.Reading
import AccessPolicy.Markup.Scanner

/-!
# Reading a policy from located tokens

Here the body of an element is not put together from what it is made up of.  A reading remembers where the body began,
and when the element ends the body is sliced from the document; the rights that an element lists are its quoted texts,
so nothing is sliced for them.  A slice that cannot be taken ends the reading with its span.
-/

namespace AccessPolicy

open Markup

/-- Whether the element is read for its text, and not for the quoted texts in it. -/
def Element.hasText : Element → Bool
  | allow | deny => false
  | _ => true

/-- A reading, and the position where the body of the last element began. -/
structure SlicedReading where
  reading : Reading := {}
  bodyStart : Nat := 0
deriving DecidableEq, Repr

namespace SlicedReading

/-- A token as a lexeme: the one that ends an element comes with the body of the element before it, any other with
nothing. -/
def lexeme (cs : List Char) (r : SlicedReading) (t : Token × Span) : Except Span Lexeme :=
  match r.reading.place, t.1 with
  | .body e _ _, .closeTag tag =>
    if tag = e.tag ∧ e.hasText then do
      return ⟨← slice cs ⟨r.bodyStart, max t.2.start r.bodyStart⟩, [], t.1⟩
    else .ok ⟨[], [], t.1⟩
  | _, _ => .ok ⟨[], [], t.1⟩

/-- A body begins where the open tag of its element ends. -/
def nextStart (r : SlicedReading) (t : Token × Span) : Nat :=
  match r.reading.place, t.1 with
  | .elementTag _ _, .tagEnd => t.2.stop
  | _, _ => r.bodyStart

def step (cs : List Char) (r : SlicedReading) (t : Token × Span) :
    Except Span (Except DocumentError SlicedReading) := do
  let l ← r.lexeme cs t
  return (r.reading.step l).map ({ reading := ·, bodyStart := r.nextStart t })

def run (cs : List Char) : SlicedReading → List (Token × Span) → Except Span (Except DocumentError Reading)
  | r, [] => .ok (.ok r.reading)
  | r, t :: ts => do
    match ← r.step cs t with
    | .ok r => run cs r ts
    | .error e => return .error e

end SlicedReading

/-- The policy that a document describes, read by positions. -/
def Policy.parseSliced (document : String) : Except Span (Except DocumentError Policy) := do
  let ts ← scan document.toList .content 0
  let reading ← SlicedReading.run document.toList {} ts
  return reading >>= Reading.finish

end AccessPolicy
