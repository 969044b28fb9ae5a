/-!
# Regular expressions

The expressions that globs are written as.  They are anchored at both ends; between the anchors stand characters, with
a backslash before those that mean something else, and dots with a star, which stand for runs of characters without a
line feed.  Which expressions are refused, and in what words, is left to the engine.
-/

namespace AccessPolicy

/-- A part of an expression. -/
inductive Regex.Part
  | char (c : Char)
  | run
deriving DecidableEq, Repr

/-- An expression that is anchored at both ends. -/
structure Regex where
  parts : List Regex.Part
deriving DecidableEq, Repr

namespace Regex

/-- The characters that are escaped. -/
def special : List Char :=
  ['\\', '.', '+', '*', '?', '(', ')', '|', '[', ']', '\x7b', '\x7d', '^', '$', '#', '&', '-', '~']

/-- A character as an expression for itself. -/
def escapeChar (c : Char) : List Char := if c ∈ special then ['\\', c] else [c]

/-- The text as an expression for itself. -/
def escape (text : String) : String := String.ofList (text.toList.flatMap escapeChar)

/-! ### Reading -/

/-- The parts up to the last anchor. -/
def readParts? : List Char → Option (List Part)
  | ['$'] => some []
  | '\\' :: c :: rest => if c ∈ special then (readParts? rest).map (.char c :: ·) else none
  | '.' :: '*' :: rest => (readParts? rest).map (.run :: ·)
  | c :: rest => if c ∈ special then none else (readParts? rest).map (.char c :: ·)
  | [] => none

/-- The expression that is written in a text. -/
def read? (source : String) : Option Regex :=
  match source.toList with
  | '^' :: rest => (readParts? rest).map .mk
  | _ => none

/-- What the engine refuses, say because it would become too large, and in what words. -/
class Engine where
  refusal? : String → Option String

/-- An engine that refuses nothing.  It is the one that is meant where no other is named. -/
instance : Engine := ⟨fun _ => none⟩

/-- The expression in a text, or why there is none. -/
def compile [Engine] (source : String) : Except String Regex :=
  match Engine.refusal? source, read? source with
  | some reason, _ => .error reason
  | none, some e => .ok e
  | none, none => .error "unsupported expression"

/-! ### Matching

A text is read from left to right, and what is known after each character is the list of parts that the rest of the
text has to match, one for each way to have come there. -/

/-- The parts for the text after a first character. -/
def advance (c : Char) : List Part → List (List Part)
  | [] => []
  | .run :: parts => (if c = '\n' then [] else [.run :: parts]) ++ advance c parts
  | .char d :: parts => if c = d then [parts] else []

/-- The parts are matched by the empty text. -/
def matchesEmpty (parts : List Part) : Bool := parts.all (· == .run)

/-- The parts for the text after a first stretch of it. -/
def remaining (ways : List (List Part)) (text : List Char) : List (List Part) :=
  text.foldl (fun ways c => (ways.flatMap (advance c)).eraseDups) ways

def accepts (e : Regex) (text : String) : Bool := (remaining [e.parts] text.toList).any matchesEmpty

end Regex

end AccessPolicy
