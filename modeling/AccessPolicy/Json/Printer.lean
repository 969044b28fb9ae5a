import AccessPolicy.Json.Value
import AccessPolicy.Number.Shortest

/-!
# Writing JSON

Two layouts: on one line without blanks, and with each item on a line of its own, indented by two spaces for each
level.
-/

namespace AccessPolicy

def Number.render : Number → String
  | integer n => Text.renderInt n
  | double d => d.render

namespace Json

private def hexDigit (n : Nat) : Char :=
  if n < 10 then Char.ofNat ('0'.toNat + n) else Char.ofNat ('a'.toNat + n - 10)

/-- A character inside a string. -/
def escape (c : Char) : List Char :=
  match c with
  | '"' => ['\\', '"']
  | '\\' => ['\\', '\\']
  | '\x08' => ['\\', 'b']
  | '\x0c' => ['\\', 'f']
  | '\n' => ['\\', 'n']
  | '\r' => ['\\', 'r']
  | '\t' => ['\\', 't']
  | c =>
    if c.toNat < 0x20 then ['\\', 'u', '0', '0', hexDigit (c.toNat / 16), hexDigit (c.toNat % 16)] else [c]

def quote (s : String) : String := String.ofList ('"' :: (s.toList.flatMap escape ++ ['"']))

mutual

def compact : Json → String
  | null => "null"
  | bool b => if b then "true" else "false"
  | number n => n.render
  | string s => quote s
  | array items => "[" ++ ",".intercalate (compactItems items) ++ "]"
  | object fields => "\x7b" ++ ",".intercalate (compactFields fields) ++ "\x7d"

def compactItems : List Json → List String
  | [] => []
  | item :: items => compact item :: compactItems items

def compactFields : List (String × Json) → List String
  | [] => []
  | (key, value) :: fields => (quote key ++ ":" ++ compact value) :: compactFields fields

end

/-- Items between brackets, each on its line. -/
private def block (opening closing indent : String) (items : List String) : String :=
  if items.isEmpty then opening ++ closing
  else
    let inner := indent ++ "  "
    opening ++ "\n" ++ inner ++ (",\n" ++ inner).intercalate items ++ "\n" ++ indent ++ closing

mutual

def prettyFrom (indent : String) : Json → String
  | null => "null"
  | bool b => if b then "true" else "false"
  | number n => n.render
  | string s => quote s
  | array items => block "[" "]" indent (prettyItems (indent ++ "  ") items)
  | object fields => block "\x7b" "\x7d" indent (prettyFields (indent ++ "  ") fields)

def prettyItems (indent : String) : List Json → List String
  | [] => []
  | item :: items => prettyFrom indent item :: prettyItems indent items

def prettyFields (indent : String) : List (String × Json) → List String
  | [] => []
  | (key, value) :: fields => (quote key ++ ": " ++ prettyFrom indent value) :: prettyFields indent fields

end

/-- The value over several lines. -/
def pretty (value : Json) : String := prettyFrom "" value

end Json

end AccessPolicy
