/-!
# Tokens of a policy document

A document is a sequence of tags and of texts between them.  A token says what was read; a fault says why
reading stopped, with positions in bytes of UTF-8 from the start of the document.
-/

namespace AccessPolicy.Markup

/-- Why a document cannot be read as tags and texts. -/
inductive Fault
  | unclosedComment (position : Nat)
  | unclosedQuote (position : Nat)
  | namelessCloseTag (position : Nat)
  | unfinishedCloseTag (name : String) (position : Nat)
  | strayCharacter (character : Char) (position : Nat)
  | attributeWithoutValue (name : String) (position : Nat)
  | unquotedAttribute (name : String) (position : Nat)
deriving DecidableEq, Repr

def Fault.message : Fault → String
  | unclosedComment position => s!"unterminated comment at byte {position}"
  | unclosedQuote position => s!"unterminated string at byte {position}"
  | namelessCloseTag position => s!"malformed close tag at byte {position}"
  | unfinishedCloseTag name position => s!"close tag </{name} is not terminated at byte {position}"
  | strayCharacter c position => s!"unexpected character '{c}' in tag at byte {position}"
  | attributeWithoutValue name position => s!"attribute '{name}' has no value at byte {position}"
  | unquotedAttribute name position => s!"attribute '{name}' value must be quoted at byte {position}"

inductive Token
  /-- The start `<name` of an open tag; its attributes and its end follow as tokens of their own. -/
  | openTag (name : String)
  | attr (name value : String)
  | tagEnd
  | selfClose
  | closeTag (name : String)
  /-- A quoted text between tags, with its quotes. -/
  | literal (text : String)
  /-- A trimmed text between tags that is a 64-bit integer. -/
  | number (text : String)
  /-- Any other trimmed text between tags. -/
  | text (text : String)
  | fault (fault : Fault)
  | endOfText
deriving DecidableEq, Repr

/-- Reading goes on after the token: it is neither a fault nor the end of the text. -/
def Token.goesOn : Token → Bool
  | fault _ | endOfText => false
  | _ => true

/-- The token as it is shown to a reader. -/
def Token.display : Token → String
  | openTag name => "<" ++ name
  | attr name value => name ++ "=\"" ++ value ++ "\""
  | tagEnd => ">"
  | selfClose => "/>"
  | closeTag name => "</" ++ name ++ ">"
  | literal s | number s | text s => s
  | fault f => "error: " ++ f.message
  | endOfText => "EOF"

/-- A stretch of the document, in bytes: from the first one up to, not including, `stop`. -/
structure Span where
  start : Nat
  stop : Nat
deriving DecidableEq, Repr

end AccessPolicy.Markup
