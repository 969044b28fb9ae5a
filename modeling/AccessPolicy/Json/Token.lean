import AccessPolicy.Json.Value
import AccessPolicy.Text.Decimal

/-!
# Tokens of JSON text

The text is read one character at a time.  What is being read when a character comes is one of a few states, and
a fold over the characters gives the tokens, or nothing when the text is not made of tokens.
-/

namespace AccessPolicy.Json

inductive Token
  | beginArray
  | endArray
  | beginObject
  | endObject
  | comma
  | colon
  /-- A value without parts: a string, a number, a truth value or null. -/
  | atom (value : Json)
deriving Repr

/-! ### Strings -/

/-- What one character or one escape of a string stands for: a character, or a unit of UTF-16. -/
inductive Piece
  | char (c : Char)
  | unit (n : Nat)
deriving DecidableEq, Repr

/-- The string of the pieces.  A high surrogate needs a low one right after it, and no other surrogate stands. -/
def joinPieces : List Piece → Option (List Char)
  | [] => some []
  | .char c :: ps => (joinPieces ps).map (c :: ·)
  | .unit n :: ps =>
    if 0xD800 ≤ n ∧ n < 0xDC00 then
      match ps with
      | .unit low :: ps =>
        if 0xDC00 ≤ low ∧ low < 0xE000 then
          (joinPieces ps).map (Char.ofNat (0x10000 + (n - 0xD800) * 0x400 + (low - 0xDC00)) :: ·)
        else none
      | _ => none
    else if 0xDC00 ≤ n ∧ n < 0xE000 then none
    else (joinPieces ps).map (Char.ofNat n :: ·)

/-- The character that a one-letter escape stands for. -/
def escaped : Char → Option Char
  | '"' => some '"'
  | '\\' => some '\\'
  | '/' => some '/'
  | 'b' => some '\x08'
  | 'f' => some '\x0c'
  | 'n' => some '\n'
  | 'r' => some '\r'
  | 't' => some '\t'
  | _ => none

/-! ### Numbers -/

def isNumberChar (c : Char) : Bool := c.isDigit || c == '-' || c == '+' || c == '.' || c == 'e' || c == 'E'

/-- The significand of a decimal is kept below `2 ^ 64`: digits of the whole part that no longer fit only raise
the exponent. -/
def wholeDigits (ds : List Char) : Nat × Int :=
  let fits := ds.foldl (fun (n, exponent, full) d =>
    let next := 10 * n + Text.digitValue d
    if full || UInt64.size ≤ next then (n, exponent + 1, true) else (next, exponent, false)) (0, (0 : Int), false)
  (fits.1, fits.2.1)

/-- Digits after the point that no longer fit into the significand do not count. -/
def fractionDigits (significand : Nat) (exponent : Int) (ds : List Char) : Nat × Int :=
  let fits := ds.foldl (fun (n, exponent, full) d =>
    let next := 10 * n + Text.digitValue d
    if full || UInt64.size ≤ next then (n, exponent, true) else (next, exponent - 1, false)) (significand, exponent, false)
  (fits.1, fits.2.1)

/-- The exponent after the letter `e`. -/
def readExponent : List Char → Option Int
  | '-' :: ds => (Text.readDigits ds).map fun n => -(n : Int)
  | '+' :: ds => (Text.readDigits ds).map Int.ofNat
  | ds => (Text.readDigits ds).map Int.ofNat

/-- A whole number: an integer if it has 64 bits, signed or not, else a double.  Minus zero is a double. -/
def wholeNumber (negative : Bool) (ds : List Char) : Option Number :=
  let n := Text.ofDigits ds
  if negative then
    if 0 < n ∧ n ≤ 0x8000000000000000 then some (.integer (-(n : Int)))
    else (Double.ofDecimal true (wholeDigits ds).1 (wholeDigits ds).2).map .double
  else if n < UInt64.size then some (.integer n)
  else (Double.ofDecimal false (wholeDigits ds).1 (wholeDigits ds).2).map .double

/-- A number without its minus sign: digits without a superfluous zero in front, then optionally a point with
digits, then optionally an exponent. -/
def readMagnitude (negative : Bool) (cs : List Char) : Option Number :=
  let whole := cs.takeWhile Char.isDigit
  let rest := cs.dropWhile Char.isDigit
  if whole.isEmpty || (whole.head? == some '0' && 1 < whole.length) then none
  else
    let (n, e) := wholeDigits whole
    let withExponent (n : Nat) (e : Int) : List Char → Option Number
      | [] => (Double.ofDecimal negative n e).map .double
      | 'e' :: ds | 'E' :: ds => do
        let shift ← readExponent ds
        (Double.ofDecimal negative n (e + shift)).map .double
      | _ => none
    match rest with
    | [] => wholeNumber negative whole
    | '.' :: rest =>
      let fraction := rest.takeWhile Char.isDigit
      if fraction.isEmpty then none
      else
        let (n, e) := fractionDigits n e fraction
        withExponent n e (rest.dropWhile Char.isDigit)
    | rest => withExponent n e rest

def readNumber : List Char → Option Number
  | '-' :: cs => readMagnitude true cs
  | cs => readMagnitude false cs

/-! ### The scanner -/

/-- What is being read; characters and pieces stand in reverse order. -/
inductive Reading
  | between
  | word (letters : List Char)
  | number (chars : List Char)
  | string (pieces : List Piece)
  | escape (pieces : List Piece)
  | unicode (pieces : List Piece) (digits : Nat) (value : Nat)
deriving Repr

structure Scanner where
  tokens : List Token
  reading : Reading
deriving Repr

def isSpace (c : Char) : Bool := c == ' ' || c == '\t' || c == '\n' || c == '\r'

def readWord : List Char → Option Json
  | ['t', 'r', 'u', 'e'] => some (.bool true)
  | ['f', 'a', 'l', 's', 'e'] => some (.bool false)
  | ['n', 'u', 'l', 'l'] => some .null
  | _ => none

/-- A character between two tokens. -/
def Scanner.start (tokens : List Token) (c : Char) : Option Scanner :=
  match c with
  | '[' => some ⟨.beginArray :: tokens, .between⟩
  | ']' => some ⟨.endArray :: tokens, .between⟩
  | '\x7b' => some ⟨.beginObject :: tokens, .between⟩
  | '\x7d' => some ⟨.endObject :: tokens, .between⟩
  | ',' => some ⟨.comma :: tokens, .between⟩
  | ':' => some ⟨.colon :: tokens, .between⟩
  | '"' => some ⟨tokens, .string []⟩
  | c =>
    if isSpace c then some ⟨tokens, .between⟩
    else if c == '-' || c.isDigit then some ⟨tokens, .number [c]⟩
    else if c.isAlpha then some ⟨tokens, .word [c]⟩
    else none

def Scanner.feed (scanner : Scanner) (c : Char) : Option Scanner :=
  match scanner.reading with
  | .between => start scanner.tokens c
  | .word letters =>
    if c.isAlpha then some { scanner with reading := .word (c :: letters) }
    else do
      let value ← readWord letters.reverse
      start (.atom value :: scanner.tokens) c
  | .number chars =>
    if isNumberChar c then some { scanner with reading := .number (c :: chars) }
    else do
      let value ← readNumber chars.reverse
      start (.atom (.number value) :: scanner.tokens) c
  | .string pieces =>
    if c == '"' then do
      let s ← joinPieces pieces.reverse
      some ⟨.atom (.string (String.ofList s)) :: scanner.tokens, .between⟩
    else if c == '\\' then some { scanner with reading := .escape pieces }
    else if c.toNat < 0x20 then none
    else some { scanner with reading := .string (.char c :: pieces) }
  | .escape pieces =>
    if c == 'u' then some { scanner with reading := .unicode pieces 0 0 }
    else do
      let e ← escaped c
      some { scanner with reading := .string (.char e :: pieces) }
  | .unicode pieces digits value => do
    let d ← Text.hexValue? c
    let value := 16 * value + d
    if digits = 3 then some { scanner with reading := .string (.unit value :: pieces) }
    else some { scanner with reading := .unicode pieces (digits + 1) value }

/-- The tokens read, in order, when the text ends here. -/
def Scanner.finish (scanner : Scanner) : Option (List Token) :=
  match scanner.reading with
  | .between => some scanner.tokens.reverse
  | .word letters => do
    let value ← readWord letters.reverse
    some (.atom value :: scanner.tokens).reverse
  | .number chars => do
    let value ← readNumber chars.reverse
    some (.atom (.number value) :: scanner.tokens).reverse
  | _ => none

/-- The tokens of a JSON text. -/
def tokens? (text : List Char) : Option (List Token) := do
  let scanner ← text.foldlM Scanner.feed ⟨[], .between⟩
  scanner.finish

end AccessPolicy.Json
