import AccessPolicy.Settings.Value

/-!
# The small parts of TOML

Keys, strings, numbers, truth values and dates, each read from the front of a text.  A date stands for its normal
form as a text.
-/

namespace AccessPolicy.Toml

/-- What is read from the front of a text; the rest of the text is the state. -/
abbrev Scan := StateT (List Char) Option

def next? : Scan (Option Char) := return (← get).head?

def drop (n : Nat) : Scan Unit := modify (List.drop n)

/-- The longest start of characters of a class. -/
def takeAll (p : Char → Bool) : Scan (List Char) := do
  let cs ← get
  set (cs.dropWhile p)
  return cs.takeWhile p

/-- One character of a class. -/
def one (p : Char → Bool) : Scan Char := do
  match ← get with
  | c :: cs => if p c then set cs; return c else failure
  | [] => failure

/-- Whether the text goes on like this; if so, it is read. -/
def skip (token : List Char) : Scan Bool := do
  let found := token.isPrefixOf (← get)
  if found then drop token.length
  return found

def isBlank (c : Char) : Bool := c == ' ' || c == '\t'

def skipBlanks : Scan Unit := do let _ ← takeAll isBlank

/-- A character that may stand in a comment or in a string on one line. -/
def isPlain (c : Char) : Bool := c == '\t' || (0x20 ≤ c.toNat && c.toNat ≠ 0x7F)

/-! ### Strings -/

/-- The character that a one-letter escape stands for. -/
def escaped? : Char → Option Char
  | '"' => some '"'
  | '\\' => some '\\'
  | 'b' => some '\x08'
  | 'f' => some '\x0c'
  | 'n' => some '\n'
  | 'r' => some '\r'
  | 't' => some '\t'
  | _ => none

/-- Where the reading of a string stands. -/
inductive Phase
  | inside
  | escape
  /-- So many digits of a character code are still to come. -/
  | code (left : Nat) (value : Nat)
  /-- After a backslash and blanks, where the line has to end. -/
  | lineEnd
  /-- After such a line, where blanks and ends of lines do not count. -/
  | lineStart
deriving DecidableEq, Repr

private def prepend (cs : List Char) : Option (List Char × List Char) → Option (List Char × List Char) :=
  Option.map fun (text, rest) => (cs ++ text, rest)

/-- The text up to the closing quote, and what follows it. -/
def lineString : Phase → List Char → Option (List Char × List Char)
  | _, [] => none
  | .inside, c :: cs =>
    if c == '"' then some ([], cs)
    else if c == '\\' then lineString .escape cs
    else if isPlain c then prepend [c] (lineString .inside cs)
    else none
  | .escape, c :: cs =>
    if c == 'u' then lineString (.code 4 0) cs
    else if c == 'U' then lineString (.code 8 0) cs
    else do
      let e ← escaped? c
      prepend [e] (lineString .inside cs)
  | .code left value, c :: cs => do
    let value := 16 * value + (← Text.hexValue? c)
    if 1 < left then lineString (.code (left - 1) value) cs
    else if value.isValidChar then prepend [Char.ofNat value] (lineString .inside cs)
    else none
  | _, _ => none

/-- The text up to three closing quotes, and what follows them.  Up to two quotes may stand right before them. -/
def blockString : Phase → List Char → Option (List Char × List Char)
  | .inside, '"' :: '"' :: '"' :: '"' :: '"' :: cs => some (['"', '"'], cs)
  | .inside, '"' :: '"' :: '"' :: '"' :: cs => some (['"'], cs)
  | .inside, '"' :: '"' :: '"' :: cs => some ([], cs)
  | .inside, '\r' :: '\n' :: cs => prepend ['\n'] (blockString .inside cs)
  | .inside, c :: cs =>
    if c == '\\' then blockString .escape cs
    else if c == '\n' || isPlain c then prepend [c] (blockString .inside cs)
    else none
  | .escape, c :: cs =>
    if c == 'u' then blockString (.code 4 0) cs
    else if c == 'U' then blockString (.code 8 0) cs
    else if c == '\n' then blockString .lineStart cs
    else if isBlank c || c == '\r' then blockString .lineEnd cs
    else do
      let e ← escaped? c
      prepend [e] (blockString .inside cs)
  | .code left value, c :: cs => do
    let value := 16 * value + (← Text.hexValue? c)
    if 1 < left then blockString (.code (left - 1) value) cs
    else if value.isValidChar then prepend [Char.ofNat value] (blockString .inside cs)
    else none
  | .lineEnd, c :: cs =>
    if c == '\n' then blockString .lineStart cs
    else if isBlank c || c == '\r' then blockString .lineEnd cs
    else none
  | .lineStart, '"' :: '"' :: '"' :: '"' :: '"' :: cs => some (['"', '"'], cs)
  | .lineStart, '"' :: '"' :: '"' :: '"' :: cs => some (['"'], cs)
  | .lineStart, '"' :: '"' :: '"' :: cs => some ([], cs)
  | .lineStart, c :: cs =>
    if isBlank c || c == '\n' || c == '\r' then blockString .lineStart cs
    else if c == '\\' then blockString .escape cs
    else if isPlain c then prepend [c] (blockString .inside cs)
    else none
  | _, [] => none

/-- The text up to three closing apostrophes, and what follows them; nothing is escaped. -/
def literalBlock : List Char → Option (List Char × List Char)
  | '\'' :: '\'' :: '\'' :: '\'' :: '\'' :: cs => some (['\'', '\''], cs)
  | '\'' :: '\'' :: '\'' :: '\'' :: cs => some (['\''], cs)
  | '\'' :: '\'' :: '\'' :: cs => some ([], cs)
  | '\r' :: '\n' :: cs => prepend ['\n'] (literalBlock cs)
  | c :: cs => if c == '\n' || isPlain c then prepend [c] (literalBlock cs) else none
  | [] => none

/-- The end of a line right after the opening quotes does not count. -/
private def firstLine : List Char → List Char
  | '\n' :: cs => cs
  | '\r' :: '\n' :: cs => cs
  | cs => cs

/-- What a reader takes from the front of the text. -/
private def taking (read : List Char → Option (List Char × List Char)) : Scan String := do
  let (text, rest) ← read (← get)
  set rest
  return String.ofList text

/-- A string on one line, in quotes or in apostrophes. -/
def quotedLine : Scan String := do
  match ← one fun c => c == '"' || c == '\'' with
  | '"' => taking (lineString .inside)
  | _ =>
    let text ← takeAll fun c => isPlain c && c ≠ '\''
    let _ ← one (· == '\'')
    return String.ofList text

/-- A string; after three quotes or apostrophes it may have several lines. -/
def quoted : Scan String := do
  if ← skip ['"', '"', '"'] then taking (blockString .inside ∘ firstLine)
  else if ← skip ['\'', '\'', '\''] then taking (literalBlock ∘ firstLine)
  else quotedLine

/-! ### Keys -/

def isKeyChar (c : Char) : Bool := c.isAlphanum || c == '_' || c == '-'

def key : Scan String := do
  match ← next? with
  | some '"' | some '\'' => quotedLine
  | _ =>
    let name ← takeAll isKeyChar
    if name.isEmpty then failure
    return String.ofList name

/-- Keys with points between them. -/
def keyPath : Scan (List String) := do
  let first ← key
  go first (← get).length
where
  go (first : String) : Nat → Scan (List String)
    | 0 => return [first]
    | fuel + 1 => do
      skipBlanks
      if ← skip ['.'] then
        skipBlanks
        return first :: (← go (← key) fuel)
      else return [first]

/-! ### Numbers -/

/-- Digits, with single underscores between them. -/
def groups? (isDigit : Char → Bool) (cs : List Char) : Option (List Char) :=
  let groups := Text.splitEach '_' cs
  if groups.all fun group => !group.isEmpty && group.all isDigit then some groups.flatten else none

/-- A row of decimal digits without a superfluous zero in front. -/
def wholeDigits? (cs : List Char) : Option (List Char) := do
  let ds ← groups? Char.isDigit cs
  if ds.head? == some '0' && 1 < ds.length then none else some ds

private def unsigned (cs : List Char) : List Char :=
  if cs.head? == some '-' || cs.head? == some '+' then cs.drop 1 else cs

private def ofBase (base : Nat) (cs : List Char) : Option Int := do
  let inBase (c : Char) : Bool := (Text.hexValue? c).any (· < base)
  let ds ← groups? inBase cs
  return (ds.foldl (fun n d => base * n + (Text.hexValue? d).getD 0) 0 : Nat)

/-- An integer of 64 bits in decimal digits, or in the digits of another base. -/
def integer? (cs : List Char) : Option Int := do
  let n ← match cs with
    | '0' :: 'x' :: ds => ofBase 16 ds
    | '0' :: 'o' :: ds => ofBase 8 ds
    | '0' :: 'b' :: ds => ofBase 2 ds
    | _ => do
      let n : Int := Text.ofDigits (← wholeDigits? (unsigned cs))
      pure (if cs.head? == some '-' then -n else n)
  if Int64.minValue.toInt ≤ n ∧ n ≤ Int64.maxValue.toInt then some n else none

/-- A number with a fraction or an exponent, which has to be in range, or the name of a value that is no such
number. -/
def real? (cs : List Char) : Option ExtendedDouble := do
  let negative := cs.head? == some '-'
  let body := unsigned cs
  if body = ['i', 'n', 'f'] then return .infinite negative
  if body = ['n', 'a', 'n'] then return .undefined
  let isMark (c : Char) : Bool := c == 'e' || c == 'E'
  let mantissa := body.takeWhile (!isMark ·)
  let exponent := body.dropWhile (!isMark ·)
  let e ← match exponent with
    | [] => some 0
    | _ :: ds => do
      let n : Int := Text.ofDigits (← groups? Char.isDigit (unsigned ds))
      pure (if ds.head? == some '-' then -n else n)
  let whole ← wholeDigits? (mantissa.takeWhile (· ≠ '.'))
  let fraction ← match mantissa.dropWhile (· ≠ '.') with
    | [] => if exponent.isEmpty then none else some []
    | _ :: ds => groups? Char.isDigit ds
  match ExtendedDouble.ofDecimal negative (Text.ofDigits (whole ++ fraction)) (e - fraction.length) with
  | .infinite _ => none
  | x => some x

/-! ### Dates and times -/

/-- A number of so many digits, in a range. -/
private def field (width low high : Nat) : Scan (List Char × Nat) := do
  let ds := (← get).take width
  drop width
  let n ← Text.readDigits ds
  if ds.length = width ∧ low ≤ n ∧ n ≤ high then return (ds, n) else failure

private def mark (c : Char) : Scan Unit := do let _ ← one (· == c)

private def isLeap (year : Nat) : Bool := year % 4 == 0 && (year % 100 ≠ 0 || year % 400 == 0)

private def daysIn (year month : Nat) : Nat :=
  if month = 2 then (if isLeap year then 29 else 28) else if [4, 6, 9, 11].contains month then 30 else 31

def date : Scan (List Char) := do
  let (y, year) ← field 4 0 9999
  mark '-'
  let (m, month) ← field 2 1 12
  mark '-'
  let (d, _) ← field 2 1 (daysIn year month)
  return y ++ '-' :: m ++ '-' :: d

/-- A time of day; a fraction counts to nine digits, without zeros at the end. -/
def time : Scan (List Char) := do
  let (h, _) ← field 2 0 23
  mark ':'
  let (m, _) ← field 2 0 59
  mark ':'
  let (s, _) ← field 2 0 60
  let clock := h ++ ':' :: m ++ ':' :: s
  if ← skip ['.'] then
    let ds ← takeAll Char.isDigit
    if ds.isEmpty then failure
    let kept := ((ds.take 9).reverse.dropWhile (· == '0')).reverse
    return if kept.isEmpty then clock else clock ++ '.' :: kept
  else return clock

/-- The offset of a time, if there is one. -/
def offset : Scan (List Char) := do
  match ← get with
  | [] => return []
  | c :: cs =>
    set cs
    if c == 'Z' || c == 'z' then return ['Z']
    if c ≠ '+' && c ≠ '-' then failure
    let (h, _) ← field 2 0 23
    mark ':'
    let (m, _) ← field 2 0 59
    return c :: h ++ ':' :: m

/-- A date, a time, or both. -/
def moment : Scan (List Char) := do
  if ((← get).drop 2).head? == some ':' then time
  else
    let day ← date
    if (← get).isEmpty then return day
    let _ ← one fun c => c == 'T' || c == 't' || c == ' '
    let clock ← time
    return day ++ 'T' :: clock ++ (← offset)

/-! ### Values without brackets and quotes -/

private def isWordChar (c : Char) : Bool := isKeyChar c || c == '+' || c == '.' || c == ':'

/-- The characters of a value; a date and a time may have a space between them. -/
private def word : Scan (List Char) := do
  let cs ← takeAll isWordChar
  match ← get with
  | ' ' :: d :: _ =>
    if cs.length = 10 && (cs.drop 4).head? == some '-' && d.isDigit then
      drop 1
      return cs ++ ' ' :: (← takeAll isWordChar)
    else return cs
  | _ => return cs

def atom : Scan Setting := do
  let cs ← word
  if cs = ['t', 'r', 'u', 'e'] then return .truth true
  if cs = ['f', 'a', 'l', 's', 'e'] then return .truth false
  match integer? cs, real? cs, moment.run cs with
  | some n, _, _ => return .integer n
  | none, some x, _ => return .real x
  | none, none, some (text, []) => return .text (String.ofList text)
  | _, _, _ => failure

end AccessPolicy.Toml
