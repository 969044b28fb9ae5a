import AccessPolicy.Markup.Token
import AccessPolicy.Text.Blank
import AccessPolicy.Text.Decimal

/-!
# Cutting a document into tokens

The scanner is in one of two modes: between tags (`content`), or after `<name` (`tag`).  In either mode one
`step` reads a token, passes over blanks or a comment, or stops.  `step_advances` says that a step loses nothing
and, unless it is the last one, takes at least one character, so `lexemes` needs no other measure than the length
of the text.  A lexeme keeps the characters passed over before its token (`gap`) and those of the token itself
(`source`), so that the lexemes of a document, put together, are the document (`flatMap_lexemes`).
-/

namespace AccessPolicy.Markup

open Text

def isNameStart (c : Char) : Bool := c.isAlpha || c == '_'

def isNameChar (c : Char) : Bool := c.isAlphanum || c == '_' || c == '-' || c == ':' || c == '.'

/-- Whether a `<` before this text starts a tag, a close tag or a comment. -/
def opensMarkup : List Char → Bool
  | '/' :: _ => true
  | '!' :: '-' :: '-' :: _ => true
  | c :: _ => isNameStart c
  | [] => false

/-- The text up to the next quote `q`, and what follows that quote.  A backslash takes the next character with
it, a quote included. -/
def splitQuoted (q : Char) : List Char → Option (List Char × List Char)
  | [] => none
  | '\\' :: c :: cs => (splitQuoted q cs).map fun (body, rest) => ('\\' :: c :: body, rest)
  | c :: cs => if c = q then some ([], cs) else (splitQuoted q cs).map fun (body, rest) => (c :: body, rest)

/-- Whether a double quote before this text is closed before any markup. -/
def closesBeforeMarkup : List Char → Bool
  | [] => false
  | '\\' :: _ :: cs => closesBeforeMarkup cs
  | '"' :: _ => true
  | '<' :: cs => !opensMarkup cs && closesBeforeMarkup cs
  | _ :: cs => closesBeforeMarkup cs

/-- The text up to the end of the comment, and what follows it. -/
def splitComment : List Char → Option (List Char × List Char)
  | [] => none
  | '-' :: '-' :: '>' :: cs => some ([], cs)
  | c :: cs => (splitComment cs).map fun (body, rest) => (c :: body, rest)

/-- A run of plain text ends before a double quote and before markup. -/
def splitRun : List Char → List Char × List Char
  | [] => ([], [])
  | c :: cs =>
    if c = '"' ∨ (c = '<' ∧ opensMarkup cs) then ([], c :: cs)
    else
      let (run, rest) := splitRun cs
      (c :: run, rest)

inductive Mode
  | content
  | tag
deriving DecidableEq, Repr

/-- What the scanner finds at the head of a text. -/
inductive Step
  | finish
  /-- Blanks or a comment. -/
  | pass (skipped rest : List Char)
  | emit (source : List Char) (token : Token) (next : Mode) (rest : List Char)
  | stop (source : List Char) (fault : Fault) (rest : List Char)

/-- A run of plain text; its first character is text whatever it is. -/
def textStep (c : Char) (cs : List Char) : Step :=
  let (run, rest) := splitRun cs
  let core := trim (c :: run)
  if core.isEmpty then .pass (c :: run) rest
  else
    let kind := if (readInt64 core).isSome then Token.number else Token.text
    .emit (c :: run) (kind (String.ofList core)) .content rest

/-- The text after `</`. -/
def closeTagStep (position : Nat) (cs : List Char) : Step :=
  let name := cs.takeWhile isNameChar
  let afterName := cs.dropWhile isNameChar
  let gap := afterName.takeWhile isTagBlank
  if name.isEmpty then .stop ['<', '/'] (.namelessCloseTag position) cs
  else
    match afterName.dropWhile isTagBlank with
    | '>' :: rest =>
      .emit ('<' :: '/' :: (name ++ gap ++ ['>'])) (.closeTag (String.ofList name)) .content rest
    | rest => .stop ('<' :: '/' :: (name ++ gap)) (.unfinishedCloseTag (String.ofList name) position) rest

def contentStep (position : Nat) : List Char → Step
  | [] => .finish
  | '<' :: '!' :: '-' :: '-' :: cs =>
    match splitComment cs with
    | some (body, rest) => .pass ('<' :: '!' :: '-' :: '-' :: (body ++ ['-', '-', '>'])) rest
    | none => .stop ('<' :: '!' :: '-' :: '-' :: cs) (.unclosedComment position) []
  | '<' :: '/' :: cs => closeTagStep position cs
  | '<' :: c :: cs =>
    if isNameStart c then
      let name := (c :: cs).takeWhile isNameChar
      .emit ('<' :: name) (.openTag (String.ofList name)) .tag ((c :: cs).dropWhile isNameChar)
    else textStep '<' (c :: cs)
  | '"' :: cs =>
    if closesBeforeMarkup cs then
      match splitQuoted '"' cs with
      | some (body, rest) =>
        let source := '"' :: (body ++ ['"'])
        .emit source (.literal (String.ofList source)) .content rest
      | none => .stop ('"' :: cs) (.unclosedQuote position) []
    else textStep '"' cs
  | c :: cs => textStep c cs

/-- An attribute `name = "value"`, with either kind of quote and blanks around the equals sign. -/
def attributeStep (position : Nat) (cs : List Char) : Step :=
  let name := cs.takeWhile isNameChar
  let afterName := cs.dropWhile isNameChar
  let beforeSign := name ++ afterName.takeWhile isTagBlank
  match afterName.dropWhile isTagBlank with
  | '=' :: afterSign =>
    let beforeValue := beforeSign ++ '=' :: afterSign.takeWhile isTagBlank
    let valueAt := position + byteSize beforeValue
    match afterSign.dropWhile isTagBlank with
    | [] => .stop beforeValue (.unquotedAttribute (String.ofList name) valueAt) []
    | q :: quoted =>
      if q = '"' ∨ q = '\'' then
        match splitQuoted q quoted with
        | some (value, rest) =>
          .emit (beforeValue ++ q :: (value ++ [q])) (.attr (String.ofList name) (String.ofList value)) .tag rest
        | none => .stop (beforeValue ++ q :: quoted) (.unclosedQuote valueAt) []
      else .stop beforeValue (.unquotedAttribute (String.ofList name) valueAt) (q :: quoted)
  | rest => .stop beforeSign (.attributeWithoutValue (String.ofList name) position) rest

def tagStep (position : Nat) : List Char → Step
  | [] => .finish
  | '>' :: cs => .emit ['>'] .tagEnd .content cs
  | '/' :: '>' :: cs => .emit ['/', '>'] .selfClose .content cs
  | c :: cs =>
    if isTagBlank c then .pass (c :: cs.takeWhile isTagBlank) (cs.dropWhile isTagBlank)
    else if isNameStart c then attributeStep position (c :: cs)
    else .stop [] (.strayCharacter c position) (c :: cs)

def step : Mode → Nat → List Char → Step
  | .content => contentStep
  | .tag => tagStep

/-! ### A step takes a stretch from the front of the text -/

/-- The step leaves off where the characters it took end, and takes at least one if scanning goes on. -/
def Step.Advances (cs : List Char) : Step → Prop
  | finish => cs = []
  | pass skipped rest => skipped ≠ [] ∧ skipped ++ rest = cs
  | emit source _ _ rest => source ≠ [] ∧ source ++ rest = cs
  | stop source _ rest => source ++ rest = cs

theorem splitQuoted_append {q : Char} {cs body rest : List Char} (h : splitQuoted q cs = some (body, rest)) :
    body ++ q :: rest = cs := by
  induction cs using splitQuoted.induct q generalizing body with
  | case1 => simp [splitQuoted] at h
  | case2 c cs ih =>
    simp only [splitQuoted, Option.map_eq_some_iff, Prod.exists, Prod.mk.injEq] at h
    obtain ⟨b, r, hb, rfl, rfl⟩ := h
    simp [ih hb]
  | case3 cs _ =>
    rw [splitQuoted] at h
    · simp at h; simp [h]
    · assumption
  | case4 c cs escape hc ih =>
    rw [splitQuoted] at h
    · simp only [hc, ↓reduceIte, Option.map_eq_some_iff, Prod.exists, Prod.mk.injEq] at h
      obtain ⟨b, r, hb, rfl, rfl⟩ := h
      simp [ih hb]
    · assumption

theorem splitComment_append {cs body rest : List Char} (h : splitComment cs = some (body, rest)) :
    body ++ '-' :: '-' :: '>' :: rest = cs := by
  induction cs using splitComment.induct generalizing body with
  | case1 => simp [splitComment] at h
  | case2 cs => simp [splitComment] at h; simp [h]
  | case3 c cs close ih =>
    rw [splitComment] at h
    · simp only [Option.map_eq_some_iff, Prod.exists, Prod.mk.injEq] at h
      obtain ⟨b, r, hb, rfl, rfl⟩ := h
      simp [ih hb]
    · assumption

theorem splitRun_append (cs : List Char) : (splitRun cs).1 ++ (splitRun cs).2 = cs := by
  induction cs with
  | nil => rfl
  | cons c cs ih => rw [splitRun]; split <;> simp [ih]

theorem textStep_advances (c : Char) (cs : List Char) : (textStep c cs).Advances (c :: cs) := by
  simp only [textStep]
  split <;> simp [Step.Advances, splitRun_append]

theorem closeTagStep_advances (position : Nat) (cs : List Char) :
    (closeTagStep position cs).Advances ('<' :: '/' :: cs) := by
  simp only [closeTagStep]
  split
  · simp [Step.Advances]
  · split
    · rename_i rest h
      simp [Step.Advances, ← h]
    · simp [Step.Advances]

theorem contentStep_advances (position : Nat) (cs : List Char) : (contentStep position cs).Advances cs := by
  unfold contentStep
  split
  · rfl
  · split
    · rename_i h
      simp [Step.Advances, ← splitComment_append h]
    · simp [Step.Advances]
  · exact closeTagStep_advances _ _
  · split
    · simp [Step.Advances]
    · exact textStep_advances _ _
  · split
    · split
      · rename_i h
        simp [Step.Advances, ← splitQuoted_append h]
      · simp [Step.Advances]
    · exact textStep_advances _ _
  · exact textStep_advances _ _

theorem attributeStep_advances (position : Nat) (cs : List Char) :
    (attributeStep position cs).Advances cs := by
  have h0 : cs.takeWhile isNameChar ++ cs.dropWhile isNameChar = cs := List.takeWhile_append_dropWhile
  have h1 : (cs.dropWhile isNameChar).takeWhile isTagBlank ++ (cs.dropWhile isNameChar).dropWhile isTagBlank =
      cs.dropWhile isNameChar := List.takeWhile_append_dropWhile
  simp only [attributeStep]
  split
  · rename_i afterSign heq
    have h2 : afterSign.takeWhile isTagBlank ++ afterSign.dropWhile isTagBlank = afterSign :=
      List.takeWhile_append_dropWhile
    rw [heq] at h1
    split
    · rename_i hnil
      rw [hnil] at h2
      simp only [List.append_nil] at h2
      simp [Step.Advances, h2, h1, h0]
    · rename_i q quoted hcons
      rw [hcons] at h2
      split
      · split
        · rename_i h
          simp [Step.Advances, splitQuoted_append h, h2, h1, h0]
        · simp [Step.Advances, h2, h1, h0]
      · simp [Step.Advances, h2, h1, h0]
  · simp [Step.Advances, h1, h0]

theorem tagStep_advances (position : Nat) (cs : List Char) : (tagStep position cs).Advances cs := by
  unfold tagStep
  split
  · rfl
  · simp [Step.Advances]
  · simp [Step.Advances]
  · split
    · simp [Step.Advances]
    · split
      · exact attributeStep_advances _ _
      · simp [Step.Advances]

theorem step_advances (mode : Mode) (position : Nat) (cs : List Char) : (step mode position cs).Advances cs := by
  cases mode
  · exact contentStep_advances position cs
  · exact tagStep_advances position cs

/-! ### Lexemes -/

/-- A token with the characters passed over before it and its own characters. -/
structure Lexeme where
  gap : List Char
  source : List Char
  token : Token
deriving DecidableEq, Repr

/-- The lexemes of a text that starts at a byte position, after a gap not yet given to a lexeme. -/
def lexemesFrom (mode : Mode) (position : Nat) (gap cs : List Char) : List Lexeme :=
  match _taken : step mode position cs with
  | .finish => [⟨gap, [], .endOfText⟩]
  | .pass skipped rest => lexemesFrom mode (position + byteSize skipped) (gap ++ skipped) rest
  | .emit source token next rest => ⟨gap, source, token⟩ :: lexemesFrom next (position + byteSize source) [] rest
  | .stop source fault rest => [⟨gap, source, .fault fault⟩, ⟨rest, [], .endOfText⟩]
termination_by cs.length
decreasing_by
  all_goals
    have adv := step_advances mode position cs
    rw [_taken] at adv
    obtain ⟨hne, rfl⟩ := adv
    have := List.length_pos_iff.2 hne
    simp; omega

/-- The lexemes of a document; the last one is the end of the text. -/
def lexemes (document : String) : List Lexeme := lexemesFrom .content 0 [] document.toList

theorem flatMap_lexemesFrom (mode : Mode) (position : Nat) (gap cs : List Char) :
    (lexemesFrom mode position gap cs).flatMap (fun l => l.gap ++ l.source) = gap ++ cs := by
  fun_induction lexemesFrom mode position gap cs with
  | case1 mode position gap cs h =>
    have adv := step_advances mode position cs
    rw [h] at adv
    simp [show cs = [] from adv]
  | case2 mode position gap cs skipped rest h ih =>
    have adv := step_advances mode position cs
    rw [h] at adv
    simp [ih, ← adv.2]
  | case3 mode position gap cs source token next rest h ih =>
    have adv := step_advances mode position cs
    rw [h] at adv
    simp [ih, ← adv.2]
  | case4 mode position gap cs source fault rest h =>
    have adv := step_advances mode position cs
    rw [h] at adv
    simp [← (show source ++ rest = cs from adv)]

/-- The document is its lexemes, put together. -/
theorem flatMap_lexemes (document : String) :
    (lexemes document).flatMap (fun l => l.gap ++ l.source) = document.toList := by
  simp [lexemes, flatMap_lexemesFrom]

/-- Each token with the place of its characters, for lexemes that start at a byte position. -/
def locate (position : Nat) : List Lexeme → List (Token × Span)
  | [] => []
  | l :: ls =>
    let start := position + byteSize l.gap
    let stop := start + byteSize l.source
    (l.token, ⟨start, stop⟩) :: locate stop ls

/-- The tokens of a document and their places in it. -/
def tokens (document : String) : List (Token × Span) := locate 0 (lexemes document)

end AccessPolicy.Markup
