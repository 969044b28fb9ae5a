import AccessPolicy.Markup.Lexeme
import AccessPolicy.Text.Bytes

/-!
# Scanning a document by its bytes

The tokens of a document, found by a position that moves over its bytes; characters are only looked at where the
document is sliced.  Behind a backslash the position goes two bytes on, whatever they are, so it may come to stand
inside a character or behind the end.  A slice that cannot be taken ends the scan with the span that was asked for.
`lt_of_tokenAt` says that a token moves the position forward, so `scan` comes to an end.
-/

namespace AccessPolicy.Markup

open Text

/-- The characters in a span, or the span itself if it cannot be sliced. -/
def slice (cs : List Char) (span : Span) : Except Span (List Char) :=
  match slice? cs span.start span.stop with
  | some s => .ok s
  | none => .error span

/-! ### Walks over bytes -/

/-- What a walk does at a byte. -/
inductive Move (α : Type)
  | stop (result : α)
  | next
  /-- The next byte is not looked at. -/
  | skip

/-- The result of a walk at a byte, from the results that the walk has behind it and behind the next one. -/
@[simp] def Move.result {α : Type} (afterNext afterSkip : α) : Move α → α
  | stop a => a
  | next => afterNext
  | skip => afterSkip

/-- The result of a walk that begins at a position; at the end of the document it is that of `last`. -/
def walk {α : Type} (cs : List Char) (move : Nat → Char → Move α) (last : Nat → α) (i : Nat) : α :=
  match _at : byteAt? cs i with
  | none => last i
  | some b =>
    match move i b with
    | .stop a => a
    | .next => walk cs move last (i + 1)
    | .skip => walk cs move last (i + 2)
termination_by byteSize cs - i
decreasing_by
  all_goals
    have := lt_of_byteAt? _at
    omega

/-- The position behind the bytes that pass a test. -/
def pastRun (p : Char → Bool) (cs : List Char) : Nat → Nat :=
  walk cs (fun i b => if p b then .next else .stop i) id

def closingMove (q : Char) (i : Nat) (b : Char) : Move (Option Nat) :=
  if b = '\\' then .skip else if b = q then .stop (some i) else .next

/-- The position of the next quote `q`. -/
def closingQuote (q : Char) (cs : List Char) : Nat → Option Nat := walk cs (closingMove q) fun _ => none

/-- The span of the quoted text that begins with the byte at a position, with both quotes. -/
def quotedAt (cs : List Char) (start : Nat) : Option Span := do
  let q ← byteAt? cs start
  let last ← closingQuote q cs (start + 1)
  return ⟨start, last + 1⟩

/-- Whether a `<` at this position starts a tag, a close tag or a comment. -/
def markupAt (cs : List Char) (i : Nat) : Except Span Bool :=
  match byteAt? cs (i + 1) with
  | some '/' => .ok true
  | some '!' => do return ['<', '!', '-', '-'].isPrefixOf (← slice cs ⟨i, byteSize cs⟩)
  | some b => .ok (isNameStart b)
  | none => .ok false

/-- A `<` ends the walk if it starts markup, with the given result. -/
def moveAtMarkup {α : Type} (cs : List Char) (i : Nat) (result : α) : Move (Except Span α) :=
  match markupAt cs i with
  | .ok true => .stop (.ok result)
  | .ok false => .next
  | .error span => .stop (.error span)

def searchMove (cs : List Char) (i : Nat) : Char → Move (Except Span (Option Nat))
  | '\\' => .skip
  | '"' => .stop (.ok (some i))
  | '<' => moveAtMarkup cs i none
  | _ => .next

/-- The position of the double quote that closes a text before any markup, if there is one. -/
def quoteBeforeMarkup (cs : List Char) : Nat → Except Span (Option Nat) := walk cs (searchMove cs) fun _ => .ok none

def textMove (cs : List Char) (i : Nat) : Char → Move (Except Span Nat)
  | '"' => .stop (.ok i)
  | '<' => moveAtMarkup cs i i
  | _ => .next

/-- The position where a run of plain text ends. -/
def pastText (cs : List Char) : Nat → Except Span Nat := walk cs (textMove cs) .ok

/-! ### Tokens at a position -/

/-- A token with its span, and the mode after it.  The scanner goes on where the span ends. -/
structure Scanned where
  token : Token
  span : Span
  mode : Mode := .content
deriving DecidableEq, Repr

def scannedEnd (cs : List Char) : Scanned := ⟨.endOfText, ⟨byteSize cs, byteSize cs⟩, .content⟩

/-- A turn of the scanner between tags: a token, or a position to go on from. -/
inductive Turn
  | found (s : Scanned)
  | pass (position : Nat)
deriving DecidableEq, Repr

def closeTagAt (cs : List Char) (start : Nat) : Except Span Scanned := do
  let nameEnd := pastRun isNameChar cs (start + 2)
  let name ← slice cs ⟨start + 2, nameEnd⟩
  if name.isEmpty then return { token := .fault (.namelessCloseTag start), span := ⟨start, nameEnd⟩ }
  let last := pastRun isTagBlank cs nameEnd
  if byteAt? cs last = some '>' then
    return { token := .closeTag (String.ofList name), span := ⟨start, last + 1⟩ }
  return { token := .fault (.unfinishedCloseTag (String.ofList name) start), span := ⟨start, last⟩ }

def openTagAt (cs : List Char) (start : Nat) : Except Span Scanned := do
  let nameEnd := pastRun isNameChar cs (start + 1)
  let name ← slice cs ⟨start + 1, nameEnd⟩
  return { token := .openTag (String.ofList name), span := ⟨start, nameEnd⟩, mode := .tag }

def commentAt (cs : List Char) (start : Nat) : Except Span Turn := do
  match splitComment (← slice cs ⟨start + 4, byteSize cs⟩) with
  | some (body, _) => return .pass (start + 4 + byteSize body + 3)
  | none => return .found { token := .fault (.unclosedComment start), span := ⟨start, byteSize cs⟩ }

def textAt (cs : List Char) (start : Nat) : Except Span Turn := do
  let stop ← pastText cs (start + 1)
  let core := trim (← slice cs ⟨start, stop⟩)
  if core.isEmpty then return .pass stop
  let kind := if (readInt64 core).isSome then Token.number else Token.text
  return .found { token := kind (String.ofList core), span := ⟨start, stop⟩ }

def literalAt (cs : List Char) (start : Nat) : Except Span Turn := do
  match quotedAt cs start with
  | some span => return .found { token := .literal (String.ofList (← slice cs span)), span }
  | none => return .found { token := .fault (.unclosedQuote start), span := ⟨start, byteSize cs⟩ }

/-- A `<` that begins neither a tag nor a close tag is text. -/
def tagOrTextAt (cs : List Char) (start : Nat) : Except Span Turn :=
  match byteAt? cs (start + 1) with
  | some '/' => (closeTagAt cs start).map .found
  | some b => if isNameStart b then (openTagAt cs start).map .found else textAt cs start
  | none => textAt cs start

def turn (cs : List Char) (start : Nat) : Except Span Turn :=
  match byteAt? cs start with
  | none => .ok (.found (scannedEnd cs))
  | some '<' => do
    if ['<', '!', '-', '-'].isPrefixOf (← slice cs ⟨start, byteSize cs⟩) then commentAt cs start
    else tagOrTextAt cs start
  | some '"' => do
    match ← quoteBeforeMarkup cs (start + 1) with
    | some _ => literalAt cs start
    | none => textAt cs start
  | some _ => textAt cs start

/-- The value of an attribute, which begins at `start` with its name. -/
def valueAt (cs : List Char) (start : Nat) (name : String) (position : Nat) : Except Span Scanned := do
  if byteAt? cs position = some '"' ∨ byteAt? cs position = some '\'' then
    match quotedAt cs position with
    | some span =>
      let value ← slice cs ⟨span.start + 1, span.stop - 1⟩
      return { token := .attr name (String.ofList value), span := ⟨start, span.stop⟩, mode := .tag }
    | none => return { token := .fault (.unclosedQuote position), span := ⟨start, byteSize cs⟩ }
  else return { token := .fault (.unquotedAttribute name position), span := ⟨start, position⟩ }

def attributeAt (cs : List Char) (start : Nat) : Except Span Scanned := do
  let nameEnd := pastRun isNameChar cs start
  let name := String.ofList (← slice cs ⟨start, nameEnd⟩)
  let signAt := pastRun isTagBlank cs nameEnd
  if byteAt? cs signAt = some '=' then valueAt cs start name (pastRun isTagBlank cs (signAt + 1))
  else return { token := .fault (.attributeWithoutValue name start), span := ⟨start, signAt⟩ }

def tagAt (cs : List Char) (position : Nat) : Except Span Scanned :=
  let start := pastRun isTagBlank cs position
  match byteAt? cs start with
  | none => .ok (scannedEnd cs)
  | some '>' => .ok { token := .tagEnd, span := ⟨start, start + 1⟩ }
  | some b =>
    if b = '/' ∧ byteAt? cs (start + 1) = some '>' then .ok { token := .selfClose, span := ⟨start, start + 2⟩ }
    else if isNameStart b then attributeAt cs start
    else do
      let rest ← slice cs ⟨start, byteSize cs⟩
      return { token := .fault (.strayCharacter (rest.headD '?') start), span := ⟨start, start⟩ }

/-! ### Each token moves the position forward -/

section Progress

variable {α : Type} {cs : List Char} {move : Nat → Char → Move α} {last : Nat → α} {i start : Nat}

theorem walk_of_none (h : byteAt? cs i = none) : walk cs move last i = last i := by
  rw [walk]
  split
  · rfl
  · simp_all

theorem walk_of_some {b : Char} (h : byteAt? cs i = some b) :
    walk cs move last i = (move i b).result (walk cs move last (i + 1)) (walk cs move last (i + 2)) := by
  rw [walk]
  split
  · simp_all
  · rename_i b' hb
    obtain rfl : b' = b := Option.some.inj (hb.symm.trans h)
    cases move i b' <;> rfl

/-- What holds of each way in which a walk from a position on may end holds of its result. -/
theorem walk_induction {P : α → Prop} (hlast : ∀ i, start ≤ i → P (last i))
    (hstop : ∀ i b a, start ≤ i → move i b = .stop a → P a) (hi : start ≤ i) : P (walk cs move last i) := by
  fun_induction walk cs move last i with
  | case1 i hnone => exact hlast i hi
  | case2 i b hb a hmove => exact hstop i b a hi hmove
  | case3 i b hb hmove ih => exact ih (by omega)
  | case4 i b hb hmove ih => exact ih (by omega)

theorem le_pastRun (p : Char → Bool) (cs : List Char) (i : Nat) : i ≤ pastRun p cs i := by
  refine walk_induction (fun _ h => h) (fun j b a hj hmove => ?_) (Nat.le_refl i)
  split at hmove
  · cases hmove
  · cases hmove
    exact hj

theorem le_of_pastText {stop : Nat} (h : pastText cs i = .ok stop) : i ≤ stop := by
  suffices ∀ stop, pastText cs i = .ok stop → i ≤ stop from this stop h
  refine walk_induction (P := fun r : Except Span Nat => ∀ stop, r = .ok stop → i ≤ stop) ?_ ?_ (Nat.le_refl i)
  · intro j hj stop h
    cases h
    exact hj
  · rintro j b _ hj hmove stop rfl
    unfold textMove at hmove
    split at hmove
    · cases hmove
      exact hj
    · unfold moveAtMarkup at hmove
      split at hmove <;> cases hmove
      exact hj
    · cases hmove

theorem lt_of_quotedAt {span : Span} (h : quotedAt cs i = some span) : span.start = i ∧ i < span.stop := by
  simp only [quotedAt, bind, Option.bind_eq_some_iff, pure, Option.some.injEq] at h
  obtain ⟨q, -, last, hlast, rfl⟩ := h
  refine ⟨rfl, ?_⟩
  suffices ∀ last, closingQuote q cs (i + 1) = some last → i + 1 ≤ last from Nat.lt_succ_of_lt (this last hlast)
  refine walk_induction (P := fun r => ∀ last, r = some last → i + 1 ≤ last) nofun ?_ (Nat.le_refl (i + 1))
  · rintro j b _ hj hmove last rfl
    unfold closingMove at hmove
    split at hmove
    · cases hmove
    · split at hmove <;> cases hmove
      exact hj

/-- What holds of every result of the second step holds of every result of both. -/
theorem forall_ok_bind {β γ : Type} {x : Except Span β} {f : β → Except Span γ} {P : γ → Prop}
    (h : ∀ a, x = .ok a → ∀ b, f a = .ok b → P b) : ∀ b, x >>= f = .ok b → P b := by
  cases x with
  | error span => nofun
  | ok a => exact h a rfl

theorem forall_ok_map {β γ : Type} {x : Except Span β} {f : β → γ} {P : γ → Prop} (h : ∀ a, x = .ok a → P (f a)) :
    ∀ b, x.map f = .ok b → P b := by
  cases x with
  | error span => nofun
  | ok a => exact fun b hb => Except.ok.inj hb ▸ h a rfl

/-- The scanner goes on behind this position, if it does. -/
def Scanned.Beyond (start : Nat) (s : Scanned) : Prop := s.token.goesOn = true → start < s.span.stop

def Turn.Beyond (start : Nat) : Turn → Prop
  | found s => s.Beyond start
  | pass position => start < position

theorem closeTagAt_beyond : ∀ s, closeTagAt cs start = .ok s → s.Beyond start := by
  simp only [closeTagAt]
  refine forall_ok_bind fun name _ s h => ?_
  have h1 := le_pastRun isNameChar cs (start + 2)
  have h2 := le_pastRun isTagBlank cs (pastRun isNameChar cs (start + 2))
  split at h
  · cases h
    nofun
  · split at h
    · cases h
      intro _
      dsimp only
      omega
    · cases h
      nofun

theorem textAt_beyond : ∀ t, textAt cs start = .ok t → t.Beyond start := by
  refine forall_ok_bind fun stop hstop => forall_ok_bind fun s _ t h => ?_
  have hlt := le_of_pastText hstop
  dsimp only at h
  split at h
  · cases h
    exact hlt
  · cases h
    exact fun _ => hlt

theorem literalAt_beyond : ∀ t, literalAt cs start = .ok t → t.Beyond start := by
  rw [literalAt]
  split
  · rename_i span hspan
    refine forall_ok_bind fun s _ t h => ?_
    cases h
    exact fun _ => (lt_of_quotedAt hspan).2
  · intro t h
    cases h
    nofun

theorem commentAt_beyond : ∀ t, commentAt cs start = .ok t → t.Beyond start := by
  refine forall_ok_bind fun s _ t h => ?_
  split at h
  · cases h
    change start < start + 4 + _ + 3
    omega
  · cases h
    nofun

theorem openTagAt_beyond : ∀ s, openTagAt cs start = .ok s → s.Beyond start := by
  refine forall_ok_bind fun name _ s h => ?_
  cases h
  exact fun _ => le_pastRun _ _ _

theorem tagOrTextAt_beyond : ∀ t, tagOrTextAt cs start = .ok t → t.Beyond start := by
  unfold tagOrTextAt
  split
  · exact forall_ok_map closeTagAt_beyond
  · split
    · exact forall_ok_map openTagAt_beyond
    · exact textAt_beyond
  · exact textAt_beyond

theorem turn_beyond : ∀ t, turn cs start = .ok t → t.Beyond start := by
  unfold turn
  split
  · intro t h
    cases h
    nofun
  · refine forall_ok_bind fun rest _ => ?_
    split
    · exact commentAt_beyond
    · exact tagOrTextAt_beyond
  · refine forall_ok_bind fun closing _ => ?_
    split
    · exact literalAt_beyond
    · exact textAt_beyond
  · exact textAt_beyond

theorem valueAt_beyond {name : String} (hi : start ≤ i) : ∀ s, valueAt cs start name i = .ok s → s.Beyond start := by
  unfold valueAt
  split
  · split
    · rename_i span hspan
      refine forall_ok_bind fun value _ s h => ?_
      cases h
      exact fun _ => Nat.lt_of_le_of_lt hi (lt_of_quotedAt hspan).2
    · intro s h
      cases h
      nofun
  · intro s h
    cases h
    nofun

theorem attributeAt_beyond : ∀ s, attributeAt cs start = .ok s → s.Beyond start := by
  have h1 := le_pastRun isNameChar cs start
  have h2 := le_pastRun isTagBlank cs (pastRun isNameChar cs start)
  have h3 := le_pastRun isTagBlank cs (pastRun isTagBlank cs (pastRun isNameChar cs start) + 1)
  refine forall_ok_bind fun name _ => ?_
  dsimp only
  split
  · exact valueAt_beyond (by omega)
  · intro s h
    cases h
    nofun

theorem tagAt_beyond : ∀ s, tagAt cs start = .ok s → s.Beyond start := by
  have h1 := le_pastRun isTagBlank cs start
  have hlater : ∀ {s : Scanned}, s.Beyond (pastRun isTagBlank cs start) → s.Beyond start :=
    fun hs hgo => Nat.lt_of_le_of_lt h1 (hs hgo)
  unfold tagAt
  dsimp only
  split
  · intro s h
    cases h
    nofun
  · intro s h
    cases h
    exact hlater fun _ => Nat.lt_succ_self _
  · split
    · intro s h
      cases h
      exact hlater fun _ => Nat.lt_add_of_pos_right (by decide)
    · split
      · exact fun s h => hlater (attributeAt_beyond s h)
      · refine forall_ok_bind fun rest _ s h => ?_
        cases h
        nofun

theorem turn_of_le (h : byteSize cs ≤ start) : turn cs start = .ok (.found (scannedEnd cs)) := by
  rw [turn, byteAt?_eq_none.2 h]

theorem lt_of_turn {position : Nat} (h : turn cs start = .ok (.pass position)) :
    start < position ∧ start < byteSize cs := by
  refine ⟨turn_beyond _ h, Nat.lt_of_not_le fun hle => ?_⟩
  rw [turn_of_le hle] at h
  cases h

end Progress

/-! ### All tokens -/

/-- The token that follows a position between tags. -/
def contentAt (cs : List Char) (start : Nat) : Except Span Scanned :=
  match _turn : turn cs start with
  | .error span => .error span
  | .ok (.found s) => .ok s
  | .ok (.pass position) => contentAt cs position
termination_by byteSize cs - start
decreasing_by
  have := lt_of_turn _turn
  omega

def tokenAt (cs : List Char) : Mode → Nat → Except Span Scanned
  | .content => contentAt cs
  | .tag => tagAt cs

/-- A token takes at least one byte, from a position inside of the document. -/
theorem lt_of_tokenAt {cs : List Char} {mode : Mode} {position : Nat} {s : Scanned}
    (h : tokenAt cs mode position = .ok s) (hgo : s.token.goesOn = true) :
    position < s.span.stop ∧ position < byteSize cs := by
  cases mode with
  | content =>
    rw [tokenAt] at h
    fun_induction contentAt cs position with
    | case1 => cases h
    | case2 position s' hturn =>
      cases h
      refine ⟨turn_beyond _ hturn hgo, Nat.lt_of_not_le fun hle => ?_⟩
      rw [turn_of_le hle] at hturn
      cases hturn
      cases hgo
    | case3 position next hturn ih =>
      have hnext := lt_of_turn hturn
      have := ih h
      omega
  | tag =>
    refine ⟨tagAt_beyond _ h hgo, Nat.lt_of_not_le fun hle => ?_⟩
    have hstart : pastRun isTagBlank cs position = position := walk_of_none (byteAt?_eq_none.2 hle)
    simp only [tokenAt, tagAt, hstart, byteAt?_eq_none.2 hle] at h
    cases h
    cases hgo

/-- The tokens from a position on, each with its span, up to the end of the text. -/
def scan (cs : List Char) (mode : Mode) (position : Nat) : Except Span (List (Token × Span)) :=
  match _token : tokenAt cs mode position with
  | .error span => .error span
  | .ok s =>
    if _goesOn : s.token.goesOn = true then (scan cs s.mode s.span.stop).map ((s.token, s.span) :: ·)
    else if s.token = .endOfText then .ok [(s.token, s.span)]
    else .ok [(s.token, s.span), (.endOfText, ⟨byteSize cs, byteSize cs⟩)]
termination_by byteSize cs - position
decreasing_by
  have := lt_of_tokenAt _token _goesOn
  omega

end AccessPolicy.Markup
