import Mathlib
import AccessPolicy.Markup.Lexeme

/-!
# What stands at the head of a text

`step` computes what the scanner takes from the front of a text.  Here the same is said by the characters: a text
that is not at its end and on which the scanner goes on begins either with something that is passed over
(`Passed`) or with the characters of a token (`Spells`), and each of the two looks at what follows only through
one question, whether a quote is closed before markup or a name goes on.  `head` is the case distinction,
`step_of_spells` the way back to `step`.
-/

namespace AccessPolicy.Markup

open Text

/-! ### Quoted texts -/

/-- A text that goes on up to the next quote `q`: each such quote in it, like the character after any backslash,
belongs to the backslash before it. -/
inductive QuotedBy (q : Char) : List Char → Prop
  | nil : QuotedBy q []
  | escape (c : Char) {body : List Char} : QuotedBy q body → QuotedBy q ('\\' :: c :: body)
  | char {c : Char} {body : List Char} : c ≠ '\\' → c ≠ q → QuotedBy q body → QuotedBy q (c :: body)

theorem QuotedBy.splitQuoted {q : Char} (hq : q ≠ '\\') {body : List Char} (h : QuotedBy q body)
    (rest : List Char) : splitQuoted q (body ++ q :: rest) = some (body, rest) := by
  induction h with
  | nil => simp [Markup.splitQuoted, hq]
  | escape c _ ih => simp [Markup.splitQuoted, ih]
  | char hc hcq _ ih => simp [Markup.splitQuoted, hc, hcq, ih]

theorem QuotedBy.of_forall {q : Char} {body : List Char} (h : ∀ c ∈ body, c ≠ '\\' ∧ c ≠ q) : QuotedBy q body := by
  induction body with
  | nil => exact .nil
  | cons c body ih => exact .char (h c (by simp)).1 (h c (by simp)).2 (ih fun d hd => h d (by simp [hd]))

theorem splitQuoted_eq_some {q : Char} (hq : q ≠ '\\') {cs body rest : List Char} :
    splitQuoted q cs = some (body, rest) ↔ cs = body ++ q :: rest ∧ QuotedBy q body := by
  constructor
  · intro h
    refine ⟨(splitQuoted_append h).symm, ?_⟩
    induction cs using splitQuoted.induct q generalizing body with
    | case1 => simp [splitQuoted] at h
    | case2 c cs ih =>
      simp only [splitQuoted, Option.map_eq_some_iff, Prod.exists, Prod.mk.injEq] at h
      obtain ⟨b, r, hb, rfl, rfl⟩ := h
      exact .escape c (ih hb)
    | case3 cs _ =>
      rw [splitQuoted] at h
      · simp only [↓reduceIte, Option.some.injEq, Prod.mk.injEq] at h
        rw [← h.1]
        exact .nil
      · assumption
    | case4 c cs escape hc ih =>
      rw [splitQuoted] at h
      · simp only [hc, ↓reduceIte, Option.map_eq_some_iff, Prod.exists, Prod.mk.injEq] at h
        obtain ⟨b, r, hb, rfl, rfl⟩ := h
        refine .char ?_ hc (ih hb)
        intro hc'
        cases cs with
        | nil => simp [splitQuoted] at hb
        | cons d cs => exact escape d cs hc' rfl
      · assumption
  · rintro ⟨rfl, h⟩
    exact h.splitQuoted hq rest

instance (body : List Char) : Decidable (QuotedBy '"' body) :=
  decidable_of_iff (splitQuoted '"' (body ++ ['"']) = some (body, []))
    ((splitQuoted_eq_some (by decide)).trans (and_iff_right rfl))

/-! ### Markup and quotes that are closed before it -/

/-- A character that no markup begins with ends the search for markup. -/
theorem opensMarkup_append_cons {d : Char} (hd : d ∉ ['!', '-', '/']) (hname : isNameStart d = false)
    (s t : List Char) : opensMarkup (s ++ d :: t) = opensMarkup s := by
  simp only [List.mem_cons, not_or] at hd
  rcases s with - | ⟨a, - | ⟨b, - | ⟨c, s⟩⟩⟩
  · unfold opensMarkup; grind
  · unfold opensMarkup; grind
  · unfold opensMarkup; grind
  · unfold opensMarkup; grind

/-- A text in double quotes, with no markup before the quote that closes it. -/
def Literal (body : List Char) : Prop := QuotedBy '"' body ∧ closesBeforeMarkup (body ++ ['"']) = true

instance (body : List Char) : Decidable (Literal body) := inferInstanceAs (Decidable (_ ∧ _))

theorem closesBeforeMarkup_char {c : Char} (h1 : c ≠ '\\') (h2 : c ≠ '"') (cs : List Char) :
    closesBeforeMarkup (c :: cs) = ((c != '<' || !opensMarkup cs) && closesBeforeMarkup cs) := by
  by_cases h3 : c = '<'
  · subst h3
    rw [closesBeforeMarkup]
    simp
  · rw [closesBeforeMarkup]
    · simp [h3]
    all_goals simp_all

/-- What follows the closing quote is not looked at. -/
theorem QuotedBy.closesBeforeMarkup_eq {body : List Char} (h : QuotedBy '"' body) (rest : List Char) :
    closesBeforeMarkup (body ++ '"' :: rest) = closesBeforeMarkup (body ++ ['"']) := by
  induction h with
  | nil => simp [closesBeforeMarkup]
  | escape c _ ih => simpa [closesBeforeMarkup] using ih
  | char hc hq _ ih =>
    rw [List.cons_append, List.cons_append, closesBeforeMarkup_char hc hq, closesBeforeMarkup_char hc hq, ih,
      opensMarkup_append_cons (by decide) (by decide), opensMarkup_append_cons (by decide) (by decide)]

theorem closesBeforeMarkup_iff {cs : List Char} :
    closesBeforeMarkup cs = true ↔ ∃ body rest, cs = body ++ '"' :: rest ∧ Literal body := by
  constructor
  · intro h
    suffices ∃ body rest, cs = body ++ '"' :: rest ∧ QuotedBy '"' body by
      obtain ⟨body, rest, rfl, hq⟩ := this
      exact ⟨body, rest, rfl, hq, hq.closesBeforeMarkup_eq rest ▸ h⟩
    induction cs using closesBeforeMarkup.induct with
    | case1 => simp [closesBeforeMarkup] at h
    | case2 c cs ih =>
      rw [closesBeforeMarkup] at h
      obtain ⟨body, rest, rfl, hq⟩ := ih h
      exact ⟨'\\' :: c :: body, rest, rfl, .escape c hq⟩
    | case3 cs => exact ⟨[], cs, rfl, .nil⟩
    | case4 cs ih =>
      rw [closesBeforeMarkup, Bool.and_eq_true] at h
      obtain ⟨body, rest, rfl, hq⟩ := ih h.2
      exact ⟨'<' :: body, rest, rfl, .char (by decide) (by decide) hq⟩
    | case5 c cs escape quote _ ih =>
      rw [closesBeforeMarkup] at h
      · obtain ⟨body, rest, rfl, hq⟩ := ih h
        refine ⟨c :: body, rest, rfl, .char ?_ quote hq⟩
        intro hc
        cases body with
        | nil => exact escape '"' rest hc rfl
        | cons d body => exact escape d _ hc rfl
      all_goals assumption
  · rintro ⟨body, rest, rfl, hq, h⟩
    rw [hq.closesBeforeMarkup_eq rest, h]

theorem closesBeforeMarkup_append {cs : List Char} (h : closesBeforeMarkup cs = true) (more : List Char) :
    closesBeforeMarkup (cs ++ more) = true := by
  obtain ⟨body, rest, rfl, hl⟩ := closesBeforeMarkup_iff.1 h
  exact closesBeforeMarkup_iff.2 ⟨body, rest ++ more, by simp, hl⟩

/-- A close tag after a stretch is markup, unless the stretch ends in a lone backslash: then the search for a quote
goes on behind it. -/
theorem closesBeforeMarkup_append_closeTag {w : List Char} (hw : closesBeforeMarkup ('/' :: w) = false)
    (cs : List Char) : closesBeforeMarkup (cs ++ '<' :: '/' :: w) = closesBeforeMarkup cs := by
  induction cs using closesBeforeMarkup.induct with
  | case1 => simp [closesBeforeMarkup, opensMarkup]
  | case2 c cs ih => simpa [closesBeforeMarkup] using ih
  | case3 cs => simp [closesBeforeMarkup]
  | case4 cs ih =>
    simp only [List.cons_append, closesBeforeMarkup, ih]
    rw [opensMarkup_append_cons (by decide) (by decide)]
  | case5 c cs escape quote markup ih =>
    by_cases hc : c = '\\'
    · cases cs with
      | nil => subst hc; simpa [closesBeforeMarkup] using hw
      | cons d cs => exact absurd rfl (escape d cs hc)
    · have hm : (c != '<') = true := by simpa using markup
      rw [List.cons_append, closesBeforeMarkup_char hc quote, closesBeforeMarkup_char hc quote, ih, hm]
      simp

/-! ### Comments -/

theorem splitComment_eq_some {cs body rest : List Char} :
    splitComment cs = some (body, rest) ↔ cs = body ++ '-' :: '-' :: '>' :: rest ∧ ¬['-', '-', '>'] <:+: body := by
  constructor
  · intro h
    refine ⟨(splitComment_append h).symm, ?_⟩
    induction cs using splitComment.induct generalizing body with
    | case1 => simp [splitComment] at h
    | case2 cs =>
      simp only [splitComment, Option.some.injEq, Prod.mk.injEq] at h
      simp [← h.1]
    | case3 c cs close ih =>
      rw [splitComment] at h
      · simp only [Option.map_eq_some_iff, Prod.exists, Prod.mk.injEq] at h
        obtain ⟨b, r, hb, rfl, rfl⟩ := h
        rw [List.infix_cons_iff]
        rintro (⟨t, ht⟩ | hin)
        · rw [← splitComment_append hb] at close
          simp only [List.cons_append, List.nil_append, List.cons.injEq] at ht
          exact close (t ++ '-' :: '-' :: '>' :: r) ht.1.symm (by simp [← ht.2])
        · exact ih hb hin
      · assumption
  · rintro ⟨rfl, h⟩
    induction body with
    | nil => simp [splitComment]
    | cons c body ih =>
      rw [List.infix_cons_iff, not_or] at h
      rw [List.cons_append, splitComment, ih h.2]
      · rfl
      · rintro t rfl ht
        -- the comment would end at its first character
        rcases body with - | ⟨a, - | ⟨b, body⟩⟩
        · simp at ht
        · simp at ht
        · simp only [List.cons_append, List.cons.injEq] at ht
          exact h.1 ⟨body, by simp [ht.1, ht.2.1]⟩

/-! ### Passed over, or a token -/

/-- The scanner takes the character as text when this follows. -/
def IsText (c : Char) (rest : List Char) : Prop :=
  (c = '"' → closesBeforeMarkup rest = false) ∧ (c = '<' → opensMarkup rest = false)

theorem contentStep_comment (position : Nat) (cs : List Char) :
    contentStep position ('<' :: '!' :: '-' :: '-' :: cs) =
      match splitComment cs with
      | some (body, rest) => .pass ('<' :: '!' :: '-' :: '-' :: (body ++ ['-', '-', '>'])) rest
      | none => .stop ('<' :: '!' :: '-' :: '-' :: cs) (.unclosedComment position) [] := rfl

theorem contentStep_name {c : Char} (h : isNameStart c = true) (position : Nat) (cs : List Char) :
    contentStep position ('<' :: c :: cs) =
      .emit ('<' :: (c :: cs).takeWhile isNameChar) (.openTag (String.ofList ((c :: cs).takeWhile isNameChar))) .tag
        ((c :: cs).dropWhile isNameChar) := by
  unfold contentStep
  split
  · rename_i heq; simp at heq
  · rename_i heq; cases heq
    exact absurd h (by decide)
  · rename_i heq; cases heq
    exact absurd h (by decide)
  · rename_i heq; cases heq
    rw [if_pos h]
  · rename_i heq; simp at heq
  · rename_i hno _ heq; cases heq
    exact absurd rfl (hno c cs rfl)

theorem contentStep_of_isText {c : Char} {rest : List Char} (h : IsText c rest) (position : Nat) :
    contentStep position (c :: rest) = textStep c rest := by
  unfold contentStep
  split
  · rename_i heq; simp at heq
  · rename_i heq; cases heq
    exact absurd (h.2 rfl) (by simp [opensMarkup])
  · rename_i heq; cases heq
    exact absurd (h.2 rfl) (by simp [opensMarkup])
  · rename_i d ds _ _ heq; cases heq
    have hmarkup := h.2 rfl
    unfold opensMarkup at hmarkup
    grind
  · rename_i heq; cases heq
    rw [if_neg (by simp [h.1])]
  · rename_i heq; cases heq
    rfl

/-- What stands before a rest and is no token: one character of text, a comment, or one blank in a tag. -/
inductive Passed : Mode → List Char → List Char → Prop
  | text {c : Char} {rest : List Char} : IsText c rest → Passed .content [c] rest
  | comment {body rest : List Char} : ¬['-', '-', '>'] <:+: body →
    Passed .content ('<' :: '!' :: '-' :: '-' :: (body ++ ['-', '-', '>'])) rest
  | blank {c : Char} {rest : List Char} : isTagBlank c = true → Passed .tag [c] rest

/-- A name as it may stand after `<` or before an equals sign. -/
def IsName (name : List Char) : Prop :=
  name.head?.any isNameStart = true ∧ ∀ c ∈ name, isNameChar c = true

instance (name : List Char) : Decidable (IsName name) :=
  decidable_of_iff (name.head?.any isNameStart = true ∧ name.all isNameChar = true)
    (and_congr_right fun _ => List.all_eq_true)

/-- The characters of a token other than text, in a mode and before a rest, and the mode after them. -/
inductive Spells : Mode → List Char → Token → Mode → List Char → Prop
  | literal {body rest : List Char} : Literal body →
    Spells .content ('"' :: (body ++ ['"'])) (.literal (String.ofList ('"' :: (body ++ ['"'])))) .content rest
  | closeTag {name gap rest : List Char} : name ≠ [] → (∀ c ∈ name, isNameChar c = true) →
    (∀ c ∈ gap, isTagBlank c = true) →
    Spells .content ('<' :: '/' :: (name ++ gap ++ ['>'])) (.closeTag (String.ofList name)) .content rest
  | openTag {name rest : List Char} : IsName name → (∀ c ∈ rest.head?, isNameChar c = false) →
    Spells .content ('<' :: name) (.openTag (String.ofList name)) .tag rest
  | attr {name before after value rest : List Char} {q : Char} : IsName name →
    (∀ c ∈ before, isTagBlank c = true) → (∀ c ∈ after, isTagBlank c = true) → q = '"' ∨ q = '\'' →
    QuotedBy q value →
    Spells .tag (name ++ (before ++ '=' :: (after ++ q :: (value ++ [q]))))
      (.attr (String.ofList name) (String.ofList value)) .tag rest
  | tagEnd {rest : List Char} : Spells .tag ['>'] .tagEnd .content rest
  | selfClose {rest : List Char} : Spells .tag ['/', '>'] .selfClose .content rest

theorem isNameChar_of_isNameStart {c : Char} (h : isNameStart c = true) : isNameChar c = true := by
  simp only [isNameStart, isNameChar, Bool.or_eq_true, Char.isAlphanum] at h ⊢
  rcases h with h | h <;> simp [h]

theorem toNat_of_isNameChar {c : Char} (h : isNameChar c = true) : 0x2D ≤ c.toNat ∧ c.toNat ≤ 0x7A := by
  simp only [isNameChar, Char.isAlphanum, Char.isAlpha, Char.isUpper, Char.isLower, Char.isDigit, Bool.or_eq_true,
    Bool.and_eq_true, decide_eq_true_eq, beq_iff_eq, ge_iff_le, UInt32.le_iff_toNat_le, Char.toNat_val] at h
  rcases h with (((((⟨h, h'⟩ | ⟨h, h'⟩) | ⟨h, h'⟩) | rfl) | rfl) | rfl) | rfl
  · exact ⟨Nat.le_trans (by decide) h, Nat.le_trans h' (by decide)⟩
  · exact ⟨Nat.le_trans (by decide) h, Nat.le_trans h' (by decide)⟩
  · exact ⟨Nat.le_trans (by decide) h, Nat.le_trans h' (by decide)⟩
  all_goals decide

theorem isNameChar_of_isBlank {c : Char} (h : isBlank c = true) : isNameChar c = false := by
  cases hname : isNameChar c with
  | false => rfl
  | true =>
    obtain ⟨h1, h2⟩ := toNat_of_isNameChar hname
    simp only [isBlank, Bool.or_eq_true, Bool.and_eq_true, decide_eq_true_eq, beq_iff_eq] at h
    omega

private theorem isNameChar_of_isTagBlank {c : Char} (h : isTagBlank c = true) : isNameChar c = false :=
  isNameChar_of_isBlank (isBlank_of_isTagBlank h)

private theorem isTagBlank_of_isNameStart {c : Char} (h : isNameStart c = true) : isTagBlank c = false := by
  cases hb : isTagBlank c with
  | false => rfl
  | true =>
    have hname := isNameChar_of_isNameStart h
    rw [isNameChar_of_isTagBlank hb] at hname
    exact absurd hname (by simp)

theorem IsName.eq_cons {name : List Char} (h : IsName name) :
    ∃ c cs, name = c :: cs ∧ isNameStart c = true := by
  cases name with
  | nil => simp [IsName] at h
  | cons c cs => exact ⟨c, cs, rfl, by simpa using h.1⟩

theorem span_append {p : Char → Bool} {s : List Char} (rest : List Char) (hs : ∀ c ∈ s, p c = true)
    (hr : ∀ c ∈ rest.head?, p c = false) : (s ++ rest).takeWhile p = s ∧ (s ++ rest).dropWhile p = rest := by
  rw [List.takeWhile_append_of_pos hs, List.dropWhile_append_of_pos hs]
  cases rest with
  | nil => simp
  | cons c rest =>
    have hc : p c = false := hr c rfl
    simp [hc]

/-- After a name, blanks and a character that is in no name. -/
private theorem head?_gap {gap rest : List Char} {c : Char} (hgap : ∀ c ∈ gap, isTagBlank c = true)
    (hc : isNameChar c = false) : ∀ d ∈ (gap ++ c :: rest).head?, isNameChar d = false := by
  cases gap with
  | nil => simpa using hc
  | cons b gap => simpa using isNameChar_of_isTagBlank (hgap b (by simp))

theorem contentStep_literal {body : List Char} (h : Literal body) (position : Nat) (rest : List Char) :
    contentStep position ('"' :: (body ++ '"' :: rest)) =
      .emit ('"' :: (body ++ ['"'])) (.literal (String.ofList ('"' :: (body ++ ['"'])))) .content rest := by
  have hclose : closesBeforeMarkup (body ++ '"' :: rest) = true := by rw [h.1.closesBeforeMarkup_eq, h.2]
  have hsplit := h.1.splitQuoted (by decide) rest
  show (if closesBeforeMarkup (body ++ '"' :: rest) then _ else _) = _
  rw [if_pos hclose, hsplit]

private theorem closeTagStep_eq {name gap : List Char} (hne : name ≠ []) (hname : ∀ c ∈ name, isNameChar c = true)
    (hgap : ∀ c ∈ gap, isTagBlank c = true) (position : Nat) (rest : List Char) :
    closeTagStep position (name ++ (gap ++ '>' :: rest)) =
      .emit ('<' :: '/' :: (name ++ gap ++ ['>'])) (.closeTag (String.ofList name)) .content rest := by
  have h0 := span_append (gap ++ '>' :: rest) hname (head?_gap hgap (by decide))
  have h1 := span_append ('>' :: rest) hgap (by simp; decide)
  simp only [closeTagStep, h0, h1]
  simp [hne]

private theorem contentStep_openTag {name rest : List Char} (hname : IsName name)
    (hrest : ∀ c ∈ rest.head?, isNameChar c = false) (position : Nat) :
    contentStep position ('<' :: (name ++ rest)) =
      .emit ('<' :: name) (.openTag (String.ofList name)) .tag rest := by
  have h0 := span_append rest hname.2 hrest
  obtain ⟨c, cs, rfl, hc⟩ := hname.eq_cons
  rw [List.cons_append] at h0 ⊢
  rw [contentStep_name hc, h0.1, h0.2]

private theorem attributeStep_eq {name before after value : List Char} {q : Char} (hname : IsName name)
    (hbefore : ∀ c ∈ before, isTagBlank c = true) (hafter : ∀ c ∈ after, isTagBlank c = true)
    (hq : q = '"' ∨ q = '\'') (hvalue : QuotedBy q value) (position : Nat) (rest : List Char) :
    attributeStep position (name ++ (before ++ '=' :: (after ++ q :: (value ++ q :: rest)))) =
      .emit (name ++ (before ++ '=' :: (after ++ q :: (value ++ [q]))))
        (.attr (String.ofList name) (String.ofList value)) .tag rest := by
  have hqb : isTagBlank q = false := by rcases hq with rfl | rfl <;> decide
  have hqe : q ≠ '\\' := by rcases hq with rfl | rfl <;> decide
  have h0 := span_append (before ++ '=' :: (after ++ q :: (value ++ q :: rest))) hname.2
    (head?_gap hbefore (by decide))
  have h1 := span_append ('=' :: (after ++ q :: (value ++ q :: rest))) hbefore (by simp; decide)
  have h2 := span_append (q :: (value ++ q :: rest)) hafter (by simpa using hqb)
  simp only [attributeStep, h0, h1, h2, hq, ↓reduceIte, hvalue.splitQuoted hqe]
  simp

theorem tagStep_name {c : Char} (h : isNameStart c = true) (position : Nat) (cs : List Char) :
    tagStep position (c :: cs) = attributeStep position (c :: cs) := by
  unfold tagStep
  split
  · rename_i heq; simp at heq
  · rename_i heq; cases heq
    exact absurd h (by decide)
  · rename_i heq; cases heq
    exact absurd h (by decide)
  · rename_i heq; cases heq
    rw [if_neg (by simp [isTagBlank_of_isNameStart h]), if_pos h]

theorem step_of_spells {mode next : Mode} {source rest : List Char} {token : Token}
    (h : Spells mode source token next rest) (position : Nat) :
    step mode position (source ++ rest) = .emit source token next rest := by
  cases h with
  | literal hl => simpa [step] using contentStep_literal hl position rest
  | closeTag hne hname hgap =>
    have hstep := closeTagStep_eq hne hname hgap position rest
    simp only [List.append_assoc, List.cons_append, List.nil_append] at hstep ⊢
    exact hstep
  | openTag hname hrest => simpa [step] using contentStep_openTag hname hrest position
  | attr hname hbefore hafter hq hvalue =>
    have hstep := attributeStep_eq hname hbefore hafter hq hvalue position rest
    obtain ⟨c, cs, rfl, hc⟩ := hname.eq_cons
    simp only [List.append_assoc, List.cons_append, List.nil_append] at hstep ⊢
    rw [← hstep]
    exact tagStep_name hc position _
  | tagEnd => rfl
  | selfClose => rfl

/-- Scanning ends before the text does. -/
def Step.isStop : Step → Bool
  | stop .. => true
  | _ => false

/-- The ways in which a text begins. -/
inductive Head : Mode → List Char → Prop
  | nil {mode : Mode} : Head mode []
  | passed {mode : Mode} {s rest : List Char} : Passed mode s rest → Head mode (s ++ rest)
  | token {mode next : Mode} {source rest : List Char} {token : Token} :
    Spells mode source token next rest → Head mode (source ++ rest)
  | stuck {mode : Mode} {cs : List Char} :
    (∀ position, (step mode position cs).isStop = true) → Head mode cs

private theorem exists_span (p : Char → Bool) (cs : List Char) :
    ∃ s rest, cs = s ++ rest ∧ (∀ c ∈ s, p c = true) ∧ ∀ c ∈ rest.head?, p c = false := by
  induction cs with
  | nil => exact ⟨[], [], rfl, by simp, by simp⟩
  | cons c cs ih =>
    by_cases hc : p c = true
    · obtain ⟨s, rest, rfl, hs, hr⟩ := ih
      exact ⟨c :: s, rest, rfl, by simpa using ⟨hc, hs⟩, hr⟩
    · exact ⟨[], c :: cs, rfl, by simp, by simpa using hc⟩

private theorem head_closeTag (cs : List Char) : Head .content ('<' :: '/' :: cs) := by
  obtain ⟨name, afterName, rfl, hname, hafter⟩ := exists_span isNameChar cs
  obtain ⟨gap, rest, rfl, hgap, hrest⟩ := exists_span isTagBlank afterName
  have h0 := span_append _ hname hafter
  have h1 := span_append _ hgap hrest
  by_cases hne : name = []
  · refine .stuck fun position => ?_
    show (closeTagStep position _).isStop = true
    simp only [closeTagStep, h0]
    rw [if_pos (by simpa using hne)]
    rfl
  by_cases hend : ∃ more, rest = '>' :: more
  · obtain ⟨more, rfl⟩ := hend
    have hspell : Spells .content _ _ _ more := .closeTag hne hname hgap
    simpa using Head.token hspell
  · refine .stuck fun position => ?_
    show (closeTagStep position _).isStop = true
    simp only [closeTagStep, h0, h1]
    rw [if_neg (by simpa using hne)]
    split
    · exact absurd ⟨_, rfl⟩ hend
    · rfl

private theorem head_content (cs : List Char) : Head .content cs := by
  rcases cs with - | ⟨c, cs⟩
  · exact .nil
  by_cases hquote : c = '"' ∧ closesBeforeMarkup cs = true
  · obtain ⟨rfl, hclose⟩ := hquote
    obtain ⟨body, rest, rfl, hl⟩ := closesBeforeMarkup_iff.1 hclose
    have hspell : Spells .content _ _ _ rest := .literal hl
    simpa using Head.token hspell
  by_cases hmarkup : c = '<' ∧ opensMarkup cs = true
  · obtain ⟨rfl, hopen⟩ := hmarkup
    unfold opensMarkup at hopen
    split at hopen
    · exact head_closeTag _
    · rename_i cs
      cases hsplit : splitComment cs with
      | none =>
        refine .stuck fun position => ?_
        rw [step, contentStep_comment, hsplit]
        rfl
      | some p =>
        obtain ⟨rfl, hbody⟩ := splitComment_eq_some.1 hsplit
        have hpass : Passed .content _ p.2 := .comment hbody
        simpa using Head.passed hpass
    · rename_i d ds _ _
      obtain ⟨s, rest, rfl, hs, hr⟩ := exists_span isNameChar ds
      have hname : IsName (d :: s) :=
        ⟨by simpa using hopen, by simpa using ⟨isNameChar_of_isNameStart hopen, hs⟩⟩
      exact Head.token (Spells.openTag hname hr)
    · exact absurd hopen (by simp)
  · have htext : IsText c cs := by
      constructor <;> rintro rfl
      · simpa using hquote
      · simpa using hmarkup
    exact Head.passed (Passed.text htext)

private theorem head_attribute {c : Char} (hc : isNameStart c = true) (cs : List Char) : Head .tag (c :: cs) := by
  obtain ⟨s, afterName, rfl, hs, hafter⟩ := exists_span isNameChar cs
  obtain ⟨before, rest, rfl, hbefore, hrest⟩ := exists_span isTagBlank afterName
  have hname : IsName (c :: s) := ⟨by simpa using hc, by simpa using ⟨isNameChar_of_isNameStart hc, hs⟩⟩
  have h0 := span_append _ hname.2 hafter
  have h1 := span_append _ hbefore hrest
  have hstep : ∀ position, step .tag position (c :: (s ++ (before ++ rest))) =
      attributeStep position ((c :: s) ++ (before ++ rest)) := fun position => tagStep_name hc position _
  by_cases hsign : ∃ more, rest = '=' :: more
  · obtain ⟨more, rfl⟩ := hsign
    obtain ⟨gap, value, rfl, hgap, hvalue⟩ := exists_span isTagBlank more
    have h2 := span_append _ hgap hvalue
    rcases value with - | ⟨q, quoted⟩
    · refine .stuck fun position => ?_
      rw [hstep]
      simp only [attributeStep, h0, h1, h2]
      rfl
    by_cases hq : q = '"' ∨ q = '\''
    · have hqe : q ≠ '\\' := by rcases hq with rfl | rfl <;> decide
      cases hsplit : splitQuoted q quoted with
      | none =>
        refine .stuck fun position => ?_
        rw [hstep]
        simp only [attributeStep, h0, h1, h2, hq, ↓reduceIte, hsplit]
        rfl
      | some p =>
        obtain ⟨rfl, hbody⟩ := (splitQuoted_eq_some hqe).1 hsplit
        have hspell : Spells .tag _ _ _ p.2 := .attr hname hbefore hgap hq hbody
        simpa using Head.token hspell
    · refine .stuck fun position => ?_
      rw [hstep]
      simp only [attributeStep, h0, h1, h2, hq, ↓reduceIte]
      rfl
  · refine .stuck fun position => ?_
    rw [hstep]
    simp only [attributeStep, h0, h1]
    split
    · exact absurd ⟨_, rfl⟩ hsign
    · rfl

theorem head (mode : Mode) (cs : List Char) : Head mode cs := by
  cases mode with
  | content => exact head_content cs
  | tag =>
    rcases cs with - | ⟨c, cs⟩
    · exact .nil
    by_cases hend : c = '>'
    · subst hend
      have hspell : Spells .tag _ _ _ cs := .tagEnd
      exact Head.token hspell
    by_cases hclose : ∃ rest, c = '/' ∧ cs = '>' :: rest
    · obtain ⟨rest, rfl, rfl⟩ := hclose
      have hspell : Spells .tag _ _ _ rest := .selfClose
      exact Head.token hspell
    by_cases hblank : isTagBlank c = true
    · have hpass : Passed .tag [c] cs := .blank hblank
      exact Head.passed hpass
    by_cases hname : isNameStart c = true
    · exact head_attribute hname cs
    · refine .stuck fun position => ?_
      show (tagStep position (c :: cs)).isStop = true
      unfold tagStep Step.isStop
      grind

/-! ### Steps, whatever the position -/

theorem step_comment {body : List Char} (h : ¬['-', '-', '>'] <:+: body) (position : Nat) (rest : List Char) :
    step .content position ('<' :: '!' :: '-' :: '-' :: (body ++ ['-', '-', '>']) ++ rest) =
      .pass ('<' :: '!' :: '-' :: '-' :: (body ++ ['-', '-', '>'])) rest := by
  have hsplit : splitComment (body ++ '-' :: '-' :: '>' :: rest) = some (body, rest) :=
    splitComment_eq_some.2 ⟨rfl, h⟩
  have hcs : body ++ ['-', '-', '>'] ++ rest = body ++ '-' :: '-' :: '>' :: rest := by simp
  rw [step, List.cons_append, List.cons_append, List.cons_append, List.cons_append, hcs, contentStep_comment, hsplit]

theorem step_blank {c : Char} (h : isTagBlank c = true) (position : Nat) (cs : List Char) :
    step .tag position (c :: cs) = .pass (c :: cs.takeWhile isTagBlank) (cs.dropWhile isTagBlank) := by
  show tagStep position (c :: cs) = _
  unfold tagStep
  split
  · rename_i heq; simp at heq
  · rename_i heq; cases heq
    exact absurd h (by decide)
  · rename_i heq; cases heq
    exact absurd h (by decide)
  · rename_i heq; cases heq
    rw [if_pos h]

theorem textStep_cases (c : Char) (cs : List Char) :
    textStep c cs = .pass (c :: (splitRun cs).1) (splitRun cs).2 ∨
      ∃ core, textStep c cs = .emit (c :: (splitRun cs).1) (.text core) .content (splitRun cs).2 ∨
        textStep c cs = .emit (c :: (splitRun cs).1) (.number core) .content (splitRun cs).2 := by
  simp only [textStep]
  split
  · exact .inl rfl
  · refine .inr ⟨String.ofList (trim (c :: (splitRun cs).1)), ?_⟩
    split
    · exact .inr rfl
    · exact .inl rfl

/-- A token is spelled by its characters, or it comes from a run of plain text. -/
theorem emit_cases {mode next : Mode} {position : Nat} {cs source rest : List Char} {token : Token}
    (h : step mode position cs = .emit source token next rest) :
    Spells mode source token next rest ∨
      mode = .content ∧ next = .content ∧ (∃ core, token = .text core ∨ token = .number core) ∧
        ∃ c more, textStep c more = .emit source token next rest := by
  cases head mode cs with
  | nil => cases mode <;> cases h
  | @passed s rest hpassed =>
    cases hpassed with
    | @text c _ htext =>
      replace h := (contentStep_of_isText htext position).symm.trans h
      refine .inr ⟨rfl, ?_, ?_, c, rest, h⟩
      all_goals rcases textStep_cases c rest with htext | ⟨core, htext | htext⟩ <;> rw [htext] at h <;> cases h
      · rfl
      · rfl
      · exact ⟨core, .inl rfl⟩
      · exact ⟨core, .inr rfl⟩
    | comment hbody =>
      rw [step_comment hbody] at h
      cases h
    | blank hc =>
      rw [List.singleton_append, step_blank hc] at h
      cases h
  | token hspells =>
    rw [step_of_spells hspells] at h
    cases h
    exact .inl hspells
  | stuck hstop =>
    have hstop := hstop position
    rw [h] at hstop
    cases hstop

/-- A step is the same wherever the text stands, but for the positions in a fault. -/
theorem step_cases (mode : Mode) (cs : List Char) :
    (∀ position, step mode position cs = .finish) ∨
    (∃ skipped rest, rest.length < cs.length ∧ ∀ position, step mode position cs = .pass skipped rest) ∨
    (∃ source token next rest, rest.length < cs.length ∧ token ≠ .endOfText ∧
      ∀ position, step mode position cs = .emit source token next rest) ∨
    ∀ position, (step mode position cs).isStop = true := by
  have pass {skipped rest : List Char} (h : ∀ position, step mode position cs = .pass skipped rest) :
      rest.length < cs.length := by
    have adv := step_advances mode 0 cs
    rw [h] at adv
    have := List.length_pos_iff.2 adv.1
    rw [← adv.2, List.length_append]
    omega
  have emit {source rest : List Char} {token : Token} {next : Mode}
      (h : ∀ position, step mode position cs = .emit source token next rest) : rest.length < cs.length := by
    have adv := step_advances mode 0 cs
    rw [h] at adv
    have := List.length_pos_iff.2 adv.1
    rw [← adv.2, List.length_append]
    omega
  cases head mode cs with
  | nil => cases mode <;> exact .inl fun _ => rfl
  | @passed s rest h =>
    cases h with
    | @text c _ hc =>
      have hstep : ∀ position, step .content position ([c] ++ rest) = textStep c rest := contentStep_of_isText hc
      rcases textStep_cases c rest with htext | ⟨core, htext | htext⟩ <;> simp only [htext] at hstep
      · exact .inr (.inl ⟨_, _, pass hstep, hstep⟩)
      · exact .inr (.inr (.inl ⟨_, _, _, _, emit hstep, by simp, hstep⟩))
      · exact .inr (.inr (.inl ⟨_, _, _, _, emit hstep, by simp, hstep⟩))
    | comment hbody =>
      have hstep := fun position => step_comment hbody position
      exact .inr (.inl ⟨_, _, pass fun position => hstep position _, fun position => hstep position _⟩)
    | blank hc =>
      have hstep := fun position => step_blank hc position
      exact .inr (.inl ⟨_, _, pass fun position => hstep position _, fun position => hstep position _⟩)
  | token h =>
    have hstep := step_of_spells h
    exact .inr (.inr (.inl ⟨_, _, _, _, emit hstep, by cases h <;> simp, hstep⟩))
  | stuck h => exact .inr (.inr (.inr h))

/-! ### Before a close tag

What stands in an element is taken alike whatever stands behind the close tag, as long as no quote there is closed
before markup. -/

theorem Spells.of_head? {mode next : Mode} {source rest rest' : List Char} {token : Token}
    (h : Spells mode source token next rest) (hrest : rest'.head? = rest.head?) :
    Spells mode source token next rest' := by
  cases h with
  | literal hl => exact .literal hl
  | closeTag hne hname hgap => exact .closeTag hne hname hgap
  | openTag hname hhead => exact .openTag hname (hrest ▸ hhead)
  | attr hname hbefore hafter hq hvalue => exact .attr hname hbefore hafter hq hvalue
  | tagEnd => exact .tagEnd
  | selfClose => exact .selfClose

theorem Spells.of_content {mode : Mode} {source rest : List Char} {token : Token}
    (h : Spells mode source token .content rest) (rest' : List Char) : Spells mode source token .content rest' := by
  cases h with
  | literal hl => exact .literal hl
  | closeTag hne hname hgap => exact .closeTag hne hname hgap
  | tagEnd => exact .tagEnd
  | selfClose => exact .selfClose

private theorem IsText.cut {c : Char} {x w : List Char} (h : IsText c (x ++ '<' :: '/' :: w)) :
    IsText c (x ++ ['<', '/']) := by
  refine ⟨fun hc => ?_, fun hc => ?_⟩
  · cases hclose : closesBeforeMarkup (x ++ ['<', '/']) with
    | false => rfl
    | true =>
      have hmore := closesBeforeMarkup_append hclose w
      simp [h.1 hc] at hmore
  · have hmarkup := h.2 hc
    rwa [opensMarkup_append_cons (by decide) (by decide)] at hmarkup ⊢

private theorem IsText.extend {c : Char} {x w : List Char} (h : IsText c (x ++ ['<', '/']))
    (hw : closesBeforeMarkup ('/' :: w) = false) : IsText c (x ++ '<' :: '/' :: w) := by
  refine ⟨fun hc => ?_, fun hc => ?_⟩
  · have hclose := h.1 hc
    rw [closesBeforeMarkup_append_closeTag (by decide)] at hclose
    rw [closesBeforeMarkup_append_closeTag hw, hclose]
  · have hmarkup := h.2 hc
    rwa [opensMarkup_append_cons (by decide) (by decide)] at hmarkup ⊢

theorem Passed.cut {mode : Mode} {s x w : List Char} (h : Passed mode s (x ++ '<' :: '/' :: w)) :
    Passed mode s (x ++ ['<', '/']) := by
  cases h with
  | text hc => exact .text hc.cut
  | comment hbody => exact .comment hbody
  | blank hc => exact .blank hc

theorem Passed.extend {mode : Mode} {s x w : List Char} (h : Passed mode s (x ++ ['<', '/']))
    (hw : closesBeforeMarkup ('/' :: w) = false) : Passed mode s (x ++ '<' :: '/' :: w) := by
  cases h with
  | text hc => exact .text (hc.extend hw)
  | comment hbody => exact .comment hbody
  | blank hc => exact .blank hc

/-- A blank before the close tag makes no difference to what stands before it. -/
theorem Passed.of_blank {mode : Mode} {s x : List Char} {c : Char} (h : Passed mode s (x ++ c :: ['<', '/']))
    (hc : isBlank c = true) : Passed mode s (x ++ ['<', '/']) := by
  cases h with
  | text ht =>
    refine .text ⟨fun hd => ?_, fun hd => ?_⟩
    · have hclose := ht.1 hd
      rw [closesBeforeMarkup_append_closeTag (by decide)]
      cases hx : closesBeforeMarkup x with
      | false => rfl
      | true => rw [closesBeforeMarkup_append hx] at hclose; exact absurd hclose (by simp)
    · have hmarkup := ht.2 hd
      have hname : isNameStart c = false := by
        cases hstart : isNameStart c with
        | false => rfl
        | true =>
          rw [← isNameChar_of_isBlank hc, isNameChar_of_isNameStart hstart]
      have hbreak : c ∉ ['!', '-', '/'] := by
        simp only [List.mem_cons, not_or]
        refine ⟨?_, ?_, ?_, by simp⟩ <;> rintro rfl <;> exact absurd hc (by decide)
      rw [opensMarkup_append_cons hbreak hname] at hmarkup
      rw [opensMarkup_append_cons (by decide) (by decide), hmarkup]
  | comment hbody => exact .comment hbody
  | blank hb => exact .blank hb

end AccessPolicy.Markup
