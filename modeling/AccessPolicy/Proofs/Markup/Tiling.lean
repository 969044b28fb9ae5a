import AccessPolicy.Proofs.Markup.Head
import AccessPolicy.Proofs.Text.Trim

/-!
# Tokens tile their document

The characters of a document go to its tokens one after the other.  Each token has the characters in its span, and its
name or text can be read off them (`Token.Written`); what is passed over between two tokens is made up of blanks and
comments (`Skipped`).  Both are said of one step first (`written_of_step`, `skipped_of_step`), then of all lexemes of a
document, and `tokens_tile` says it of tokens and spans.
-/

namespace AccessPolicy.Markup

open Text

/-! ### Places in a text -/

/-- The span is where these characters stand in a text; it begins and ends between two characters. -/
def Span.Covers (span : Span) (cs s : List Char) : Prop :=
  ∃ before after, cs = before ++ s ++ after ∧ span.start = byteSize before ∧ span.stop = byteSize (before ++ s)

/-- The byte at this position is in the span. -/
def Span.Holds (span : Span) (i : Nat) : Prop := span.start ≤ i ∧ i < span.stop

theorem eq_nil_of_byteSize {cs : List Char} (h : byteSize cs = 0) : cs = [] := by
  cases cs with
  | nil => rfl
  | cons c cs =>
    rw [byteSize_cons] at h
    have := c.utf8Size_pos
    omega

/-- Two texts of one length at the front of a third are the same. -/
theorem eq_of_byteSize_eq {s s' t t' : List Char} (heq : s ++ t = s' ++ t') (h : byteSize s = byteSize s') :
    s = s' := by
  rcases List.append_eq_append_iff.1 heq with ⟨u, rfl, -⟩ | ⟨u, rfl, -⟩
  all_goals
    rw [byteSize_append] at h
    rw [eq_nil_of_byteSize (by omega : byteSize u = 0), List.append_nil]

/-- A span has one stretch of characters. -/
theorem Span.Covers.unique {span : Span} {cs s s' : List Char} (h : span.Covers cs s) (h' : span.Covers cs s') :
    s = s' := by
  obtain ⟨before, after, rfl, hstart, hstop⟩ := h
  obtain ⟨before', after', hcs, hstart', hstop'⟩ := h'
  rw [List.append_assoc, List.append_assoc] at hcs
  obtain rfl : before = before' := eq_of_byteSize_eq hcs (hstart.symm.trans hstart')
  rw [List.append_cancel_left_eq] at hcs
  simp only [byteSize_append] at hstop hstop'
  exact eq_of_byteSize_eq hcs (by omega)

/-! ### Tokens and their characters -/

def Token.isFault : Token → Bool
  | fault _ => true
  | _ => false

/-- The characters of a token, as they stand in the document. -/
def Token.Written : Token → List Char → Prop
  | openTag name, s => IsName name.toList ∧ s = '<' :: name.toList
  | attr name value, s => ∃ before after q, IsName name.toList ∧ (∀ c ∈ before, isTagBlank c = true) ∧
      (∀ c ∈ after, isTagBlank c = true) ∧ (q = '"' ∨ q = '\'') ∧ QuotedBy q value.toList ∧
      s = name.toList ++ (before ++ '=' :: (after ++ q :: (value.toList ++ [q])))
  | tagEnd, s => s = ['>']
  | selfClose, s => s = ['/', '>']
  | closeTag name, s => ∃ gap, name.toList ≠ [] ∧ (∀ c ∈ name.toList, isNameChar c = true) ∧
      (∀ c ∈ gap, isTagBlank c = true) ∧ s = '<' :: '/' :: (name.toList ++ gap ++ ['>'])
  | literal t, s => s = t.toList ∧ ∃ body, s = '"' :: (body ++ ['"'])
  | number t, s => t.toList = trim s ∧ (readInt64 (trim s)).isSome = true
  | text t, s => t.toList = trim s ∧ trim s ≠ [] ∧ (readInt64 (trim s)).isSome = false
  | fault _, _ => True
  | endOfText, s => s = []

/-- Tokens of one kind, which may differ in their names and texts. -/
def Token.SameKind : Token → Token → Prop
  | openTag _, openTag _ | attr _ _, attr _ _ | tagEnd, tagEnd | selfClose, selfClose | closeTag _, closeTag _
  | literal _, literal _ | number _, number _ | text _, text _ | endOfText, endOfText => True
  | _, _ => False

theorem Token.Written.ne_nil {token : Token} {s : List Char} (h : token.Written s) (hend : token ≠ .endOfText)
    (hfault : token.isFault = false) : s ≠ [] := by
  rintro rfl
  cases token with
  | attr name value =>
    obtain ⟨before, after, q, -, -, -, -, -, hs⟩ := h
    simp at hs
  | closeTag name =>
    obtain ⟨gap, -, -, -, hs⟩ := h
    cases hs
  | literal text =>
    obtain ⟨-, body, hs⟩ := h
    cases hs
  | number text => exact absurd h.2 (by decide)
  | text text => exact h.2.1 rfl
  | fault f => cases hfault
  | endOfText => exact hend rfl
  | _ => simp [Written] at h

theorem Spells.written {mode next : Mode} {source rest : List Char} {token : Token}
    (h : Spells mode source token next rest) : token.Written source := by
  cases h with
  | literal _ => exact ⟨String.toList_ofList.symm, _, rfl⟩
  | closeTag hne hname hgap => exact ⟨_, by simpa using hne, by simpa using hname, hgap, by simp⟩
  | openTag hname _ => exact ⟨by simpa using hname, by simp⟩
  | attr hname hbefore hafter hq hvalue =>
    exact ⟨_, _, _, by simpa using hname, hbefore, hafter, hq, by simpa using hvalue, by simp⟩
  | tagEnd => rfl
  | selfClose => rfl

private theorem spells_of_written_attr {name value : String} {s : List Char} (h : (Token.attr name value).Written s) :
    Spells .tag s (.attr name value) .tag [] := by
  obtain ⟨before, after, q, hname, hbefore, hafter, hq, hvalue, rfl⟩ := h
  have hspell : Spells .tag _ _ .tag [] := .attr hname hbefore hafter hq hvalue
  simpa using hspell

private theorem spells_of_written_closeTag {name : String} {s : List Char} (h : (Token.closeTag name).Written s) :
    Spells .content s (.closeTag name) .content [] := by
  obtain ⟨gap, hne, hname, hgap, rfl⟩ := h
  have hspell : Spells .content _ _ .content [] := .closeTag hne hname hgap
  simpa using hspell

/-- What is spelled before the same rest is the same, as the scanner finds it there. -/
private theorem Spells.unique {mode next next' : Mode} {source rest : List Char} {token token' : Token}
    (h : Spells mode source token next rest) (h' : Spells mode source token' next' rest) : token = token' := by
  have hstep := (step_of_spells h 0).symm.trans (step_of_spells h' 0)
  cases hstep
  rfl

/-- The characters of a token and its kind determine it. -/
theorem Token.Written.unique {token token' : Token} {s : List Char} (h : token.Written s) (h' : token'.Written s)
    (hkind : token.SameKind token') : token = token' := by
  unfold SameKind at hkind
  split at hkind
  · obtain ⟨-, rfl⟩ := h
    obtain ⟨-, hs⟩ := h'
    rw [String.toList_inj.1 (List.cons.inj hs).2]
  · exact (spells_of_written_attr h).unique (spells_of_written_attr h')
  · rfl
  · rfl
  · exact (spells_of_written_closeTag h).unique (spells_of_written_closeTag h')
  · rw [String.toList_inj.1 (h.1.symm.trans h'.1)]
  · rw [String.toList_inj.1 (h.1.trans h'.1.symm)]
  · rw [String.toList_inj.1 (h.1.trans h'.1.symm)]
  · rfl
  · exact hkind.elim

/-! ### One step -/

/-- What is passed over at once: blanks, or a comment up to the first end of a comment in it. -/
def Skipped (s : List Char) : Prop :=
  (∀ c ∈ s, isBlank c = true) ∨
    ∃ body, s = '<' :: '!' :: '-' :: '-' :: (body ++ ['-', '-', '>']) ∧ ¬['-', '-', '>'] <:+: body

theorem written_of_textStep {c : Char} {cs source rest : List Char} {token : Token} {next : Mode}
    (h : textStep c cs = .emit source token next rest) : token.Written source := by
  simp only [textStep] at h
  split at h
  · cases h
  · rename_i hcore
    have hne : trim (c :: (splitRun cs).1) ≠ [] := by simpa using hcore
    split at h
    · rename_i hnumber
      cases h
      exact ⟨String.toList_ofList, hnumber⟩
    · rename_i hnumber
      cases h
      exact ⟨String.toList_ofList, hne, Bool.eq_false_iff.2 hnumber⟩

theorem skipped_of_textStep {c : Char} {cs skipped rest : List Char} (h : textStep c cs = .pass skipped rest) :
    Skipped skipped := by
  simp only [textStep] at h
  split at h
  · rename_i hcore
    cases h
    exact .inl (isBlank_of_trim_eq_nil (by simpa using hcore))
  · cases h

theorem written_of_step {mode next : Mode} {position : Nat} {cs source rest : List Char} {token : Token}
    (h : step mode position cs = .emit source token next rest) : token.Written source := by
  rcases emit_cases h with hspells | ⟨-, -, -, c, more, htext⟩
  · exact hspells.written
  · exact written_of_textStep htext

theorem skipped_of_step {mode : Mode} {position : Nat} {cs skipped rest : List Char}
    (h : step mode position cs = .pass skipped rest) : Skipped skipped := by
  cases head mode cs with
  | nil => cases mode <;> cases h
  | @passed s rest hpassed =>
    cases hpassed with
    | text htext => exact skipped_of_textStep ((contentStep_of_isText htext position).symm.trans h)
    | comment hbody =>
      rw [step_comment hbody] at h
      cases h
      exact .inr ⟨_, rfl, hbody⟩
    | @blank c _ hc =>
      rw [List.singleton_append, step_blank hc] at h
      cases h
      refine .inl fun d hd => ?_
      rcases List.mem_cons.1 hd with rfl | hd
      · exact isBlank_of_isTagBlank hc
      · exact isBlank_of_isTagBlank (List.mem_takeWhile_imp hd)
  | token hspells =>
    rw [step_of_spells hspells] at h
    cases h
  | stuck hstop =>
    have hstop := hstop position
    rw [h] at hstop
    cases hstop

/-! ### Lexemes -/

/-- The characters of lexemes, put together. -/
def characters (ls : List Lexeme) : List Char := ls.flatMap fun l => l.gap ++ l.source

@[simp] theorem characters_nil : characters [] = [] := rfl

@[simp] theorem characters_cons (l : Lexeme) (ls : List Lexeme) :
    characters (l :: ls) = l.gap ++ l.source ++ characters ls := rfl

@[simp] theorem characters_append (ls ms : List Lexeme) : characters (ls ++ ms) = characters ls ++ characters ms :=
  List.flatMap_append

theorem characters_lexemesFrom (mode : Mode) (position : Nat) (gap cs : List Char) :
    characters (lexemesFrom mode position gap cs) = gap ++ cs := flatMap_lexemesFrom mode position gap cs

/-- The end of the text is the last lexeme and no other, and reading stops at a fault. -/
theorem exists_lexemes (mode : Mode) (position : Nat) (gap cs : List Char) :
    ∃ ls last, lexemesFrom mode position gap cs = ls ++ [last] ∧ (∀ l ∈ ls, l.token ≠ .endOfText) ∧
      (∀ l ∈ ls.dropLast, l.token.isFault = false) ∧ last.token = .endOfText ∧ last.source = [] := by
  fun_induction lexemesFrom mode position gap cs with
  | case1 mode position gap cs h => exact ⟨[], _, rfl, by simp, by simp, rfl, rfl⟩
  | case2 mode position gap cs skipped rest h ih => exact ih
  | case3 mode position gap cs source token next rest h ih =>
    obtain ⟨ls, last, hls, hgoes, hfaults, hlast⟩ := ih
    have htoken : token ≠ .endOfText ∧ token.isFault = false := by
      rcases emit_cases h with hspells | ⟨-, -, ⟨core, rfl | rfl⟩, -⟩
      · cases hspells <;> exact ⟨by simp, rfl⟩
      · exact ⟨by simp, rfl⟩
      · exact ⟨by simp, rfl⟩
    refine ⟨⟨gap, source, token⟩ :: ls, last, by rw [hls]; rfl, ?_, ?_, hlast⟩
    · simpa using ⟨htoken.1, hgoes⟩
    · cases ls with
      | nil => simp
      | cons l ls => simpa using ⟨htoken.2, hfaults⟩
  | case4 mode position gap cs source fault rest h =>
    exact ⟨[⟨gap, source, .fault fault⟩], _, rfl, by simp, by simp, rfl, rfl⟩

/-- The end of the text has nothing after it. -/
theorem ne_endOfText_of_append {mode : Mode} {position : Nat} {gap cs : List Char} {ls more : List Lexeme}
    (h : lexemesFrom mode position gap cs = ls ++ more) (hmore : more ≠ []) : ∀ l ∈ ls, l.token ≠ .endOfText := by
  obtain ⟨all, last, hall, hgoes, -⟩ := exists_lexemes mode position gap cs
  obtain ⟨more, l, rfl⟩ := (List.eq_nil_or_concat' more).resolve_left hmore
  rw [hall, ← List.append_assoc] at h
  obtain rfl := (List.append_inj' h rfl).1
  exact fun l hl => hgoes l (List.mem_append_left _ hl)

theorem written_of_mem_lexemesFrom {mode : Mode} {position : Nat} {gap cs : List Char} {l : Lexeme}
    (hl : l ∈ lexemesFrom mode position gap cs) : l.token.Written l.source := by
  fun_induction lexemesFrom mode position gap cs with
  | case1 mode position gap cs h =>
    obtain rfl := List.mem_singleton.1 hl
    rfl
  | case2 mode position gap cs skipped rest h ih => exact ih hl
  | case3 mode position gap cs source token next rest h ih =>
    rcases List.mem_cons.1 hl with rfl | hl
    · exact written_of_step h
    · exact ih hl
  | case4 mode position gap cs source fault rest h =>
    rcases List.mem_pair.1 hl with rfl | rfl
    · trivial
    · rfl

/-- Blanks and comments, one after the other. -/
def Between (gap : List Char) : Prop := ∃ pieces : List (List Char), gap = pieces.flatten ∧ ∀ s ∈ pieces, Skipped s

theorem Between.nil : Between [] := ⟨[], rfl, by simp⟩

theorem Between.append {gap s : List Char} (h : Between gap) (hs : Skipped s) : Between (gap ++ s) := by
  obtain ⟨pieces, rfl, hpieces⟩ := h
  refine ⟨pieces ++ [s], by simp, fun t ht => ?_⟩
  rcases List.mem_append.1 ht with ht | ht
  · exact hpieces t ht
  · exact List.mem_singleton.1 ht ▸ hs

/-- Without a fault, nothing is lost between two tokens but blanks and comments. -/
theorem between_of_mem_lexemesFrom {mode : Mode} {position : Nat} {gap cs : List Char} (hgap : Between gap)
    (hfaults : ∀ l ∈ lexemesFrom mode position gap cs, l.token.isFault = false) :
    ∀ l ∈ lexemesFrom mode position gap cs, Between l.gap := by
  fun_induction lexemesFrom mode position gap cs with
  | case1 mode position gap cs h => simpa using hgap
  | case2 mode position gap cs skipped rest h ih => exact ih (hgap.append (skipped_of_step h)) hfaults
  | case3 mode position gap cs source token next rest h ih =>
    intro l hl
    rcases List.mem_cons.1 hl with rfl | hl
    · exact hgap
    · exact ih .nil (fun l hl => hfaults l (List.mem_cons_of_mem _ hl)) l hl
  | case4 mode position gap cs source fault rest h =>
    have hfault := hfaults _ List.mem_cons_self
    cases hfault

/-! ### Places of lexemes -/

theorem map_fst_locate (position : Nat) (ls : List Lexeme) :
    (locate position ls).map Prod.fst = ls.map Lexeme.token := by
  induction ls generalizing position with
  | nil => rfl
  | cons l ls ih => simp [locate, ih]

theorem locate_append (position : Nat) (ls ms : List Lexeme) :
    locate position (ls ++ ms) = locate position ls ++ locate (position + byteSize (characters ls)) ms := by
  induction ls generalizing position with
  | nil => rfl
  | cons l ls ih => simp [locate, ih, Nat.add_assoc]

/-- A token is that of a lexeme, and it ends where the characters of the lexemes up to that one do. -/
theorem exists_of_getElem?_locate {position k : Nat} {ls : List Lexeme} {token : Token} {span : Span}
    (h : (locate position ls)[k]? = some (token, span)) :
    ∃ before l after, ls = before ++ l :: after ∧ before.length = k ∧ l.token = token ∧
      span.stop = position + byteSize (characters (before ++ [l])) := by
  induction ls generalizing position k with
  | nil => simp [locate] at h
  | cons l ls ih =>
    cases k with
    | zero =>
      obtain ⟨rfl, rfl⟩ := Prod.mk.inj (Option.some.inj h)
      exact ⟨[], l, ls, rfl, rfl, rfl, by simp [Nat.add_assoc]⟩
    | succ k =>
      obtain ⟨before, l', after, rfl, rfl, htoken, hstop⟩ := ih h
      exact ⟨l :: before, l', after, rfl, rfl, htoken, by simp [hstop, Nat.add_assoc]⟩

/-- Tokens come in order, from the first position on and up to where their characters end. -/
theorem bounds_of_mem_locate {position : Nat} {ls : List Lexeme} {t : Token × Span} (h : t ∈ locate position ls) :
    position ≤ t.2.start ∧ t.2.stop ≤ position + byteSize (characters ls) := by
  induction ls generalizing position with
  | nil => cases h
  | cons l ls ih =>
    simp only [characters_cons, byteSize_append]
    rcases List.mem_cons.1 h with rfl | h
    · dsimp only
      omega
    · have := ih h
      omega

theorem pairwise_locate (position : Nat) (ls : List Lexeme) :
    (locate position ls).Pairwise fun t u => t.2.stop ≤ u.2.start := by
  induction ls generalizing position with
  | nil => exact .nil
  | cons l ls ih => exact .cons (fun u hu => (bounds_of_mem_locate hu).1) (ih _)

theorem mem_locate {ls : List Lexeme} {t : Token × Span} (h : t ∈ locate 0 ls) :
    ∃ l ∈ ls, t.1 = l.token ∧ t.2.Covers (characters ls) l.source := by
  suffices ∀ before : List Lexeme, t ∈ locate (byteSize (characters before)) ls →
      ∃ l ∈ ls, t.1 = l.token ∧ t.2.Covers (characters before ++ characters ls) l.source from this [] h
  clear h
  -- on the lexemes, of which those before are done
  induction ls with
  | nil => exact fun before h => absurd h List.not_mem_nil
  | cons l ls ih =>
    intro before h
    rcases List.mem_cons.1 h with rfl | h
    · refine ⟨l, List.mem_cons_self, rfl, characters before ++ l.gap, characters ls, by simp, by simp, ?_⟩
      simp [Nat.add_assoc]
    · obtain ⟨l', hl', htoken, hcovers⟩ := ih (before ++ [l]) (by simpa [Nat.add_assoc] using h)
      exact ⟨l', List.mem_cons_of_mem _ hl', htoken, by simpa using hcovers⟩

/-- A byte that is in no span is in the gap before a lexeme. -/
theorem exists_gap {position i : Nat} {ls : List Lexeme} (hle : position ≤ i)
    (hlt : i < position + byteSize (characters ls)) (h : ∀ t ∈ locate position ls, ¬t.2.Holds i) :
    ∃ before l after, ls = before ++ l :: after ∧ position + byteSize (characters before) ≤ i ∧
      i < position + byteSize (characters before ++ l.gap) := by
  induction ls generalizing position with
  | nil => simp at hlt; omega
  | cons l ls ih =>
    have hfirst := h _ List.mem_cons_self
    simp only [Span.Holds] at hfirst
    simp only [characters_cons, byteSize_append] at hlt
    by_cases hgap : i < position + byteSize l.gap
    · exact ⟨[], l, ls, rfl, by simpa using hle, by simpa using hgap⟩
    · have hnext : position + byteSize l.gap + byteSize l.source ≤ i := by omega
      obtain ⟨before, l', after, rfl, hstart, hstop⟩ := ih hnext (by omega) fun t ht => h t (List.mem_cons_of_mem _ ht)
      simp only [byteSize_append] at hstop
      refine ⟨l :: before, l', after, rfl, ?_, ?_⟩
      · simp only [characters_cons, byteSize_append]
        omega
      · simp only [characters_cons, byteSize_append]
        omega

private theorem exists_piece {pieces : List (List Char)} {i : Nat} (hlt : i < byteSize pieces.flatten) :
    ∃ before s after, pieces = before ++ s :: after ∧ byteSize before.flatten ≤ i ∧
      i < byteSize (before.flatten ++ s) := by
  induction pieces generalizing i with
  | nil => simp at hlt
  | cons s pieces ih =>
    simp only [List.flatten_cons, byteSize_append] at hlt
    by_cases hs : i < byteSize s
    · exact ⟨[], s, pieces, rfl, by simp, by simpa using hs⟩
    · have hin : i - byteSize s < byteSize pieces.flatten := by omega
      obtain ⟨before, s', after, rfl, hstart, hstop⟩ := ih hin
      simp only [byteSize_append] at hstop
      refine ⟨s :: before, s', after, rfl, ?_, ?_⟩
      · simp only [List.flatten_cons, byteSize_append]
        omega
      · simp only [List.flatten_cons, byteSize_append]
        omega

/-! ### Tokens of a document -/

/-- How tokens with their spans lie in a document. -/
structure Tiling (document : List Char) (ts : List (Token × Span)) : Prop where
  /-- The end of the text is the last token and no other, and a fault can only be the one before it. -/
  ends : ∃ init, ts = init ++ [(.endOfText, ⟨byteSize document, byteSize document⟩)] ∧
    (∀ t ∈ init, t.1 ≠ .endOfText) ∧ ∀ t ∈ init.dropLast, t.1.isFault = false
  ordered : ts.Pairwise fun t u => t.2.stop ≤ u.2.start
  nonempty : ∀ t ∈ ts, t.1 ≠ .endOfText → t.1.isFault = false → t.2.start < t.2.stop
  written : ∀ t ∈ ts, ∃ s, t.2.Covers document s ∧ t.1.Written s
  /-- No other token of its kind has the characters in its span. -/
  determined : ∀ t ∈ ts, ∀ s token, t.2.Covers document s → token.Written s → t.1.SameKind token → t.1 = token
  /-- Without a fault, a byte outside the spans is one of a blank run or of a comment, which no span meets. -/
  between : (∀ t ∈ ts, t.1.isFault = false) → ∀ i < byteSize document, (∀ t ∈ ts, ¬t.2.Holds i) →
    ∃ span : Span, span.Holds i ∧ (∃ s, span.Covers document s ∧ Skipped s) ∧
      ∀ t ∈ ts, t.2.stop ≤ span.start ∨ span.stop ≤ t.2.start

private theorem exists_init (document : String) : ∃ init,
    tokens document = init ++ [(.endOfText, ⟨byteSize document.toList, byteSize document.toList⟩)] ∧
      (∀ t ∈ init, t.1 ≠ .endOfText) ∧ ∀ t ∈ init.dropLast, t.1.isFault = false := by
  obtain ⟨ls, last, hls, hend, hfaults, hlast, hsource⟩ := exists_lexemes .content 0 [] document.toList
  rw [← lexemes] at hls
  have hsize : byteSize (characters ls) + byteSize last.gap = byteSize document.toList := by
    have hcharacters : characters (lexemes document) = document.toList := flatMap_lexemes document
    rw [← hcharacters, hls]
    simp [hsource]
  refine ⟨locate 0 ls, ?_, ?_, ?_⟩
  · rw [tokens, hls, locate_append]
    simp [locate, hlast, hsource, hsize]
  · intro t ht
    obtain ⟨l, hl, htoken, -⟩ := mem_locate ht
    exact htoken ▸ hend l hl
  · intro t ht
    rcases List.eq_nil_or_concat ls with rfl | ⟨ls, l, rfl⟩
    · cases ht
    · rw [List.concat_eq_append, locate_append, locate, locate, List.dropLast_concat] at ht
      obtain ⟨l', hl', htoken, -⟩ := mem_locate ht
      exact htoken ▸ hfaults l' (by simpa using hl')

/-- A piece of what stands between tokens, found by one of its bytes. -/
private theorem exists_skipped {ls : List Lexeme} (hgaps : ∀ l ∈ ls, Between l.gap) {i : Nat}
    (hlt : i < byteSize (characters ls)) (h : ∀ t ∈ locate 0 ls, ¬t.2.Holds i) :
    ∃ span : Span, span.Holds i ∧ (∃ s, span.Covers (characters ls) s ∧ Skipped s) ∧
      ∀ t ∈ locate 0 ls, t.2.stop ≤ span.start ∨ span.stop ≤ t.2.start := by
  obtain ⟨before, l, after, rfl, hstart, hstop⟩ := exists_gap (Nat.zero_le i) (by simpa using hlt) h
  obtain ⟨pieces, hgap, hpieces⟩ := hgaps l (by simp)
  rw [Nat.zero_add] at hstart hstop
  rw [byteSize_append, hgap] at hstop
  have hin : i - byteSize (characters before) < byteSize pieces.flatten := by omega
  obtain ⟨done, s, more, rfl, hfrom, hto⟩ := exists_piece hin
  rw [byteSize_append] at hto
  have hsize : byteSize l.gap = byteSize done.flatten + (byteSize s + byteSize more.flatten) := by
    simp [hgap]
  refine ⟨⟨byteSize (characters before ++ done.flatten), byteSize (characters before ++ done.flatten ++ s)⟩, ?_, ?_, ?_⟩
  · simp only [Span.Holds, byteSize_append]
    omega
  · refine ⟨s, ⟨characters before ++ done.flatten, more.flatten ++ l.source ++ characters after, ?_, rfl, rfl⟩,
      hpieces s (by simp)⟩
    simp [hgap]
  · intro t ht
    simp only [byteSize_append]
    rw [locate_append, Nat.zero_add] at ht
    rcases List.mem_append.1 ht with ht | ht
    · have := (bounds_of_mem_locate ht).2
      left
      omega
    · right
      rcases List.mem_cons.1 ht with rfl | ht
      · dsimp only
        omega
      · have := (bounds_of_mem_locate ht).1
        omega

theorem tokens_tile (document : String) : Tiling document.toList (tokens document) := by
  have hcharacters : characters (lexemes document) = document.toList := flatMap_lexemes document
  have hmem : ∀ t ∈ tokens document, ∃ l ∈ lexemes document, t.1 = l.token ∧
      t.2.Covers document.toList l.source := by
    intro t ht
    rw [← hcharacters]
    exact mem_locate ht
  have hwritten : ∀ t ∈ tokens document, ∃ s, t.2.Covers document.toList s ∧ t.1.Written s := by
    intro t ht
    obtain ⟨l, hl, htoken, hcovers⟩ := hmem t ht
    exact ⟨l.source, hcovers, htoken ▸ written_of_mem_lexemesFrom hl⟩
  refine ⟨?ends, pairwise_locate 0 _, ?nonempty, hwritten, ?determined, ?between⟩
  case ends => exact exists_init document
  case nonempty =>
    intro t ht hend hfault
    obtain ⟨s, ⟨before, after, -, hstart, hstop⟩, hs⟩ := hwritten t ht
    have hpos : 0 < byteSize s := Nat.pos_of_ne_zero fun h => hs.ne_nil hend hfault (eq_nil_of_byteSize h)
    rw [hstart, hstop, byteSize_append]
    omega
  case determined =>
    intro t ht s token hcovers htoken hkind
    obtain ⟨s', hcovers', hs'⟩ := hwritten t ht
    rw [hcovers'.unique hcovers] at hs'
    exact hs'.unique htoken hkind
  case between =>
    intro hfaults i hi hout
    have hgaps : ∀ l ∈ lexemes document, Between l.gap := by
      refine between_of_mem_lexemesFrom .nil fun l hl => ?_
      have htoken : l.token ∈ (tokens document).map Prod.fst := by
        rw [tokens, map_fst_locate]
        exact List.mem_map_of_mem hl
      obtain ⟨t, ht, heq⟩ := List.mem_map.1 htoken
      exact heq ▸ hfaults t ht
    rw [← hcharacters] at hi ⊢
    exact exists_skipped hgaps hi hout

end AccessPolicy.Markup
