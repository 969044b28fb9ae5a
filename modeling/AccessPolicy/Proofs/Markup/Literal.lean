import AccessPolicy.Proofs.Markup.Tiling

/-!
# Markup in quoted texts

A double quote between tags begins a literal when it is closed before any markup.  The search for the quote that closes
it takes a backslash and the character after it together, a `<` included, so a literal can have markup in it after all,
but only behind a backslash: `literal_iff` says this of the characters of a literal, and `markup_in_literal` of the
literals among the tokens of a document.
-/

namespace AccessPolicy.Markup

/-- What makes a `<` the beginning of markup: a name, a slash or `!--` directly after it. -/
inductive Opens : List Char → Prop
  | tag {c : Char} {cs : List Char} : isNameStart c = true → Opens (c :: cs)
  | closeTag (cs : List Char) : Opens ('/' :: cs)
  | comment (cs : List Char) : Opens ('!' :: '-' :: '-' :: cs)

theorem opensMarkup_iff {cs : List Char} : opensMarkup cs = true ↔ Opens cs := by
  constructor
  · intro h
    unfold opensMarkup at h
    split at h
    · exact .closeTag _
    · exact .comment _
    · exact .tag h
    · cases h
  · intro h
    cases h with
    | @tag c cs hc =>
      unfold opensMarkup
      split <;> simp_all
    | closeTag cs => rfl
    | comment cs => rfl

/-! ### Escapes -/

/-- An odd number of backslashes stands at the end, so the last of them belongs to what comes next. -/
def EndsEscaping (s : List Char) : Prop := (s.reverse.takeWhile (· = '\\')).length % 2 = 1

instance (s : List Char) : Decidable (EndsEscaping s) := inferInstanceAs (Decidable (_ = _))

private theorem length_backslashes_cons (c : Char) (s : List Char) :
    ((c :: s).reverse.takeWhile (· = '\\')).length =
      if (s.reverse.takeWhile (· = '\\')).length = s.length then s.length + if c = '\\' then 1 else 0
      else (s.reverse.takeWhile (· = '\\')).length := by
  rw [List.reverse_cons, List.takeWhile_append, List.length_reverse]
  split
  · by_cases hc : c = '\\' <;> simp [hc]
  · rfl

theorem endsEscaping_cons {c : Char} (hc : c ≠ '\\') {s : List Char} : EndsEscaping (c :: s) ↔ EndsEscaping s := by
  rw [EndsEscaping, EndsEscaping, length_backslashes_cons, if_neg hc]
  split
  · rename_i hall
    rw [hall, Nat.add_zero]
  · rfl

/-- A backslash and what it escapes. -/
theorem endsEscaping_escape {c : Char} {s : List Char} : EndsEscaping ('\\' :: c :: s) ↔ EndsEscaping s := by
  have hle : (s.reverse.takeWhile (· = '\\')).length ≤ s.length := by
    simpa using (List.takeWhile_prefix (l := s.reverse) (· = '\\')).length_le
  rw [EndsEscaping, EndsEscaping, length_backslashes_cons, length_backslashes_cons, List.length_cons, if_pos rfl]
  split_ifs <;> omega

theorem EndsEscaping.exists_append {s : List Char} (h : EndsEscaping s) : ∃ t, s = t ++ ['\\'] := by
  cases hs : s.reverse with
  | nil =>
    rw [EndsEscaping, hs] at h
    cases h
  | cons c t =>
    have hc : c = '\\' := by
      by_contra hc
      rw [EndsEscaping, hs, List.takeWhile_cons_of_neg (by simpa using hc)] at h
      cases h
    refine ⟨t.reverse, ?_⟩
    rw [← List.reverse_reverse s, hs, hc, List.reverse_cons]

/-! ### Literals -/

/-- A literal has markup in it only where the `<` is escaped. -/
theorem literal_iff {body : List Char} : Literal body ↔
    QuotedBy '"' body ∧ ∀ before after, body ++ ['"'] = before ++ '<' :: after → Opens after → EndsEscaping before := by
  refine and_congr_right fun hquoted => ?_
  -- a backslash takes the next character with it, and what is before a `<` is taken apart in the same strides
  induction hquoted with
  | nil =>
    refine iff_of_true rfl fun before after heq => ?_
    cases before with
    | nil => cases heq
    | cons c before => simp at heq
  | @escape c body _ ih =>
    rw [List.cons_append, List.cons_append, closesBeforeMarkup, ih]
    constructor
    · intro h before after heq hopens
      rcases before with - | ⟨b, - | ⟨d, before⟩⟩
      · cases heq
      · cases heq
        decide
      · simp only [List.cons_append, List.cons.injEq] at heq
        obtain ⟨rfl, rfl, heq⟩ := heq
        exact endsEscaping_escape.2 (h before after heq hopens)
    · intro h before after heq hopens
      exact endsEscaping_escape.1 (h ('\\' :: c :: before) after (by rw [heq]; rfl) hopens)
  | @char c body hc hq _ ih =>
    rw [List.cons_append, closesBeforeMarkup_char hc hq, Bool.and_eq_true, ih]
    constructor
    · rintro ⟨hmarkup, h⟩ before after heq hopens
      cases before with
      | nil =>
        cases heq
        simp [opensMarkup_iff.2 hopens] at hmarkup
      | cons b before =>
        simp only [List.cons_append, List.cons.injEq] at heq
        obtain ⟨rfl, heq⟩ := heq
        exact (endsEscaping_cons hc).2 (h before after heq hopens)
    · intro h
      constructor
      · by_contra hmarkup
        simp only [Bool.or_eq_true, bne_iff_ne, Bool.not_eq_true', not_or, not_not, Bool.not_eq_false] at hmarkup
        obtain ⟨rfl, hmarkup⟩ := hmarkup
        exact absurd (h [] _ rfl (opensMarkup_iff.1 hmarkup)) (by decide)
      · intro before after heq hopens
        exact (endsEscaping_cons hc).1 (h (c :: before) after (by rw [heq]; rfl) hopens)

/-! ### Literals of a document -/

theorem literal_of_step {mode next : Mode} {position : Nat} {cs source rest : List Char} {text : String}
    (h : step mode position cs = .emit source (.literal text) next rest) :
    ∃ body, Literal body ∧ source = '"' :: (body ++ ['"']) ∧ text.toList = source := by
  rcases emit_cases h with hspells | ⟨-, -, ⟨core, htoken | htoken⟩, -⟩
  · cases hspells with
    | literal hbody => exact ⟨_, hbody, rfl, String.toList_ofList⟩
  · cases htoken
  · cases htoken

theorem literal_of_mem_lexemesFrom {mode : Mode} {position : Nat} {gap cs : List Char} {l : Lexeme} {text : String}
    (hl : l ∈ lexemesFrom mode position gap cs) (htext : l.token = .literal text) :
    ∃ body, Literal body ∧ l.source = '"' :: (body ++ ['"']) ∧ text.toList = l.source := by
  fun_induction lexemesFrom mode position gap cs with
  | case1 mode position gap cs h =>
    cases List.mem_singleton.1 hl
    cases htext
  | case2 mode position gap cs skipped rest h ih => exact ih hl
  | case3 mode position gap cs source token next rest h ih =>
    rcases List.mem_cons.1 hl with rfl | hl
    · cases htext
      exact literal_of_step h
    · exact ih hl
  | case4 mode position gap cs source fault rest h =>
    rcases List.mem_pair.1 hl with rfl | rfl <;> cases htext

/-- A literal stands between double quotes, a `<` with markup after it is escaped in it, and there is none at all in a
document that has no backslash before a `<`. -/
theorem markup_in_literal (document text : String) (span : Span) (h : (.literal text, span) ∈ tokens document) :
    (∃ body, text.toList = '"' :: (body ++ ['"']) ∧ QuotedBy '"' body) ∧
      (∀ before after, text.toList = before ++ '<' :: after → Opens after → EndsEscaping before) ∧
      (¬['\\', '<'] <:+: document.toList →
        ∀ before after, text.toList = before ++ '<' :: after → ¬Opens after) := by
  obtain ⟨l, hl, htoken, -⟩ := mem_locate h
  obtain ⟨body, hbody, hsource, htext⟩ := literal_of_mem_lexemesFrom hl htoken.symm
  have hescaped : ∀ before after, text.toList = before ++ '<' :: after → Opens after → EndsEscaping before := by
    intro before after heq hopens
    rw [htext, hsource] at heq
    cases before with
    | nil => cases heq
    | cons c before =>
      simp only [List.cons_append, List.cons.injEq] at heq
      obtain ⟨rfl, heq⟩ := heq
      exact (endsEscaping_cons (by decide)).2 ((literal_iff.1 hbody).2 before after heq hopens)
  refine ⟨⟨body, htext.trans hsource, hbody.1⟩, hescaped, ?_⟩
  intro hdocument before after heq hopens
  obtain ⟨s, rfl⟩ := (hescaped before after heq hopens).exists_append
  have hin : ['\\', '<'] <:+: l.source := ⟨s, after, by rw [← htext, heq]; simp⟩
  have hwhole : l.source <:+: document.toList := by
    obtain ⟨ls, ls', hls⟩ := List.append_of_mem hl
    rw [← flatMap_lexemes document, hls]
    exact ⟨ls.flatMap (fun l => l.gap ++ l.source) ++ l.gap, ls'.flatMap (fun l => l.gap ++ l.source), by simp⟩
  exact hdocument (hin.trans hwhole)

private theorem escaped_tag_mem : (Token.literal "\"\\<a>\"", (⟨0, 6⟩ : Span)) ∈ tokens "\"\\<a>\"" := by
  have htokens : tokens "\"\\<a>\"" = [(.literal "\"\\<a>\"", ⟨0, 6⟩), (.endOfText, ⟨6, 6⟩)] := by cbv
  rw [htokens]
  exact List.mem_cons_self

/-- A literal with an escaped tag in it, and one in a document without backslashes. -/
theorem markup_in_literal_order :
    (Opens ['a', '>', '"'] ∧ EndsEscaping ['"', '\\']) ∧
      (.literal "\"1 < 2\"", ⟨0, 7⟩) ∈ tokens "\"1 < 2\"<b>" ∧ ¬Opens [' ', '2', '"'] := by
  have hopens : Opens ['a', '>', '"'] := .tag (by decide)
  have hescaped := (markup_in_literal _ _ _ escaped_tag_mem).2.1 ['"', '\\'] ['a', '>', '"'] rfl hopens
  have hmem : (Token.literal "\"1 < 2\"", (⟨0, 7⟩ : Span)) ∈ tokens "\"1 < 2\"<b>" := by
    have htokens : tokens "\"1 < 2\"<b>" = [(.literal "\"1 < 2\"", ⟨0, 7⟩), (.openTag "b", ⟨7, 9⟩), (.tagEnd, ⟨9, 10⟩),
      (.endOfText, ⟨10, 10⟩)] := by cbv
    rw [htokens]
    exact List.mem_cons_self
  have hfree : ¬['\\', '<'] <:+: "\"1 < 2\"<b>".toList := by decide
  have hclosed := (markup_in_literal _ _ _ hmem).2.2 hfree ['"', '1', ' '] [' ', '2', '"'] rfl
  exact ⟨⟨hopens, hescaped⟩, hmem, hclosed⟩

/-- The backslash before the tag is taken for an escape, and the quote behind the tag closes a literal. -/
theorem not_markup_in_literal :
    ¬∀ (document text : String) (span : Span), (.literal text, span) ∈ tokens document →
      ∀ before after, text.toList = before ++ '<' :: after → ¬Opens after := by
  intro h
  exact h _ _ _ escaped_tag_mem ['"', '\\'] ['a', '>', '"'] rfl (.tag (by decide))

end AccessPolicy.Markup
