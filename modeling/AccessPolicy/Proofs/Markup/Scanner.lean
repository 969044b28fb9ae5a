import AccessPolicy.Proofs.Markup.Walk

/-!
# Bytes and characters are scanned alike

Each part of the byte scanner does what the step at its position says, and every slice that it takes can be taken
(`turn_eq`, `attributeAt_eq`, `tagAt_eq`).  Token by token, the bytes of a document give the tokens that its characters
give (`scan_tokens`), and between tags no quoted text is left open (`contentAt_closed`).
-/

namespace AccessPolicy.Markup

open Text

variable {cs before rest : List Char} {c : Char}

/-! ### Turns and steps -/

/-- What a step at a position is to the byte scanner. -/
def Step.turn (cs : List Char) (position : Nat) : Step → Turn
  | finish => .found (scannedEnd cs)
  | pass skipped _ => .pass (position + byteSize skipped)
  | emit source token mode _ => .found ⟨token, ⟨position, position + byteSize source⟩, mode⟩
  | stop source fault _ => .found { token := .fault fault, span := ⟨position, position + byteSize source⟩ }

/-- A text run begins with a character, whatever it is. -/
theorem textAt_eq (h : cs = before ++ c :: rest) :
    textAt cs (byteSize before) = .ok ((textStep c rest).turn cs (byteSize before)) := by
  have h' : cs = (before ++ [c]) ++ rest := by simpa using h
  have hstop : pastText cs (byteSize before + 1) = .ok (byteSize (before ++ c :: (splitRun rest).1)) := by
    have hrun := pastText_eq h'
    rw [pastText] at hrun ⊢
    rw [walk_inside passing_textMove h Nat.one_pos c.utf8Size_pos, hrun]
    simp
  have hslice : slice cs ⟨byteSize before, byteSize (before ++ c :: (splitRun rest).1)⟩ =
      .ok (c :: (splitRun rest).1) :=
    slice_eq (splitRun rest).2 (by simp [h, splitRun_append]) rfl rfl
  simp only [textAt, hstop, bind, Except.bind, hslice, textStep]
  split
  · simp [Step.turn, pure, Except.pure]
  · simp [Step.turn, pure, Except.pure]

private theorem append_run (p : Char → Bool) (h : cs = before ++ rest) :
    cs = (before ++ rest.takeWhile p) ++ rest.dropWhile p := by
  simp [h]

private theorem slice_run (p : Char → Bool) (h : cs = before ++ rest) :
    slice cs ⟨byteSize before, byteSize (before ++ rest.takeWhile p)⟩ = .ok (rest.takeWhile p) :=
  slice_eq _ (append_run p h) rfl rfl

theorem closeTagAt_eq (h : cs = before ++ '<' :: '/' :: rest) :
    (closeTagAt cs (byteSize before)).map .found =
      .ok ((closeTagStep (byteSize before) rest).turn cs (byteSize before)) := by
  have hstart : byteSize before + 2 = byteSize (before ++ ['<', '/']) := by simp; rfl
  have hopen : cs = (before ++ ['<', '/']) ++ rest := by simpa using h
  have hname := append_run isNameChar hopen
  have hgap := append_run isTagBlank hname
  have hlast := byteAt?_eq_iff hgap (by decide : '>'.toNat < 128)
  simp only [closeTagAt, hstart, pastRun_eq (fun _ => isNameChar_of_high) hopen, slice_run isNameChar hopen,
    pastRun_eq (fun _ => isTagBlank_of_high) hname, hlast, closeTagStep, bind, Except.bind]
  clear hlast
  cases hempty : (rest.takeWhile isNameChar).isEmpty with
  | true =>
    rw [List.isEmpty_iff.1 hempty]
    simp [Except.map, pure, Except.pure, Step.turn]
  | false =>
    rcases htail : (rest.dropWhile isNameChar).dropWhile isTagBlank with - | ⟨c, tail⟩
    · simp [Except.map, pure, Except.pure, Step.turn]
    · by_cases hc : c = '>'
      · have hsize : '>'.utf8Size = 1 := rfl
        subst hc
        simp [Except.map, pure, Except.pure, Step.turn]
        omega
      · simp [Except.map, pure, Except.pure, Step.turn, hc]

theorem openTagAt_eq (h : cs = before ++ '<' :: rest) :
    openTagAt cs (byteSize before) =
      .ok ⟨.openTag (String.ofList (rest.takeWhile isNameChar)),
        ⟨byteSize before, byteSize before + byteSize ('<' :: rest.takeWhile isNameChar)⟩, .tag⟩ := by
  have hopen : cs = (before ++ ['<']) ++ rest := by simpa using h
  rw [openTagAt, ← byteSize_concat (by decide : '<'.toNat < 128)]
  simp only [pastRun_eq (fun _ => isNameChar_of_high) hopen, slice_run isNameChar hopen, bind, Except.bind]
  simp [pure, Except.pure]

theorem commentAt_eq (h : cs = before ++ '<' :: '!' :: '-' :: '-' :: rest) :
    commentAt cs (byteSize before) =
      .ok ((contentStep (byteSize before) ('<' :: '!' :: '-' :: '-' :: rest)).turn cs (byteSize before)) := by
  have hstart : byteSize before + 4 = byteSize (before ++ ['<', '!', '-', '-']) := by simp; rfl
  have hopen : cs = (before ++ ['<', '!', '-', '-']) ++ rest := by simpa using h
  rw [commentAt, hstart, slice_to_end hopen, contentStep_comment]
  simp only [bind, Except.bind]
  cases splitComment rest with
  | none => simp [Step.turn, pure, Except.pure, h]
  | some split =>
    have hdash : '-'.utf8Size = 1 := rfl
    have hclose : '>'.utf8Size = 1 := rfl
    simp [Step.turn, pure, Except.pure]
    omega

theorem quotedAt_eq {q : Char} (hq : q = '"' ∨ q = '\'') (h : cs = before ++ q :: rest) :
    quotedAt cs (byteSize before) = (splitQuoted q rest).map fun (body, _) =>
      ⟨byteSize before, byteSize (before ++ q :: (body ++ [q]))⟩ := by
  obtain ⟨hascii, hne⟩ : q.toNat < 128 ∧ q ≠ '\\' := by rcases hq with rfl | rfl <;> decide
  have hsize : q.utf8Size = 1 := utf8Size_ascii hascii
  have hopen : cs = (before ++ [q]) ++ rest := by simpa using h
  have hbyte : byteAt? cs (byteSize before) = some q := (byteAt?_eq_iff h hascii).2 rfl
  rw [quotedAt, hbyte, ← byteSize_concat hascii]
  simp only [bind, Option.bind, closingQuote_eq hascii hne hopen]
  cases splitQuoted q rest with
  | none => rfl
  | some split =>
    simp [hsize, pure]
    omega

theorem literalAt_eq (hcloses : closesBeforeMarkup rest = true) (h : cs = before ++ '"' :: rest) :
    literalAt cs (byteSize before) =
      .ok ((contentStep (byteSize before) ('"' :: rest)).turn cs (byteSize before)) := by
  obtain ⟨body, more, rfl, hl⟩ := closesBeforeMarkup_iff.1 hcloses
  have hslice : slice cs ⟨byteSize before, byteSize (before ++ '"' :: (body ++ ['"']))⟩ =
      .ok ('"' :: (body ++ ['"'])) :=
    slice_eq more (by simp [h]) rfl rfl
  rw [literalAt, quotedAt_eq (.inl rfl) h, hl.1.splitQuoted (by decide) more, contentStep_literal hl]
  simp only [Option.map_some, hslice, bind, Except.bind]
  simp [Step.turn, pure, Except.pure]

private theorem isPrefixOf_comment {cs : List Char} :
    ['<', '!', '-', '-'].isPrefixOf ('<' :: cs) = true ↔ ∃ t, cs = '!' :: '-' :: '-' :: t := by
  rw [List.isPrefixOf_iff_prefix]
  constructor
  · rintro ⟨t, ht⟩
    cases ht
    exact ⟨t, rfl⟩
  · rintro ⟨t, rfl⟩
    exact ⟨t, rfl⟩

private theorem isText_less {c : Char} {cs : List Char} (hslash : c ≠ '/') (hname : isNameStart c = false)
    (hcomment : ∀ t, c :: cs ≠ '!' :: '-' :: '-' :: t) : IsText '<' (c :: cs) := by
  refine ⟨fun heq => absurd heq (by decide), fun _ => ?_⟩
  by_cases hbang : c = '!'
  · subst hbang
    rw [opensMarkup_bang, Bool.eq_false_iff]
    intro hp
    obtain ⟨t, rfl⟩ := List.isPrefixOf_iff_prefix.1 hp
    exact hcomment t rfl
  · rw [opensMarkup_of_ne hslash hbang, hname]

theorem tagOrTextAt_eq (h : cs = before ++ '<' :: rest) (hcomment : ∀ t, rest ≠ '!' :: '-' :: '-' :: t) :
    tagOrTextAt cs (byteSize before) =
      .ok ((contentStep (byteSize before) ('<' :: rest)).turn cs (byteSize before)) := by
  have h' : cs = (before ++ ['<']) ++ rest := by simpa using h
  rw [tagOrTextAt, ← byteSize_concat (by decide : '<'.toNat < 128)]
  cases rest with
  | nil =>
    rw [byteAt?_eq_none.2 (by rw [h', List.append_nil])]
    exact textAt_eq h
  | cons c rest =>
    obtain ⟨b, hb, hlike⟩ := byteAt?_cons (before ++ ['<']) c rest
    rw [← h'] at hb
    rw [hb]
    by_cases hslash : c = '/'
    · obtain rfl := (hlike.eq_iff (by decide)).2 hslash
      subst hslash
      exact closeTagAt_eq h
    split
    · rename_i heq
      exact absurd ((hlike.eq_iff (by decide)).1 (Option.some.inj heq)) hslash
    · rename_i b' _ heq
      obtain rfl : b = b' := Option.some.inj heq
      rw [hlike.test_eq fun _ => isNameStart_of_high]
      cases hc : isNameStart c with
      | true =>
        rw [if_pos rfl, openTagAt_eq h, contentStep_name hc]
        rfl
      | false =>
        rw [if_neg Bool.false_ne_true, contentStep_of_isText (isText_less hslash hc hcomment)]
        exact textAt_eq h
    · rename_i heq
      cases heq

/-- A quote begins a quoted text if the lookahead finds its partner, and else a text. -/
private theorem turn_quote (h : cs = before ++ '"' :: rest) :
    turn cs (byteSize before) =
      .ok ((contentStep (byteSize before) ('"' :: rest)).turn cs (byteSize before)) := by
  have hcloses := quoteBeforeMarkup_eq (show cs = (before ++ ['"']) ++ rest by simpa using h)
  rw [byteSize_concat (by decide)] at hcloses
  rw [turn, (byteAt?_eq_iff h (by decide : '"'.toNat < 128)).2 rfl]
  cases hsearch : quoteBeforeMarkup cs (byteSize before + 1) with
  | error span =>
    rw [hsearch] at hcloses
    cases hcloses
  | ok closing =>
    rw [hsearch] at hcloses
    cases closing with
    | none =>
      have hquote : IsText '"' rest := ⟨fun _ => (Except.ok.inj hcloses).symm, fun heq => absurd heq (by decide)⟩
      rw [contentStep_of_isText hquote]
      exact textAt_eq h
    | some last => exact literalAt_eq (Except.ok.inj hcloses).symm h

theorem turn_eq (h : cs = before ++ rest) :
    turn cs (byteSize before) = .ok ((contentStep (byteSize before) rest).turn cs (byteSize before)) := by
  cases rest with
  | nil =>
    rw [turn_of_le (by rw [h, List.append_nil])]
    rfl
  | cons c rest =>
    by_cases hless : c = '<'
    · subst hless
      rw [turn, (byteAt?_eq_iff h (by decide : '<'.toNat < 128)).2 rfl]
      simp only [slice_to_end h, bind, Except.bind]
      split
      · rename_i hp
        obtain ⟨rest, rfl⟩ := isPrefixOf_comment.1 hp
        exact commentAt_eq h
      · rename_i hp
        exact tagOrTextAt_eq h fun t ht => hp (isPrefixOf_comment.2 ⟨t, ht⟩)
    by_cases hquote : c = '"'
    · subst hquote
      exact turn_quote h
    obtain ⟨b, hb, hlike⟩ := byteAt?_cons before c rest
    rw [← h] at hb
    rw [contentStep_of_isText ⟨fun heq => absurd heq hquote, fun heq => absurd heq hless⟩, turn, hb]
    split
    · rename_i heq
      cases heq
    · rename_i heq
      exact absurd ((hlike.eq_iff (by decide)).1 (Option.some.inj heq)) hless
    · rename_i heq
      exact absurd ((hlike.eq_iff (by decide)).1 (Option.some.inj heq)) hquote
    · exact textAt_eq h

theorem valueAt_unquoted (h : cs = before ++ rest) (hdouble : rest.head? ≠ some '"')
    (hsingle : rest.head? ≠ some '\'') (start : Nat) (name : String) : valueAt cs start name (byteSize before) =
      .ok { token := .fault (.unquotedAttribute name (byteSize before)), span := ⟨start, byteSize before⟩ } := by
  rw [valueAt, if_neg]
  · rfl
  · rw [byteAt?_eq_iff h (by decide), byteAt?_eq_iff h (by decide)]
    exact fun hq => hq.elim hdouble hsingle

theorem valueAt_unclosed {q : Char} (hq : q = '"' ∨ q = '\'') (h : cs = before ++ q :: rest)
    (hsplit : splitQuoted q rest = none) (start : Nat) (name : String) : valueAt cs start name (byteSize before) =
      .ok { token := .fault (.unclosedQuote (byteSize before)), span := ⟨start, byteSize cs⟩ } := by
  rw [valueAt, if_pos, quotedAt_eq hq h, hsplit]
  · rfl
  · rw [byteAt?_eq_iff h (by decide), byteAt?_eq_iff h (by decide)]
    simpa using hq

theorem valueAt_quoted {q : Char} (hq : q = '"' ∨ q = '\'') (h : cs = before ++ q :: rest) {value more : List Char}
    (hsplit : splitQuoted q rest = some (value, more)) (start : Nat) (name : String) :
    valueAt cs start name (byteSize before) =
      .ok ⟨.attr name (String.ofList value), ⟨start, byteSize (before ++ q :: (value ++ [q]))⟩, .tag⟩ := by
  have hsize : q.utf8Size = 1 := by rcases hq with rfl | rfl <;> rfl
  have hslice : slice cs ⟨byteSize before + 1, byteSize (before ++ q :: (value ++ [q])) - 1⟩ = .ok value :=
    slice_eq (q :: more) (show cs = (before ++ [q]) ++ value ++ q :: more by simp [h, ← splitQuoted_append hsplit])
      (by simp [hsize]) (by simp [hsize]; omega)
  rw [valueAt, if_pos, quotedAt_eq hq h, hsplit]
  · simp only [Option.map_some, hslice, bind, Except.bind]
    rfl
  · rw [byteAt?_eq_iff h (by decide), byteAt?_eq_iff h (by decide)]
    simpa using hq

theorem attributeAt_eq (h : cs = before ++ rest) :
    (attributeAt cs (byteSize before)).map .found =
      .ok ((attributeStep (byteSize before) rest).turn cs (byteSize before)) := by
  have hname := append_run isNameChar h
  have hgap := append_run isTagBlank hname
  have hsign := byteAt?_eq_iff hgap (by decide : '='.toNat < 128)
  simp only [attributeAt, pastRun_eq (fun _ => isNameChar_of_high) h, slice_run isNameChar h,
    pastRun_eq (fun _ => isTagBlank_of_high) hname, bind, Except.bind, attributeStep, hsign]
  generalize rest.takeWhile isNameChar = name, (rest.dropWhile isNameChar).takeWhile isTagBlank = gap,
    (rest.dropWhile isNameChar).dropWhile isTagBlank = tail at *
  clear hsign hname
  rcases tail with - | ⟨c, afterSign⟩
  · simp [Except.map, pure, Except.pure, Step.turn]
  by_cases hc : c = '='
  · subst hc
    have hvalue : cs = (before ++ name ++ gap ++ ['=']) ++ afterSign := by simp [hgap]
    have hblank := append_run isTagBlank hvalue
    rw [if_pos List.head?_cons, ← byteSize_concat (by decide : '='.toNat < 128),
      pastRun_eq (fun _ => isTagBlank_of_high) hvalue]
    rcases hquoted : afterSign.dropWhile isTagBlank with - | ⟨q, quoted⟩
    · rw [hquoted] at hblank
      rw [valueAt_unquoted hblank (by simp) (by simp)]
      simp [Except.map, Step.turn, hquoted]
    rw [hquoted] at hblank
    by_cases hq : q = '"' ∨ q = '\''
    · cases hsplit : splitQuoted q quoted with
      | none =>
        have hsize := congrArg byteSize hblank
        rw [valueAt_unclosed hq hblank hsplit, hsize]
        simp [Except.map, Step.turn, hquoted, hq, hsplit]
      | some split =>
        rw [valueAt_quoted hq hblank hsplit]
        simp [Except.map, Step.turn, hquoted, hq, hsplit]
    · rw [valueAt_unquoted hblank (by simpa using fun h => hq (.inl h)) (by simpa using fun h => hq (.inr h))]
      simp [Except.map, Step.turn, hquoted, hq]
  · simp [Except.map, pure, Except.pure, Step.turn, hc]

/-- Blanks in a tag make no difference. -/
theorem tagAt_blank (h : cs = before ++ rest) :
    tagAt cs (byteSize (before ++ rest.takeWhile isTagBlank)) = tagAt cs (byteSize before) := by
  have hall := pastRun_eq (fun _ => isTagBlank_of_high) h
  have hrest := pastRun_eq (fun _ => isTagBlank_of_high) (append_run isTagBlank h)
  have hnone : (rest.dropWhile isTagBlank).takeWhile isTagBlank = [] := by
    simpa [List.takeWhile_eq_nil_iff] using fun hne => List.dropWhile_get_zero_not isTagBlank rest hne
  rw [tagAt, tagAt, hall, hrest, hnone, List.append_nil]

private theorem tagStep_stray {c : Char} {cs : List Char} (hend : c ≠ '>') (hself : ¬(c = '/' ∧ cs.head? = some '>'))
    (hblank : isTagBlank c = false) (hname : isNameStart c = false) (position : Nat) :
    tagStep position (c :: cs) = .stop [] (.strayCharacter c position) (c :: cs) := by
  unfold tagStep
  split
  · rename_i heq; cases heq
  · rename_i heq; cases heq
    exact absurd rfl hend
  · rename_i heq; cases heq
    exact absurd ⟨rfl, rfl⟩ hself
  · rename_i heq; cases heq
    simp [hblank, hname]

theorem tagAt_eq (h : cs = before ++ rest) (hblank : ∀ c ∈ rest.head?, isTagBlank c = false) :
    (tagAt cs (byteSize before)).map .found = .ok ((tagStep (byteSize before) rest).turn cs (byteSize before)) := by
  have hstart : pastRun isTagBlank cs (byteSize before) = byteSize before := by
    have hnone := (span_append (s := []) rest (by simp) hblank).1
    rw [List.nil_append] at hnone
    rw [pastRun_eq (fun _ => isTagBlank_of_high) h, hnone, List.append_nil]
  rw [tagAt, hstart]
  cases rest with
  | nil =>
    rw [byteAt?_eq_none.2 (by rw [h, List.append_nil])]
    rfl
  | cons c rest =>
    obtain ⟨b, hb, hlike⟩ := byteAt?_cons before c rest
    rw [← h] at hb
    rw [hb]
    by_cases hend : c = '>'
    · obtain rfl := (hlike.eq_iff (by decide)).2 hend
      subst hend
      rfl
    split
    · rename_i heq
      cases heq
    · rename_i heq
      exact absurd ((hlike.eq_iff (by decide)).1 (Option.some.inj heq)) hend
    rename_i b' _ heq
    obtain rfl : b = b' := Option.some.inj heq
    have hself : b = '/' ∧ byteAt? cs (byteSize before + 1) = some '>' ↔ c = '/' ∧ rest.head? = some '>' := by
      rw [hlike.eq_iff (by decide)]
      refine and_congr_right fun hc => ?_
      subst hc
      rw [← byteSize_concat (by decide : '/'.toNat < 128)]
      exact byteAt?_eq_iff (by simpa using h) (by decide)
    by_cases hc : c = '/' ∧ rest.head? = some '>'
    · rw [if_pos (hself.2 hc)]
      obtain ⟨rfl, hrest⟩ := hc
      obtain ⟨rest, rfl⟩ := List.head?_eq_some_iff.1 hrest
      rfl
    rw [if_neg (mt hself.1 hc), hlike.test_eq fun _ => isNameStart_of_high]
    cases hname : isNameStart c with
    | true =>
      rw [if_pos rfl, tagStep_name hname]
      exact attributeAt_eq h
    | false =>
      rw [tagStep_stray hend hc (hblank c rfl) hname, slice_to_end h]
      rfl

/-! ### Tokens of a document -/

private theorem contentAt_found {start : Nat} {s : Scanned} (h : turn cs start = .ok (.found s)) :
    contentAt cs start = .ok s := by
  rw [contentAt]
  split
  · simp_all
  · simp_all
  · simp_all

private theorem contentAt_pass {start position : Nat} (h : turn cs start = .ok (.pass position)) :
    contentAt cs start = contentAt cs position := by
  rw [contentAt]
  split
  · simp_all
  · simp_all
  · simp_all

/-- The scanner gives this token, or goes on from this position. -/
def Turn.Follows (cs : List Char) (mode : Mode) (position : Nat) : Turn → Prop
  | found s => tokenAt cs mode position = .ok s
  | pass next => tokenAt cs mode position = tokenAt cs mode next

theorem tokenAt_step (mode : Mode) (h : cs = before ++ rest) :
    ((step mode (byteSize before) rest).turn cs (byteSize before)).Follows cs mode (byteSize before) := by
  cases mode with
  | content =>
    have hturn := turn_eq h
    rw [step]
    cases hx : (contentStep (byteSize before) rest).turn cs (byteSize before) with
    | found s => exact contentAt_found (hx ▸ hturn)
    | pass position => exact contentAt_pass (hx ▸ hturn)
  | tag =>
    have hfollows : (∀ c ∈ rest.head?, isTagBlank c = false) →
        ((tagStep (byteSize before) rest).turn cs (byteSize before)).Follows cs .tag (byteSize before) := by
      intro hblank
      have htag := tagAt_eq h hblank
      cases hx : tagAt cs (byteSize before) with
      | error span =>
        rw [hx] at htag
        cases htag
      | ok s =>
        rw [hx] at htag
        rw [← Except.ok.inj htag]
        exact hx
    cases rest with
    | nil => exact hfollows (by simp)
    | cons c rest =>
      by_cases hc : isTagBlank c = true
      · have hblank := tagAt_blank h
        rw [List.takeWhile_cons_of_pos hc, byteSize_append] at hblank
        rw [step_blank hc]
        exact hblank.symm
      · refine hfollows fun d hd => ?_
        cases hd
        simpa using hc

private theorem scan_goesOn {mode : Mode} {position : Nat} {s : Scanned} (h : tokenAt cs mode position = .ok s)
    (hgo : s.token.goesOn = true) :
    scan cs mode position = (scan cs s.mode s.span.stop).map ((s.token, s.span) :: ·) := by
  rw [scan]
  split
  · simp_all
  · rename_i s' hs
    obtain rfl : s = s' := Except.ok.inj (h.symm.trans hs)
    rw [dif_pos hgo]

private theorem scan_stops {mode : Mode} {position : Nat} {s : Scanned} (h : tokenAt cs mode position = .ok s)
    (hgo : s.token.goesOn = false) : scan cs mode position =
      .ok ((s.token, s.span) :: if s.token = .endOfText then [] else [(.endOfText, ⟨byteSize cs, byteSize cs⟩)]) := by
  rw [scan]
  split
  · simp_all
  · rename_i s' hs
    obtain rfl : s = s' := Except.ok.inj (h.symm.trans hs)
    rw [dif_neg (by simp [hgo])]
    split <;> rfl

private theorem scan_pass {mode : Mode} {position next : Nat} (h : tokenAt cs mode position = tokenAt cs mode next) :
    scan cs mode position = scan cs mode next := by
  rw [scan, scan, h]

theorem goesOn_of_step {mode next : Mode} {position : Nat} {cs source rest : List Char} {token : Token}
    (h : step mode position cs = .emit source token next rest) : token.goesOn = true := by
  rcases emit_cases h with hspells | ⟨-, -, ⟨core, rfl | rfl⟩, -⟩
  · cases hspells <;> rfl
  · rfl
  · rfl

/-- From a position on, after a gap, the bytes give the tokens that the characters give. -/
theorem scan_lexemesFrom {mode : Mode} {gap : List Char} {start : Nat} (h : cs = before ++ rest)
    (hgap : start + byteSize gap = byteSize before) :
    scan cs mode (byteSize before) = .ok (locate start (lexemesFrom mode (byteSize before) gap rest)) := by
  generalize hposition : byteSize before = position at *
  fun_induction lexemesFrom mode position gap rest generalizing before start with subst hposition
  | case1 mode _ gap rest hstep =>
    have htoken := tokenAt_step mode h
    have hrest := step_advances mode (byteSize before) rest
    rw [hstep] at htoken hrest
    have hcs : byteSize cs = byteSize before := by rw [h, show rest = [] from hrest, List.append_nil]
    rw [scan_stops htoken rfl]
    simp [locate, hgap, scannedEnd, hcs]
  | case2 mode _ gap rest skipped more hstep ih =>
    have htoken := tokenAt_step mode h
    have hrest := step_advances mode (byteSize before) rest
    rw [hstep] at htoken hrest
    rw [scan_pass htoken]
    exact ih (show cs = (before ++ skipped) ++ more by simp [h, ← hrest.2]) (by simp) (by simp; omega)
  | case3 mode _ gap rest source token next more hstep ih =>
    have htoken := tokenAt_step mode h
    have hrest := step_advances mode (byteSize before) rest
    rw [hstep] at htoken hrest
    have hscan := ih (show cs = (before ++ source) ++ more by simp [h, ← hrest.2]) (by simp) (Nat.add_zero _)
    rw [scan_goesOn htoken (goesOn_of_step hstep), hscan]
    simp [Except.map, locate, hgap]
  | case4 mode _ gap rest source fault more hstep =>
    have htoken := tokenAt_step mode h
    have hrest : source ++ more = rest := by
      have hrest := step_advances mode (byteSize before) rest
      rw [hstep] at hrest
      exact hrest
    rw [hstep] at htoken
    have hcs : byteSize cs = byteSize before + byteSize source + byteSize more := by simp [h, ← hrest, Nat.add_assoc]
    rw [scan_stops htoken rfl]
    simp [locate, hgap, hcs]

/-- The tokens of a document are found by its bytes, without a slice that fails. -/
theorem scan_tokens (document : String) : scan document.toList .content 0 = .ok (tokens document) :=
  scan_lexemesFrom (List.nil_append _).symm (Nat.add_zero 0)

/-! ### No quoted text between tags is left open -/

/-- A quote that the lookahead accepts is closed at the byte where the lookahead ended. -/
theorem quotedAt_of_quoteBeforeMarkup {start last : Nat} (hquote : byteAt? cs start = some '"')
    (h : quoteBeforeMarkup cs (start + 1) = .ok (some last)) : quotedAt cs start = some ⟨start, last + 1⟩ := by
  simp only [quotedAt, hquote, bind, Option.bind, closingQuote_of_quoteBeforeMarkup h]
  rfl

/-- The turn found a quoted text that does not end. -/
def Turn.Unclosed : Turn → Prop
  | found s => ∃ position, s.token = .fault (.unclosedQuote position)
  | pass _ => False

private theorem textAt_closed {start : Nat} : ∀ t, textAt cs start = .ok t → ¬t.Unclosed := by
  refine forall_ok_bind fun stop _ => forall_ok_bind fun s _ t h => ?_
  dsimp only at h
  split at h
  · cases h
    exact id
  · cases h
    rintro ⟨position, hfault⟩
    dsimp only at hfault
    split at hfault <;> cases hfault

private theorem commentAt_closed {start : Nat} : ∀ t, commentAt cs start = .ok t → ¬t.Unclosed := by
  refine forall_ok_bind fun s _ t h => ?_
  split at h
  · cases h
    exact id
  · cases h
    simp [Turn.Unclosed]

private theorem tagOrTextAt_closed {start : Nat} : ∀ t, tagOrTextAt cs start = .ok t → ¬t.Unclosed := by
  unfold tagOrTextAt
  split
  · refine forall_ok_map (forall_ok_bind fun name _ s h => ?_)
    dsimp only at h
    split at h
    · cases h
      simp [Turn.Unclosed]
    · split at h <;> cases h <;> simp [Turn.Unclosed]
  · split
    · refine forall_ok_map (forall_ok_bind fun name _ s h => ?_)
      cases h
      simp [Turn.Unclosed]
    · exact textAt_closed
  · exact textAt_closed

/-- Whatever the position, a turn does not come upon a quoted text that does not end. -/
theorem turn_closed {start : Nat} : ∀ t, turn cs start = .ok t → ¬t.Unclosed := by
  unfold turn
  split
  · intro t h
    cases h
    simp [Turn.Unclosed, scannedEnd]
  · refine forall_ok_bind fun rest _ => ?_
    split
    · exact commentAt_closed
    · exact tagOrTextAt_closed
  · rename_i hquote
    refine forall_ok_bind fun closing hclosing => ?_
    cases closing with
    | none => exact textAt_closed
    | some last =>
      show ∀ t, literalAt cs start = .ok t → ¬t.Unclosed
      rw [literalAt, quotedAt_of_quoteBeforeMarkup hquote hclosing]
      refine forall_ok_bind fun s _ t h => ?_
      cases h
      simp [Turn.Unclosed]
  · exact textAt_closed

theorem contentAt_closed {start position : Nat} {s : Scanned} (h : contentAt cs start = .ok s) :
    s.token ≠ .fault (.unclosedQuote position) := by
  fun_induction contentAt cs start with
  | case1 => cases h
  | case2 start s' hturn =>
    cases h
    exact fun hfault => turn_closed _ hturn ⟨position, hfault⟩
  | case3 start next hturn ih => exact ih h

end AccessPolicy.Markup
