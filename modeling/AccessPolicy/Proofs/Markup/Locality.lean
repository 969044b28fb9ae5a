import AccessPolicy.Proofs.Markup.Literal

/-!
# What follows a tag does not change what stands before it

The scanner looks ahead in one place only: it asks whether a quote is closed before markup.  So the lexemes up to the
end of a tag stay the same when the text after that tag is replaced by another one, if no quote before it is now closed
(`lexemesFrom_append`).  For this it is enough that in the new text no quote is closed before markup
(`decides_of_quiet`), or that no backslash hides markup from the search (`decides_of_unescaped`).
-/

namespace AccessPolicy.Markup

open Text

/-! ### Markup in sight -/

theorem opensMarkup_mono {s : List Char} (h : opensMarkup s = true) (t : List Char) : opensMarkup (s ++ t) = true := by
  rw [opensMarkup_iff] at h ⊢
  cases h with
  | tag hc => exact .tag hc
  | closeTag cs => exact .closeTag _
  | comment cs => exact .comment _

/-- There is markup in the text. -/
def HasMarkup (cs : List Char) : Prop := ∃ before after, cs = before ++ '<' :: after ∧ opensMarkup after = true

/-- A quote before the text is closed in it, if it is closed before markup in what the text is the beginning of. -/
def Decides (cs rest : List Char) : Prop := closesBeforeMarkup (cs ++ rest) = true → closesBeforeMarkup cs = true

/-- Nothing is closed behind a text that ends a tag, if nothing is closed in what follows. -/
theorem decides_of_quiet {rest : List Char} (hrest : closesBeforeMarkup rest = false) (cs : List Char) :
    Decides (cs ++ ['>']) rest := by
  induction cs using closesBeforeMarkup.induct with
  | case1 =>
    intro h
    rw [List.nil_append, List.singleton_append, closesBeforeMarkup_char (by decide) (by decide), hrest] at h
    simp at h
  | case2 c cs ih => simpa [Decides, closesBeforeMarkup] using ih
  | case3 cs => exact fun _ => rfl
  | case4 cs ih =>
    intro h
    simp only [List.cons_append, List.append_assoc, closesBeforeMarkup, Bool.and_eq_true] at h ⊢
    rw [List.nil_append, opensMarkup_append_cons (by decide) (by decide)] at h
    rw [opensMarkup_append_cons (by decide) (by decide)]
    exact ⟨h.1, ih (by simpa using h.2)⟩
  | case5 c cs escape quote markup ih =>
    intro h
    by_cases hc : c = '\\'
    · cases cs with
      | nil =>
        subst hc
        simp [closesBeforeMarkup, hrest] at h
      | cons d cs => exact absurd rfl (escape d cs hc)
    · have hm : (c != '<') = true := by simpa using markup
      rw [List.cons_append, List.cons_append, closesBeforeMarkup_char hc quote, hm, Bool.true_or, Bool.true_and] at h
      rw [List.cons_append, closesBeforeMarkup_char hc quote, hm, Bool.true_or, Bool.true_and]
      exact ih h

theorem HasMarkup.tail {c : Char} {cs : List Char} (h : HasMarkup (c :: cs)) (hc : c = '<' → opensMarkup cs = false) :
    HasMarkup cs := by
  obtain ⟨before, after, hcs, hafter⟩ := h
  cases before with
  | nil =>
    cases hcs
    simp [hc rfl] at hafter
  | cons b before =>
    cases hcs
    exact ⟨before, after, rfl, hafter⟩

theorem not_hasMarkup_nil : ¬HasMarkup [] := by
  rintro ⟨before, after, h, -⟩
  simp at h

/-- Markup that no backslash hides ends the search for a quote. -/
theorem decides_of_unescaped {cs : List Char} (hmarkup : HasMarkup cs) (hfree : ¬['\\', '<'] <:+: cs)
    (rest : List Char) : Decides cs rest := by
  induction cs using closesBeforeMarkup.induct with
  | case1 => exact absurd hmarkup not_hasMarkup_nil
  | case2 c cs ih =>
    have hmarkup' : HasMarkup cs :=
      (hmarkup.tail (by simp)).tail fun hc => absurd ⟨[], cs, by rw [hc]; rfl⟩ hfree
    have hfree' : ¬['\\', '<'] <:+: cs := fun h => hfree (h.trans ⟨['\\', c], [], by simp⟩)
    simpa [Decides, closesBeforeMarkup] using ih hmarkup' hfree'
  | case3 cs => exact fun _ => rfl
  | case4 cs ih =>
    intro h
    simp only [List.cons_append, closesBeforeMarkup, Bool.and_eq_true, Bool.not_eq_true'] at h ⊢
    have hopen : opensMarkup cs = false := by
      cases hopen : opensMarkup cs with
      | false => rfl
      | true =>
        rw [opensMarkup_mono hopen] at h
        exact absurd h.1 (by simp)
    have hfree' : ¬['\\', '<'] <:+: cs := fun h => hfree (h.trans ⟨['<'], [], by simp⟩)
    exact ⟨hopen, ih (hmarkup.tail fun _ => hopen) hfree' h.2⟩
  | case5 c cs escape quote markup ih =>
    have hmarkup' : HasMarkup cs := hmarkup.tail fun hc => absurd hc markup
    have hc : c ≠ '\\' := by
      rintro rfl
      cases cs with
      | nil => exact not_hasMarkup_nil hmarkup'
      | cons d cs => exact escape d cs rfl rfl
    have hfree' : ¬['\\', '<'] <:+: cs := fun h => hfree (h.trans ⟨[c], [], by simp⟩)
    have hm : (c != '<') = true := by simpa using markup
    intro h
    rw [List.cons_append, closesBeforeMarkup_char hc quote, hm, Bool.true_or, Bool.true_and] at h
    rw [closesBeforeMarkup_char hc quote, hm, Bool.true_or, Bool.true_and]
    exact ih hmarkup' hfree' h

/-! ### One step -/

/-- Tokens that end a tag. -/
def Token.endsTag : Token → Bool
  | tagEnd | selfClose | closeTag _ => true
  | _ => false

/-- A run of text goes as far as before. -/
private theorem splitRun_append_tag {s z rest : List Char}
    (h : splitRun (s ++ (z ++ '>' :: rest)) = (s, z ++ '>' :: rest)) (rest' : List Char) :
    splitRun (s ++ (z ++ '>' :: rest')) = (s, z ++ '>' :: rest') := by
  have hopens : ∀ cs : List Char, opensMarkup (cs ++ '>' :: rest') = opensMarkup (cs ++ '>' :: rest) := fun cs => by
    rw [opensMarkup_append_cons (by decide) (by decide), opensMarkup_append_cons (by decide) (by decide)]
  induction s with
  | nil =>
    -- what follows the run begins with a quote or with markup
    cases z with
    | nil =>
      rw [List.nil_append, List.nil_append, splitRun, if_neg (by simp)] at h
      simp at h
    | cons c z =>
      simp only [List.nil_append, List.cons_append, splitRun, hopens] at h ⊢
      split at h
      · rw [if_pos ‹_›]
      · simp at h
  | cons c s ih =>
    simp only [List.cons_append, splitRun] at h ⊢
    have hafter : opensMarkup (s ++ (z ++ '>' :: rest')) = opensMarkup (s ++ (z ++ '>' :: rest)) := by
      simpa using hopens (s ++ z)
    rw [hafter]
    split at h
    · simp at h
    · rename_i hplain
      simp only [Prod.mk.injEq, List.cons.injEq, true_and] at h
      rw [if_neg hplain, ih (Prod.ext h.1 h.2)]

private theorem IsText.replace {c : Char} {z rest rest' : List Char} (h : IsText c (z ++ '>' :: rest))
    (hclosed : c = '"' → Decides (z ++ ['>']) rest') : IsText c (z ++ '>' :: rest') := by
  refine ⟨fun hc => ?_, fun hc => ?_⟩
  · cases hclose : closesBeforeMarkup (z ++ '>' :: rest') with
    | false => rfl
    | true =>
      have hin := closesBeforeMarkup_append (hclosed hc (by simpa using hclose)) rest
      rw [List.append_assoc, List.singleton_append, h.1 hc] at hin
      cases hin
  · have hmarkup := h.2 hc
    rwa [opensMarkup_append_cons (by decide) (by decide)] at hmarkup ⊢

private theorem textStep_congr {c : Char} {cs cs' run r r' s : List Char} {k : List Char → Step}
    (hk : k = .pass s ∨ ∃ token next, k = .emit s token next) (hcs : splitRun cs = (run, r))
    (hcs' : splitRun cs' = (run, r')) (h : textStep c cs = k r) : textStep c cs' = k r' := by
  simp only [textStep, hcs] at h
  simp only [textStep, hcs']
  by_cases hcore : (trim (c :: run)).isEmpty = true
  · rw [if_pos hcore] at h ⊢
    rcases hk with rfl | ⟨token, next, rfl⟩
    · cases h
      rfl
    · cases h
  · rw [if_neg hcore] at h ⊢
    rcases hk with rfl | ⟨token, next, rfl⟩
    · cases h
    · obtain ⟨rfl, rfl, rfl, -⟩ := Step.emit.inj h
      rfl

private theorem step_append_text {c : Char} {more s z rest : List Char} {k : List Char → Step}
    (hk : k = .pass s ∨ ∃ token next, k = .emit s token next) (hcs : s ++ (z ++ '>' :: rest) = c :: more)
    (htext : IsText c more) (h : textStep c more = k (z ++ '>' :: rest)) {rest' : List Char}
    (hclosed : ∀ y, s = '"' :: y → Decides (y ++ z ++ ['>']) rest') (q : Nat) :
    step .content q (s ++ (z ++ '>' :: rest')) = k (z ++ '>' :: rest') := by
  -- the run is a beginning of the text, and it ends where it did
  obtain ⟨hs, hrest⟩ : s = c :: (splitRun more).1 ∧ (splitRun more).2 = z ++ '>' :: rest := by
    rcases textStep_cases c more with hstep | ⟨core, hstep | hstep⟩ <;> rw [hstep] at h <;>
      rcases hk with rfl | ⟨token, next, rfl⟩ <;> simp at h <;> simp [h]
  have hsplit : splitRun more = ((splitRun more).1, z ++ '>' :: rest) := by rw [← hrest]
  generalize (splitRun more).1 = run at hs hsplit
  subst hs
  obtain rfl : more = run ++ (z ++ '>' :: rest) := (List.cons.inj hcs).2.symm
  have htext' : IsText c ((run ++ z) ++ '>' :: rest') :=
    IsText.replace (by simpa using htext) fun hc => hclosed run (by rw [hc])
  refine (contentStep_of_isText (by simpa using htext') q).trans ?_
  exact textStep_congr hk hsplit (splitRun_append_tag hsplit rest') h

/-- A step that leaves the end of a tag ahead is the same before another rest; `k` is what it makes of the rest. -/
theorem step_append_tag {mode : Mode} {p : Nat} {s z rest : List Char} {k : List Char → Step}
    (hk : k = .pass s ∨ ∃ token next, k = .emit s token next)
    (h : step mode p (s ++ (z ++ '>' :: rest)) = k (z ++ '>' :: rest)) {rest' : List Char}
    (hclosed : mode = .content → ∀ y, s = '"' :: y → Decides (y ++ z ++ ['>']) rest') (q : Nat) :
    step mode q (s ++ (z ++ '>' :: rest')) = k (z ++ '>' :: rest') := by
  have hhead : (z ++ '>' :: rest').head? = (z ++ '>' :: rest).head? := by cases z <;> rfl
  generalize hcs : s ++ (z ++ '>' :: rest) = cs at h
  cases head mode cs with
  | nil => simp at hcs
  | @passed t more hpassed =>
    cases hpassed with
    | @text c _ htext =>
      replace h : textStep c more = k (z ++ '>' :: rest) := (contentStep_of_isText htext p).symm.trans h
      exact step_append_text hk hcs htext h (hclosed rfl) q
    | @comment body _ hbody =>
      rw [step_comment hbody] at h
      rcases hk with rfl | ⟨token, next, rfl⟩ <;> cases h
      exact step_comment hbody q _
    | @blank c _ hc =>
      rw [List.singleton_append, step_blank hc] at h
      rcases hk with rfl | ⟨token, next, rfl⟩
      · obtain ⟨rfl, hrest⟩ := Step.pass.inj h
        have hblanks : ∀ d ∈ more.takeWhile isTagBlank, isTagBlank d = true := fun d hd => List.mem_takeWhile_imp hd
        have hstop : ∀ d ∈ (z ++ '>' :: rest').head?, isTagBlank d = false := by
          intro d hd
          have hfirst := List.head?_dropWhile_not isTagBlank more
          rw [hrest, ← hhead, hd] at hfirst
          exact hfirst
        obtain ⟨htake, hdrop⟩ := span_append (z ++ '>' :: rest') hblanks hstop
        rw [List.cons_append, step_blank hc, htake, hdrop]
      · cases h
  | @token next source more token hspells =>
    rw [step_of_spells hspells] at h
    rcases hk with rfl | ⟨token, next, rfl⟩ <;> cases h
    exact step_of_spells (hspells.of_head? hhead) q
  | stuck hstop =>
    have hstop := hstop p
    rw [h] at hstop
    rcases hk with rfl | ⟨token, next, rfl⟩ <;> cases hstop

/-- Between tags, a token is markup or leaves the scanner between tags. -/
theorem token_of_contentStep {p : Nat} {cs source rest : List Char} {token : Token} {next : Mode}
    (h : step .content p cs = .emit source token next rest) :
    (∃ more, source = '<' :: more ∧ opensMarkup more = true) ∨ next = .content ∧ token.endsTag = false := by
  rcases emit_cases h with hspells | ⟨-, hnext, ⟨core, rfl | rfl⟩, -⟩
  · cases hspells with
    | literal _ => exact .inr ⟨rfl, rfl⟩
    | closeTag _ _ _ => exact .inl ⟨_, rfl, rfl⟩
    | openTag hname _ =>
      obtain ⟨c, cs, rfl, hc⟩ := hname.eq_cons
      exact .inl ⟨_, rfl, opensMarkup_iff.2 (.tag hc)⟩
  · exact .inr ⟨hnext, rfl⟩
  · exact .inr ⟨hnext, rfl⟩

theorem spells_of_endsTag {mode next : Mode} {p : Nat} {cs source rest : List Char} {token : Token}
    (h : step mode p cs = .emit source token next rest) (htoken : token.endsTag = true) :
    (∃ z, source = z ++ ['>']) ∧ next = .content ∧ ∀ rest', Spells mode source token .content rest' := by
  rcases emit_cases h with hspells | ⟨-, -, ⟨core, rfl | rfl⟩, -⟩
  · cases hspells with
    | closeTag hne hname hgap => exact ⟨⟨'<' :: '/' :: _, rfl⟩, rfl, fun _ => .closeTag hne hname hgap⟩
    | tagEnd => exact ⟨⟨[], rfl⟩, rfl, fun _ => .tagEnd⟩
    | selfClose => exact ⟨⟨['/'], rfl⟩, rfl, fun _ => .selfClose⟩
    | _ => cases htoken
  · cases htoken
  · cases htoken

/-! ### All lexemes up to the end of a tag -/

section

variable {mode next : Mode} {p : Nat} {gap cs s rest : List Char} {ls more : List Lexeme} {l : Lexeme} {token : Token}

theorem lexemesFrom_of_pass (h : step mode p cs = .pass s rest) :
    lexemesFrom mode p gap cs = lexemesFrom mode (p + byteSize s) (gap ++ s) rest := by
  rw [lexemesFrom]
  split <;> rename_i h' <;> rw [h] at h' <;> cases h'
  rfl

theorem lexemesFrom_of_emit (h : step mode p cs = .emit s token next rest) :
    lexemesFrom mode p gap cs = ⟨gap, s, token⟩ :: lexemesFrom next (p + byteSize s) [] rest := by
  rw [lexemesFrom]
  split <;> rename_i h' <;> rw [h] at h' <;> cases h'
  rfl

/-- The characters of the first lexemes begin with the gap, and the last of them is not in it. -/
theorem characters_of_lexemesFrom_eq (h : lexemesFrom mode p gap cs = ls ++ l :: more) :
    ∃ between, characters (ls ++ [l]) = gap ++ between ++ l.source := by
  fun_induction lexemesFrom mode p gap cs generalizing ls with
  | case1 mode p gap cs hstep =>
    obtain ⟨rfl, hl⟩ := List.append_eq_singleton_iff.1 h.symm |>.resolve_right (by simp)
    cases hl
    exact ⟨[], by simp⟩
  | case2 mode p gap cs skipped rest hstep ih =>
    obtain ⟨between, hbetween⟩ := ih h
    exact ⟨skipped ++ between, by simpa using hbetween⟩
  | case3 mode p gap cs source token next rest hstep ih =>
    cases ls with
    | nil =>
      cases h
      exact ⟨[], by simp⟩
    | cons l' ls =>
      obtain ⟨rfl, htail⟩ := List.cons.inj h
      obtain ⟨between, hbetween⟩ := ih htail
      exact ⟨source ++ between, by simpa using hbetween⟩
  | case4 mode p gap cs source fault rest hstep =>
    rcases ls with - | ⟨l', - | ⟨l'', ls⟩⟩
    · cases h
      exact ⟨[], by simp⟩
    · cases h
      exact ⟨source ++ rest, by simp⟩
    · simp at h

/-- After the end of a tag come the lexemes of what is left of the text. -/
theorem exists_rest (h : lexemesFrom mode p gap cs = ls ++ l :: more) (hl : l.token.endsTag = true) :
    ∃ q rest, more = lexemesFrom .content q [] rest ∧ gap ++ cs = characters (ls ++ [l]) ++ rest := by
  have hmore : ∃ q rest, more = lexemesFrom .content q [] rest := by
    fun_induction lexemesFrom mode p gap cs generalizing ls with
    | case1 mode p gap cs hstep =>
      obtain ⟨rfl, hlast⟩ := List.append_eq_singleton_iff.1 h.symm |>.resolve_right (by simp)
      cases hlast
      cases hl
    | case2 mode p gap cs skipped rest hstep ih => exact ih h
    | case3 mode p gap cs source token next rest hstep ih =>
      cases ls with
      | nil =>
        obtain ⟨rfl, rfl⟩ := List.cons.inj h
        obtain ⟨-, rfl, -⟩ := spells_of_endsTag hstep hl
        exact ⟨_, _, rfl⟩
      | cons l' ls => exact ih (List.cons.inj h).2
    | case4 mode p gap cs source fault rest hstep =>
      have hmem : l ∈ ls ++ l :: more := by simp
      rw [← h] at hmem
      rcases List.mem_pair.1 hmem with rfl | rfl <;> cases hl
  obtain ⟨q, rest, rfl⟩ := hmore
  refine ⟨q, rest, rfl, ?_⟩
  rw [← characters_lexemesFrom mode p gap cs, h]
  simp [characters_lexemesFrom]

theorem HasMarkup.append_left (h : HasMarkup cs) (s : List Char) : HasMarkup (s ++ cs) := by
  obtain ⟨before, after, rfl, hafter⟩ := h
  exact ⟨s ++ before, after, by simp, hafter⟩

/-- Between tags, the end of a tag has markup before it. -/
theorem hasMarkup_of_lexemesFrom (h : lexemesFrom .content p gap cs = ls ++ l :: more) (hl : l.token.endsTag = true) :
    ∃ x, characters (ls ++ [l]) = gap ++ x ∧ HasMarkup x := by
  generalize hmode : Mode.content = mode at h
  fun_induction lexemesFrom mode p gap cs generalizing ls with
  | case1 mode p gap cs hstep =>
    obtain ⟨rfl, hlast⟩ := List.append_eq_singleton_iff.1 h.symm |>.resolve_right (by simp)
    cases hlast
    cases hl
  | case2 mode p gap cs skipped rest hstep ih =>
    obtain ⟨x, hx, hmarkup⟩ := ih hmode h
    exact ⟨skipped ++ x, by simpa using hx, hmarkup.append_left skipped⟩
  | case3 mode p gap cs source token next rest hstep ih =>
    subst hmode
    rcases token_of_contentStep hstep with ⟨name, rfl, hname⟩ | ⟨rfl, hplain⟩
    · have hfirst : ∃ t, characters (ls ++ [l]) = gap ++ ('<' :: name) ++ t := by
        cases ls with
        | nil =>
          cases h
          exact ⟨[], by simp⟩
        | cons l' ls =>
          obtain ⟨rfl, -⟩ := List.cons.inj h
          exact ⟨characters (ls ++ [l]), by simp⟩
      obtain ⟨t, ht⟩ := hfirst
      exact ⟨'<' :: (name ++ t), by simpa using ht, [], name ++ t, rfl, opensMarkup_mono hname t⟩
    · cases ls with
      | nil =>
        cases h
        rw [hl] at hplain
        cases hplain
      | cons l' ls =>
        obtain ⟨rfl, htail⟩ := List.cons.inj h
        obtain ⟨x, hx, hmarkup⟩ := ih rfl htail
        exact ⟨source ++ x, by simpa using hx, hmarkup.append_left source⟩
  | case4 mode p gap cs source fault rest hstep =>
    have hmem : l ∈ ls ++ l :: more := by simp
    rw [← h] at hmem
    rcases List.mem_pair.1 hmem with rfl | rfl <;> cases hl

theorem Token.Written.exists_concat (h : token.Written s) (htoken : token.endsTag = true) : ∃ z, s = z ++ ['>'] := by
  cases token with
  | tagEnd => exact ⟨[], h⟩
  | selfClose => exact ⟨['/'], h⟩
  | closeTag name =>
    obtain ⟨gap, -, -, -, rfl⟩ := h
    exact ⟨_, by rw [← List.cons_append, ← List.cons_append]⟩
  | _ => cases htoken

private theorem decides_behind_quote {y w : List Char} (h : lexemesFrom .content p gap cs = ls ++ l :: more)
    (hl : l.token.endsTag = true) (hy : characters (ls ++ [l]) = gap ++ '"' :: y)
    (hdecides : ∀ t, t <:+ '"' :: y → HasMarkup t → Decides t w) : Decides y w := by
  obtain ⟨x, hx, hmarkup⟩ := hasMarkup_of_lexemesFrom h hl
  obtain rfl : x = '"' :: y := List.append_cancel_left (hx.symm.trans hy)
  exact hdecides y (List.suffix_cons '"' y) (hmarkup.tail (by simp))

/-- What stands before the end of a tag, that end included, has the same lexemes before another rest, if the quotes in
it stay open there. -/
theorem lexemesFrom_append {x w w' : List Char} (h : lexemesFrom mode p gap (x ++ w) = ls ++ l :: more)
    (hl : l.token.endsTag = true) (hx : characters (ls ++ [l]) = gap ++ x)
    (hdecides : ∀ y, y <:+ x → HasMarkup y → Decides y w') (q : Nat) :
    lexemesFrom mode q gap (x ++ w') = ls ++ l :: lexemesFrom .content (q + byteSize x) [] w' := by
  have hsource : ∃ z, l.source = z ++ ['>'] := by
    have hmem : l ∈ lexemesFrom mode p gap (x ++ w) := by rw [h]; simp
    exact (written_of_mem_lexemesFrom hmem).exists_concat hl
  obtain ⟨z, hz⟩ := hsource
  generalize hcs : x ++ w = cs at h
  -- on the steps of the scanner; a step is inside the text, except for the last one
  fun_induction lexemesFrom mode p gap cs generalizing x ls q with
  | case1 mode p gap cs hstep =>
    obtain ⟨rfl, hlast⟩ := List.append_eq_singleton_iff.1 h.symm |>.resolve_right (by simp)
    cases hlast
    cases hl
  | case2 mode p gap cs skipped rest hstep ih =>
    obtain ⟨b, rfl⟩ : ∃ b, x = skipped ++ (b ++ ['>']) := by
      obtain ⟨between, hbetween⟩ := characters_of_lexemesFrom_eq h
      rw [hx, hz] at hbetween
      exact ⟨between ++ z, by simpa using hbetween⟩
    have adv := step_advances mode p cs
    rw [hstep, ← hcs] at adv
    obtain rfl : rest = b ++ '>' :: w := by simpa using adv.2
    have hclosed : mode = .content → ∀ y, skipped = '"' :: y → Decides (y ++ b ++ ['>']) w' := by
      rintro rfl y rfl
      refine decides_behind_quote ((lexemesFrom_of_pass hstep).trans h) hl (by simpa using hx) ?_
      simpa using hdecides
    rw [← hcs] at hstep
    have hstep' : step mode q (skipped ++ (b ++ '>' :: w')) = .pass skipped (b ++ '>' :: w') :=
      step_append_tag (.inl rfl) (by simpa using hstep) hclosed q
    have hrest := ih (by simpa using hx) (fun y hy => hdecides y (hy.trans (List.suffix_append _ _)))
      (q + byteSize skipped) (by simp) h
    have hcs' : skipped ++ (b ++ ['>']) ++ w' = skipped ++ (b ++ '>' :: w') := by simp
    rw [hcs', lexemesFrom_of_pass hstep', List.append_cons b, hrest]
    simp [Nat.add_assoc]
  | case3 mode p gap cs source token next rest hstep ih =>
    cases ls with
    | nil =>
      obtain ⟨rfl, -⟩ := List.cons.inj h
      obtain ⟨-, rfl, hspells⟩ := spells_of_endsTag hstep hl
      obtain rfl : source = x := by simpa using hx
      rw [lexemesFrom_of_emit (step_of_spells (hspells w') q)]
      rfl
    | cons l' ls =>
      obtain ⟨rfl, htail⟩ := List.cons.inj h
      obtain ⟨b, rfl⟩ : ∃ b, x = source ++ (b ++ ['>']) := by
        obtain ⟨between, hbetween⟩ := characters_of_lexemesFrom_eq htail
        rw [List.cons_append, characters_cons, hbetween, hz] at hx
        exact ⟨between ++ z, by simpa using hx.symm⟩
      have adv := step_advances mode p cs
      rw [hstep, ← hcs] at adv
      obtain rfl : rest = b ++ '>' :: w := by simpa using adv.2
      have hclosed : mode = .content → ∀ y, source = '"' :: y → Decides (y ++ b ++ ['>']) w' := by
        rintro rfl y rfl
        refine decides_behind_quote ((lexemesFrom_of_emit hstep).trans h) hl (by simpa using hx) ?_
        simpa using hdecides
      rw [← hcs] at hstep
      have hstep' : step mode q (source ++ (b ++ '>' :: w')) = .emit source token next (b ++ '>' :: w') :=
        step_append_tag (.inr ⟨token, next, rfl⟩) (by simpa using hstep) hclosed q
      have hrest := ih (by simpa using hx) (fun y hy => hdecides y (hy.trans (List.suffix_append _ _)))
        (q + byteSize source) (by simp) htail
      have hcs' : source ++ (b ++ ['>']) ++ w' = source ++ (b ++ '>' :: w') := by simp
      rw [hcs', lexemesFrom_of_emit hstep', List.append_cons b, hrest]
      simp [Nat.add_assoc]
  | case4 mode p gap cs source fault rest hstep =>
    have hmem : l ∈ ls ++ l :: more := by simp
    rw [← h] at hmem
    rcases List.mem_pair.1 hmem with rfl | rfl <;> cases hl

/-- The same before a rest in which no quote is closed. -/
theorem lexemesFrom_append_quiet {x w w' : List Char} (h : lexemesFrom mode p gap (x ++ w) = ls ++ l :: more)
    (hl : l.token.endsTag = true) (hx : characters (ls ++ [l]) = gap ++ x) (hquiet : closesBeforeMarkup w' = false)
    (q : Nat) : lexemesFrom mode q gap (x ++ w') = ls ++ l :: lexemesFrom .content (q + byteSize x) [] w' := by
  have hmem : l ∈ lexemesFrom mode p gap (x ++ w) := by rw [h]; simp
  obtain ⟨z, hz⟩ := (written_of_mem_lexemesFrom hmem).exists_concat hl
  refine lexemesFrom_append h hl hx (fun y hy hmarkup => ?_) q
  have hend : y <:+ characters ls ++ l.gap ++ z ++ ['>'] := by
    have hchars : characters ls ++ l.gap ++ z ++ ['>'] = gap ++ x := by simpa [hz] using hx
    exact hchars ▸ hy.trans (List.suffix_append _ _)
  rcases List.suffix_concat_iff.1 hend with rfl | ⟨y, rfl, -⟩
  · exact absurd hmarkup not_hasMarkup_nil
  · exact decides_of_quiet hquiet y

end

end AccessPolicy.Markup
