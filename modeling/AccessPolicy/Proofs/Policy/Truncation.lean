import AccessPolicy.Proofs.Markup.Locality
import AccessPolicy.Proofs.Policy.Recognition

/-!
# Truncated documents

A document that is cut off before the end of its root is no policy (`parse_cut`).  If the shorter text were read to the
end of a root, the lexemes up to there would be those of the whole document as well, since no backslash hides the
markup before that end, and so the root of the whole document would end before the document does.
-/

namespace AccessPolicy

open Markup Text

/-! ### The end of the root -/

/-- The root ends with this lexeme, and not before. -/
def Closes (ls : List Lexeme) (l : Lexeme) : Prop :=
  ∃ r r', ls.foldlM Reading.step {} = .ok r ∧ r.place ≠ .closed ∧ r.step l = .ok r' ∧ r'.place = .closed

/-- The root of the document ends where the document does. -/
def RootEnds (document : String) : Prop :=
  ∃ ls l, lexemes document = ls ++ [l, ⟨[], [], .endOfText⟩] ∧ Closes ls l

namespace Reading

/-- Only the end of a tag ends the root. -/
theorem endsTag_of_step {r r' : Reading} {l : Lexeme} (h : r.step l = .ok r') (hr : r.place ≠ .closed)
    (hclosed : r'.place = .closed) : l.token.endsTag = true := by
  obtain ⟨place, policy, opened, met⟩ := r
  obtain ⟨gap, source, token⟩ := l
  cases token with
  | tagEnd => rfl
  | selfClose => rfl
  | closeTag name => rfl
  | openTag name =>
    exfalso
    cases place with
    | closed => exact hr rfl
    | prolog =>
      rw [step_prolog rfl] at h
      split at h <;> cases h <;> cases hclosed
    | root => rcases openSection_cases h with rfl | ⟨s, -, -, rfl⟩ <;> cases hclosed
    | inside s => rcases openElement_cases h with rfl | ⟨e, -, -, rfl⟩ <;> cases hclosed
    | body e opening body =>
      cases h
      cases hclosed
    | _ => cases h
  | _ =>
    exfalso
    cases place with
    | closed => exact hr rfl
    | _ => cases h <;> cases hclosed

theorem exists_closes {ls : List Lexeme} {r : Reading} (h : ls.foldlM step {} = .ok r) (hclosed : r.place = .closed) :
    ∃ before l after, ls = before ++ l :: after ∧ Closes before l := by
  induction ls using List.reverseRecOn generalizing r with
  | nil =>
    cases h
    cases hclosed
  | append_singleton ls l ih =>
    rw [List.foldlM_append] at h
    obtain ⟨r₁, hls, hl⟩ := bind_eq_ok.1 h
    by_cases hr₁ : r₁.place = .closed
    · obtain ⟨before, l', after, rfl, hcloses⟩ := ih hls hr₁
      exact ⟨before, l', after ++ [l], by simp, hcloses⟩
    · refine ⟨ls, l, [], rfl, r₁, r, hls, hr₁, ?_, hclosed⟩
      simpa using hl

end Reading

/-- The root does not end twice. -/
theorem Closes.not_append {ls ms : List Lexeme} {l m : Lexeme} (h : Closes ls l) (h' : Closes (ls ++ l :: ms) m) :
    False := by
  obtain ⟨r, r', hls, -, hl, hclosed⟩ := h
  obtain ⟨r₁, -, hms, hopen, -⟩ := h'
  rw [List.foldlM_append, hls] at hms
  replace hms : (l :: ms).foldlM Reading.step r = .ok r₁ := hms
  rw [List.foldlM_cons, hl] at hms
  replace hms : ms.foldlM Reading.step r' = .ok r₁ := hms
  rw [Reading.foldlM_closed hclosed, Except.ok.injEq] at hms
  exact hopen (hms ▸ hclosed)

theorem Closes.unique {ls ls' more more' : List Lexeme} {l l' : Lexeme} (h : Closes ls l) (h' : Closes ls' l')
    (heq : ls ++ l :: more = ls' ++ l' :: more') : ls = ls' ∧ l = l' ∧ more = more' := by
  rcases List.append_eq_append_iff.1 heq with ⟨ms, rfl, hms⟩ | ⟨ms, rfl, hms⟩
  · cases ms with
    | nil => simpa using hms
    | cons m ms =>
      obtain ⟨rfl, -⟩ := List.cons.inj hms
      exact (h.not_append h').elim
  · cases ms with
    | nil => simpa [eq_comm] using hms
    | cons m ms =>
      obtain ⟨rfl, -⟩ := List.cons.inj hms
      exact (h'.not_append h).elim

/-- No strict beginning of a document is a policy, if the document ends with its root and has no backslash before a
`<`. -/
theorem parse_cut {cut rest : String} (hrest : rest ≠ "") (hfree : ¬['\\', '<'] <:+: (cut ++ rest).toList)
    (hends : RootEnds (cut ++ rest)) : ∃ e, Policy.parse cut = .error e := by
  rw [exists_eq_error_iff]
  rintro ⟨p, hp⟩
  obtain ⟨ls, l, hlexemes, hcloses⟩ := hends
  -- the shorter text is read to the end of a root
  obtain ⟨r, hrun, hfinish⟩ := bind_eq_ok.1 hp
  have hclosed : r.place = .closed := by
    unfold Reading.finish at hfinish
    split at hfinish <;> simp_all
  obtain ⟨before, last, after, hcut, hcloses'⟩ := Reading.exists_closes hrun hclosed
  have hlast : last.token.endsTag = true := by
    obtain ⟨r₁, r₂, -, hopen, hstep, hend⟩ := hcloses'
    exact Reading.endsTag_of_step hstep hopen hend
  -- so the whole document has the same lexemes up to there
  have hsplit : cut.toList = characters (before ++ [last]) ++ characters after := by
    rw [← flatMap_lexemes cut, hcut]
    simp [characters]
  have hdecides : ∀ y, y <:+ characters (before ++ [last]) → HasMarkup y →
      Decides y (characters after ++ rest.toList) := by
    intro y hy hmarkup
    refine decides_of_unescaped hmarkup (fun h => hfree ?_) _
    rw [String.toList_append, hsplit, List.append_assoc]
    exact (h.trans hy.isInfix).trans (List.prefix_append _ _).isInfix
  have hwhole : lexemes (cut ++ rest) = before ++ last ::
      lexemesFrom .content (0 + byteSize (characters (before ++ [last]))) [] (characters after ++ rest.toList) := by
    have hshort : lexemesFrom .content 0 [] (characters (before ++ [last]) ++ characters after) =
        before ++ last :: after := by
      rw [← hsplit]
      exact hcut
    rw [lexemes, String.toList_append, hsplit, List.append_assoc]
    exact lexemesFrom_append hshort hlast rfl hdecides 0
  -- where its root ends, and nothing is left for the rest
  obtain ⟨rfl, rfl, hmore⟩ := hcloses'.unique hcloses (hwhole.symm.trans hlexemes)
  have hnothing := characters_lexemesFrom .content (0 + byteSize (characters (before ++ [last]))) []
    (characters after ++ rest.toList)
  rw [hmore] at hnothing
  have hempty : characters after = [] ∧ rest = "" := by simpa using hnothing.symm
  exact hrest hempty.2

/-- Without its second half a quoted text is read as plain text, and the tags after it are missing. -/
theorem parse_cut_quoted :
    (¬['\\', '<'] <:+: "<policy><log>\"a\"</log></policy>".toList ∧ RootEnds "<policy><log>\"a\"</log></policy>") ∧
      ∃ e, Policy.parse "<policy><log>\"a" = .error e := by
  have hfree : ¬['\\', '<'] <:+: ("<policy><log>\"a" ++ "\"</log></policy>").toList := by decide
  have hlexemes : lexemes ("<policy><log>\"a" ++ "\"</log></policy>") =
      [⟨[], "<policy".toList, .openTag "policy"⟩, ⟨[], ['>'], .tagEnd⟩, ⟨[], "<log".toList, .openTag "log"⟩,
        ⟨[], ['>'], .tagEnd⟩, ⟨[], "\"a\"".toList, .literal "\"a\""⟩, ⟨[], "</log>".toList, .closeTag "log"⟩] ++
      [⟨[], "</policy>".toList, .closeTag "policy"⟩, ⟨[], [], .endOfText⟩] := by cbv
  have hends : RootEnds ("<policy><log>\"a" ++ "\"</log></policy>") :=
    ⟨_, _, hlexemes, _, _, rfl, by decide, rfl, rfl⟩
  exact ⟨⟨hfree, hends⟩, parse_cut (by decide) hfree hends⟩

end AccessPolicy
