import AccessPolicy.Proofs.Markup.Discipline
import AccessPolicy.Proofs.Policy.Recognition

/-!
# Documents that break off

A reading is in an open tag only while the scanner is (`inTag_of_step`), so where it looks for the end of a tag it finds
an attribute, that end, a fault or the end of the text (`Reaches.head_inTag`), and a step of it fails only at a fault or
over what the document says (`Reaches.eq_error`).  That an element is not closed, or that there is no root, is therefore
reported at the end of the text only and of documents without a fault, and a fault is reported as the one fault of its
document (`honestEndings`).
-/

namespace AccessPolicy

open Markup Text

/-- The error is in what the document says, and not that it breaks off. -/
def DocumentError.isContent : DocumentError → Bool
  | markup _ | missingRoot | unclosed _ => false
  | repeatedSection _ | repeatedCondition | conditionType _ | invalidInteger _ _ => true

theorem isContent_of_opening {e : Element} {attributes : List (String × String)} {err : DocumentError}
    (h : e.opening attributes = .error err) : err.isContent = true := by
  unfold Element.opening at h
  repeat' split at h
  all_goals cases h
  all_goals rfl

theorem isContent_of_close {e : Element} {opening : Opening} {body : Body} {p : Policy} {err : DocumentError}
    (h : e.close opening body p = .error err) : err.isContent = true := by
  unfold Element.close at h
  dsimp only at h
  repeat' split at h
  all_goals cases h
  all_goals rfl

namespace Reading

variable {r r' : Reading} {l : Lexeme} {ls : List Lexeme} {e : DocumentError}

theorem isContent_of_openSection {tag : String} (h : r.openSection tag = .error e) : e.isContent = true := by
  unfold openSection at h
  repeat' split at h
  all_goals cases h
  all_goals rfl

theorem isContent_of_openElement {s : Section} {tag : String} (h : r.openElement s tag = .error e) :
    e.isContent = true := by
  unfold openElement at h
  repeat' split at h
  all_goals cases h
  all_goals rfl

theorem isContent_of_closeElement {el : Element} {opening : Opening} {body : Body}
    (h : r.closeElement el opening body = .error e) : e.isContent = true := by
  rcases bind_eq_error.1 h with h | ⟨p, -, h⟩
  · exact isContent_of_close h
  · cases h

private theorem stray {t : Token} (hend : t ≠ .endOfText) (hfault : ∀ f, t ≠ .fault f)
    (hattr : ∀ name value, t ≠ .attr name value) (htagEnd : t ≠ .tagEnd) (hselfClose : t ≠ .selfClose) :
    t.goesOn = true ∧ t.standsInTag = false := by
  cases t <;> simp_all [Token.goesOn, Token.standsInTag]

/-- A step fails over what the document says, at a fault, or in a tag at what does not belong there. -/
theorem step_eq_error (h : r.step l = .error e) : e.isContent = true ∨
    (∃ f, l.token = .fault f ∧ r.place ≠ .closed ∧ e = .markup f) ∨
    r.place.inTag = true ∧ l.token.goesOn = true ∧ l.token.standsInTag = false := by
  unfold step at h
  split at h
  all_goals try cases h
  · rename_i f hl hr
    exact .inr (.inl ⟨f, hl, hr, rfl⟩)
  · rename_i hr hend hfault hattr htagEnd hselfClose
    exact .inr (.inr ⟨by rw [hr]; rfl, stray hend hfault hattr htagEnd hselfClose⟩)
  · exact .inl (isContent_of_openSection h)
  · rename_i hr hend hfault hattr htagEnd hselfClose
    exact .inr (.inr ⟨by rw [hr]; rfl, stray hend hfault hattr htagEnd hselfClose⟩)
  · exact .inl (isContent_of_openElement h)
  · rcases bind_eq_error.1 h with h | ⟨opening, -, h⟩
    · exact .inl (isContent_of_opening h)
    · cases h
  · rcases bind_eq_error.1 h with h | ⟨opening, -, h⟩
    · exact .inl (isContent_of_opening h)
    · exact .inl (isContent_of_closeElement h)
  · rename_i hr hend hfault hattr htagEnd hselfClose
    exact .inr (.inr ⟨by rw [hr]; rfl, stray hend hfault hattr htagEnd hselfClose⟩)
  · split at h
    · exact .inl (isContent_of_closeElement h)
    · cases h

private theorem not_inTag_of_closeElement {el : Element} {opening : Opening} {body : Body}
    (h : r.closeElement el opening body = .ok r') : ¬r'.place.inTag = true := by
  obtain ⟨p, -, h⟩ := bind_eq_ok.1 h
  cases h
  nofun

/-- The reading is in an open tag only after the start of a tag or an attribute. -/
theorem inTag_of_step (h : r.step l = .ok r') (hgoes : l.token.goesOn = true) (hin : r'.place.inTag = true) :
    l.token.modeAfter = .tag := by
  obtain ⟨place, policy, opened, met⟩ := r
  obtain ⟨gap, source, token⟩ := l
  cases token with
  | openTag name => rfl
  | attr name value => rfl
  | fault f => cases hgoes
  | endOfText => cases hgoes
  | tagEnd =>
    exfalso
    cases place with
    | elementTag e attributes =>
      obtain ⟨opening, -, h⟩ := bind_eq_ok.1 h
      cases h
      cases hin
    | _ =>
      cases h
      cases hin
  | selfClose =>
    exfalso
    cases place with
    | elementTag e attributes =>
      obtain ⟨opening, -, h⟩ := bind_eq_ok.1 h
      exact not_inTag_of_closeElement h hin
    | _ =>
      cases h
      cases hin
  | closeTag name =>
    exfalso
    cases place with
    | root =>
      rw [step_root_closeTag rfl] at h
      split at h <;> cases h <;> cases hin
    | inside s =>
      obtain rfl := Except.ok.inj h
      split at hin <;> cases hin
    | body e opening body =>
      dsimp only [step] at h
      split at h
      · exact not_inTag_of_closeElement h hin
      · cases h
        cases hin
    | _ => cases h <;> cases hin
  | _ =>
    -- a text leaves the reading where it is
    exfalso
    cases place with
    | _ => cases h <;> cases hin

/-- The end of the text leads nowhere. -/
theorem foldlM_end (h : l.token = .endOfText) : (ls ++ [l]).foldlM step r = ls.foldlM step r := by
  obtain ⟨gap, source, token⟩ := l
  obtain rfl := h
  have hend : ∀ r : Reading, [Lexeme.mk gap source .endOfText].foldlM step r = .ok r := by
    intro r
    rw [List.foldlM_cons, step_endOfText]
    rfl
  rw [List.foldlM_append]
  simp only [hend]
  exact bind_pure _

/-- Up to a place before the end of the root, no lexeme is a fault. -/
theorem isFault_of_foldlM (h : ls.foldlM step r = .ok r') (hopen : r'.place ≠ .closed) :
    ∀ l ∈ ls, l.token.isFault = false := by
  induction ls generalizing r with
  | nil => simp
  | cons l ls ih =>
    rw [List.foldlM_cons] at h
    obtain ⟨r₁, hstep, hls⟩ := bind_eq_ok.1 h
    refine List.forall_mem_cons.2 ⟨?_, ih hls⟩
    by_cases hr : r.place = .closed
    · -- a root that has ended stays so
      rw [step_closed hr] at hstep
      cases hstep
      rw [foldlM_closed hr] at hls
      cases hls
      exact absurd hr hopen
    · cases hl : l.token with
      | fault f =>
        rw [step_fault hr hl] at hstep
        cases hstep
      | _ => rfl

/-- The reading is in a tag only if the scanner is, at any place in the document. -/
theorem exists_mode {mode : Mode} {rest : List Lexeme} (hmode : r.place.inTag = true → mode = .tag)
    (h : Disciplined mode ((ls ++ l :: rest).map Lexeme.token)) (hrun : ls.foldlM step r = .ok r') :
    ∃ mode', Disciplined mode' ((l :: rest).map Lexeme.token) ∧ (r'.place.inTag = true → mode' = .tag) := by
  induction ls generalizing r mode with
  | nil =>
    cases hrun
    exact ⟨mode, h, hmode⟩
  | cons l₀ ls ih =>
    have hrun' := hrun
    rw [List.foldlM_cons] at hrun'
    obtain ⟨r₁, hstep, hls⟩ := bind_eq_ok.1 hrun'
    rcases Disciplined.cons_cases h (by simp) with ⟨hfault, -⟩ | ⟨hgoes, -, htail⟩
    · -- a fault can be passed over only where nothing counts any more
      have hclosed : r'.place = .closed := by
        by_contra hopen
        have hnone := isFault_of_foldlM hrun hopen l₀ List.mem_cons_self
        rw [hfault] at hnone
        cases hnone
      rw [List.map_append, List.map_cons] at h
      obtain ⟨mode', hrest⟩ := h.drop
      refine ⟨mode', hrest, ?_⟩
      intro hin
      rw [hclosed] at hin
      cases hin
    · exact ih (inTag_of_step hstep hgoes) htail hls

end Reading

/-! ### Places in a document -/

/-- The lexemes of the document before these lead to the reading. -/
def Reaches (document : String) (r : Reading) (rest : List Lexeme) : Prop :=
  ∃ ls, lexemes document = ls ++ rest ∧ ls.foldlM Reading.step {} = .ok r

/-- Only the end of the text is left to be read. -/
def ReachesEnd (document : String) (r : Reading) : Prop := ∃ last, last.token = .endOfText ∧ Reaches document r [last]

/-- No token of the document is a fault. -/
def Faultless (document : String) : Prop := ∀ t ∈ tokens document, t.1.isFault = false

variable {document : String} {r : Reading} {l : Lexeme} {rest : List Lexeme} {e : DocumentError}

theorem map_token_lexemes (document : String) :
    (lexemes document).map Lexeme.token = (tokens document).map Prod.fst := by
  rw [tokens, map_fst_locate]

theorem faultless_iff : Faultless document ↔ ∀ l ∈ lexemes document, l.token.isFault = false := by
  have h : (∀ t ∈ (tokens document).map Prod.fst, t.isFault = false) ↔ Faultless document := by
    rw [List.forall_mem_map]
    rfl
  rw [← h, ← map_token_lexemes, List.forall_mem_map]

theorem disciplined_lexemes (document : String) : Disciplined .content ((lexemes document).map Lexeme.token) :=
  disciplined_lexemesFrom .content 0 [] document.toList

theorem Reaches.head_inTag (h : Reaches document r (l :: rest)) (hr : r.place.inTag = true) :
    l.token.standsInTag = true ∨ l.token.isFault = true ∨ l.token = .endOfText ∧ rest = [] := by
  obtain ⟨ls, hls, hrun⟩ := h
  have hstream := disciplined_lexemes document
  rw [hls] at hstream
  obtain ⟨mode, hmode, htag⟩ := Reading.exists_mode (by nofun) hstream hrun
  obtain rfl := htag hr
  simpa using hmode.head_tag

/-- Over anything but what the document says, a step fails only at a fault. -/
theorem Reaches.eq_error (h : Reaches document r (l :: rest)) (he : r.step l = .error e) :
    e.isContent = true ∨ ∃ f, l.token = .fault f ∧ r.place ≠ .closed ∧ e = .markup f := by
  rcases Reading.step_eq_error he with he | he | ⟨htag, hgoes, hout⟩
  · exact .inl he
  · exact .inr he
  · -- what does not belong in a tag does not come there
    exfalso
    rcases h.head_inTag htag with hin | hfault | ⟨hend, -⟩
    · rw [hin] at hout
      cases hout
    · rw [Token.isFault_of_goesOn hgoes] at hfault
      cases hfault
    · rw [hend] at hgoes
      cases hgoes

theorem ReachesEnd.faultless (h : ReachesEnd document r) (hopen : r.place ≠ .closed) : Faultless document := by
  obtain ⟨last, hlast, ls, hls, hrun⟩ := h
  rw [faultless_iff, hls, List.forall_mem_append]
  refine ⟨Reading.isFault_of_foldlM hrun hopen, ?_⟩
  simp [hlast, Token.isFault]

theorem Reaches.fault_unique {f : Fault} (h : Reaches document r (l :: rest)) (hl : l.token = .fault f) :
    ((tokens document).map Prod.fst).filter Token.isFault = [.fault f] := by
  obtain ⟨ls, hls, -⟩ := h
  have hstream := disciplined_lexemes document
  rw [hls, List.map_append, List.map_cons, hl] at hstream
  obtain ⟨hafter, hbefore⟩ := hstream.of_fault
  have hnone : (ls.map Lexeme.token).filter Token.isFault = [] := by simpa using hbefore
  rw [← map_token_lexemes, hls, List.map_append, List.map_cons, hl, hafter, List.filter_append, hnone]
  rfl

theorem reachesEnd_iff : ReachesEnd document r ↔ (lexemes document).foldlM Reading.step {} = .ok r := by
  constructor
  · rintro ⟨last, hlast, ls, hls, hrun⟩
    rw [hls, Reading.foldlM_end hlast, hrun]
  · intro h
    obtain ⟨ls, last, hls, -, -, hlast, -⟩ := exists_lexemes .content 0 [] document.toList
    rw [← lexemes] at hls
    rw [hls, Reading.foldlM_end hlast] at h
    exact ⟨last, hlast, ls, hls, h⟩

/-- A document is refused at the lexeme where a step fails, or at its end. -/
theorem parse_eq_error : Policy.parse document = .error e ↔
    (∃ r l rest, Reaches document r (l :: rest) ∧ r.step l = .error e) ∨
      ∃ r, ReachesEnd document r ∧ r.finish = .error e := by
  rw [Policy.parse, bind_eq_error, foldlM_eq_error]
  simp only [reachesEnd_iff]
  refine or_congr_left ⟨?_, ?_⟩
  · rintro ⟨ls, l, rest, r, hls, hrun, he⟩
    exact ⟨r, l, rest, ⟨ls, hls, hrun⟩, he⟩
  · rintro ⟨r, l, rest, ⟨ls, hls, hrun⟩, he⟩
    exact ⟨ls, l, rest, r, hls, hrun, he⟩

/-- An error that a step cannot have is that of a document without faults, read to its end. -/
theorem parse_eq_error_of_end (hcontent : e.isContent = false) (hfault : ∀ f, e ≠ .markup f) :
    Policy.parse document = .error e ↔
      Faultless document ∧ ∃ r, ReachesEnd document r ∧ r.finish = .error e := by
  rw [parse_eq_error]
  constructor
  · rintro (⟨r, l, rest, hreaches, he⟩ | ⟨r, hend, he⟩)
    · exfalso
      rcases hreaches.eq_error he with he | ⟨f, -, -, rfl⟩
      · rw [he] at hcontent
        cases hcontent
      · exact hfault f rfl
    · refine ⟨hend.faultless ?_, r, hend, he⟩
      intro hclosed
      simp [Reading.finish, hclosed] at he
  · rintro ⟨-, hend⟩
    exact .inr hend

theorem Reading.finish_eq_unclosed {tag : String} : r.finish = .error (.unclosed tag) ↔ r.place.tag? = some tag := by
  obtain ⟨place, policy, opened, met⟩ := r
  cases place <;> simp [finish, Place.tag?]

theorem Reading.finish_eq_missingRoot : r.finish = .error .missingRoot ↔ r.place = .prolog := by
  obtain ⟨place, policy, opened, met⟩ := r
  cases place <;> simp [finish, Place.tag?]

theorem parse_eq_markup {f : Fault} : Policy.parse document = .error (.markup f) ↔
    ((tokens document).map Prod.fst).filter Token.isFault = [.fault f] ∧
      ∃ r l rest, Reaches document r (l :: rest) ∧ l.token = .fault f ∧ r.place ≠ .closed := by
  rw [parse_eq_error]
  constructor
  · rintro (⟨r, l, rest, hreaches, he⟩ | ⟨r, -, he⟩)
    · rcases hreaches.eq_error he with he | ⟨f', hl, hopen, heq⟩
      · cases he
      · cases heq
        exact ⟨hreaches.fault_unique hl, r, l, rest, hreaches, hl, hopen⟩
    · -- the end of the text is never a fault
      obtain ⟨place, policy, opened, met⟩ := r
      cases place <;> cases he
  · rintro ⟨-, r, l, rest, hreaches, hl, hopen⟩
    exact .inl ⟨r, l, rest, hreaches, Reading.step_fault hopen hl⟩

/-- How a document keeps to tags, and what its errors tell of where it ends. -/
structure HonestEndings (document : String) : Prop where
  tags : TagDiscipline ((tokens document).map Prod.fst)
  /-- In an open tag comes an attribute or the end of the tag, or else a fault or the end of the text. -/
  inTag : ∀ r l rest, Reaches document r (l :: rest) → r.place.inTag = true →
    l.token.standsInTag = true ∨ l.token.isFault = true ∨ l.token = .endOfText ∧ rest = []
  /-- An element is said to be open at the end of a document without faults, and only there. -/
  unclosed : ∀ tag, Policy.parse document = .error (.unclosed tag) ↔
    Faultless document ∧ ∃ r, ReachesEnd document r ∧ r.place.tag? = some tag
  missingRoot : Policy.parse document = .error .missingRoot ↔
    Faultless document ∧ ∃ r, ReachesEnd document r ∧ r.place = .prolog
  /-- A fault that is reported is the only one of the document, and reading came to it before the root had ended. -/
  markup : ∀ f, Policy.parse document = .error (.markup f) ↔
    ((tokens document).map Prod.fst).filter Token.isFault = [.fault f] ∧
      ∃ r l rest, Reaches document r (l :: rest) ∧ l.token = .fault f ∧ r.place ≠ .closed

theorem honestEndings (document : String) : HonestEndings document where
  tags := tagDiscipline document
  inTag _ _ _ := Reaches.head_inTag
  unclosed tag := by
    rw [parse_eq_error_of_end rfl (by simp)]
    simp only [Reading.finish_eq_unclosed]
  missingRoot := by
    rw [parse_eq_error_of_end rfl (by simp)]
    simp only [Reading.finish_eq_missingRoot]
  markup _ := parse_eq_markup

-- a fault behind the root is not reported
example : Policy.parse "<policy><log/></policy></" = .ok {} ∧ Policy.parse "<policy><log" = .error (.unclosed "log") := by
  cbv

end AccessPolicy
