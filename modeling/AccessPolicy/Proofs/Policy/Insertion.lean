import AccessPolicy.Proofs.Markup.Locality
import AccessPolicy.Proofs.Policy.Recognition

/-!
# Comments and unknown elements between elements

Between the elements of a document, of a policy or of a section, a comment or an element that is not known there can be
put in, and the document is read as the same policy (`parse_insert`).  What is put in leaves a reading where it is
(`Reading.outcome_ignored`).  It begins with markup, so that no quote before it is closed in it or behind it, and what
stands before it has the lexemes that it had.
-/

namespace AccessPolicy

open Markup Text

/-! ### Places between elements -/

/-- The place is not in an element of a section, nor in an open tag that is read. -/
def Place.isBetween : Place → Bool
  | .prolog | .root | .inside _ | .closed => true
  | _ => false

/-- Tags that are not passed over at a place: that of the element around it, and those of the elements that may stand in
it. -/
def Place.Knows : Place → String → Prop
  | .prolog, tag => tag = "policy"
  | .root, tag => tag = "policy" ∨ ∃ s : Section, s.tag = tag
  | .inside s, tag => tag = s.tag ∨ ∃ e : Element, e.parent = s ∧ e.tag = tag
  | _, _ => False

/-- With the token that ends at this position, which ends a tag, the document is read as far as this place. -/
def StandsAt (document : String) (position : Nat) (place : Place) : Prop :=
  ∃ k token span r, (tokens document)[k]? = some (token, span) ∧ token.endsTag = true ∧ span.stop = position ∧
    ((lexemes document).take (k + 1)).foldlM Reading.step {} = .ok r ∧ r.place = place

/-- A comment, or an element with a name that is not known at the place and without markup or quotes in it. -/
inductive Ignored (place : Place) : String → Prop
  | comment {text : String} : ¬['-', '-', '>'] <:+: text.toList → Ignored place ("<!--" ++ text ++ "-->")
  | empty {name : String} : IsName name.toList → ¬place.Knows name → Ignored place ("<" ++ name ++ "/>")
  | element {name text : String} : IsName name.toList → ¬place.Knows name → (∀ c ∈ text.toList, c ≠ '<' ∧ c ≠ '"') →
    Ignored place ("<" ++ name ++ ">" ++ text ++ "</" ++ name ++ ">")

theorem Place.isBody_of_isBetween {place : Place} (h : place.isBetween = true) : place.isBody = false := by
  cases place <;> first | rfl | cases h

theorem Place.inTag_of_isBetween {place : Place} (h : place.isBetween = true) : place.inTag = false := by
  cases place <;> first | rfl | cases h

/-- What is put in begins with markup, so a quote before it is not closed. -/
theorem Ignored.quiet {place : Place} {inserted : String} (h : Ignored place inserted) (rest : List Char) :
    closesBeforeMarkup (inserted.toList ++ rest) = false := by
  cases h with
  | comment _ => simp [closesBeforeMarkup, opensMarkup]
  | empty hname _ =>
    obtain ⟨c, cs, hcons, hc⟩ := hname.eq_cons
    simp [closesBeforeMarkup, hcons, opensMarkup_iff.2 (.tag hc)]
  | element hname _ _ =>
    obtain ⟨c, cs, hcons, hc⟩ := hname.eq_cons
    simp [closesBeforeMarkup, hcons, opensMarkup_iff.2 (.tag hc)]

namespace Reading

variable {r : Reading} {rest : List Char}

/-- Between elements, a token is passed over that is neither an open tag nor a close tag that is known. -/
theorem step_unknown (hr : r.place.isBetween = true) {l : Lexeme} (hgoes : l.token.goesOn = true)
    (hopen : ∀ tag, l.token = .openTag tag → ¬r.place.Knows tag)
    (hclose : ∀ tag, l.token = .closeTag tag → ¬r.place.Knows tag) : r.step l = .ok r := by
  cases hplace : r.place with
  | prolog =>
    rw [hplace] at hopen
    exact step_outside_root hplace hgoes fun h => hopen _ h rfl
  | root =>
    rw [hplace] at hopen hclose
    exact level_root.skip hplace hgoes (fun h => hclose _ h (.inl rfl)) fun tag h hknown => hopen tag h (.inr hknown)
  | inside s =>
    rw [hplace] at hopen hclose
    exact (level_section s).skip hplace hgoes (fun h => hclose _ h (.inl rfl))
      fun tag h hknown => hopen tag h (.inr hknown)
  | closed => exact step_closed hplace l
  | _ =>
    rw [hplace] at hr
    cases hr

/-- The characters of such a token can be left out. -/
theorem outcome_unknown (hr : r.place.isBetween = true) {mode next : Mode} {source : List Char} {token : Token}
    (h : Spells mode source token next rest) (hopen : ∀ tag, token = .openTag tag → ¬r.place.Knows tag)
    (hclose : ∀ tag, token = .closeTag tag → ¬r.place.Knows tag) :
    r.outcome mode (source ++ rest) = r.outcome next rest := by
  have hgoes : token.goesOn = true := by cases h <;> rfl
  rw [outcome_token h, step_unknown hr hgoes hopen hclose]
  rfl

/-- Characters that are passed over can be left out. -/
theorem outcome_skipped (hr : r.place.isBetween = true) {mode : Mode} {s : List Char} (h : Passed mode s rest) :
    r.outcome mode (s ++ rest) = r.outcome mode rest := by
  have hcontent : r.place.inTag = true → mode = .tag := by
    rw [Place.inTag_of_isBetween hr]
    exact fun h => absurd h Bool.false_ne_true
  rw [outcome_passed h hcontent, past_of_not_isBody (Place.isBody_of_isBetween hr)]

/-- So can text without markup or quotes. -/
theorem outcome_plain (hr : r.place.isBetween = true) {text : List Char} (h : ∀ c ∈ text, c ≠ '<' ∧ c ≠ '"') :
    r.outcome .content (text ++ rest) = r.outcome .content rest := by
  induction text with
  | nil => rfl
  | cons c text ih =>
    obtain ⟨hmarkup, hquote⟩ := h c List.mem_cons_self
    have hc : Passed .content [c] (text ++ rest) := .text ⟨fun h => absurd h hquote, fun h => absurd h hmarkup⟩
    exact (outcome_skipped hr hc).trans (ih fun d hd => h d (List.mem_cons_of_mem _ hd))

/-- What is put in leaves the reading as it is. -/
theorem outcome_ignored (hr : r.place.isBetween = true) {inserted : String} (h : Ignored r.place inserted) :
    r.outcome .content (inserted.toList ++ rest) = r.outcome .content rest := by
  cases h with
  | @comment text htext =>
    have hpassed : Passed .content ('<' :: '!' :: '-' :: '-' :: (text.toList ++ ['-', '-', '>'])) rest := .comment htext
    simpa using outcome_skipped hr hpassed
  | @empty name hname hunknown =>
    have hopen : Spells .content ('<' :: name.toList) (.openTag (String.ofList name.toList)) .tag
        (['/', '>'] ++ rest) := .openTag hname (by simp; decide)
    have hend : Spells .tag ['/', '>'] .selfClose .content rest := .selfClose
    rw [String.ofList_toList] at hopen
    calc r.outcome .content (("<" ++ name ++ "/>").toList ++ rest)
        = r.outcome .content ('<' :: name.toList ++ (['/', '>'] ++ rest)) := by simp
      _ = r.outcome .tag (['/', '>'] ++ rest) :=
          outcome_unknown hr hopen (fun tag h => Token.openTag.inj h ▸ hunknown) (by simp)
      _ = r.outcome .content rest := outcome_unknown hr hend (by simp) (by simp)
  | @element name text hname hunknown htext =>
    have hopen : Spells .content ('<' :: name.toList) (.openTag (String.ofList name.toList)) .tag
        (['>'] ++ (text.toList ++ ('<' :: '/' :: (name.toList ++ [] ++ ['>']) ++ rest))) :=
      .openTag hname (by simp; decide)
    have hne : name.toList ≠ [] := by
      obtain ⟨c, cs, hcons, -⟩ := hname.eq_cons
      simp [hcons]
    have hclose : Spells .content ('<' :: '/' :: (name.toList ++ [] ++ ['>'])) (.closeTag (String.ofList name.toList))
        .content rest := .closeTag hne hname.2 (by simp)
    rw [String.ofList_toList] at hopen hclose
    calc r.outcome .content (("<" ++ name ++ ">" ++ text ++ "</" ++ name ++ ">").toList ++ rest)
        = r.outcome .content ('<' :: name.toList ++
            (['>'] ++ (text.toList ++ ('<' :: '/' :: (name.toList ++ [] ++ ['>']) ++ rest)))) := by simp
      _ = r.outcome .tag (['>'] ++ (text.toList ++ ('<' :: '/' :: (name.toList ++ [] ++ ['>']) ++ rest))) :=
          outcome_unknown hr hopen (fun tag h => Token.openTag.inj h ▸ hunknown) (by simp)
      _ = r.outcome .content (text.toList ++ ('<' :: '/' :: (name.toList ++ [] ++ ['>']) ++ rest)) :=
          outcome_unknown hr .tagEnd (by simp) (by simp)
      _ = r.outcome .content ('<' :: '/' :: (name.toList ++ [] ++ ['>']) ++ rest) := outcome_plain hr htext
      _ = r.outcome .content rest :=
          outcome_unknown hr hclose (by simp) fun tag h => Token.closeTag.inj h ▸ hunknown

end Reading

/-! ### Whole documents -/

/-- A place in a document is between two characters, and what stands before it has its lexemes whatever comes after it
with no quote closed. -/
theorem StandsAt.exists_split {document : String} {position : Nat} {place : Place}
    (h : StandsAt document position place) :
    ∃ (before after : String) (r : Reading), document = before ++ after ∧ byteSize before.toList = position ∧
      r.place = place ∧ ∀ rest : List Char, rest = after.toList ∨ closesBeforeMarkup rest = false →
        Reading.outcome {} .content (before.toList ++ rest) = r.outcome .content rest := by
  obtain ⟨k, token, span, r, htoken, hends, rfl, hfold, hplace⟩ := h
  obtain ⟨ls, l, more, hlexemes, rfl, rfl, hstop⟩ := exists_of_getElem?_locate htoken
  have hread : (ls ++ [l]).foldlM Reading.step {} = .ok r := by
    rwa [hlexemes, List.append_cons, List.take_left' (by simp)] at hfold
  obtain ⟨q, left, rfl, hchars⟩ := exists_rest hlexemes hends
  rw [List.nil_append] at hchars
  refine ⟨String.ofList (characters (ls ++ [l])), String.ofList left, r, ?_, ?_, hplace, ?_⟩
  · rw [← String.ofList_append, ← hchars, String.ofList_toList]
  · simpa using hstop.symm
  intro rest hrest
  obtain ⟨q', hsame⟩ : ∃ q', lexemesFrom .content 0 [] (characters (ls ++ [l]) ++ rest) =
      (ls ++ [l]) ++ lexemesFrom .content q' [] rest := by
    rw [lexemes, hchars] at hlexemes
    simp only [List.append_assoc, List.singleton_append]
    rcases hrest with rfl | hquiet
    · rw [String.toList_ofList]
      exact ⟨q, hlexemes⟩
    · exact ⟨_, lexemesFrom_append_quiet hlexemes hends rfl hquiet 0⟩
  rw [String.toList_ofList, Reading.outcome, hsame, List.foldlM_append, hread,
    ← Reading.outcome_lexemesFrom r .content q' rest]
  rfl

/-- Between elements, comments and unknown elements can be put into a document, and the policy stays the same. -/
theorem parse_insert {document : String} {p : Policy} {position : Nat} {place : Place}
    (hp : Policy.parse document = .ok p) (hplace : StandsAt document position place)
    (hbetween : place.isBetween = true) :
    ∃ before after, document = before ++ after ∧ byteSize before.toList = position ∧
      ∀ inserted, Ignored place inserted → Policy.parse (before ++ inserted ++ after) = .ok p := by
  obtain ⟨before, after, r, rfl, hposition, rfl, houtcome⟩ := hplace.exists_split
  refine ⟨before, after, rfl, hposition, fun inserted hinserted => ?_⟩
  rw [Policy.parse_eq_ok, String.toList_append] at hp ⊢
  have hbefore := houtcome after.toList (.inl rfl)
  have hwith := houtcome (inserted.toList ++ after.toList) (.inr (hinserted.quiet _))
  rw [String.toList_append, List.append_assoc, hwith, Reading.outcome_ignored hbetween hinserted, ← hbefore, hp]

/-- The quote before the manifest is not closed, nor does the backslash after it hide what comes next; the root has no
meaning in a section. -/
theorem parse_insert_quoted :
    Policy.parse "<policy>\"\\<manifest><id>a</id></manifest></policy>" = .ok { manifest := { id := "a" } } ∧
      StandsAt "<policy>\"\\<manifest><id>a</id></manifest></policy>" 30 (.inside .manifest) ∧
      Ignored (.inside .manifest) "<policy>\\</policy>" ∧
      Policy.parse "<policy>\"\\<manifest><id>a</id><policy>\\</policy></manifest></policy>" =
        .ok { manifest := { id := "a" } } := by
  have hp : Policy.parse "<policy>\"\\<manifest><id>a</id></manifest></policy>" =
      .ok { manifest := { id := "a" } } := by cbv
  have hplace : StandsAt "<policy>\"\\<manifest><id>a</id></manifest></policy>" 30 (.inside .manifest) :=
    ⟨8, .closeTag "id", ⟨25, 30⟩,
      { place := .inside .manifest, policy := { manifest := { id := "a" } }, opened := [.manifest] },
      by cbv, rfl, rfl, by cbv, rfl⟩
  have hinserted : Ignored (.inside .manifest) ("<" ++ "policy" ++ ">" ++ "\\" ++ "</" ++ "policy" ++ ">") := by
    have hname : IsName "policy".toList := by decide
    have htext : ∀ c ∈ "\\".toList, c ≠ '<' ∧ c ≠ '"' := by simp
    refine .element hname ?_ htext
    rintro (h | ⟨e, he, h⟩)
    · exact absurd h (by decide)
    · revert h
      cases e <;> decide
  obtain ⟨before, after, hsplit, hposition, hparse⟩ := parse_insert hp hplace rfl
  have hlists : before.toList ++ after.toList =
      "<policy>\"\\<manifest><id>a</id>".toList ++ "</manifest></policy>".toList := by
    rw [← String.toList_append, ← hsplit]
    rfl
  have hbefore : before = "<policy>\"\\<manifest><id>a</id>" :=
    String.toList_injective (eq_of_byteSize_eq hlists (hposition.trans (by decide)))
  subst hbefore
  have hafter : after = "</manifest></policy>" := String.toList_injective (List.append_cancel_left hlists)
  subst hafter
  have hwhole := hparse _ hinserted
  simp only [String.reduceAppend] at hinserted hwhole
  exact ⟨hp, hplace, hinserted, hwhole⟩

end AccessPolicy
