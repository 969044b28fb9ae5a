import AccessPolicy.Proofs.Markup.Tiling
import AccessPolicy.Proofs.Policy.Recognition

/-!
# What is read follows the grammar

Lexemes that are read to the end of the root (`Reading.Completes`) can be grouped as the grammar asks for: there is a
close tag where a body, a section or the root needs one, and only attributes stand in an open tag.  With the equations
for lexemes that follow the grammar, this says which documents are policies, and which policies they are
(`parse_iff_documentReads`).
-/

namespace AccessPolicy

open Markup Text

namespace Reading

/-- The end of the text is not among the lexemes, and from this reading on they are read to the end of the root. -/
structure Completes (r : Reading) (ls : List Lexeme) : Prop where
  goes : ∀ l ∈ ls, l.token ≠ .endOfText
  run : ∃ r', ls.foldlM step r = .ok r' ∧ r'.place = .closed

theorem Completes.place_eq {r : Reading} (h : r.Completes []) : r.place = .closed := by
  obtain ⟨r', hrun, hclosed⟩ := h.run
  cases hrun
  exact hclosed

/-- The first lexeme is read, and then the others. -/
theorem Completes.cons {r : Reading} {l : Lexeme} {ls : List Lexeme} (h : r.Completes (l :: ls)) :
    ∃ r₁, r.step l = .ok r₁ ∧ r₁.Completes ls := by
  obtain ⟨r', hrun, hclosed⟩ := h.run
  rw [List.foldlM_cons] at hrun
  obtain ⟨r₁, hstep, hrun⟩ := bind_eq_ok.1 hrun
  exact ⟨r₁, hstep, fun l' hl' => h.goes l' (List.mem_cons_of_mem _ hl'), r', hrun, hclosed⟩

theorem Completes.append {r r₁ : Reading} {ls rest : List Lexeme} (h : r.Completes (ls ++ rest))
    (hls : ls.foldlM step r = .ok r₁) : r₁.Completes rest := by
  obtain ⟨r', hrun, hclosed⟩ := h.run
  rw [List.foldlM_append, hls] at hrun
  exact ⟨fun l hl => h.goes l (List.mem_append_right _ hl), r', hrun, hclosed⟩

/-- A lexeme that is read before the end of the root is no fault. -/
theorem Completes.goesOn {r : Reading} {l : Lexeme} {ls : List Lexeme} (h : r.Completes (l :: ls))
    (hr : r.place ≠ .closed) : l.token.goesOn = true := by
  obtain ⟨r₁, hstep, -⟩ := h.cons
  have hend := h.goes l List.mem_cons_self
  unfold step at hstep
  split at hstep <;> simp_all [Token.goesOn]

/-- Where only one token leads elsewhere, that token comes. -/
theorem exists_avoids (P : Reading → Prop) (token : Token) (hopen : ∀ r, P r → r.place ≠ .closed)
    (hstays : ∀ r l r', P r → l.token.goesOn = true → l.token ≠ token → r.step l = .ok r' → P r')
    {r : Reading} {ls : List Lexeme} (hr : P r) (h : r.Completes ls) :
    ∃ before l rest, ls = before ++ l :: rest ∧ Avoids token before ∧ l.token = token := by
  induction ls generalizing r with
  | nil => exact absurd h.place_eq (hopen r hr)
  | cons l ls ih =>
    by_cases hl : l.token = token
    · exact ⟨[], l, ls, rfl, by simp [Avoids], hl⟩
    · obtain ⟨r₁, hstep, hrest⟩ := h.cons
      have hgoes := h.goesOn (hopen r hr)
      obtain ⟨before, l', rest, rfl, havoids, hl'⟩ := ih (hstays r l r₁ hr hgoes hl hstep) hrest
      refine ⟨l :: before, l', rest, rfl, ?_, hl'⟩
      intro l'' hl''
      rcases List.mem_cons.1 hl'' with rfl | hmem
      · exact ⟨hgoes, hl⟩
      · exact havoids l'' hmem

theorem step_inTag {r r₁ : Reading} {l : Lexeme} (hr : r.place.inTag = true) (hend : l.token ≠ .endOfText)
    (h : r.step l = .ok r₁) :
    (∃ name value, l.token = .attr name value ∧ r₁.place.inTag = true) ∨ l.token = .tagEnd ∨ l.token = .selfClose := by
  unfold step at h
  split at h <;> simp_all [Place.inTag]
  all_goals
    rw [← h]
    simp [moveTo, *]

/-- An open tag comes to its end, with attributes only before that. -/
theorem exists_isTag {r : Reading} {tag : String} {first : Lexeme} {ls : List Lexeme}
    (hfirst : first.token = .openTag tag) (hr : r.place.inTag = true) (h : r.Completes ls) :
    ∃ middle last rest attributes, ls = middle ++ last :: rest ∧
      middle.map Lexeme.token = attributes.map (fun (a : String × String) => .attr a.1 a.2) ∧
      IsTag tag attributes last.token (first :: middle ++ [last]) ∧
      (last.token = .tagEnd ∨ last.token = .selfClose) := by
  induction ls generalizing r with
  | nil =>
    rw [h.place_eq] at hr
    cases hr
  | cons l ls ih =>
    obtain ⟨r₁, hstep, hrest⟩ := h.cons
    rcases step_inTag hr (h.goes l List.mem_cons_self) hstep with ⟨name, value, hl, hplace⟩ | hl
    · obtain ⟨middle, last, rest, attributes, rfl, hmiddle, htag, hlast⟩ := ih hplace hrest
      refine ⟨l :: middle, last, rest, (name, value) :: attributes, rfl, by simp [hl, hmiddle], ?_, hlast⟩
      simp [IsTag, hl, hmiddle, hfirst]
    · exact ⟨[], l, ls, [], rfl, rfl, by simp [IsTag, hfirst], hl⟩

/-- What an open tag begins comes to its end, if from the end of the tag on there is content and a close tag. -/
theorem exists_tagged {α : Type} {tag : String} (content : List Lexeme → List Char → α → Prop) (nothing : α)
    {r : Reading} {first : Lexeme} {ls : List Lexeme} (hfirst : first.token = .openTag tag)
    (hr : r.place.inTag = true) (h : r.Completes ls)
    (hcontent : ∀ (middle : List Lexeme) (last : Lexeme) (rest : List Lexeme) (attributes : List (String × String)),
      middle.map Lexeme.token = attributes.map (fun a => .attr a.1 a.2) → last.token = .tagEnd →
      r.Completes (middle ++ last :: rest) → ∃ between close more x, rest = between ++ close :: more ∧
        content between close.gap x ∧ close.token = .closeTag tag) :
    ∃ used rest attributes x, first :: ls = used ++ rest ∧ used ≠ [] ∧
      Tagged tag content nothing used attributes x := by
  obtain ⟨middle, last, rest, attributes, rfl, hmiddle, htag, hlast⟩ := exists_isTag hfirst hr h
  rcases hlast with hlast | hlast
  · obtain ⟨between, close, more, x, rfl, hx, hclose⟩ := hcontent middle last rest attributes hmiddle hlast h
    refine ⟨first :: middle ++ [last] ++ between ++ [close], more, attributes, x, by simp, by simp, ?_⟩
    exact .closed (hlast ▸ htag) hx hclose
  · exact ⟨first :: middle ++ [last], rest, attributes, nothing, by simp, by simp, .selfClose (hlast ▸ htag)⟩

/-! ### Elements, sections, the root -/

/-- A body goes up to the first close tag of its element. -/
theorem exists_body {e : Element} {opening : Opening} {body : Body} {r : Reading} {ls : List Lexeme}
    (hr : r.place = .body e opening body) (h : r.Completes ls) :
    ∃ between close rest, ls = between ++ close :: rest ∧ Avoids (.closeTag e.tag) between ∧
      close.token = .closeTag e.tag := by
  refine exists_avoids (fun r => ∃ body, r.place = .body e opening body) _ ?_ ?_ ⟨body, hr⟩ h
  · rintro r ⟨body, hr⟩ hclosed
    rw [hr] at hclosed
    cases hclosed
  · rintro r l r' ⟨body, hr⟩ hgoes hl hstep
    rw [step_push hr hgoes hl] at hstep
    cases hstep
    exact ⟨_, rfl⟩

theorem exists_item {s : Section} {tag : String} {r : Reading} {l : Lexeme} {ls : List Lexeme}
    (hr : r.place = .inside s) (hl : l.token = .openTag tag)
    (hknown : ∃ e : Element, e.parent = s ∧ e.tag = tag) (h : r.Completes (l :: ls)) :
    ∃ (x : Item) (used rest : List Lexeme), l :: ls = used ++ rest ∧ used ≠ [] ∧
      x.element.parent = s ∧ x.Reads used := by
  obtain ⟨e, rfl, rfl⟩ := hknown
  obtain ⟨r₁, hstep, hrest⟩ := h.cons
  have hopen : r.openElement e.parent e.tag = .ok r₁ := by
    rw [← hstep]
    simp [step, hr, hl]
  have hplace := place_openElement hopen
  obtain ⟨used, rest, attributes, body, hsplit, hne, htagged⟩ :=
    exists_tagged (BodyReads e) {} hl (by rw [hplace]; rfl) hrest
      fun middle last rest attributes hmiddle hlast hmore => by
        obtain ⟨r₂, hend, hbody⟩ := (hmore.append (foldlM_attributes hplace hmiddle)).cons
        obtain ⟨opening, hr₂⟩ : ∃ opening, r₂.place = .body e opening {} := by
          simp only [step, moveTo, hlast] at hend
          obtain ⟨opening, -, hend⟩ := bind_eq_ok.1 hend
          cases hend
          exact ⟨opening, rfl⟩
        obtain ⟨between, close, more, rfl, havoids, hclose⟩ := exists_body hr₂ hbody
        exact ⟨between, close, more, _, rfl, ⟨havoids, rfl⟩, hclose⟩
  exact ⟨⟨e, attributes, body⟩, used, rest, hsplit, hne, rfl, htagged⟩

/-- A level is read item by item, up to its close tag. -/
theorem Level.exists_sequence {α : Type} {place : Place} {closing : String} {known : String → Prop}
    {item : List Lexeme → α → Prop} {take : Reading → α → Except DocumentError Reading}
    (hlevel : Level place closing known item take) (hopen : place ≠ .closed)
    (hitem : ∀ {tag : String} {r : Reading} {l : Lexeme} {ls : List Lexeme}, r.place = place →
      l.token = .openTag tag → known tag → r.Completes (l :: ls) →
      ∃ (x : α) (used rest : List Lexeme), l :: ls = used ++ rest ∧ used ≠ [] ∧ item used x)
    {r : Reading} {ls : List Lexeme} (hr : r.place = place) (h : r.Completes ls) :
    ∃ between close rest xs, ls = between ++ close :: rest ∧ Sequence closing known item between xs ∧
      close.token = .closeTag closing := by
  -- on the number of lexemes, of which an item takes at least one
  induction hn : ls.length using Nat.strongRecOn generalizing r ls with
  | _ n ih =>
    cases ls with
    | nil => exact absurd (hr ▸ h.place_eq) hopen
    | cons l ls =>
      by_cases hclose : l.token = .closeTag closing
      · exact ⟨[], l, ls, [], rfl, .nil, hclose⟩
      by_cases hknown : ∃ tag, l.token = .openTag tag ∧ known tag
      · obtain ⟨tag, hl, hknown⟩ := hknown
        obtain ⟨x, used, rest, hsplit, hne, hx⟩ := hitem hr hl hknown h
        rw [hsplit] at h hn ⊢
        have hlt : rest.length < n := by
          have := List.length_pos_iff.2 hne
          rw [List.length_append] at hn
          omega
        -- the reading after the item is one that the fold passes through
        obtain ⟨r', hrun, -⟩ := h.run
        rw [List.foldlM_append] at hrun
        obtain ⟨r₁, hused, -⟩ := bind_eq_ok.1 hrun
        have hr₁ : r₁.place = place := hlevel.stays hr hx (hlevel.whole hr hx ▸ hused)
        obtain ⟨between, close, rest, xs, rfl, hseq, hclose⟩ := ih _ hlt hr₁ (h.append hused) rfl
        exact ⟨used ++ between, close, rest, x :: xs, by simp, .item hx hseq, hclose⟩
      · have hunknown : ∀ tag, l.token = .openTag tag → ¬known tag := fun tag hl hk => hknown ⟨tag, hl, hk⟩
        have hgoes : l.token.goesOn = true := h.goesOn (hr ▸ hopen)
        obtain ⟨r₁, hstep, hrest⟩ := h.cons
        rw [hlevel.skip hr hgoes hclose hunknown] at hstep
        cases hstep
        obtain ⟨between, close, rest, xs, rfl, hseq, hclose'⟩ := ih _ (by simp at hn; omega) hr hrest rfl
        exact ⟨l :: between, close, rest, xs, rfl, .skip hgoes hclose hunknown hseq, hclose'⟩

theorem exists_section {tag : String} {r : Reading} {l : Lexeme} {ls : List Lexeme} (hr : r.place = .root)
    (hl : l.token = .openTag tag) (hknown : ∃ s : Section, s.tag = tag) (h : r.Completes (l :: ls)) :
    ∃ (x : Section × List Item) (used rest : List Lexeme), l :: ls = used ++ rest ∧ used ≠ [] ∧
      SectionReads used x.1 x.2 := by
  obtain ⟨s, rfl⟩ := hknown
  obtain ⟨r₁, hstep, hrest⟩ := h.cons
  have hopen : r.openSection s.tag = .ok r₁ := by
    rw [← hstep]
    simp [step, hr, hl]
  have hplace := place_openSection hopen
  obtain ⟨used, rest, attributes, items, hsplit, hne, htagged⟩ :=
    exists_tagged (ItemsRead s) [] hl (by rw [hplace]; rfl) hrest
      fun middle last rest attributes hmiddle hlast hmore => by
        obtain ⟨r₂, hend, hinside⟩ := (hmore.append (foldlM_ignored (.inr ⟨s, hplace⟩) hmiddle)).cons
        have hr₂ : r₂.place = .inside s := by
          simp only [step, hplace, hlast] at hend
          cases hend
          rfl
        exact (level_section s).exists_sequence (by simp) exists_item hr₂ hinside
  exact ⟨(s, items), used, rest, hsplit, hne, attributes, htagged⟩

theorem exists_document {r : Reading} {ls : List Lexeme} (hr : r.place = .prolog) (h : r.Completes ls) :
    ∃ sections, DocumentReads ls sections := by
  obtain ⟨prolog, first, rest, rfl, hprolog, hfirst⟩ :=
    exists_avoids (fun r => r.place = .prolog) (.openTag "policy") (fun r hr => by simp [hr])
      (fun r l r' hr hgoes hl hstep => by
        rw [step_outside_root hr hgoes hl] at hstep
        cases hstep
        exact hr)
      hr h
  obtain ⟨r₁, hstep, hrest⟩ := (h.append (foldlM_prolog hr hprolog)).cons
  have hplace : r₁.place = .rootTag := by
    simp only [step, hr, hfirst] at hstep
    cases hstep
    rfl
  obtain ⟨root, after, attributes, sections, hsplit, -, htagged⟩ :=
    exists_tagged SectionsRead [] hfirst (by rw [hplace]; rfl) hrest
      fun middle last rest attributes hmiddle hlast hmore => by
        obtain ⟨r₂, hend, hroot⟩ := (hmore.append (foldlM_ignored (.inl hplace) hmiddle)).cons
        have hr₂ : r₂.place = .root := by
          simp only [step, hplace, hlast] at hend
          cases hend
          rfl
        exact level_root.exists_sequence (by simp) exists_section hr₂ hroot
  exact ⟨sections, prolog, root, after, by rw [hsplit, List.append_assoc], hprolog, attributes, htagged⟩

end Reading

/-! ### Whole documents -/

theorem Sequence.exists_item {α : Type} {closing : String} {known : String → Prop} {item : List Lexeme → α → Prop}
    {ls : List Lexeme} {xs : List α} (h : Sequence closing known item ls xs) : ∀ x ∈ xs, ∃ ls, item ls x := by
  induction h with
  | nil => simp
  | skip _ _ _ _ ih => exact ih
  | item hitem _ ih => simpa using ⟨⟨_, hitem⟩, ih⟩

theorem SectionReads.parent {ls : List Lexeme} {s : Section} {items : List Item} (h : SectionReads ls s items) :
    ∀ x ∈ items, x.element.parent = s := by
  obtain ⟨attributes, h⟩ := h
  cases h with
  | selfClose _ => simp
  | closed _ hseq _ =>
    intro x hx
    obtain ⟨_, hparent, -⟩ := hseq.exists_item x hx
    exact hparent

theorem DocumentReads.parent {ls : List Lexeme} {sections : List (Section × List Item)}
    (h : DocumentReads ls sections) : ∀ s ∈ sections, ∀ x ∈ s.2, x.element.parent = s.1 := by
  obtain ⟨_, _, _, -, -, attributes, h⟩ := h
  cases h with
  | selfClose _ => simp
  | closed _ hseq _ =>
    intro s hs
    obtain ⟨_, hsection⟩ := hseq.exists_item s hs
    exact hsection.parent

/-- Anything may follow a document. -/
theorem DocumentReads.append {ls : List Lexeme} {sections : List (Section × List Item)} (h : DocumentReads ls sections)
    (more : List Lexeme) : DocumentReads (ls ++ more) sections := by
  obtain ⟨prolog, root, rest, rfl, hprolog, hroot⟩ := h
  exact ⟨prolog, root, rest ++ more, by simp, hprolog, hroot⟩

/-- What is read to the end of the root follows the grammar. -/
theorem exists_documentReads {document : String} {r : Reading} (hclosed : r.place = .closed)
    (h : (lexemes document).foldlM Reading.step {} = .ok r) :
    ∃ sections, DocumentReads (lexemes document) sections := by
  -- the end of the text leads nowhere, so the lexemes before it are read to the end of the root as well
  obtain ⟨ls, last, hls, hgoes, -, hlast, -⟩ := exists_lexemes .content 0 [] document.toList
  rw [← lexemes] at hls
  rw [hls, List.foldlM_append] at h
  obtain ⟨r₁, hrun, hend⟩ := bind_eq_ok.1 h
  obtain ⟨gap, source, token⟩ := last
  obtain rfl : token = .endOfText := hlast
  have hr₁ : r₁ = r := by
    rw [List.foldlM_cons, Reading.step_endOfText] at hend
    exact Except.ok.inj hend
  subst hr₁
  obtain ⟨sections, hdocument⟩ := Reading.exists_document rfl ⟨hgoes, r₁, hrun, hclosed⟩
  exact ⟨sections, hls ▸ hdocument.append [⟨gap, source, .endOfText⟩]⟩

/-- What a document comes to that follows the grammar. -/
theorem DocumentReads.parse_eq_ok {document : String} {sections : List (Section × List Item)}
    (h : DocumentReads (lexemes document) sections) {p : Policy} :
    Policy.parse document = .ok p ↔
      (sections.map Prod.fst).Nodup ∧ Valid (itemsIn sections) ∧ p = Policy.ofItems (itemsIn sections) := by
  have hsections : ∀ {r : Reading}, sections.foldlM Reading.takeSection (.after .root [] []) = .ok r ↔
      (sections.map Prod.fst).Nodup ∧ Valid (itemsIn sections) ∧
        .after .root (sections.map Prod.fst) (itemsIn sections) = r :=
    Reading.foldlM_takeSection_eq_ok h.parent valid_nil List.nodup_nil
  rw [Policy.parse, Reading.foldlM_document h]
  constructor
  · intro hparse
    obtain ⟨r, hrun, hfinish⟩ := bind_eq_ok.1 hparse
    obtain ⟨r₁, hfold, hr⟩ := bind_eq_ok.1 hrun
    obtain ⟨hnodup, hvalid, rfl⟩ := hsections.1 hfold
    cases hr
    exact ⟨hnodup, hvalid, (Except.ok.inj hfinish).symm⟩
  · rintro ⟨hnodup, hvalid, rfl⟩
    have hfold := hsections.2 ⟨hnodup, hvalid, rfl⟩
    rw [hfold]
    rfl

/-- A document is a policy if it follows the grammar, no section comes twice and its elements are valid, and only then;
and it is the policy that its elements give. -/
theorem parse_iff_documentReads (document : String) (p : Policy) :
    Policy.parse document = .ok p ↔
      ∃ sections, DocumentReads (lexemes document) sections ∧ (sections.map Prod.fst).Nodup ∧
        Valid (itemsIn sections) ∧ p = Policy.ofItems (itemsIn sections) := by
  constructor
  · intro h
    obtain ⟨r, hrun, hfinish⟩ := bind_eq_ok.1 h
    have hclosed : r.place = .closed := by
      unfold Reading.finish at hfinish
      split at hfinish <;> simp_all
    obtain ⟨sections, hdocument⟩ := exists_documentReads hclosed hrun
    exact ⟨sections, hdocument, hdocument.parse_eq_ok.1 h⟩
  · rintro ⟨sections, hdocument, h⟩
    exact hdocument.parse_eq_ok.2 h

end AccessPolicy
