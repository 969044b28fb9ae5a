import AccessPolicy.Proofs.Policy.Items

/-!
# Reading along the grammar

Lexemes that follow the grammar are read as it groups them: an element as `Reading.take` (`foldlM_item`), the content
of a level item by item (`Level.foldlM`), a section as `Reading.takeSection` (`foldlM_section`), and a document section
by section (`foldlM_document`).  These are equations, so they hold of errors too.
-/

namespace AccessPolicy

open Markup Text

namespace Reading

/-! ### Along the grammar -/

theorem foldlM_attributes {e : Element} {attributes done : List (String × String)} {ls : List Lexeme} {r : Reading}
    (hr : r.place = .elementTag e done)
    (h : ls.map Lexeme.token = attributes.map fun (name, value) => .attr name value) :
    ls.foldlM step r = .ok (r.moveTo (.elementTag e (done ++ attributes))) := by
  induction ls generalizing r done attributes with
  | nil =>
    obtain rfl := List.map_eq_nil_iff.1 h.symm
    simp [moveTo, ← hr, pure, Except.pure]
  | cons l ls ih =>
    obtain ⟨⟨name, value⟩, attributes, rfl, hl, hls⟩ := List.map_eq_cons_iff.1 h.symm
    have hstep : r.step l = .ok (r.moveTo (.elementTag e (done ++ [(name, value)]))) := by
      simp [step, hr, ← hl]
    rw [List.foldlM_cons, hstep]
    refine (ih rfl hls.symm).trans ?_
    simp [moveTo]

/-- In the open tag of the root or of a section, attributes say nothing. -/
theorem foldlM_ignored {attributes : List (String × String)} {ls : List Lexeme} {r : Reading}
    (hr : r.place = .rootTag ∨ ∃ s, r.place = .sectionTag s)
    (h : ls.map Lexeme.token = attributes.map fun (name, value) => .attr name value) :
    ls.foldlM step r = .ok r := by
  induction ls generalizing attributes with
  | nil => rfl
  | cons l ls ih =>
    obtain ⟨⟨name, value⟩, attributes, rfl, hl, hls⟩ := List.map_eq_cons_iff.1 h.symm
    have hstep : r.step l = .ok r := by
      rcases hr with hr | ⟨s, hr⟩ <;> simp [step, hr, ← hl]
    rw [List.foldlM_cons, hstep]
    exact ih hls.symm

theorem step_push {e : Element} {opening : Opening} {body : Body} {l : Lexeme} {r : Reading}
    (hr : r.place = .body e opening body) (hgoes : l.token.goesOn = true) (hl : l.token ≠ .closeTag e.tag) :
    r.step l = .ok (r.moveTo (.body e opening (body.push l))) := by
  unfold step
  split <;> simp_all [Token.goesOn]

theorem foldlM_closed {r : Reading} (hr : r.place = .closed) (ls : List Lexeme) : ls.foldlM step r = .ok r := by
  induction ls with
  | nil => rfl
  | cons l ls ih =>
    rw [List.foldlM_cons, step_closed hr]
    exact ih

theorem foldlM_body {e : Element} {opening : Opening} {body : Body} {ls : List Lexeme} {r : Reading}
    (hr : r.place = .body e opening body) (h : Avoids (.closeTag e.tag) ls) :
    ls.foldlM step r = .ok (r.moveTo (.body e opening (ls.foldl Body.push body))) := by
  induction ls generalizing r body with
  | nil => simp [moveTo, ← hr, pure, Except.pure]
  | cons l ls ih =>
    have hl := h l List.mem_cons_self
    rw [List.foldlM_cons, step_push hr hl.1 hl.2]
    exact ih rfl fun l' hl' => h l' (List.mem_cons_of_mem _ hl')

private theorem foldl_push (ls : List Lexeme) (body : Body) :
    ls.foldl Body.push body =
      ⟨body.text ++ (Body.ofLexemes ls []).text, body.literals ++ (Body.ofLexemes ls []).literals⟩ := by
  induction ls generalizing body with
  | nil => simp [Body.ofLexemes]
  | cons l ls ih =>
    rw [List.foldl_cons, ih]
    cases htoken : l.token <;> simp [Body.push, Body.ofLexemes, htoken]

/-- A body that was gathered lexeme by lexeme. -/
theorem ofLexemes_eq (ls : List Lexeme) (gap : List Char) :
    Body.ofLexemes ls gap = { ls.foldl Body.push {} with text := (ls.foldl Body.push {}).text ++ gap } := by
  simp [foldl_push, Body.ofLexemes]

theorem exists_of_isTag {tag : String} {attributes : List (String × String)} {stop : Token} {ls : List Lexeme}
    (h : IsTag tag attributes stop ls) : ∃ first middle last, ls = first :: middle ++ [last] ∧
      first.token = .openTag tag ∧ middle.map Lexeme.token = attributes.map (fun (name, value) => .attr name value) ∧
      last.token = stop := by
  obtain ⟨first, rest, rfl, hfirst, hrest⟩ := List.map_eq_cons_iff.1 h
  obtain ⟨middle, last', rfl, hmiddle, hlast'⟩ := List.map_eq_append_iff.1 hrest
  obtain ⟨last, hlast, rfl⟩ := List.map_eq_singleton_iff.1 hlast'
  exact ⟨first, middle, last, by simp [hlast], hfirst, hmiddle, rfl⟩

theorem place_openElement {e : Element} {r r₁ : Reading} (h : r.openElement e.parent e.tag = .ok r₁) :
    r₁.place = .elementTag e [] := by
  rw [openElement, element?_tag] at h
  simp only at h
  split at h
  · cases h
  · rw [← Except.ok.inj h]

/-- The open tag of an element. -/
theorem foldlM_elementTag {e : Element} {attributes : List (String × String)} {stop : Token} {ls : List Lexeme}
    {r : Reading} (h : IsTag e.tag attributes stop ls) (hr : r.place = .inside e.parent) :
    ∃ last : Lexeme, last.token = stop ∧ ls.foldlM step r =
      r.openElement e.parent e.tag >>= fun r₁ => (r₁.moveTo (.elementTag e attributes)).step last := by
  obtain ⟨first, middle, last, rfl, hfirst, hmiddle, hlast⟩ := exists_of_isTag h
  have hstep : r.step first = r.openElement e.parent e.tag := by simp [step, hr, hfirst]
  refine ⟨last, hlast, ?_⟩
  rw [List.cons_append, List.foldlM_cons, hstep]
  refine bind_congr_of_ok fun r₁ hr₁ => ?_
  rw [List.foldlM_append, foldlM_attributes (place_openElement hr₁) hmiddle]
  show [last].foldlM step _ = _
  simp

theorem foldlM_item {x : Item} {ls : List Lexeme} {r : Reading} (h : x.Reads ls)
    (hr : r.place = .inside x.element.parent) : ls.foldlM step r = r.take x := by
  obtain ⟨e, attributes, body⟩ := x
  cases h with
  | selfClose hhead =>
    obtain ⟨last, hlast, hfold⟩ := foldlM_elementTag hhead hr
    rw [hfold, take]
    refine bind_congr_of_ok fun r₁ _ => ?_
    have hend : (r₁.moveTo (.elementTag e attributes)).step last =
        e.opening attributes >>= fun opening => (r₁.moveTo (.elementTag e attributes)).closeElement e opening {} := by
      simp [step, hlast, moveTo]
    exact hend
  | @closed _ between close _ _ hhead hbetween hclose =>
    obtain ⟨last, hlast, hfold⟩ := foldlM_elementTag hhead hr
    obtain ⟨havoids, rfl⟩ := hbetween
    rw [List.append_assoc, List.foldlM_append, hfold, take, bind_assoc]
    refine bind_congr_of_ok fun r₁ _ => ?_
    have hend : (r₁.moveTo (.elementTag e attributes)).step last =
        e.opening attributes >>= fun opening => .ok (r₁.moveTo (.body e opening {})) := by
      simp [step, hlast, moveTo, pure, Except.pure]
    rw [hend, bind_assoc]
    refine bind_congr_of_ok fun opening _ => ?_
    show (between ++ [close]).foldlM step (r₁.moveTo (.body e opening {})) = _
    rw [List.foldlM_append, foldlM_body rfl havoids, ofLexemes_eq]
    show [close].foldlM step _ = _
    simp [step, hclose, moveTo, closeElement]

/-! ### Levels -/

section

variable {α : Type} {place : Place} {closing : String} {known : String → Prop} {item : List Lexeme → α → Prop}
  {take : Reading → α → Except DocumentError Reading}

/-- A level of the grammar as the reading goes through it: what is passed over leaves the reading where it is, and an
item is taken whole. -/
structure Level (place : Place) (closing : String) (known : String → Prop) (item : List Lexeme → α → Prop)
    (take : Reading → α → Except DocumentError Reading) : Prop where
  skip : ∀ {r : Reading} {l : Lexeme}, r.place = place → l.token.goesOn = true → l.token ≠ .closeTag closing →
    (∀ tag, l.token = .openTag tag → ¬known tag) → r.step l = .ok r
  whole : ∀ {r : Reading} {ls : List Lexeme} {x : α}, r.place = place → item ls x → ls.foldlM step r = take r x
  stays : ∀ {r r' : Reading} {ls : List Lexeme} {x : α}, r.place = place → item ls x → take r x = .ok r' →
    r'.place = place

theorem Level.foldlM (hlevel : Level place closing known item take) {ls : List Lexeme} {xs : List α}
    (h : Sequence closing known item ls xs) {r : Reading} (hr : r.place = place) :
    ls.foldlM step r = xs.foldlM take r := by
  induction h generalizing r with
  | nil => rfl
  | skip hgoes hclose hopen _ ih =>
    rw [List.foldlM_cons, hlevel.skip hr hgoes hclose hopen]
    exact ih hr
  | item hitem _ ih =>
    rw [List.foldlM_append, hlevel.whole hr hitem, List.foldlM_cons]
    exact bind_congr_of_ok fun r₁ hr₁ => ih (hlevel.stays hr hitem hr₁)

theorem Level.place_foldlM (hlevel : Level place closing known item take) {ls : List Lexeme} {xs : List α}
    (h : Sequence closing known item ls xs) {r r' : Reading} (hr : r.place = place)
    (hfold : xs.foldlM take r = .ok r') : r'.place = place := by
  induction h generalizing r with
  | nil =>
    cases hfold
    exact hr
  | skip _ _ _ _ ih => exact ih hr hfold
  | item hitem _ ih =>
    rw [List.foldlM_cons] at hfold
    obtain ⟨r₁, hr₁, hfold⟩ := bind_eq_ok.1 hfold
    exact ih (hlevel.stays hr hitem hr₁) hfold

end

theorem mem_elements {s : Section} {e : Element} : e ∈ s.elements ↔ e.parent = s := by
  cases s <;> cases e <;> decide

theorem element?_eq_none {s : Section} {tag : String} (h : ¬∃ e : Element, e.parent = s ∧ e.tag = tag) :
    s.element? tag = none := by
  refine List.find?_eq_none.2 fun e he htag => h ⟨e, mem_elements.1 he, ?_⟩
  simpa using htag

theorem level_section (s : Section) :
    Level (.inside s) s.tag (fun tag => ∃ e : Element, e.parent = s ∧ e.tag = tag)
      (fun ls (x : Item) => x.element.parent = s ∧ x.Reads ls) take where
  skip {r l} hr hgoes hclose hopen := by
    have hnone : ∀ tag, l.token = .openTag tag → s.element? tag = none := fun tag h => element?_eq_none (hopen tag h)
    clear hopen
    unfold step
    split <;> simp_all [Token.goesOn, openElement]
  whole hr hitem := foldlM_item hitem.2 (hitem.1 ▸ hr)
  stays {r r' ls x} hr hitem h := by
    obtain ⟨r₁, -, h⟩ := bind_eq_ok.1 h
    obtain ⟨opening, -, h⟩ := bind_eq_ok.1 h
    obtain ⟨policy, -, h⟩ := bind_eq_ok.1 h
    cases h
    exact congrArg Place.inside hitem.1

theorem ofTag?_eq_none {tag : String} (h : ¬∃ s : Section, s.tag = tag) : Section.ofTag? tag = none := by
  unfold Section.ofTag?
  split
  · exact absurd ⟨.manifest, rfl⟩ h
  · exact absurd ⟨.paths, rfl⟩ h
  · exact absurd ⟨.effects, rfl⟩ h
  · exact absurd ⟨.conditions, rfl⟩ h
  · exact absurd ⟨.logging, rfl⟩ h
  · rfl

theorem place_openSection {s : Section} {r r₁ : Reading} (h : r.openSection s.tag = .ok r₁) :
    r₁.place = .sectionTag s := by
  rw [openSection, ofTag?_tag] at h
  simp only at h
  split at h
  · cases h
  · rw [← Except.ok.inj h]

/-- The open tag of a section. -/
theorem foldlM_sectionTag {s : Section} {attributes : List (String × String)} {stop : Token} {ls : List Lexeme}
    {r : Reading} (h : IsTag s.tag attributes stop ls) (hr : r.place = .root) :
    ∃ last : Lexeme, last.token = stop ∧ ls.foldlM step r =
      r.openSection s.tag >>= fun r₁ => (r₁.moveTo (.sectionTag s)).step last := by
  obtain ⟨first, middle, last, rfl, hfirst, hmiddle, hlast⟩ := exists_of_isTag h
  have hstep : r.step first = r.openSection s.tag := by simp [step, hr, hfirst]
  refine ⟨last, hlast, ?_⟩
  rw [List.cons_append, List.foldlM_cons, hstep]
  refine bind_congr_of_ok fun r₁ hr₁ => ?_
  have hplace := place_openSection hr₁
  rw [show r₁.moveTo (.sectionTag s) = r₁ by rw [moveTo, ← hplace], List.foldlM_append,
    foldlM_ignored (.inr ⟨s, hplace⟩) hmiddle]
  show [last].foldlM step _ = _
  simp

theorem foldlM_section {s : Section} {items : List Item} {ls : List Lexeme} {r : Reading}
    (h : SectionReads ls s items) (hr : r.place = .root) : ls.foldlM step r = r.takeSection (s, items) := by
  obtain ⟨attributes, h⟩ := h
  cases h with
  | selfClose hhead =>
    obtain ⟨last, hlast, hfold⟩ := foldlM_sectionTag hhead hr
    rw [hfold, takeSection]
    refine bind_congr_of_ok fun r₁ _ => ?_
    have hend : (r₁.moveTo (.sectionTag s)).step last = .ok (r₁.moveTo .root) := by simp [step, hlast, moveTo]
    exact hend
  | @closed _ between close _ _ hhead hbetween hclose =>
    obtain ⟨last, hlast, hfold⟩ := foldlM_sectionTag hhead hr
    rw [List.append_assoc, List.foldlM_append, hfold, takeSection, bind_assoc]
    refine bind_congr_of_ok fun r₁ _ => ?_
    have hend : (r₁.moveTo (.sectionTag s)).step last = .ok (r₁.moveTo (.inside s)) := by simp [step, hlast, moveTo]
    rw [hend]
    show (between ++ [close]).foldlM step (r₁.moveTo (.inside s)) = _
    rw [List.foldlM_append, (level_section s).foldlM hbetween rfl]
    refine bind_congr_of_ok fun r₂ hr₂ => ?_
    have hplace := (level_section s).place_foldlM hbetween rfl hr₂
    have hstop : r₂.step close = .ok (r₂.moveTo .root) := by simp [step, hclose, hplace]
    rw [List.foldlM_cons, hstop]
    rfl

theorem level_root :
    Level .root "policy" (fun tag => ∃ s : Section, s.tag = tag)
      (fun ls (x : Section × List Item) => SectionReads ls x.1 x.2) takeSection where
  skip {r l} hr hgoes hclose hopen := by
    have hnone : ∀ tag, l.token = .openTag tag → Section.ofTag? tag = none := fun tag h => ofTag?_eq_none (hopen tag h)
    clear hopen
    unfold step
    split <;> simp_all [Token.goesOn, openSection]
  whole hr hitem := foldlM_section hitem hr
  stays {r r' ls x} hr _ h := by
    obtain ⟨r₁, -, h⟩ := bind_eq_ok.1 h
    obtain ⟨r₂, -, h⟩ := bind_eq_ok.1 h
    cases h
    rfl

theorem step_outside_root {r : Reading} {l : Lexeme} (hr : r.place = .prolog) (hgoes : l.token.goesOn = true)
    (hl : l.token ≠ .openTag "policy") : r.step l = .ok r := by
  unfold step
  split <;> simp_all [Token.goesOn]

theorem foldlM_prolog {r : Reading} {ls : List Lexeme} (hr : r.place = .prolog) (h : Avoids (.openTag "policy") ls) :
    ls.foldlM step r = .ok r := by
  induction ls with
  | nil => rfl
  | cons l ls ih =>
    have hl := h l List.mem_cons_self
    rw [List.foldlM_cons, step_outside_root hr hl.1 hl.2]
    exact ih fun l' hl' => h l' (List.mem_cons_of_mem _ hl')

theorem foldlM_root {sections : List (Section × List Item)} {ls : List Lexeme} {r : Reading}
    (h : RootReads ls sections) (hr : r.place = .prolog) :
    ls.foldlM step r = sections.foldlM takeSection (r.moveTo .root) >>= fun r₁ => .ok (r₁.moveTo .closed) := by
  obtain ⟨attributes, h⟩ := h
  have hhead : ∀ {stop : Token} {head : List Lexeme}, IsTag "policy" attributes stop head →
      ∃ last : Lexeme, last.token = stop ∧ head.foldlM step r = (r.moveTo .rootTag).step last := by
    intro stop head hhead
    obtain ⟨first, middle, last, rfl, hfirst, hmiddle, hlast⟩ := exists_of_isTag hhead
    have hstep : r.step first = .ok (r.moveTo .rootTag) := by simp [step, hr, hfirst]
    refine ⟨last, hlast, ?_⟩
    rw [List.cons_append, List.foldlM_cons, hstep]
    show (middle ++ [last]).foldlM step (r.moveTo .rootTag) = _
    rw [List.foldlM_append, foldlM_ignored (.inl rfl) hmiddle]
    show [last].foldlM step _ = _
    simp
  cases h with
  | selfClose htag =>
    obtain ⟨last, hlast, hfold⟩ := hhead htag
    rw [hfold]
    simp [step, hlast, moveTo]
  | @closed _ between close _ _ htag hbetween hclose =>
    obtain ⟨last, hlast, hfold⟩ := hhead htag
    have hend : (r.moveTo .rootTag).step last = .ok (r.moveTo .root) := by simp [step, hlast, moveTo]
    rw [List.append_assoc, List.foldlM_append, hfold, hend]
    show (between ++ [close]).foldlM step (r.moveTo .root) = _
    rw [List.foldlM_append, level_root.foldlM hbetween rfl]
    refine bind_congr_of_ok fun r₁ hr₁ => ?_
    have hplace := level_root.place_foldlM hbetween rfl hr₁
    simp [step, hclose, hplace]

/-- What a document comes to, section by section. -/
theorem foldlM_document {sections : List (Section × List Item)} {ls : List Lexeme} (h : DocumentReads ls sections) :
    ls.foldlM step {} = sections.foldlM takeSection (after .root [] []) >>= fun r => .ok (r.moveTo .closed) := by
  obtain ⟨prolog, root, rest, rfl, hprolog, hroot⟩ := h
  rw [List.append_assoc, List.foldlM_append, foldlM_prolog rfl hprolog]
  -- the root moves the reading to the end, where nothing counts any more
  show (root ++ rest).foldlM step {} = _
  rw [List.foldlM_append, foldlM_root hroot rfl, bind_assoc]
  refine bind_congr_of_ok fun r₁ _ => ?_
  exact foldlM_closed rfl rest

end Reading

end AccessPolicy
