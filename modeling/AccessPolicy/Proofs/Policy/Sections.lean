import AccessPolicy.Proofs.Markup.Locality
import AccessPolicy.Proofs.Policy.Derivation

/-!
# Sections in any order

Sections can be put into a document in any order, and the policy does not change (`parse_sections`): each section says
its part of the policy, and it says the same as in a document of its own.  A section is read as it would be alone since
after it comes an open tag or the end of the root, so that no quote in it is closed behind it
(`IsSection.exists_hasItems`); and each part of a policy depends on the elements of one section (`sameIn_ofItems`).
-/

namespace AccessPolicy

open Markup Text

/-! ### A section in a root -/

/-- The document with this text in its root. -/
def inRoot (text : String) : String := "<policy>" ++ text ++ "</policy>"

/-- The open tag of that root. -/
def rootTag : List Lexeme := [⟨[], "<policy".toList, .openTag "policy"⟩, ⟨[], ['>'], .tagEnd⟩]

/-- Of these lexemes the first opens the section, and the section ends with the last one and not before. -/
structure Encloses (s : Section) (ls : List Lexeme) : Prop where
  opens : ∃ l ∈ ls.head?, l.gap = [] ∧ l.token = .openTag s.tag
  ends : ∃ r, ls.foldlM Reading.step { place := .root } = .ok r ∧ r.place = .root
  stays : ∀ n, 0 < n → n < ls.length → ∀ r, (ls.take n).foldlM Reading.step { place := .root } = .ok r → r.place ≠ .root

/-- In a root, the text is read as the section, from its open tag exactly to the end of the text. -/
def IsSection (s : Section) (text : String) : Prop :=
  ∃ ls after, lexemes (inRoot text) = rootTag ++ (ls ++ after) ∧ characters ls = text.toList ∧ Encloses s ls

private theorem lexemesFrom_rootTag (rest : List Char) :
    lexemesFrom .content 0 [] ("<policy>".toList ++ rest) = rootTag ++ lexemesFrom .content 8 [] rest := by
  have hopen : Spells .content ('<' :: "policy".toList) (.openTag (String.ofList "policy".toList)) .tag ('>' :: rest) :=
    .openTag (by decide) (by simp; decide)
  have htag : lexemesFrom .content 0 [] ("<policy>".toList ++ rest) =
      ⟨[], '<' :: "policy".toList, .openTag (String.ofList "policy".toList)⟩ :: lexemesFrom .tag 7 [] ('>' :: rest) :=
    lexemesFrom_of_emit (step_of_spells hopen 0)
  have hend : lexemesFrom .tag 7 [] ('>' :: rest) = ⟨[], ['>'], .tagEnd⟩ :: lexemesFrom .content 8 [] rest :=
    lexemesFrom_of_emit (step_of_spells .tagEnd 7)
  rw [htag, hend, String.ofList_toList]
  rfl

theorem lexemes_inRoot (text : String) :
    lexemes (inRoot text) = rootTag ++ lexemesFrom .content 8 [] (text.toList ++ "</policy>".toList) := by
  rw [lexemes, inRoot, String.toList_append, String.toList_append, List.append_assoc, lexemesFrom_rootTag]

/-- The end of the root. -/
private theorem exists_rootEnd (position : Nat) : ∃ close after,
    lexemesFrom .content position [] "</policy>".toList = close :: after ∧ close.token = .closeTag "policy" := by
  have hclose : Spells .content ('<' :: '/' :: ("policy".toList ++ [] ++ ['>']))
      (.closeTag (String.ofList "policy".toList)) .content [] :=
    .closeTag (by decide) (List.all_eq_true.1 rfl) (by simp)
  exact ⟨_, _, lexemesFrom_of_emit (step_of_spells hclose position), by rw [String.ofList_toList]⟩

/-! ### Sections follow the grammar -/

theorem SectionReads.exists_cons {ls : List Lexeme} {s : Section} {items : List Item} (h : SectionReads ls s items) :
    ∃ l more, ls = l :: more ∧ l.token = .openTag s.tag := by
  obtain ⟨attributes, h⟩ := h
  cases h with
  | selfClose htag =>
    obtain ⟨first, middle, last, rfl, hfirst, -, -⟩ := Reading.exists_of_isTag htag
    exact ⟨first, middle ++ [last], rfl, hfirst⟩
  | @closed _ between close _ _ htag _ _ =>
    obtain ⟨first, middle, last, rfl, hfirst, -, -⟩ := Reading.exists_of_isTag htag
    exact ⟨first, middle ++ [last] ++ between ++ [close], by simp, hfirst⟩

theorem SectionReads.exists_concat {ls : List Lexeme} {s : Section} {items : List Item} (h : SectionReads ls s items) :
    ∃ before l, ls = before ++ [l] ∧ l.token.endsTag = true := by
  obtain ⟨attributes, h⟩ := h
  cases h with
  | selfClose htag =>
    obtain ⟨first, middle, last, rfl, -, -, hlast⟩ := Reading.exists_of_isTag htag
    exact ⟨first :: middle, last, rfl, by rw [hlast]; rfl⟩
  | @closed head between close _ _ _ _ hclose => exact ⟨head ++ between, close, rfl, by rw [hclose]; rfl⟩

theorem Section.tag_injective {s t : Section} (h : s.tag = t.tag) : s = t := by
  have htag := Reading.ofTag?_tag s
  rw [h, Reading.ofTag?_tag] at htag
  exact (Option.some.inj htag).symm

theorem Encloses.exists_cons {s : Section} {ls : List Lexeme} (h : Encloses s ls) :
    ∃ first more, ls = first :: more ∧ first.gap = [] ∧ first.token = .openTag s.tag := by
  obtain ⟨first, hfirst, hopens⟩ := h.opens
  cases ls with
  | nil => cases hfirst
  | cons l more =>
    cases hfirst
    exact ⟨first, more, rfl, hopens⟩

/-- The section does not end earlier. -/
theorem Encloses.eq_of_prefix {s : Section} {ls used : List Lexeme} {r : Reading} (h : Encloses s ls)
    (hbegins : used <+: ls) (hne : used ≠ []) (hrun : used.foldlM Reading.step { place := .root } = .ok r)
    (hr : r.place = .root) : used = ls := by
  obtain ⟨rest, rfl⟩ := hbegins
  by_contra hshort
  have hrest : rest ≠ [] := fun hnil => hshort (by rw [hnil, List.append_nil])
  have hlt : used.length < (used ++ rest).length := by
    have := List.length_pos_iff.2 hrest
    rw [List.length_append]
    omega
  have hstays := h.stays used.length (List.length_pos_iff.2 hne) hlt
  rw [List.take_left] at hstays
  exact hstays r hrun hr

/-- What is read as a section follows the grammar of sections. -/
theorem Encloses.exists_items {s : Section} {ls : List Lexeme} (h : Encloses s ls)
    (hgoes : ∀ l ∈ ls, l.token ≠ .endOfText) : ∃ items, SectionReads ls s items ∧ Valid items := by
  obtain ⟨first, more, rfl, -, htoken⟩ := h.exists_cons
  -- with the end of a root after them, the lexemes are read to the end of the root
  obtain ⟨r, hrun, hr⟩ := h.ends
  let close : Lexeme := ⟨[], [], .closeTag "policy"⟩
  have hclose : (first :: (more ++ [close])).foldlM Reading.step { place := .root } = .ok (r.moveTo .closed) := by
    rw [← List.cons_append, List.foldlM_append, hrun]
    show [close].foldlM Reading.step r = _
    rw [List.foldlM_cons, Reading.step_root_closeTag hr, if_pos rfl]
    rfl
  have hcomplete : Reading.Completes { place := .root } (first :: (more ++ [close])) := by
    refine ⟨fun l hl => ?_, _, hclose, rfl⟩
    rcases List.mem_append.1 (List.cons_append ▸ hl : l ∈ first :: more ++ [close]) with hl | hl
    · exact hgoes l hl
    · rw [List.mem_singleton.1 hl]
      simp [close]
  obtain ⟨⟨t, items⟩, used, rest, hsplit, hne, hreads⟩ := Reading.exists_section rfl htoken ⟨s, rfl⟩ hcomplete
  -- the section of the grammar ends in the root as well
  rw [hsplit, List.foldlM_append] at hclose
  obtain ⟨r₁, hused, hrest⟩ := bind_eq_ok.1 hclose
  have htake : (Reading.after .root [] []).takeSection (t, items) = .ok r₁ := by
    rw [← hused]
    exact (Reading.foldlM_section hreads rfl).symm
  obtain ⟨-, hvalid, rfl⟩ := (Reading.takeSection_eq_ok hreads.parent valid_nil).1 htake
  -- so it is all of them
  have hall : used = first :: more := by
    rcases List.eq_nil_or_concat' rest with rfl | ⟨rest, l, rfl⟩
    · cases hrest
    · rw [← List.append_assoc, ← List.cons_append] at hsplit
      exact h.eq_of_prefix ⟨rest, ((List.append_inj' hsplit rfl).1).symm⟩ hne hused rfl
  subst hall
  obtain ⟨l, ls, hcons, hl⟩ := hreads.exists_cons
  obtain rfl := (List.cons.inj hcons).1
  rw [htoken] at hl
  obtain rfl := Section.tag_injective (Token.openTag.inj hl)
  exact ⟨items, hreads, hvalid⟩

/-- The text is the section with these elements, wherever it stands between tags, if no quote is closed behind it. -/
def HasItems (s : Section) (text : String) (items : List Item) : Prop :=
  ∃ ls, SectionReads ls s items ∧
    ∀ rest, closesBeforeMarkup rest = false → ∀ position, lexemesFrom .content position [] (text.toList ++ rest) =
      ls ++ lexemesFrom .content (position + byteSize text.toList) [] rest

theorem HasItems.parent {s : Section} {text : String} {items : List Item} (h : HasItems s text items) :
    ∀ x ∈ items, x.element.parent = s := by
  obtain ⟨_, hreads, -⟩ := h
  exact hreads.parent

/-- What is a section alone is the same section elsewhere. -/
theorem IsSection.exists_hasItems {s : Section} {text : String} (h : IsSection s text) :
    ∃ items, HasItems s text items ∧ Valid items := by
  obtain ⟨ls, after, hlexemes, htext, henclosed⟩ := h
  rw [lexemes_inRoot, List.append_cancel_left_eq] at hlexemes
  have hgoes : ∀ l ∈ ls, l.token ≠ .endOfText := by
    -- the end of the root comes after the section
    refine ne_endOfText_of_append hlexemes ?_
    rintro rfl
    have hall := characters_lexemesFrom .content 8 [] (text.toList ++ "</policy>".toList)
    rw [hlexemes, List.append_nil, htext] at hall
    simp at hall
  obtain ⟨items, hreads, hvalid⟩ := henclosed.exists_items hgoes
  refine ⟨items, ⟨ls, hreads, fun rest hrest position => ?_⟩, hvalid⟩
  obtain ⟨before, l, rfl, hl⟩ := hreads.exists_concat
  rw [List.append_assoc, List.singleton_append] at hlexemes ⊢
  exact lexemesFrom_append_quiet hlexemes hl htext hrest position

/-- A quote before a section is not closed: the section begins with markup. -/
theorem IsSection.quiet {s : Section} {text : String} (h : IsSection s text) (rest : List Char) :
    closesBeforeMarkup (text.toList ++ rest) = false := by
  obtain ⟨ls, after, hlexemes, htext, henclosed⟩ := h
  obtain ⟨first, more, rfl, hgap, htoken⟩ := henclosed.exists_cons
  have hmem : first ∈ lexemes (inRoot text) := by rw [hlexemes]; simp
  have hwritten := written_of_mem_lexemesFrom hmem
  rw [htoken] at hwritten
  have hsource : first.source = '<' :: s.tag.toList := hwritten.2
  have hmarkup : opensMarkup (s.tag.toList ++ (characters more ++ rest)) = true := by cases s <;> rfl
  rw [← htext, characters_cons, hgap, hsource]
  simpa using Reading.closesBeforeMarkup_tag (s := []) (by simp) hmarkup

/-! ### All sections of a document -/

/-- The sections in the root, one after the other. -/
private theorem exists_sequence {order : List (Section × String)} {items : Section × String → List Item}
    (hsections : ∀ x ∈ order, IsSection x.1 x.2) (hitems : ∀ x ∈ order, HasItems x.1 x.2 (items x)) (position : Nat) :
    ∃ ls close after, lexemesFrom .content position [] (order.flatMap (·.2.toList) ++ "</policy>".toList) =
        ls ++ close :: after ∧ close.token = .closeTag "policy" ∧
      SectionsRead ls close.gap (order.map fun x => (x.1, items x)) := by
  induction order generalizing position with
  | nil =>
    obtain ⟨close, after, hclose, htoken⟩ := exists_rootEnd position
    exact ⟨[], close, after, hclose, htoken, .nil⟩
  | cons x order ih =>
    obtain ⟨ls, hreads, hlexemes⟩ := hitems x List.mem_cons_self
    obtain ⟨more, close, after, hmore, htoken, hsequence⟩ :=
      ih (fun y hy => hsections y (List.mem_cons_of_mem _ hy)) (fun y hy => hitems y (List.mem_cons_of_mem _ hy))
        (position + byteSize x.2.toList)
    -- after the section comes the next one, or the end of the root
    have hquiet : closesBeforeMarkup (order.flatMap (·.2.toList) ++ "</policy>".toList) = false := by
      cases order with
      | nil => rfl
      | cons y order =>
        rw [List.flatMap_cons, List.append_assoc]
        exact (hsections y (by simp)).quiet _
    refine ⟨ls ++ more, close, after, ?_, htoken, .item hreads hsequence⟩
    rw [List.flatMap_cons, List.append_assoc, hlexemes _ hquiet, hmore, List.append_assoc]

theorem documentReads_inRoot {order : List (Section × String)} {items : Section × String → List Item}
    (hsections : ∀ x ∈ order, IsSection x.1 x.2) (hitems : ∀ x ∈ order, HasItems x.1 x.2 (items x)) :
    DocumentReads (lexemes (inRoot (String.join (order.map Prod.snd)))) (order.map fun x => (x.1, items x)) := by
  obtain ⟨ls, close, after, hls, hclose, hsequence⟩ := exists_sequence hsections hitems 8
  have htext : (String.join (order.map Prod.snd)).toList = order.flatMap (·.2.toList) := by
    rw [String.toList_join, List.flatMap_map]
  have htag : IsTag "policy" [] .tagEnd rootTag := rfl
  rw [lexemes_inRoot, htext, hls]
  exact ⟨[], rootTag ++ ls ++ [close], after, by simp, by simp [Avoids], [], .closed htag hsequence hclose⟩

/-! ### The part of a policy that a section says -/

/-- Two policies are the same in what the section says. -/
def Policy.SameIn (s : Section) (p q : Policy) : Prop :=
  match s with
  | .manifest => p.manifest = q.manifest
  | .paths => p.routes = q.routes
  | .effects => p.effects = q.effects
  | .conditions => p.condition = q.condition
  | .logging => p.logging = q.logging

theorem Policy.eq_of_sameIn {p q : Policy} (h : ∀ s, p.SameIn s q) : p = q := by
  obtain ⟨manifest, routes, effects, logging, condition⟩ := p
  obtain rfl : manifest = q.manifest := h .manifest
  obtain rfl : routes = q.routes := h .paths
  obtain rfl : effects = q.effects := h .effects
  obtain rfl : logging = q.logging := h .logging
  obtain rfl : condition = q.condition := h .conditions
  rfl

/-- Each part of a policy comes from the elements of one section. -/
theorem sameIn_ofItems {s : Section} {xs ys : List Item}
    (h : ∀ e : Element, e.parent = s → itemsOf e xs = itemsOf e ys) :
    (Policy.ofItems xs).SameIn s (Policy.ofItems ys) := by
  cases s
  case manifest =>
    simp [Policy.SameIn, Policy.ofItems, lastText?, lastNumber?, h .id rfl, h .priority rfl, h .scope rfl,
      h .version rfl, h .name rfl, h .description rfl]
  case paths => simp [Policy.SameIn, Policy.ofItems, h .path rfl]
  case effects =>
    simp [Policy.SameIn, Policy.ofItems, lastText?, lastNumber?, literalsOf, h .allow rfl, h .deny rfl,
      h .redirect rfl, h .returnCode rfl, h .returnMessage rfl]
  case conditions => simp [Policy.SameIn, Policy.ofItems, lastText?, h .condition rfl]
  case logging => simp [Policy.SameIn, Policy.ofItems, h .onPermit rfl, h .onDeny rfl, h .onAny rfl]

section

variable {sections : List (Section × List Item)}

theorem itemsIn_append (sections more : List (Section × List Item)) :
    itemsIn (sections ++ more) = itemsIn sections ++ itemsIn more := List.flatMap_append

theorem itemsOf_eq_nil (hparent : ∀ x ∈ sections, ∀ i ∈ x.2, i.element.parent = x.1) {e : Element}
    (he : e.parent ∉ sections.map Prod.fst) : itemsOf e (itemsIn sections) = [] := by
  refine List.filter_eq_nil_iff.2 fun i hi hkind => he ?_
  obtain ⟨x, hx, hi⟩ := List.mem_flatMap.1 hi
  have hsection := hparent x hx i hi
  rw [of_decide_eq_true hkind] at hsection
  exact hsection ▸ List.mem_map_of_mem hx

/-- The elements of a kind stand in one section. -/
theorem itemsOf_eq_of_mem (hnames : (sections.map Prod.fst).Nodup)
    (hparent : ∀ x ∈ sections, ∀ i ∈ x.2, i.element.parent = x.1) {x : Section × List Item} (hx : x ∈ sections)
    {e : Element} (he : e.parent = x.1) : itemsOf e (itemsIn sections) = itemsOf e x.2 := by
  obtain ⟨before, after, rfl⟩ := List.append_of_mem hx
  rw [List.map_append, List.map_cons, List.nodup_middle, List.nodup_cons, ← he, List.mem_append, not_or] at hnames
  have hbefore : itemsOf e (itemsIn before) = [] := itemsOf_eq_nil (fun y hy => hparent y (by simp [hy])) hnames.1.1
  have hafter : itemsOf e (itemsIn after) = [] := itemsOf_eq_nil (fun y hy => hparent y (by simp [hy])) hnames.1.2
  rw [itemsIn_append, itemsOf_append, hbefore, List.nil_append]
  show itemsOf e (x.2 ++ itemsIn after) = _
  rw [itemsOf_append, hafter, List.append_nil]

theorem valid_itemsIn (hnames : (sections.map Prod.fst).Nodup)
    (hparent : ∀ x ∈ sections, ∀ i ∈ x.2, i.element.parent = x.1)
    (hvalid : ∀ x ∈ sections, Valid x.2) : Valid (itemsIn sections) := by
  refine ⟨fun i hi => ?_, ?_⟩
  · obtain ⟨x, hx, hi⟩ := List.mem_flatMap.1 hi
    exact (hvalid x hx).wellFormed i hi
  · by_cases hmem : Element.condition.parent ∈ sections.map Prod.fst
    · obtain ⟨x, hx, hname⟩ := List.mem_map.1 hmem
      rw [itemsOf_eq_of_mem hnames hparent hx hname.symm]
      exact (hvalid x hx).condition
    · rw [itemsOf_eq_nil hparent hmem]
      exact Nat.zero_le 1

/-- The order of the sections says nothing. -/
theorem ofItems_perm {sections' : List (Section × List Item)} (hperm : sections.Perm sections')
    (hnames : (sections.map Prod.fst).Nodup) (hparent : ∀ x ∈ sections, ∀ i ∈ x.2, i.element.parent = x.1) :
    Policy.ofItems (itemsIn sections) = Policy.ofItems (itemsIn sections') := by
  have hnames' : (sections'.map Prod.fst).Nodup := (hperm.map Prod.fst).nodup_iff.1 hnames
  have hparent' : ∀ x ∈ sections', ∀ i ∈ x.2, i.element.parent = x.1 := fun x hx => hparent x (hperm.mem_iff.2 hx)
  refine Policy.eq_of_sameIn fun s => sameIn_ofItems fun e _ => ?_
  by_cases hmem : e.parent ∈ sections.map Prod.fst
  · obtain ⟨x, hx, hname⟩ := List.mem_map.1 hmem
    rw [itemsOf_eq_of_mem hnames hparent hx hname.symm,
      itemsOf_eq_of_mem hnames' hparent' (hperm.mem_iff.1 hx) hname.symm]
  · rw [itemsOf_eq_nil hparent hmem, itemsOf_eq_nil hparent' (mt (hperm.map Prod.fst).mem_iff.2 hmem)]

end

theorem parse_inRoot {order : List (Section × String)} {items : Section × String → List Item}
    (hnames : (order.map Prod.fst).Nodup) (hsections : ∀ x ∈ order, IsSection x.1 x.2)
    (hitems : ∀ x ∈ order, HasItems x.1 x.2 (items x) ∧ Valid (items x)) :
    Policy.parse (inRoot (String.join (order.map Prod.snd))) =
      .ok (Policy.ofItems (itemsIn (order.map fun x => (x.1, items x)))) := by
  have hreads := documentReads_inRoot hsections fun x hx => (hitems x hx).1
  have hfst : (order.map fun x => (x.1, items x)).map Prod.fst = order.map Prod.fst := by simp
  rw [← hfst] at hnames
  refine hreads.parse_eq_ok.2 ⟨hnames, valid_itemsIn hnames hreads.parent fun y hy => ?_, rfl⟩
  obtain ⟨x, hx, rfl⟩ := List.mem_map.1 hy
  exact (hitems x hx).2

/-- Sections are independent of one another and of their order: a root with sections in it, each of which can stand
alone, is always the same policy.  What a section says in it is what it says alone, and nothing is said of what has no
section. -/
theorem parse_sections {parts : List (Section × String)} (hnames : (parts.map Prod.fst).Nodup)
    (hparts : ∀ x ∈ parts, IsSection x.1 x.2) :
    ∃ p, (∀ order : List (Section × String), order.Perm parts →
        Policy.parse (inRoot (String.join (order.map Prod.snd))) = .ok p) ∧
      (∀ x ∈ parts, ∃ q, Policy.parse (inRoot x.2) = .ok q ∧ p.SameIn x.1 q) ∧
      ∀ s, s ∉ parts.map Prod.fst → p.SameIn s {} := by
  have hitems : ∀ x ∈ parts, ∃ items, HasItems x.1 x.2 items ∧ Valid items := fun x hx => (hparts x hx).exists_hasItems
  choose! items hitems using hitems
  let sectionOf (x : Section × String) : Section × List Item := (x.1, items x)
  have hfst : (parts.map sectionOf).map Prod.fst = parts.map Prod.fst := by simp [sectionOf]
  have hparent : ∀ y ∈ parts.map sectionOf, ∀ i ∈ y.2, i.element.parent = y.1 := by
    intro y hy
    obtain ⟨x, hx, rfl⟩ := List.mem_map.1 hy
    exact (hitems x hx).1.parent
  refine ⟨Policy.ofItems (itemsIn (parts.map sectionOf)), fun order hperm => ?_, fun x hx => ?_, fun s hs => ?_⟩
  · have hmem : ∀ x ∈ order, x ∈ parts := fun x hx => hperm.mem_iff.1 hx
    rw [parse_inRoot ((hperm.map Prod.fst).nodup_iff.2 hnames) (fun x hx => hparts x (hmem x hx))
      fun x hx => hitems x (hmem x hx)]
    exact congrArg Except.ok (ofItems_perm (hperm.map sectionOf).symm (hfst ▸ hnames) hparent).symm
  · -- alone, the section is the only one
    have halone : Policy.parse (inRoot (String.join ([x].map Prod.snd))) =
        .ok (Policy.ofItems (itemsIn ([x].map sectionOf))) :=
      parse_inRoot (by simp) (by simpa using hparts x hx) (by simpa using hitems x hx)
    refine ⟨_, by simpa using halone, sameIn_ofItems fun e he => ?_⟩
    rw [itemsOf_eq_of_mem (hfst ▸ hnames) hparent (List.mem_map_of_mem hx) he]
    simp [itemsIn]
  · show (Policy.ofItems _).SameIn s (Policy.ofItems [])
    refine sameIn_ofItems fun e he => ?_
    exact itemsOf_eq_nil hparent (by rwa [hfst, he])

set_option maxRecDepth 4000 in
/-- A backslash hides the close tag of the log from the quote before it, but not the tag that comes next. -/
theorem parse_sections_log :
    let parts := [(Section.logging, "<log><onany>came</onany>\"\\</log>"), (.paths, "<paths><path>/a</path></paths>")]
    let p : Policy := { routes := ["/a"], logging := { onAny := [{ message := "came" }] } }
    (∀ x ∈ parts, IsSection x.1 x.2) ∧
      (∀ order : List (Section × String), order.Perm parts →
        Policy.parse (inRoot (String.join (order.map Prod.snd))) = .ok p) ∧
      (∀ x ∈ parts, ∃ q, Policy.parse (inRoot x.2) = .ok q ∧ p.SameIn x.1 q) ∧
      ∀ s, s ∉ parts.map Prod.fst → p.SameIn s {} := by
  intro parts p
  have hlog : IsSection .logging "<log><onany>came</onany>\"\\</log>" := by
    have hlexemes : lexemes (inRoot "<log><onany>came</onany>\"\\</log>") = rootTag ++
        ([⟨[], "<log".toList, .openTag "log"⟩, ⟨[], ['>'], .tagEnd⟩, ⟨[], "<onany".toList, .openTag "onany"⟩,
          ⟨[], ['>'], .tagEnd⟩, ⟨[], "came".toList, .text "came"⟩, ⟨[], "</onany>".toList, .closeTag "onany"⟩,
          ⟨[], ['"', '\\'], .text "\"\\"⟩, ⟨[], "</log>".toList, .closeTag "log"⟩] ++
        [⟨[], "</policy>".toList, .closeTag "policy"⟩, ⟨[], [], .endOfText⟩]) := by cbv
    refine ⟨_, _, hlexemes, rfl, ⟨_, rfl, rfl, rfl⟩, ⟨_, rfl, rfl⟩, fun n hpos hlt r hr => ?_⟩
    replace hlt : n < 8 := hlt
    interval_cases n <;> (cases hr; decide)
  have hpaths : IsSection .paths "<paths><path>/a</path></paths>" := by
    have hlexemes : lexemes (inRoot "<paths><path>/a</path></paths>") = rootTag ++
        ([⟨[], "<paths".toList, .openTag "paths"⟩, ⟨[], ['>'], .tagEnd⟩, ⟨[], "<path".toList, .openTag "path"⟩,
          ⟨[], ['>'], .tagEnd⟩, ⟨[], "/a".toList, .text "/a"⟩, ⟨[], "</path>".toList, .closeTag "path"⟩,
          ⟨[], "</paths>".toList, .closeTag "paths"⟩] ++
        [⟨[], "</policy>".toList, .closeTag "policy"⟩, ⟨[], [], .endOfText⟩]) := by cbv
    refine ⟨_, _, hlexemes, rfl, ⟨_, rfl, rfl, rfl⟩, ⟨_, rfl, rfl⟩, fun n hpos hlt r hr => ?_⟩
    replace hlt : n < 7 := hlt
    interval_cases n <;> (cases hr; decide)
  have hparts : ∀ x ∈ parts, IsSection x.1 x.2 := by
    simpa [parts] using ⟨hlog, hpaths⟩
  obtain ⟨policy, hpolicy, hsame⟩ := parse_sections (by decide) hparts
  -- one order tells which policy it is
  have hparse : Policy.parse (inRoot (String.join (parts.map Prod.snd))) = .ok p := by cbv
  obtain rfl : policy = p := Except.ok.inj ((hpolicy parts (.refl parts)).symm.trans hparse)
  exact ⟨hparts, hpolicy, hsame⟩

end AccessPolicy
