import AccessPolicy.Proofs.Policy.Closings

/-!
# When a document gives its policy back

A policy that was read is given back by its document if its redirect and its sources are written as they are read
(`parse_document`).  They must be: a redirect that is given back is what stands between its tags
(`redirect_of_parse`), and a source that is given back is what stands between its quotes (`sources_of_parse`).
Hence `parse_document_iff`.
-/

namespace AccessPolicy

open Markup Text Reading Policy

/-! ### The redirect -/

theorem closings_concat {c : Char} (hc : c ∉ "</redirect".toList) (s : List Char) :
    closings (s ++ [c]) = closings s := by
  have htail : c ∉ "/redirect".toList := fun h => hc (List.mem_cons_of_mem _ h)
  have hhead : c ≠ '<' := fun h => hc (h ▸ List.mem_cons_self)
  rw [closings_append_cons htail, closings_cons hhead]
  rfl

private theorem not_mem_of_isBlank {c : Char} (h : isBlank c = true) : c ∉ "</redirect".toList := by
  intro hmem
  have hnone : "</redirect".toList.all (fun c => !isBlank c) = true := rfl
  have hc := List.all_eq_true.1 hnone c hmem
  simp [h] at hc

theorem closings_trim (s : List Char) : closings (trim s) = closings s := by
  have hstart : ∀ s : List Char, closings (trimStart s) = closings s := by
    intro s
    induction s with
    | nil => rfl
    | cons c s ih =>
      by_cases hc : isBlank c = true
      · have hne : c ≠ '<' := fun h => not_mem_of_isBlank hc (h ▸ List.mem_cons_self)
        rw [closings_cons hne, ← ih]
        simp [trimStart, hc]
      · simp [trimStart, hc]
  have hend : ∀ s : List Char, closings (trimEnd s) = closings s := by
    intro s
    induction s using List.reverseRecOn with
    | nil => rfl
    | append_singleton s c ih =>
      rw [trimEnd_concat]
      split
      · rename_i hc
        rw [closings_concat (not_mem_of_isBlank hc), ih]
      · rfl
  rw [trim, hend, hstart]

theorem closings_stripQuotes (s : List Char) : closings (stripQuotes s) = closings s := by
  have hquote : ∀ c : Char, (c == '"' || c == '\'') = true → c ∉ "</redirect".toList := by
    intro c hc
    simp only [Bool.or_eq_true, beq_iff_eq] at hc
    rcases hc with rfl | rfl <;> decide
  have hend : ∀ t : List Char,
      closings (if t.getLast?.any (fun c => c == '"' || c == '\'') then t.dropLast else t) = closings t := by
    intro t
    induction t using List.reverseRecOn with
    | nil => rfl
    | append_singleton t c _ =>
      split
      · rename_i hc
        rw [List.dropLast_concat, closings_concat (hquote c (by simpa using hc))]
      · rfl
  have hstart : closings (if s.head?.any (fun c => c == '"' || c == '\'') then s.drop 1 else s) = closings s := by
    cases s with
    | nil => rfl
    | cons c s =>
      split
      · rename_i hc
        have hne : c ≠ '<' := fun h => hquote c (by simpa using hc) (h ▸ List.mem_cons_self)
        rw [closings_cons hne]
        rfl
      · rfl
  exact (hend _).trans hstart

/-- If a text is what was read as the redirect where it stands before a close tag, then it was read up to there. -/
theorem eq_of_redirect {s x v w : List Char} (hs : s = stripQuotes (trim x))
    (h : s ++ ("</redirect".toList ++ v) = x ++ ("</redirect".toList ++ w)) : x = s := by
  have hlength : s.length ≤ x.length := by
    rw [hs]
    exact ((stripQuotes_isInfix _).trans (trim_isInfix x)).length_le
  obtain ⟨z, rfl⟩ : s <+: x :=
    List.prefix_of_prefix_length_le (List.prefix_append s _) (h ▸ List.prefix_append x _) hlength
  cases z with
  | nil => exact List.append_nil s
  | cons c z =>
    -- a close tag would begin in what was cut off, which holds none
    rw [List.append_assoc, List.append_cancel_left_eq] at h
    have hhead : "</redirect".toList <+: c :: (z ++ '<' :: ("/redirect".toList ++ w)) := ⟨v, h⟩
    have htag : "</redirect".toList <+: c :: z := isPrefix_of_append_cons (by decide) hhead
    have hone : closings "</redirect".toList = 1 := by decide
    have hle : closings "</redirect".toList ≤ closings (c :: z) := closings_le_of_isInfix htag.isInfix
    have hadd := closings_add_le s (c :: z)
    have hsame : closings s = closings (s ++ c :: z) :=
      calc closings s = closings (stripQuotes (trim (s ++ c :: z))) := by rw [← hs]
        _ = closings (s ++ c :: z) := by rw [closings_stripQuotes, closings_trim]
    omega

private theorem fits_of_read {s : String} (hread : s.toList = stripQuotes (trim s.toList)) :
    trim s.toList = s.toList ∧ stripQuotes s.toList = s.toList := by
  have hlength := congrArg List.length hread
  have hstrip := (stripQuotes_isInfix (trim s.toList)).length_le
  have htrim : trim s.toList = s.toList := (trim_isInfix s.toList).eq_of_length_le (by omega)
  rw [htrim] at hread
  exact ⟨htrim, hread.symm⟩

/-- What is left behind a close tag that was read holds no more close tags than stand around the one written. -/
private theorem closings_left {s x gap rest more : List Char}
    (h : s ++ ("</redirect".toList ++ '>' :: '\n' :: rest) = x ++ ("</redirect".toList ++ (gap ++ '>' :: more))) :
    closings more ≤ closings s + closings rest := by
  have hone : closings "</redirect".toList = 1 := by decide
  have hwritten : closings (s ++ ("</redirect".toList ++ '>' :: '\n' :: rest)) =
      closings s + (closings "</redirect".toList + closings rest) := by
    have htag : "</redirect".toList ++ '>' :: '\n' :: rest = '<' :: ("/redirect".toList ++ '>' :: '\n' :: rest) := rfl
    have hnext := closings_append_cons (d := '>') (by decide) "</redirect".toList ('\n' :: rest)
    rw [closings_cons (by decide), closings_cons (by decide), htag] at hnext
    rw [htag, closings_append_cons (by decide), hnext]
  have hread := closings_add_le x ("</redirect".toList ++ (gap ++ '>' :: more))
  have htag := closings_add_le "</redirect".toList (gap ++ '>' :: more)
  have hmore : closings more ≤ closings (gap ++ '>' :: more) := closings_le_of_isInfix ⟨gap ++ ['>'], [], by simp⟩
  rw [h] at hwritten
  omega

/-- The redirect that a document gives back is one that its element gives back. -/
theorem redirect_of_parse {p : Policy} (hp : p.Sound) (h : Policy.parse p.document = .ok p) :
    ∀ s ∈ p.effects.redirect, Fits .redirect s ∧ stripQuotes s.toList = s.toList := by
  intro s hs
  obtain hs : p.effects.redirect = some s := hs
  by_cases hempty : s = ""
  · subst hempty
    exact ⟨Fits.empty _, rfl⟩
  rw [Policy.parse_eq_ok, p.document_eq] at h
  -- what stands behind the open tag of the redirect
  obtain ⟨rest, hrest⟩ : ∃ rest, rest = (ofLines p.restLines).toList ++ "</policy>".toList := ⟨_, rfl⟩
  have hline : (ofLines (p.effects.redirect.toList.map (element "redirect"))).toList ++ rest =
      "    <".toList ++ Element.redirect.tag.toList ++
        '>' :: (s.toList ++ ("</redirect".toList ++ '>' :: '\n' :: rest)) := by
    simp [hs, ofLines, element, Element.tag]
  have hquiet : closesBeforeMarkup ((ofLines (p.effects.redirect.toList.map (element "redirect"))).toList ++ rest) =
      false := by
    rw [hline, List.append_assoc]
    exact closesBeforeMarkup_tag (s := "    ".toList) (List.all_eq_true.1 rfl) (opensMarkup_tag .redirect _)
  have hopening : Element.redirect.opening [] = .ok {} := rfl
  rw [← hrest, (leads_startLines hp _ hquiet).2, hline, outcome_open rfl (by simp) (by simp; decide),
    outcome_tagEnd rfl hopening] at h
  -- what is read there as the redirect
  obtain ⟨x, quoted, gap, more, r, hsplit, -, henc, hclose, hout⟩ := exists_enclosed rfl h
  obtain ⟨policy, hpolicy, rfl⟩ := Reading.closeElement_eq hclose
  replace hsplit : s.toList ++ ("</redirect".toList ++ '>' :: '\n' :: rest) =
      x ++ ("</redirect".toList ++ (gap ++ '>' :: more)) := by simpa [Element.tag] using hsplit
  rcases (closings_le_of_outcome rfl (by simp [Place.inTag]) hout).2 with hsame | hless
  · rw [hs, close_redirect hpolicy, Option.some.injEq] at hsame
    have hread : s.toList = stripQuotes (trim x) := by
      rw [hsame, String.toList_ofList]
      rfl
    obtain rfl : x = s.toList := eq_of_redirect hread hsplit
    obtain ⟨htrim, hstrip⟩ := fits_of_read hread
    exact ⟨⟨htrim, quoted, henc⟩, hstrip⟩
  · -- another redirect was read on the way, but the rest has too few close tags for it
    have hcost : p.redirectCost = closings s.toList + 1 := by
      simp [Policy.redirectCost, Policy.redirectTarget?, hs, hempty, Option.filter_some]
    have hsupply : Reading.supply { p.atRedirect with place := .inside .effects, policy } more =
        closingsIn p.atRedirect.policy.plainTexts + closings more := by
      have hplain := closingsIn_redirect hpolicy
      simp only [Reading.supply, Place.attributes, List.map_nil, closingsIn_nil, hplain]
      rfl
    have htake : closingsIn p.plainTexts + p.redirectCost ≤
        closingsIn p.atRedirect.policy.plainTexts + closings more := hsupply ▸ hless
    have hrestLines := closings_restLines p
    have hleft := closings_left hsplit
    rw [← hrest] at hrestLines
    omega

/-! ### The sources -/

/-- The source met so far in the open tag of an element of a kind. -/
def Place.source? (e : Element) : Place → Option String
  | .elementTag e' attributes => if e' = e then attributes.lookup "source" else none
  | _ => none

theorem Place.source?_of_attributes {e : Element} {place : Place} (h : place.attributes = []) :
    place.source? e = none := by
  cases place with
  | elementTag e' attributes =>
    obtain rfl : attributes = [] := h
    simp [Place.source?]
  | _ => rfl

/-- A source that was met stays the next one of its kind. -/
theorem sources_isPrefix_of_outcome {e : Element} (he : e.isDirective = true) {r : Reading} {mode : Mode}
    {cs : List Char} {q : Policy} (hbody : r.place.isBody = false) (hmode : r.place.inTag = true → mode = .tag)
    (h : r.outcome mode cs = some q) :
    (r.policy.directives e).map (·.source) ++ (r.place.source? e).toList <+: (q.directives e).map (·.source) := by
  refine Reading.outcome_induction (motive := fun r _ _ =>
      (r.policy.directives e).map (·.source) ++ (r.place.source? e).toList <+: (q.directives e).map (·.source))
    ?closed ?passed ?outside ?attr ?element hbody hmode h
  case closed =>
    rintro r mode cs hplace rfl
    rw [hplace]
    simp [Place.source?]
  case passed =>
    intro r mode s cs ih
    exact ih
  case outside =>
    intro r r' mode next source cs hpolicy hne hattrs ih
    have hnone : r.place.source? e = none := by
      cases hplace : r.place with
      | elementTag e' attributes => exact absurd hplace (hne e' attributes)
      | _ => rfl
    rw [hpolicy, Place.source?_of_attributes hattrs] at ih
    rwa [hnone]
  case attr =>
    intro r e' attributes source name value cs hplace hspell ih
    refine List.IsPrefix.trans ?_ ih
    simp only [Reading.moveTo, hplace, Place.source?]
    by_cases he' : e' = e
    · cases hlookup : attributes.lookup "source" with
      | none => simp [he']
      | some v => simp [he', List.lookup_append, hlookup]
    · simp [he']
  case element =>
    intro r r' e' attributes opening source b cs hplace hopening hends hclose ih
    obtain ⟨policy, hpolicy, rfl⟩ := Reading.closeElement_eq hclose
    refine List.IsPrefix.trans ?_ ih
    by_cases he' : e' = e
    · subst he'
      have hsource := opening_source hopening
      rw [if_pos he] at hsource
      rw [close_directives hpolicy, if_pos he, hplace]
      cases hlookup : attributes.lookup "source" with
      | none => simp [Place.source?, hlookup]
      | some v => simp [Place.source?, hlookup, hsource]
    · have hframe := (close_frame hpolicy (Ne.symm he')).2.2
      simp [hframe, hplace, Place.source?, he']

/-- A quote ends what was quoted in either way, where it stands or before. -/
theorem exists_quotedBy {s : List Char} (hs : QuotedBy '"' s ∨ QuotedBy '\'' s) (more : List Char) :
    ∃ v rest, s ++ '"' :: more = v ++ '"' :: rest ∧ QuotedBy '"' v := by
  rcases hs with hs | hs
  · exact ⟨s, more, rfl, hs⟩
  · induction hs with
    | nil => exact ⟨[], more, rfl, .nil⟩
    | escape c _ ih =>
      obtain ⟨v, rest, hsplit, hv⟩ := ih
      exact ⟨'\\' :: c :: v, rest, by simp [hsplit], .escape c hv⟩
    | @char c body hc hq _ ih =>
      by_cases hquote : c = '"'
      · exact ⟨[], body ++ '"' :: more, by simp [hquote], .nil⟩
      · obtain ⟨v, rest, hsplit, hv⟩ := ih
        exact ⟨c :: v, rest, by simp [hsplit], .char hc hquote hv⟩

theorem directives_add (p : Policy) {e : Element} (he : e.isDirective = true) (d : Directive) :
    Policy.directives { p with logging := p.logging.add (e, d) } e = p.directives e ++ [d] := by
  cases e <;> first | rfl | exact absurd he (by decide)

/-- Directives that are added come after those that are there. -/
theorem directives_isPrefix_foldl (p : Policy) (e : Element) (entries : List (Element × Directive)) :
    p.directives e <+: Policy.directives { p with logging := entries.foldl Logging.add p.logging } e := by
  induction entries generalizing p with
  | nil => exact List.prefix_refl _
  | cons x entries ih =>
    have hfirst : p.directives e <+: Policy.directives { p with logging := p.logging.add x } e := by
      obtain ⟨e', d⟩ := x
      cases e' <;> cases e <;> first | exact List.prefix_refl _ | exact List.prefix_append _ _
    exact hfirst.trans (ih { p with logging := p.logging.add x })

private theorem closesBeforeMarkup_entries {rest : List Char} (hrest : closesBeforeMarkup rest = false)
    (entries : List (Element × Directive)) :
    closesBeforeMarkup ((ofLines (entries.map fun x => directiveLine x.1.tag x.2)).toList ++ rest) = false := by
  cases entries with
  | nil => exact hrest
  | cons x entries =>
    have hline := closesBeforeMarkup_tagged x.1 [("source", x.2.source), ("priority", renderInt x.2.priority.toInt)]
      x.2.message.toList ((ofLines (entries.map fun x => directiveLine x.1.tag x.2)).toList ++ rest)
    rw [← toList_directiveLine] at hline
    simpa [ofLines] using hline

/-- A directive whose source is given back has been read up to the quote behind the source. -/
private theorem quotedBy_of_line {r : Reading} {e : Element} {d : Directive} {q : Policy} {rest : List Char}
    (hr : r.place = .inside .logging) (he : e.isDirective = true) (hsource : WasQuoted d.source)
    (h : r.outcome .content ((directiveLine e.tag d ++ "\n").toList ++ rest) = some q)
    (hq : r.policy.directives e ++ [d] <+: q.directives e) : QuotedBy '"' d.source.toList := by
  have hparent : e.parent = .logging := Element.parent_of_isDirective he
  obtain ⟨more, hline⟩ : ∃ more, (directiveLine e.tag d ++ "\n").toList ++ rest =
      "    <".toList ++ e.tag.toList ++
        ' ' :: ("source".toList ++ '=' :: '"' :: (d.source.toList ++ '"' :: more)) := by
    refine ⟨attributeText ("priority", renderInt d.priority.toInt) ++
      '>' :: (d.message.toList ++ '<' :: '/' :: (e.tag.toList ++ '>' :: '\n' :: rest)), ?_⟩
    rw [toList_directiveLine]
    unfold tagged
    simp [attributeText]
  obtain ⟨v, more', hsplit, hv⟩ := exists_quotedBy hsource more
  rw [hline, hsplit, outcome_open (hparent ▸ hr) (fun h => absurd h (Element.ne_condition he)) (by simp; decide),
    outcome_attribute rfl isName_source hv] at h
  -- the source that was read and the one that is given back stand at one place in their list
  have hread := sources_isPrefix_of_outcome he rfl (fun _ => rfl) h
  have hgiven := hq.map (·.source)
  simp only [Reading.moveTo, Place.source?, List.nil_append, ↓reduceIte, List.lookup_cons_self, Option.toList_some,
    List.map_append, List.map_cons, List.map_nil] at hread hgiven
  have hsame := List.prefix_of_prefix_length_le hgiven hread (by simp)
  have heq : d.source = String.ofList v := by simpa using hsame
  rw [heq, String.toList_ofList]
  exact hv

/-- If the directives are given back, then their sources are written as they are read. -/
theorem quotedBy_of_outcome {entries : List (Element × Directive)} {r : Reading} {q : Policy} {rest : List Char}
    (hr : r.place = .inside .logging)
    (hentries : ∀ x ∈ entries, x.1.isDirective = true ∧ Fits x.1 x.2.message ∧ WasQuoted x.2.source)
    (hrest : closesBeforeMarkup rest = false)
    (h : r.outcome .content ((ofLines (entries.map fun x => directiveLine x.1.tag x.2)).toList ++ rest) = some q)
    (hq : q.logging = entries.foldl Logging.add r.policy.logging) :
    ∀ x ∈ entries, QuotedBy '"' x.2.source.toList := by
  induction entries generalizing r with
  | nil => simp
  | cons x entries ih =>
    obtain ⟨he, hmessage, hsource⟩ := hentries x (by simp)
    have hlines : (ofLines ((x :: entries).map fun x => directiveLine x.1.tag x.2)).toList ++ rest =
        (directiveLine x.1.tag x.2 ++ "\n").toList ++
          ((ofLines (entries.map fun x => directiveLine x.1.tag x.2)).toList ++ rest) := by
      simp [ofLines]
    rw [hlines] at h
    have hfirst : QuotedBy '"' x.2.source.toList := by
      refine quotedBy_of_line hr he hsource h ?_
      have hadd := directives_isPrefix_foldl { r.policy with logging := r.policy.logging.add (x.1, x.2) } x.1 entries
      rw [directives_add r.policy he] at hadd
      have hsame : q.directives x.1 = Policy.directives { r.policy with logging := q.logging } x.1 := by
        cases x.1 <;> rfl
      rw [hsame, hq]
      exact hadd
    have hquiet := closesBeforeMarkup_entries hrest entries
    rw [(leads_directive hr he hmessage hfirst _ hquiet).2] at h
    have hlater := ih (r := { r with policy := { r.policy with logging := r.policy.logging.add (x.1, x.2) } }) hr
      (fun y hy => hentries y (by simp [hy])) h hq
    intro y hy
    rcases List.mem_cons.1 hy with rfl | hy
    · exact hfirst
    · exact hlater y hy

/-- The sources that a document gives back are written as they are read. -/
theorem sources_of_parse {p : Policy} (hp : p.Sound) (h : Policy.parse p.document = .ok p) :
    ∀ e, ∀ d ∈ p.directives e, QuotedBy '"' d.source.toList := by
  intro e d hd
  have hmem : (e, d) ∈ p.logging.entries := mem_entries.2 hd
  have hne : p.logging.entries ≠ [] := List.ne_nil_of_mem hmem
  have hentries : ∀ x ∈ p.logging.entries, x.1.isDirective = true ∧ Fits x.1 x.2.message ∧ WasQuoted x.2.source :=
    fun x hx => ⟨isDirective_of_mem (mem_entries.1 hx), hp.message (mem_entries.1 hx),
      hp.sources x.1 x.2 (mem_entries.1 hx)⟩
  have hlog : p.atLog.Leads ("  <log>" ++ "\n").toList (p.atLog.inLog {}) :=
    leads_sectionTag (s := .logging) rfl (by simp [Policy.atLog])
  have hlead := ((leads_startLines hp).append (leads_atLog hp (redirect_of_parse hp h))).append hlog
  -- what stands behind the directives
  obtain ⟨rest, hrest⟩ : ∃ rest, rest = (ofLines (["  </log>"] ++ conditionLines p.condition)).toList ++
      "</policy>".toList := ⟨_, rfl⟩
  have hquiet : closesBeforeMarkup rest = false := by
    have htag : rest = "  ".toList ++ '<' :: '/' :: ("log>\n".toList ++
        ((ofLines (conditionLines p.condition)).toList ++ "</policy>".toList)) := by
      rw [hrest]
      simp [ofLines]
    rw [htag]
    exact closesBeforeMarkup_tag (List.all_eq_true.1 rfl) rfl
  rw [Policy.parse_eq_ok, p.document_eq, restLines, loggingLines_eq, if_neg hne] at h
  have hlines : (ofLines p.startLines).toList ++
      ((ofLines (p.effects.redirect.toList.map (element "redirect"))).toList ++
        ((ofLines (effectRest p.effects ++ ("  <log>" :: (p.logging.entries.map
          (fun x => directiveLine x.1.tag x.2) ++ ["  </log>"]) ++ conditionLines p.condition))).toList ++
          "</policy>".toList)) =
      (ofLines p.startLines).toList ++
        (ofLines (p.effects.redirect.toList.map (element "redirect") ++ effectRest p.effects)).toList ++
          ("  <log>" ++ "\n").toList ++
          ((ofLines (p.logging.entries.map fun x => directiveLine x.1.tag x.2)).toList ++ rest) := by
    rw [hrest]
    simp only [ofLines_append, ofLines_cons, String.toList_append, List.append_assoc, List.cons_append]
  rw [hlines, (hlead _ (closesBeforeMarkup_entries hquiet _)).2] at h
  exact quotedBy_of_outcome rfl hentries hquiet h (p.logging.foldl_add_entries.symm) (e, d) hmem

/-- The document of a policy that was read gives the policy back just if its redirect and its sources are written
as they are read. -/
theorem parse_document_iff {document : String} {p : Policy} (h : Policy.parse document = .ok p) :
    Policy.parse p.document = .ok p ↔ p.Restorable := by
  have hp : p.Sound := sound_of_parse h
  constructor
  · intro hback
    exact ⟨redirect_of_parse hp hback, sources_of_parse hp hback⟩
  · intro hq
    exact parse_document hp hq

/-- Quotes around a redirect and single quotes around a source are lost, which does no harm to these two. -/
theorem parse_document_login : ∃ p : Policy, p.Restorable ∧ Policy.parse
    "<policy><effects><redirect>\"/login\"</redirect></effects><log><onany source='audit'/></log></policy>" = .ok p ∧
      Policy.parse p.document = .ok p := by
  have hread : Policy.parse
      "<policy><effects><redirect>\"/login\"</redirect></effects><log><onany source='audit'/></log></policy>" =
      .ok { effects := { redirect := some "/login" }, logging := { onAny := [{ source := "audit" }] } } := by cbv
  have hrestorable : Policy.Restorable
      { effects := { redirect := some "/login" }, logging := { onAny := [{ source := "audit" }] } } := by
    constructor
    · intro s hs
      obtain rfl : "/login" = s := by simpa using hs
      exact ⟨⟨by decide, [], enclosed_of_plain (by simp)⟩, by decide⟩
    · intro e d hd
      cases e <;> simp [Policy.directives] at hd
      subst hd
      decide
  exact ⟨_, hrestorable, hread, (parse_document_iff hread).2 hrestorable⟩

/-- A double quote in a source that was written in single quotes is the end of the source where it is written. -/
theorem not_parse_document :
    ¬∀ (document : String) (p : Policy), Policy.parse document = .ok p → Policy.parse p.document = .ok p := by
  intro h
  have hread : Policy.parse "<policy><log><onany source='a\"b'/></log></policy>" =
      .ok { logging := { onAny := [{ source := "a\"b" }] } } := by cbv
  have hquoted := sources_of_parse (sound_of_parse hread) (h _ _ hread) .onAny { source := "a\"b" } (by decide)
  exact absurd hquoted (by decide)

end AccessPolicy
