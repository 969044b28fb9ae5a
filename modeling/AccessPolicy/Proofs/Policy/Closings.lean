import AccessPolicy.Proofs.Policy.Rendering
import AccessPolicy.Proofs.Text.Occurrences

/-!
# Close tags of the redirect

A redirect may hold what ends it, behind a backslash in quotes or in a comment, and without its quotes it may end
earlier than it did.  That it is not put together again from what follows is a matter of counting: the texts of a
policy that was read hold `</redirect` no more often than the document does, and if its redirect was read on the
way, that took one more (`closings_le_of_outcome`).
-/

namespace AccessPolicy

open Markup Text

/-- How often the close tag of the redirect begins in a text. -/
def closings (s : List Char) : Nat := occurrences "</redirect".toList s

theorem closings_le_of_isInfix {s t : List Char} (h : s <:+: t) : closings s ≤ closings t :=
  occurrences_le_of_isInfix h

theorem closings_add_le (s t : List Char) : closings s + closings t ≤ closings (s ++ t) :=
  occurrences_add_le s t

theorem closings_append_cons {d : Char} (hd : d ∉ "/redirect".toList) (s t : List Char) :
    closings (s ++ d :: t) = closings s + closings (d :: t) :=
  occurrences_append_cons hd s t

theorem closings_cons {c : Char} (hc : c ≠ '<') (s : List Char) : closings (c :: s) = closings s :=
  occurrences_cons (by simpa using hc.symm) (by decide) s

theorem closings_eq_zero {s : List Char} (hs : '<' ∉ s) : closings s = 0 := occurrences_eq_zero rfl hs

/-- How often it begins in texts, taken one by one. -/
def closingsIn : List String → Nat
  | [] => 0
  | s :: texts => closings s.toList + closingsIn texts

@[simp] theorem closingsIn_nil : closingsIn [] = 0 := rfl

@[simp] theorem closingsIn_cons (s : String) (texts : List String) :
    closingsIn (s :: texts) = closings s.toList + closingsIn texts := rfl

@[simp] theorem closingsIn_append (texts more : List String) :
    closingsIn (texts ++ more) = closingsIn texts + closingsIn more := by
  induction texts with
  | nil => simp
  | cons s texts ih => rw [List.cons_append, closingsIn_cons, closingsIn_cons, ih, Nat.add_assoc]

theorem closings_le_closingsIn {s : String} {texts : List String} (h : s ∈ texts) :
    closings s.toList ≤ closingsIn texts := by
  induction texts with
  | nil => exact absurd h List.not_mem_nil
  | cons t texts ih =>
    rw [closingsIn_cons]
    rcases List.mem_cons.1 h with rfl | h
    · omega
    · have := ih h
      omega

/-- The sources and the messages of directives. -/
def directiveTexts (ds : List Directive) : List String := ds.flatMap fun d => [d.source, d.message]

/-- The texts of a policy that stand as they are in a document, but for its redirect. -/
def Policy.plainTexts (p : Policy) : List String :=
  [p.manifest.id, p.manifest.scope, p.manifest.version, p.manifest.name, p.manifest.description] ++
    (p.routes ++ (p.effects.returnMessage.toList ++ (directiveTexts p.logging.onPermit ++
      (directiveTexts p.logging.onDeny ++ (directiveTexts p.logging.onAny ++ [p.condition])))))

/-- An element adds at most its body and its source. -/
theorem closingsIn_close {e : Element} {opening : Opening} {b : Body} {p p' : Policy}
    (h : e.close opening b p = .ok p') :
    closingsIn p'.plainTexts ≤ closingsIn p.plainTexts + closings (trim b.text) + closings opening.source.toList := by
  cases e <;> simp only [Element.close] at h
  case priority =>
    split at h
    · obtain rfl := Except.ok.inj h
      simp [Policy.plainTexts]
      omega
    · exact absurd h (by simp)
  case returnCode =>
    split at h
    · obtain rfl := Except.ok.inj h
      simp [Policy.plainTexts]
      omega
    · exact absurd h (by simp)
  case path =>
    obtain rfl := Except.ok.inj h
    split
    · omega
    · simp [Policy.plainTexts]
      omega
  all_goals
    obtain rfl := Except.ok.inj h
    simp [Policy.plainTexts, directiveTexts]
    omega

theorem closingsIn_redirect {opening : Opening} {b : Body} {p p' : Policy}
    (h : Element.redirect.close opening b p = .ok p') : closingsIn p'.plainTexts = closingsIn p.plainTexts := by
  rw [← Except.ok.inj h]
  rfl

/-- The redirect of another element stays. -/
theorem redirect_close {e : Element} {opening : Opening} {b : Body} {p p' : Policy}
    (h : e.close opening b p = .ok p') (he : e ≠ .redirect) : p'.effects.redirect = p.effects.redirect := by
  have htexts := (close_frame h he.symm).1
  cases hp : p.effects.redirect <;> cases hp' : p'.effects.redirect <;> simp_all [Policy.texts]

theorem closings_of_ends {e : Element} {source : List Char} {b : Body} (h : Ends e source b) (cs : List Char) :
    closings (trim b.text) + closings cs ≤ closings (source ++ cs) := by
  have htrim : closings (trim b.text) ≤ closings b.text := closings_le_of_isInfix (trim_isInfix _)
  have hadd := closings_add_le source cs
  have htext : closings b.text ≤ closings source := by
    cases h with
    | selfClose => exact Nat.zero_le _
    | @closeTag x gap quoted henc hgap =>
      exact closings_le_of_isInfix ⟨['>'], '<' :: '/' :: (e.tag.toList ++ gap ++ ['>']), by simp⟩
  omega

/-- A redirect that is not empty takes its close tag too. -/
theorem closings_of_ends_redirect {source : List Char} {b : Body} (h : Ends .redirect source b) (hb : b.text ≠ [])
    (cs : List Char) : closings b.text + 1 + closings cs ≤ closings (source ++ cs) := by
  cases h with
  | selfClose => exact absurd rfl hb
  | @closeTag x gap quoted henc hgap =>
    have htag : closings "</redirect".toList = 1 := by decide
    have hsplit : '>' :: (x ++ '<' :: '/' :: (Element.redirect.tag.toList ++ gap ++ ['>'])) ++ cs =
        '>' :: x ++ ("</redirect".toList ++ (gap ++ '>' :: cs)) := by simp [Element.tag]
    have h1 := closings_add_le ('>' :: x) ("</redirect".toList ++ (gap ++ '>' :: cs))
    have h2 := closings_add_le "</redirect".toList (gap ++ '>' :: cs)
    have h3 : closings x ≤ closings ('>' :: x) := closings_le_of_isInfix ⟨['>'], [], by simp⟩
    have h4 : closings cs ≤ closings (gap ++ '>' :: cs) := closings_le_of_isInfix ⟨gap ++ ['>'], [], by simp⟩
    rw [hsplit]
    show closings x + 1 + closings cs ≤ _
    omega

theorem stripQuotes_isInfix (s : List Char) : stripQuotes s <:+: s := by
  have hend : ∀ t : List Char, (if t.getLast?.any (fun c => c == '"' || c == '\'') then t.dropLast else t) <+: t := by
    intro t
    split
    · exact List.dropLast_prefix t
    · exact List.prefix_refl t
  have hstart : (if s.head?.any (fun c => c == '"' || c == '\'') then s.drop 1 else s) <:+ s := by
    split
    · exact List.drop_suffix 1 s
    · exact List.suffix_refl s
  exact (hend _).isInfix.trans hstart.isInfix

/-- What reading the redirect takes; an empty one takes nothing. -/
def Policy.redirectCost (p : Policy) : Nat := (p.redirectTarget?.map fun s => closings s.toList + 1).getD 0

theorem redirectCost_le {p : Policy} {s : List Char} (h : p.effects.redirect = some (String.ofList s)) :
    p.redirectCost ≤ closings s + 1 ∧ (s = [] → p.redirectCost = 0) := by
  by_cases hs : s = []
  · subst hs
    simp [Policy.redirectCost, Policy.redirectTarget?, h, Option.filter_some]
  · simp [Policy.redirectCost, Policy.redirectTarget?, h, Option.filter_some, hs]

theorem closings_source_le {e : Element} {attributes : List (String × String)} {opening : Opening}
    (h : e.opening attributes = .ok opening) :
    closings opening.source.toList ≤ closingsIn (attributes.map (·.2)) := by
  rw [opening_source h]
  split
  · cases hlookup : attributes.lookup "source" with
    | none => exact Nat.zero_le _
    | some v =>
      obtain ⟨l₁, l₂, rfl, -⟩ := List.lookup_eq_some_iff.1 hlookup
      exact closings_le_closingsIn (by simp)
  · exact Nat.zero_le _

/-- How often the close tag can still begin in the texts of a policy that the reading ends in. -/
def Reading.supply (r : Reading) (cs : List Char) : Nat :=
  closingsIn r.policy.plainTexts + closingsIn (r.place.attributes.map (·.2)) + closings cs

/-- The policy that a reading ends in takes no more than there is, also with its redirect if that is new. -/
theorem closings_le_of_outcome {r : Reading} {mode : Mode} {cs : List Char} {q : Policy}
    (hbody : r.place.isBody = false) (hmode : r.place.inTag = true → mode = .tag) (h : r.outcome mode cs = some q) :
    closingsIn q.plainTexts ≤ r.supply cs ∧
      (q.effects.redirect = r.policy.effects.redirect ∨ closingsIn q.plainTexts + q.redirectCost ≤ r.supply cs) := by
  refine Reading.outcome_induction (motive := fun r _ cs => closingsIn q.plainTexts ≤ r.supply cs ∧
      (q.effects.redirect = r.policy.effects.redirect ∨ closingsIn q.plainTexts + q.redirectCost ≤ r.supply cs))
    ?closed ?passed ?outside ?attr ?element hbody hmode h
  case closed =>
    rintro r mode cs - rfl
    refine ⟨?_, .inl rfl⟩
    unfold Reading.supply
    omega
  case passed =>
    rintro r mode s cs ⟨ih, ih'⟩
    have hcs : r.supply cs ≤ r.supply (s ++ cs) := by
      have := closings_add_le s cs
      unfold Reading.supply
      omega
    exact ⟨by omega, ih'.imp_right fun h => by omega⟩
  case outside =>
    rintro r r' mode next source cs hpolicy - hattrs ⟨ih, ih'⟩
    have hcs : r'.supply cs ≤ r.supply (source ++ cs) := by
      have := closings_add_le source cs
      simp only [Reading.supply, hpolicy, hattrs, List.map_nil, closingsIn_nil]
      omega
    rw [hpolicy] at ih'
    exact ⟨by omega, ih'.imp_right fun h => by omega⟩
  case attr =>
    rintro r e attributes source name value cs hplace hspell ⟨ih, ih'⟩
    have hvalue : closings value.toList ≤ closings source := by
      cases hspell with
      | @attr name before after value rest q hname hbefore hafter hq hquoted =>
        rw [String.toList_ofList]
        exact closings_le_of_isInfix ⟨name ++ (before ++ '=' :: (after ++ [q])), [q], by simp⟩
    have hcs : (r.moveTo (.elementTag e (attributes ++ [(name, value)]))).supply cs ≤ r.supply (source ++ cs) := by
      have := closings_add_le source cs
      simp only [Reading.supply, Reading.moveTo, hplace, Place.attributes, List.map_append, closingsIn_append,
        List.map_cons, List.map_nil, closingsIn_cons, closingsIn_nil]
      omega
    exact ⟨by omega, ih'.imp_right fun h => by omega⟩
  case element =>
    rintro r r' e attributes opening source b cs hplace hopening hends hclose ⟨ih, ih'⟩
    obtain ⟨policy, hpolicy, rfl⟩ := Reading.closeElement_eq hclose
    have hafter : Reading.supply { r with place := .inside e.parent, policy } cs =
        closingsIn policy.plainTexts + closings cs := by simp [Reading.supply, Place.attributes]
    have hbefore : r.supply (source ++ cs) =
        closingsIn r.policy.plainTexts + closingsIn (attributes.map (·.2)) + closings (source ++ cs) := by
      simp [Reading.supply, hplace, Place.attributes]
    have hends' := closings_of_ends hends cs
    rw [hafter] at ih ih'
    rw [hbefore]
    -- a redirect leaves the texts as they are and takes its close tag; another element takes what it holds
    by_cases he : e = .redirect
    · subst he
      have hplain := closingsIn_redirect hpolicy
      refine ⟨by omega, .inr ?_⟩
      rcases ih' with hsame | hless
      · have hcost := redirectCost_le (hsame.trans (close_redirect hpolicy))
        by_cases hb : b.text = []
        · rw [hb] at hcost
          have hzero : q.redirectCost = 0 := hcost.2 rfl
          omega
        · have htag := closings_of_ends_redirect hends hb cs
          have hstrip : closings (stripQuotes (trim b.text)) ≤ closings b.text :=
            closings_le_of_isInfix ((stripQuotes_isInfix _).trans (trim_isInfix _))
          have hone := hcost.1
          omega
      · omega
    · have hplain := closingsIn_close hpolicy
      have hsource := closings_source_le hopening
      have hless : closingsIn policy.plainTexts + closings cs ≤
          closingsIn r.policy.plainTexts + closingsIn (attributes.map (·.2)) + closings (source ++ cs) := by omega
      have hsame : policy.effects.redirect = r.policy.effects.redirect := redirect_close hpolicy he
      exact ⟨by omega, ih'.imp (fun h => h.trans hsame) fun h => by omega⟩

/-! ### In a written policy -/

open Reading Policy

theorem closings_line (line : String) : closings (line ++ "\n").toList = closings line.toList := by
  have hsplit : (line ++ "\n").toList = line.toList ++ ['\n'] := by simp
  rw [hsplit, closings_append_cons (by decide)]
  rfl

theorem closings_ofLines (lines : List String) (t : List Char) :
    closings ((ofLines lines).toList ++ t) = closingsIn lines + closings t := by
  induction lines with
  | nil => simp [ofLines]
  | cons line lines ih =>
    have hsplit : (ofLines (line :: lines)).toList ++ t = line.toList ++ '\n' :: ((ofLines lines).toList ++ t) := by
      simp [ofLines]
    rw [hsplit, closings_append_cons (by decide), closings_cons (by decide), ih, closingsIn_cons]
    omega

private theorem closings_attributes {attributes : List (String × String)} (h : ∀ a ∈ attributes, '<' ∉ a.1.toList)
    (s : List Char) :
    closings (s ++ attributes.flatMap attributeText) = closings s + closingsIn (attributes.map (·.2)) := by
  induction attributes generalizing s with
  | nil => simp
  | cons a attributes ih =>
    have hname : closings a.1.toList = 0 := closings_eq_zero (h a (by simp))
    have hrest := ih (fun a ha => h a (by simp [ha])) ['"']
    have hsplit : s ++ (a :: attributes).flatMap attributeText =
        s ++ ' ' :: (a.1.toList ++ '=' :: '"' :: (a.2.toList ++ '"' :: attributes.flatMap attributeText)) := by
      simp [attributeText]
    have hquote : closings ['"'] = 0 := rfl
    rw [List.cons_append, List.nil_append] at hrest
    rw [hsplit, closings_append_cons (by decide), closings_cons (by decide), closings_append_cons (by decide),
      closings_cons (by decide), closings_cons (by decide), closings_append_cons (by decide), hname, hrest, hquote,
      List.map_cons, closingsIn_cons]
    omega

/-- The line of an element holds the close tag as often as its values and its body do, unless it is the redirect. -/
theorem closings_tagged {e : Element} (he : e ≠ .redirect) (attributes : List (String × String))
    (h : ∀ a ∈ attributes, '<' ∉ a.1.toList) (body : List Char) :
    closings (tagged e attributes body) = closingsIn (attributes.map (·.2)) + closings body := by
  have hopen : closings ("    <".toList ++ e.tag.toList) = 0 := by cases e <;> rfl
  have hclose : closings ('<' :: '/' :: (e.tag.toList ++ ['>', '\n'])) = 0 := by
    cases e <;> first | exact absurd rfl he | rfl
  have hattrs := closings_attributes h ("    <".toList ++ e.tag.toList)
  unfold tagged
  rw [← List.append_assoc, closings_append_cons (by decide), closings_cons (by decide),
    closings_append_cons (by decide), hattrs, hopen, hclose]
  omega

theorem closings_element {e : Element} (he : e ≠ .redirect) (body : String) :
    closings (element e.tag body).toList = closings body.toList := by
  have hline := closings_tagged he [] (by simp) body.toList
  rw [← toList_element, closings_line] at hline
  simpa using hline

theorem closings_decimal (n : Int) : closings (renderInt n).toList = 0 := by
  refine closings_eq_zero fun hmem => ?_
  rw [renderInt, String.toList_ofList] at hmem
  rcases mem_decimal hmem with h | h
  · exact absurd h (by decide)
  · exact absurd h (by decide)

theorem closings_directiveLine {e : Element} (he : e ≠ .redirect) (d : Directive) :
    closings (directiveLine e.tag d).toList = closings d.source.toList + closings d.message.toList := by
  have hline := closings_tagged he [("source", d.source), ("priority", renderInt d.priority.toInt)]
    (by simp) d.message.toList
  rw [← toList_directiveLine, closings_line] at hline
  simp [closings_decimal] at hline
  omega

private theorem closingsIn_effectRest (e : Effects) :
    closingsIn (effectRest e) = closingsIn e.returnMessage.toList := by
  have hmessage : closingsIn (e.returnMessage.toList.map (element "return")) = closingsIn e.returnMessage.toList := by
    cases e.returnMessage with
    | none => rfl
    | some s =>
      have hline := closings_element (e := .returnMessage) (by decide) s
      simpa [Element.tag] using hline
  have hcode : closingsIn (e.returnCode.toList.map fun code => element "returncode" (renderInt code.toNat)) = 0 := by
    cases e.returnCode with
    | none => rfl
    | some code =>
      have hline := closings_element (e := .returnCode) (by decide) (renderInt code.toNat)
      rw [closings_decimal] at hline
      simpa [Element.tag] using hline
  have hend : closingsIn ["  </effects>"] = 0 := by decide
  rw [effectRest, closingsIn_append, closingsIn_append, hmessage, hcode, hend]
  omega

private theorem closingsIn_directiveLines {e : Element} (he : e ≠ .redirect) (ds : List Directive) :
    closingsIn (ds.map (directiveLine e.tag)) = closingsIn (directiveTexts ds) := by
  induction ds with
  | nil => rfl
  | cons d ds ih =>
    have hline := closings_directiveLine he d
    simp only [directiveTexts, List.map_cons, List.flatMap_cons, List.cons_append, List.nil_append, closingsIn_cons,
      hline] at ih ⊢
    omega

private theorem closingsIn_loggingLines (l : Logging) :
    closingsIn (loggingLines l) ≤ closingsIn (directiveTexts l.onPermit) + closingsIn (directiveTexts l.onDeny) +
      closingsIn (directiveTexts l.onAny) := by
  have hpermit := closingsIn_directiveLines (e := .onPermit) (by decide) l.onPermit
  have hdeny := closingsIn_directiveLines (e := .onDeny) (by decide) l.onDeny
  have hany := closingsIn_directiveLines (e := .onAny) (by decide) l.onAny
  have hstart : closingsIn ["  <log>"] = 0 := by decide
  have hend : closingsIn ["  </log>"] = 0 := by decide
  simp only [Element.tag] at hpermit hdeny hany
  unfold loggingLines
  split
  · exact Nat.zero_le _
  · simp only [closingsIn_append, hpermit, hdeny, hany, hstart, hend]
    omega

private theorem closingsIn_conditionLines (condition : String) :
    closingsIn (conditionLines condition) ≤ closings condition.toList := by
  have hcore : closings (trimmed condition).toList ≤ closings condition.toList := by
    rw [trimmed, String.toList_ofList]
    exact closings_le_of_isInfix (trim_isInfix _)
  have hline := closings_tagged (e := .condition) (by decide) [("type", "json")] (by simp) (trimmed condition).toList
  have hjson : closings "json".toList = 0 := by decide
  rw [← toList_conditionLine, closings_line] at hline
  unfold conditionLines
  dsimp only
  split
  · exact Nat.zero_le _
  · have hstart : closings "  <matches>".toList = 0 := by decide
    have hend : closings "  </matches>".toList = 0 := by decide
    simp only [List.map_cons, List.map_nil, closingsIn_cons, closingsIn_nil, hjson] at hline ⊢
    omega

/-- What stands behind the redirect of a document holds the close tag only in texts that are not read before. -/
theorem closings_restLines (p : Policy) :
    closingsIn p.atRedirect.policy.plainTexts + closings ((ofLines p.restLines).toList ++ "</policy>".toList) ≤
      closingsIn p.plainTexts := by
  have heffects := closingsIn_effectRest p.effects
  have hlogging := closingsIn_loggingLines p.logging
  have hcondition := closingsIn_conditionLines p.condition
  have hroot : closings "</policy>".toList = 0 := by decide
  rw [closings_ofLines, restLines, closingsIn_append, closingsIn_append, heffects, hroot]
  simp only [plainTexts, atRedirect, closingsIn_append, closingsIn_cons, closingsIn_nil]
  have hnone : closings "".toList = 0 := rfl
  simp only [Option.toList_none, directiveTexts, List.flatMap_nil, closingsIn_nil, hnone] at hlogging ⊢
  omega

end AccessPolicy
