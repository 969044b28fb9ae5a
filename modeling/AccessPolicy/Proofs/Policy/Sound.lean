import AccessPolicy.Proofs.Policy.Course

/-!
# What a policy that was read satisfies
-/

namespace AccessPolicy

open Markup Text

/-- The texts that are written in elements of a kind; quoted lists and numbers are no such texts. -/
def Policy.texts (p : Policy) : Element → List String
  | .id => [p.manifest.id]
  | .scope => [p.manifest.scope]
  | .version => [p.manifest.version]
  | .name => [p.manifest.name]
  | .description => [p.manifest.description]
  | .path => p.routes
  | .redirect => p.effects.redirect.toList
  | .returnMessage => p.effects.returnMessage.toList
  | .condition => [p.condition]
  | .onPermit => p.logging.onPermit.map (·.message)
  | .onDeny => p.logging.onDeny.map (·.message)
  | .onAny => p.logging.onAny.map (·.message)
  | .priority | .allow | .deny | .returnCode => []

/-- The rights in the list of a kind. -/
def Policy.rights (p : Policy) : Element → List String
  | .allow => p.effects.allowed
  | .deny => p.effects.denied
  | _ => []

/-- The directives of a kind. -/
def Policy.directives (p : Policy) : Element → List Directive
  | .onPermit => p.logging.onPermit
  | .onDeny => p.logging.onDeny
  | .onAny => p.logging.onAny
  | _ => []

/-- A text that an element gives back as it was written there. -/
def Fits (e : Element) (s : String) : Prop :=
  trim s.toList = s.toList ∧ ∃ quoted, Enclosed e.tag .content s.toList quoted

theorem Fits.ofList_trim {e : Element} {s : String} (h : Fits e s) : String.ofList (trim s.toList) = s := by
  rw [h.1, String.ofList_toList]

/-- An element that ends leaves the elements of other kinds alone. -/
theorem close_frame {e : Element} {opening : Opening} {b : Body} {p p' : Policy} (h : e.close opening b p = .ok p')
    {e' : Element} (he : e' ≠ e) :
    p'.texts e' = p.texts e' ∧ p'.rights e' = p.rights e' ∧ p'.directives e' = p.directives e' := by
  cases e <;> simp only [Element.close] at h
  case priority =>
    split at h
    · obtain rfl := Except.ok.inj h
      cases e' <;> exact ⟨rfl, rfl, rfl⟩
    · exact absurd h (by simp)
  case returnCode =>
    split at h
    · obtain rfl := Except.ok.inj h
      cases e' <;> exact ⟨rfl, rfl, rfl⟩
    · exact absurd h (by simp)
  case path =>
    obtain rfl := Except.ok.inj h
    split <;> cases e' <;> first | exact absurd rfl he | exact ⟨rfl, rfl, rfl⟩
  all_goals
    obtain rfl := Except.ok.inj h
    cases e' <;> first | exact absurd rfl he | exact ⟨rfl, rfl, rfl⟩

/-- Its own text is the last one, or the only one; a route met before and what is no text add none. -/
theorem close_texts {e : Element} {opening : Opening} {b : Body} {p p' : Policy} (h : e.close opening b p = .ok p')
    (he : e ≠ .redirect) :
    p'.texts e = p.texts e ∨ ∃ before, (before = [] ∨ before = p.texts e) ∧
      p'.texts e = before ++ [String.ofList (trim b.text)] := by
  cases e <;> simp only [Element.close] at h
  case redirect => exact absurd rfl he
  case priority =>
    split at h
    · obtain rfl := Except.ok.inj h
      exact .inl rfl
    · exact absurd h (by simp)
  case returnCode =>
    split at h
    · obtain rfl := Except.ok.inj h
      exact .inl rfl
    · exact absurd h (by simp)
  case path =>
    obtain rfl := Except.ok.inj h
    split
    · exact .inl rfl
    · exact .inr ⟨_, .inr rfl, rfl⟩
  case onPermit => obtain rfl := Except.ok.inj h; exact .inr ⟨_, .inr rfl, by simp [Policy.texts]⟩
  case onDeny => obtain rfl := Except.ok.inj h; exact .inr ⟨_, .inr rfl, by simp [Policy.texts]⟩
  case onAny => obtain rfl := Except.ok.inj h; exact .inr ⟨_, .inr rfl, by simp [Policy.texts]⟩
  case allow => obtain rfl := Except.ok.inj h; exact .inl rfl
  case deny => obtain rfl := Except.ok.inj h; exact .inl rfl
  all_goals
    obtain rfl := Except.ok.inj h
    exact .inr ⟨[], .inl rfl, rfl⟩

theorem close_redirect {opening : Opening} {b : Body} {p p' : Policy}
    (h : Element.redirect.close opening b p = .ok p') :
    p'.effects.redirect = some (String.ofList (stripQuotes (trim b.text))) := by
  rw [← Except.ok.inj h]

theorem mem_rights_close {e : Element} {opening : Opening} {b : Body} {p p' : Policy}
    (h : e.close opening b p = .ok p') {s : String} (hs : s ∈ p'.rights e) : s ∈ p.rights e ∨ s ∈ b.literals := by
  cases e
  case allow =>
    rw [← Except.ok.inj h] at hs
    exact List.mem_append.1 hs
  case deny =>
    rw [← Except.ok.inj h] at hs
    exact List.mem_append.1 hs
  all_goals exact absurd hs List.not_mem_nil

theorem close_directives {e : Element} {opening : Opening} {b : Body} {p p' : Policy}
    (h : e.close opening b p = .ok p') :
    p'.directives e = p.directives e ++
      if e.isDirective then [⟨opening.source, opening.priority, String.ofList (trim b.text)⟩] else [] := by
  cases e
  case onPermit => rw [← Except.ok.inj h]; rfl
  case onDeny => rw [← Except.ok.inj h]; rfl
  case onAny => rw [← Except.ok.inj h]; rfl
  all_goals rfl

theorem close_routes {e : Element} {opening : Opening} {b : Body} {p p' : Policy} (h : e.close opening b p = .ok p') :
    p'.routes = p.routes ∨
      ∃ route, route ≠ "" ∧ route ∉ p.routes ∧ p'.routes = p.routes ++ [route] := by
  by_cases he : e = .path
  · subst he
    simp only [Element.close, Except.ok.injEq] at h
    split at h
    · exact .inl (by rw [h])
    · rename_i hnew
      simp only [Bool.or_eq_true, List.isEmpty_iff, List.contains_iff_mem, not_or] at hnew
      refine .inr ⟨String.ofList (trim b.text), ?_, hnew.2, by rw [← h]⟩
      intro hempty
      exact hnew.1 (by simpa using congrArg String.toList hempty)
  · exact .inl (close_frame h (Ne.symm he)).1

theorem opening_source {e : Element} {attributes : List (String × String)} {opening : Opening}
    (h : e.opening attributes = .ok opening) :
    opening.source = if e.isDirective then (attributes.lookup "source").getD "" else "" := by
  unfold Element.opening at h
  split at h
  · rename_i hdirective
    rw [if_pos hdirective]
    split at h
    · rw [← Except.ok.inj h]
    · split at h
      · rw [← Except.ok.inj h]
      · exact absurd h (by simp)
  · rename_i hdirective
    rw [if_neg hdirective]
    split at h
    · split at h
      · rw [← Except.ok.inj h]
      · split at h
        · rw [← Except.ok.inj h]
        · exact absurd h (by simp)
    · rw [← Except.ok.inj h]

/-! ### The invariant -/

/-- A text that was between quotes of one of the two kinds. -/
def WasQuoted (s : String) : Prop := QuotedBy '"' s.toList ∨ QuotedBy '\'' s.toList

/-- What every policy that was read satisfies. -/
structure Policy.Sound (p : Policy) : Prop where
  texts : ∀ e, e ≠ .redirect → ∀ s ∈ p.texts e, Fits e s
  rights : ∀ e, ∀ s ∈ p.rights e, Literal s.toList
  sources : ∀ e, ∀ d ∈ p.directives e, WasQuoted d.source
  nodup : p.routes.Nodup
  nonempty : "" ∉ p.routes

theorem Fits.empty (e : Element) : Fits e "" := ⟨rfl, [], .nil⟩

theorem Policy.Sound.default : ({} : Policy).Sound where
  texts e _ s hs := by
    have hempty : ∀ s ∈ Policy.texts {} e, s = "" := by
      cases e <;> simp [Policy.texts]
    rw [hempty s hs]
    exact Fits.empty e
  rights e s hs := by cases e <;> exact absurd hs List.not_mem_nil
  sources e d hd := by cases e <;> exact absurd hd List.not_mem_nil
  nodup := List.nodup_nil
  nonempty := List.not_mem_nil

theorem stripQuotes_quoted (body : List Char) : stripQuotes ('"' :: (body ++ ['"'])) = body := by
  simp [stripQuotes]

theorem Enclosed.literals {tag : String} {mode : Mode} {x : List Char} {quoted : List String}
    (h : Enclosed tag mode x quoted) : ∀ s ∈ quoted, Literal s.toList := by
  induction h with
  | nil => simp
  | passed _ _ ih => exact ih
  | token hspell _ _ ih =>
    intro s hs
    rcases List.mem_append.1 hs with hs | hs
    · cases hspell with
      | literal hl =>
        rw [quotedIn, String.toList_ofList, stripQuotes_quoted, List.mem_singleton] at hs
        rwa [hs, String.toList_ofList]
      | _ => exact absurd hs List.not_mem_nil
    · exact ih s hs

theorem Policy.Sound.close {e : Element} {opening : Opening} {b : Body} {p p' : Policy} (hp : p.Sound)
    (hb : Enclosed e.tag .content b.text b.literals) (hsource : WasQuoted opening.source)
    (h : e.close opening b p = .ok p') : p'.Sound where
  texts e' hne s hs := by
    by_cases he : e' = e
    · subst he
      rcases close_texts h hne with htexts | ⟨before, hbefore, htexts⟩
      · exact hp.texts e' hne s (htexts ▸ hs)
      · rw [htexts, List.mem_append, List.mem_singleton] at hs
        rcases hs with hs | rfl
        · rcases hbefore with rfl | rfl
          · exact absurd hs List.not_mem_nil
          · exact hp.texts e' hne s hs
        · exact ⟨by rw [String.toList_ofList, trim_trim], _, by rw [String.toList_ofList]; exact hb.trim⟩
    · exact hp.texts e' hne s ((close_frame h he).1 ▸ hs)
  rights e' s hs := by
    by_cases he : e' = e
    · subst he
      rcases mem_rights_close h hs with hs | hs
      · exact hp.rights e' s hs
      · exact hb.literals s hs
    · exact hp.rights e' s ((close_frame h he).2.1 ▸ hs)
  sources e' d hd := by
    by_cases he : e' = e
    · subst he
      rw [close_directives h] at hd
      rcases List.mem_append.1 hd with hd | hd
      · exact hp.sources e' d hd
      · split at hd
        · rw [List.mem_singleton.1 hd]
          exact hsource
        · exact absurd hd List.not_mem_nil
    · exact hp.sources e' d ((close_frame h he).2.2 ▸ hd)
  nodup := by
    rcases close_routes h with hroutes | ⟨route, -, hnew, hroutes⟩
    · exact hroutes ▸ hp.nodup
    · rw [hroutes, List.nodup_append]
      refine ⟨hp.nodup, by simp, ?_⟩
      rintro a ha b hb rfl
      exact hnew (List.mem_singleton.1 hb ▸ ha)
  nonempty := by
    rcases close_routes h with hroutes | ⟨route, hne, -, hroutes⟩
    · exact hroutes ▸ hp.nonempty
    · rw [hroutes, List.mem_append, List.mem_singleton, not_or]
      exact ⟨hp.nonempty, hne.symm⟩

theorem sound_of_outcome {r : Reading} {mode : Mode} {cs : List Char} {q : Policy} (hbody : r.place.isBody = false)
    (hmode : r.place.inTag = true → mode = .tag) (h : r.outcome mode cs = some q) (hr : r.policy.Sound)
    (hvalues : ∀ a ∈ r.place.attributes, WasQuoted a.2) : q.Sound := by
  revert hr hvalues
  refine Reading.outcome_induction (motive := fun r _ _ => r.policy.Sound →
    (∀ a ∈ r.place.attributes, WasQuoted a.2) → q.Sound) ?closed ?passed ?outside ?attr ?element hbody hmode h
  case closed =>
    rintro r mode cs - rfl hr -
    exact hr
  case passed =>
    intro r mode s cs ih
    exact ih
  case outside =>
    intro r r' mode next source cs hpolicy _ hattrs ih hr _
    exact ih (hpolicy ▸ hr) (by simp [hattrs])
  case attr =>
    intro r e attributes source name value cs hplace hspell ih hr hvalues
    refine ih hr fun a ha => ?_
    rcases List.mem_append.1 ha with ha | ha
    · exact hvalues a (by rwa [hplace])
    · obtain rfl := List.mem_singleton.1 ha
      cases hspell with
      | attr _ _ _ hq hvalue => rcases hq with rfl | rfl <;> simp [WasQuoted, hvalue]
  case element =>
    intro r r' e attributes opening source b cs hplace hopening hends hclose ih hr hvalues
    obtain ⟨policy, hpolicy, rfl⟩ := Reading.closeElement_eq hclose
    refine ih (hr.close ?_ ?_ hpolicy) (by simp [Place.attributes])
    · cases hends with
      | selfClose => exact .nil
      | closeTag henc _ => exact henc
    · rw [opening_source hopening]
      split
      · cases hlookup : attributes.lookup "source" with
        | none => exact .inl .nil
        | some v =>
          obtain ⟨l₁, l₂, hsplit, -⟩ := List.lookup_eq_some_iff.1 hlookup
          exact hvalues ("source", v) (by simp [hplace, Place.attributes, hsplit])
      · exact .inl .nil

theorem sound_of_parse {document : String} {p : Policy} (h : Policy.parse document = .ok p) : p.Sound :=
  sound_of_outcome rfl (by simp [Place.inTag]) (Policy.parse_eq_ok.1 h) .default (by simp [Place.attributes])

end AccessPolicy
