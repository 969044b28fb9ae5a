import AccessPolicy.Proofs.Policy.Line

/-!
# Reading a written policy

The document of a policy is read back as that policy when what was read is as it should be (`Policy.Sound`) and the
redirect and the sources are given back too (`Policy.Restorable`): each section leads to the policy with what the
section says, and the sections one after the other to the whole (`parse_document`).
-/

namespace AccessPolicy

open Markup Text

/-- The two parts of a policy that were read but may be written in a way that is read differently: the redirect has
lost its quotes, and a source may have been written in single quotes. -/
structure Policy.Restorable (p : Policy) : Prop where
  redirect : ∀ s ∈ p.effects.redirect, Fits .redirect s ∧ stripQuotes s.toList = s.toList
  sources : ∀ e, ∀ d ∈ p.directives e, QuotedBy '"' d.source.toList

/-! ### The directives of a log -/

namespace Logging

/-- The log with one more directive of a kind. -/
def add (l : Logging) : Element × Directive → Logging
  | (.onPermit, d) => { l with onPermit := l.onPermit ++ [d] }
  | (.onDeny, d) => { l with onDeny := l.onDeny ++ [d] }
  | (.onAny, d) => { l with onAny := l.onAny ++ [d] }
  | _ => l

/-- The directives and their kinds, in the order in which they are written. -/
def entries (l : Logging) : List (Element × Directive) :=
  l.onPermit.map (Element.onPermit, ·) ++ (l.onDeny.map (Element.onDeny, ·) ++ l.onAny.map (Element.onAny, ·))

private theorem foldl_add_map (e : Element) (log : List Directive → Logging)
    (hadd : ∀ done d, (log done).add (e, d) = log (done ++ [d])) (ds : List Directive) :
    (ds.map (e, ·)).foldl add (log []) = log ds := by
  induction ds using List.reverseRecOn with
  | nil => rfl
  | append_singleton ds d ih => rw [List.map_append, List.foldl_append, ih]; exact hadd ds d

/-- A log is its directives, taken one after the other. -/
theorem foldl_add_entries (l : Logging) : l.entries.foldl add {} = l := by
  have hpermit := foldl_add_map .onPermit (fun ds => { onPermit := ds }) (fun _ _ => rfl) l.onPermit
  have hdeny := foldl_add_map .onDeny (fun ds => { onPermit := l.onPermit, onDeny := ds }) (fun _ _ => rfl) l.onDeny
  have hany := foldl_add_map .onAny (fun ds => { l with onAny := ds }) (fun _ _ => rfl) l.onAny
  rw [entries, List.foldl_append, hpermit, List.foldl_append, hdeny, hany]

end Logging

theorem Element.parent_of_isDirective {e : Element} (he : e.isDirective = true) : e.parent = .logging := by
  cases e <;> simp_all [Element.isDirective, Element.parent]

theorem Element.ne_condition {e : Element} (he : e.isDirective = true) : e ≠ .condition := by
  rintro rfl
  exact absurd he (by decide)

theorem Policy.mem_entries {p : Policy} {x : Element × Directive} :
    x ∈ p.logging.entries ↔ x.2 ∈ p.directives x.1 := by
  obtain ⟨e, d⟩ := x
  cases e <;> simp [Logging.entries, Policy.directives]

theorem Policy.isDirective_of_mem {p : Policy} {e : Element} {d : Directive} (h : d ∈ p.directives e) :
    e.isDirective = true := by
  cases e <;> first | rfl | exact absurd h List.not_mem_nil

theorem Policy.Sound.message {p : Policy} (hp : p.Sound) {e : Element} {d : Directive} (h : d ∈ p.directives e) :
    Fits e d.message := by
  have he : e.isDirective = true := isDirective_of_mem h
  refine hp.texts e (by rintro rfl; exact absurd he (by decide)) _ ?_
  cases e <;> first | exact absurd he (by decide) | exact List.mem_map_of_mem h

theorem loggingLines_eq (l : Logging) :
    Policy.loggingLines l = if l.entries = [] then []
      else "  <log>" :: (l.entries.map (fun x => Policy.directiveLine x.1.tag x.2) ++ ["  </log>"]) := by
  have hempty : l.isEmpty = true ↔ l.entries = [] := by
    simp [Logging.isEmpty, Logging.entries, and_assoc]
  by_cases h : l.entries = []
  · rw [Policy.loggingLines, if_pos (hempty.2 h), if_pos h]
  · rw [Policy.loggingLines, if_neg (mt hempty.1 h), if_neg h]
    simp only [Logging.entries, List.map_append, List.map_map, List.append_assoc]
    rfl

namespace Reading

open Policy

/-! ### Lines of a document -/

theorem leads_ofLines_nil (r : Reading) : r.Leads (ofLines []).toList r := Leads.refl r

theorem leads_ofLines_cons {r₁ r₂ r₃ : Reading} {line : String} {lines : List String}
    (h₁ : r₁.Leads (line ++ "\n").toList r₂) (h₂ : r₂.Leads (ofLines lines).toList r₃) :
    r₁.Leads (ofLines (line :: lines)).toList r₃ := by
  have happend := h₁.append h₂
  rwa [← String.toList_append] at happend

theorem ofLines_cons (line : String) (lines : List String) :
    ofLines (line :: lines) = line ++ "\n" ++ ofLines lines := rfl

theorem ofLines_append (lines more : List String) : ofLines (lines ++ more) = ofLines lines ++ ofLines more := by
  induction lines with
  | nil => simp [ofLines]
  | cons line lines ih =>
    rw [List.cons_append, ofLines_cons, ofLines_cons, ih]
    simp [String.append_assoc]

theorem leads_ofLines_append {r₁ r₂ r₃ : Reading} {lines more : List String}
    (h₁ : r₁.Leads (ofLines lines).toList r₂) (h₂ : r₂.Leads (ofLines more).toList r₃) :
    r₁.Leads (ofLines (lines ++ more)).toList r₃ := by
  rw [ofLines_append, String.toList_append]
  exact h₁.append h₂

theorem toList_element (e : Element) (body : String) :
    (element e.tag body ++ "\n").toList = tagged e [] body.toList := by
  unfold element tagged
  simp

theorem toList_directiveLine (e : Element) (d : Directive) :
    (directiveLine e.tag d ++ "\n").toList =
      tagged e [("source", d.source), ("priority", renderInt d.priority.toInt)] d.message.toList := by
  unfold directiveLine tagged
  simp [attributeText]

theorem toList_conditionLine (body : String) :
    ("    <match type=\"json\">" ++ body ++ "</match>" ++ "\n").toList =
      tagged .condition [("type", "json")] body.toList := by
  unfold tagged
  simp [attributeText, Element.tag]

/-- The line of an element without attributes. -/
theorem leads_element {r : Reading} {e : Element} {body : String} {quoted : List String} (policy : Policy)
    (hr : r.place = .inside e.parent) (he : e ≠ .condition) (hbody : Enclosed e.tag .content body.toList quoted)
    (hclose : e.close {} ⟨body.toList, quoted⟩ r.policy = .ok policy) :
    r.Leads (element e.tag body ++ "\n").toList { r with policy } := by
  have hopening : e.opening [] = .ok {} := by cases e <;> rfl
  have hlead := leads_tagged [] hr (fun h => absurd h he) (by simp) hopening hbody hclose
  have hmet : (r.conditionMet || e == .condition) = r.conditionMet := by simp [he]
  rw [hmet] at hlead
  rwa [toList_element]

/-- The line of an element whose text is given back. -/
theorem leads_text {r : Reading} {e : Element} {body : String} (policy : Policy) (hr : r.place = .inside e.parent)
    (he : e ≠ .condition) (hbody : Fits e body)
    (hclose : ∀ quoted, e.close {} ⟨body.toList, quoted⟩ r.policy = .ok policy) :
    r.Leads (element e.tag body ++ "\n").toList { r with policy } := by
  obtain ⟨-, quoted, henc⟩ := hbody
  exact leads_element policy hr he henc (hclose quoted)

/-! ### Sections -/

private theorem leads_open {r r' r'' : Reading} {s : Section} {lines : List String} {line : String}
    (hline : (line ++ "\n").toList = "  <".toList ++ (s.tag.toList ++ ['>', '\n'])) (hr : r.place = .root)
    (hs : s ∉ r.opened) (hr' : { r with place := .inside s, opened := r.opened ++ [s] } = r')
    (hlead : r'.Leads (ofLines lines).toList r'') : r.Leads (ofLines (line :: lines)).toList r'' := by
  refine leads_ofLines_cons ?_ hlead
  rw [hline, ← hr']
  exact leads_sectionTag hr hs

private theorem leads_end {r : Reading} {s : Section} {line : String}
    (hline : (line ++ "\n").toList = "  </".toList ++ (s.tag.toList ++ ['>', '\n'])) (hr : r.place = .inside s) :
    r.Leads (ofLines [line]).toList (r.moveTo .root) := by
  refine leads_ofLines_cons ?_ (leads_ofLines_nil _)
  rw [hline]
  exact leads_sectionEnd hr

private theorem enclosed_decimal (tag : String) (n : Int) : Enclosed tag .content (decimal n) [] := by
  refine enclosed_of_plain fun c hc => ?_
  rcases mem_decimal hc with hc | rfl
  · constructor <;> rintro rfl <;> exact absurd hc (by decide)
  · decide

theorem leads_manifest {p : Policy} (hp : p.Sound) {r : Reading} (hr : r.place = .root)
    (hs : .manifest ∉ r.opened) :
    r.Leads (ofLines (manifestLines p.manifest)).toList
      { r with policy := { r.policy with manifest := p.manifest }, opened := r.opened ++ [.manifest] } := by
  have hid : Fits .id p.manifest.id := hp.texts .id (by decide) _ (by simp [Policy.texts])
  have hscope : Fits .scope p.manifest.scope := hp.texts .scope (by decide) _ (by simp [Policy.texts])
  have hversion : Fits .version p.manifest.version := hp.texts .version (by decide) _ (by simp [Policy.texts])
  have hname : Fits .name p.manifest.name := hp.texts .name (by decide) _ (by simp [Policy.texts])
  have hdesc : Fits .description p.manifest.description := hp.texts .description (by decide) _ (by simp [Policy.texts])
  refine leads_open rfl hr hs rfl ?_
  refine leads_ofLines_cons (leads_text (e := .id)
    { r.policy with manifest := { r.policy.manifest with id := p.manifest.id } }
    rfl (by decide) hid fun quoted => by simp [Element.close, hid.ofList_trim]) ?_
  refine leads_ofLines_cons (leads_text (e := .scope)
    { r.policy with manifest := { r.policy.manifest with id := p.manifest.id, scope := p.manifest.scope } }
    rfl (by decide) hscope fun quoted => by simp [Element.close, hscope.ofList_trim]) ?_
  refine leads_ofLines_cons (leads_text (e := .version)
    { r.policy with manifest := { p.manifest with
      priority := r.policy.manifest.priority, name := r.policy.manifest.name
      description := r.policy.manifest.description } }
    rfl (by decide) hversion fun quoted => by simp [Element.close, hversion.ofList_trim]) ?_
  refine leads_ofLines_cons (leads_text (e := .name)
    { r.policy with manifest := { p.manifest with
      priority := r.policy.manifest.priority, description := r.policy.manifest.description } }
    rfl (by decide) hname fun quoted => by simp [Element.close, hname.ofList_trim]) ?_
  refine leads_ofLines_cons (leads_text (e := .description)
    { r.policy with manifest := { p.manifest with priority := r.policy.manifest.priority } }
    rfl (by decide) hdesc fun quoted => by simp [Element.close, hdesc.ofList_trim]) ?_
  have hnumber : Enclosed Element.priority.tag .content (renderInt p.manifest.priority.toInt).toList [] := by
    rw [renderInt, String.toList_ofList]
    exact enclosed_decimal _ _
  refine leads_ofLines_cons (leads_element (e := .priority) { r.policy with manifest := p.manifest }
    rfl (by decide) hnumber ?_) ?_
  · simp [Element.close, renderInt, trim_decimal, readInt64_decimal]
  · rw [hr]
    exact leads_end rfl rfl

private theorem leads_routes {r : Reading} (hr : r.place = .inside .paths) {routes : List String}
    (hroutes : ∀ route ∈ routes, Fits .path route ∧ route ≠ "") (hnodup : (r.policy.routes ++ routes).Nodup) :
    r.Leads (ofLines (routes.map (element "path"))).toList
      { r with policy := { r.policy with routes := r.policy.routes ++ routes } } := by
  induction routes generalizing r with
  | nil =>
    rw [List.append_nil]
    exact leads_ofLines_nil r
  | cons route routes ih =>
    obtain ⟨hfit, hne⟩ := hroutes route (by simp)
    have hnew : route ∉ r.policy.routes := fun hmem =>
      (List.nodup_append.1 hnodup).2.2 route hmem route (by simp) rfl
    have hempty : route.toList ≠ [] := fun h => hne (String.toList_inj.1 h)
    refine leads_ofLines_cons (leads_text (e := .path)
      { r.policy with routes := r.policy.routes ++ [route] } hr (by decide) hfit fun quoted => ?_) ?_
    · have hkeep : ((trim route.toList).isEmpty || r.policy.routes.contains route) = false := by
        simp [hfit.1, hnew, hempty]
      simp only [Element.close, hfit.ofList_trim, hkeep]
      rfl
    · have hlead := ih (r := { r with policy := { r.policy with routes := r.policy.routes ++ [route] } }) hr
        (fun route h => hroutes route (by simp [h])) (by simpa using hnodup)
      simpa using hlead

theorem leads_paths {p : Policy} (hp : p.Sound) {r : Reading} (hr : r.place = .root) (hs : .paths ∉ r.opened)
    (hroutes : r.policy.routes = []) :
    r.Leads (ofLines (pathLines p.routes)).toList
      { r with policy := { r.policy with routes := p.routes }, opened := r.opened ++ [.paths] } := by
  have hfit : ∀ route ∈ p.routes, Fits .path route ∧ route ≠ "" := fun route h =>
    ⟨hp.texts .path (by decide) route h, fun hempty => hp.nonempty (hempty ▸ h)⟩
  refine leads_open rfl hr hs rfl (leads_ofLines_append (leads_routes rfl hfit ?_) ?_)
  · simpa [hroutes] using hp.nodup
  · rw [hroutes, hr]
    exact leads_end rfl rfl

private theorem enclosed_quotedList (tag : String) {items : List String} (h : ∀ s ∈ items, Literal s.toList) :
    Enclosed tag .content (quotedList items).toList items := by
  induction items with
  | nil => exact .nil
  | cons s items ih =>
    have hs : Literal s.toList := h s (by simp)
    have hrest := ih fun s hs => h s (by simp [hs])
    have hquoted : quotedIn (.literal (String.ofList ('"' :: (s.toList ++ ['"'])))) = [s] := by
      rw [quotedIn, String.toList_ofList, stripQuotes_quoted, String.ofList_toList]
    cases items with
    | nil =>
      have htoken : Enclosed tag .content _ _ := .token (.literal hs) (by simp) .nil
      rw [hquoted] at htoken
      simpa [quotedList] using htoken
    | cons t items =>
      have hblank : Passed .content [' '] ((quotedList (t :: items)).toList ++ ['<', '/']) :=
        .text ⟨by simp, by simp⟩
      have htoken : Enclosed tag .content _ _ := .token (.literal hs) (by simp) (.passed hblank hrest)
      rw [hquoted] at htoken
      simpa [quotedList] using htoken

/-- The line of a list of rights, which is left out when there are none. -/
private theorem leads_rights {r : Reading} {e : Element} {items : List String} (policy : Policy)
    (hr : r.place = .inside e.parent) (he : e ≠ .condition) (hitems : ∀ s ∈ items, Literal s.toList)
    (hclose : ∀ text, e.close {} ⟨text, items⟩ r.policy = .ok policy) (hnone : items = [] → policy = r.policy) :
    r.Leads (ofLines (if items.isEmpty then [] else [element e.tag (quotedList items)])).toList
      { r with policy } := by
  split
  · rw [hnone (by simpa using ‹items.isEmpty = true›)]
    exact leads_ofLines_nil r
  · exact leads_ofLines_cons (leads_element policy hr he (enclosed_quotedList _ hitems) (hclose _))
      (leads_ofLines_nil _)

/-- The lines of the effects up to the redirect. -/
def effectHead (e : Effects) : List String :=
  ["  <effects>"] ++
    (if e.allowed.isEmpty then [] else [element "allow" (quotedList e.allowed)]) ++
    (if e.denied.isEmpty then [] else [element "deny" (quotedList e.denied)])

/-- The lines of the effects after the redirect. -/
def effectRest (e : Effects) : List String :=
  e.returnMessage.toList.map (element "return") ++
    e.returnCode.toList.map (fun code => element "returncode" (renderInt code.toNat)) ++ ["  </effects>"]

theorem effectLines_eq (e : Effects) :
    effectLines e = effectHead e ++ (e.redirect.toList.map (element "redirect") ++ effectRest e) := by
  simp [effectLines, effectHead, effectRest]

theorem leads_effectHead {p : Policy} (hp : p.Sound) {r : Reading} (hr : r.place = .root)
    (hs : .effects ∉ r.opened) (heffects : r.policy.effects = {}) :
    r.Leads (ofLines (effectHead p.effects)).toList
      { r with
        place := .inside .effects
        policy := { r.policy with effects := { allowed := p.effects.allowed, denied := p.effects.denied } }
        opened := r.opened ++ [.effects] } := by
  have hallow : ∀ s ∈ p.effects.allowed, Literal s.toList := hp.rights .allow
  have hdeny : ∀ s ∈ p.effects.denied, Literal s.toList := hp.rights .deny
  have hfirst := leads_rights (r := { r with place := .inside .effects, opened := r.opened ++ [.effects] })
    (e := .allow) { r.policy with effects := { allowed := p.effects.allowed } } rfl (by decide) hallow
    (fun text => by simp [Element.close, heffects]) (fun hnone => by simp [hnone, ← heffects])
  have hsecond := leads_rights (r := { r with
      place := .inside .effects
      policy := { r.policy with effects := { allowed := p.effects.allowed } }
      opened := r.opened ++ [.effects] })
    (e := .deny) { r.policy with effects := { allowed := p.effects.allowed, denied := p.effects.denied } }
    rfl (by decide) hdeny (fun text => by simp [Element.close]) (fun hnone => by simp [hnone])
  rw [effectHead, List.append_assoc, List.cons_append, List.nil_append]
  exact leads_open (s := .effects) rfl hr hs rfl (leads_ofLines_append hfirst hsecond)

private theorem leads_option {r : Reading} {e : Element} {item : Option String} (policy : Policy)
    (hr : r.place = .inside e.parent) (he : e ≠ .condition) (hitem : ∀ s ∈ item, Fits e s)
    (hclose : ∀ s ∈ item, ∀ quoted, e.close {} ⟨s.toList, quoted⟩ r.policy = .ok policy)
    (hnone : item = none → policy = r.policy) :
    r.Leads (ofLines (item.toList.map (element e.tag))).toList { r with policy } := by
  cases item with
  | none =>
    rw [hnone rfl]
    exact leads_ofLines_nil r
  | some s => exact leads_ofLines_cons (leads_text policy hr he (hitem s rfl) (hclose s rfl)) (leads_ofLines_nil _)

theorem leads_effectRest {p : Policy} (hp : p.Sound) {r : Reading} (hr : r.place = .inside .effects)
    (heffects : r.policy.effects =
      { allowed := p.effects.allowed, denied := p.effects.denied, redirect := p.effects.redirect }) :
    r.Leads (ofLines (effectRest p.effects)).toList
      { r with place := .root, policy := { r.policy with effects := p.effects } } := by
  have hmessage : ∀ s ∈ p.effects.returnMessage, Fits .returnMessage s := fun s hs =>
    hp.texts .returnMessage (by decide) s (by simpa [Policy.texts] using hs)
  have hfirst := leads_option (e := .returnMessage)
    { r.policy with effects := { p.effects with returnCode := none } } hr (by decide) hmessage
    (fun s hs quoted => by
      obtain hs : p.effects.returnMessage = some s := hs
      simp [Element.close, (hmessage s hs).ofList_trim, heffects, hs])
    (fun hnone => by simp [hnone, ← heffects])
  have hsecond : Leads { r with policy := { r.policy with effects := { p.effects with returnCode := none } } }
      (ofLines (p.effects.returnCode.toList.map
        (fun code => element "returncode" (renderInt code.toNat)))).toList
      { r with policy := { r.policy with effects := p.effects } } := by
    cases hcode : p.effects.returnCode with
    | none =>
      have hnone : { p.effects with returnCode := none } = p.effects := by rw [← hcode]
      rw [hnone]
      exact leads_ofLines_nil _
    | some code =>
      have hnumber : Enclosed Element.returnCode.tag .content (renderInt code.toNat).toList [] := by
        rw [renderInt, String.toList_ofList]
        exact enclosed_decimal _ _
      refine leads_ofLines_cons (leads_element (e := .returnCode) { r.policy with effects := p.effects } hr
        (by decide) hnumber ?_) (leads_ofLines_nil _)
      simp only [Element.close, renderInt, String.toList_ofList, trim_decimal, readUInt16_decimal]
      rw [← hcode]
  have hthird : Leads { r with policy := { r.policy with effects := p.effects } } (ofLines ["  </effects>"]).toList
      { r with place := .root, policy := { r.policy with effects := p.effects } } :=
    leads_end (s := .effects) rfl hr
  exact leads_ofLines_append (leads_ofLines_append hfirst hsecond) hthird

theorem leads_redirect {p : Policy}
    (h : ∀ s ∈ p.effects.redirect, Fits .redirect s ∧ stripQuotes s.toList = s.toList) {r : Reading}
    (hr : r.place = .inside .effects)
    (heffects : r.policy.effects = { allowed := p.effects.allowed, denied := p.effects.denied }) :
    r.Leads (ofLines (p.effects.redirect.toList.map (element "redirect"))).toList
      { r with policy := { r.policy with effects := { allowed := p.effects.allowed, denied := p.effects.denied
                                                      redirect := p.effects.redirect } } } := by
  refine leads_option (e := .redirect) _ hr (by decide) (fun s hs => (h s hs).1) (fun s hs quoted => ?_)
    (fun hnone => by simp [hnone, ← heffects])
  obtain ⟨hfit, hquotes⟩ := h s hs
  obtain hs : p.effects.redirect = some s := hs
  simp [Element.close, hfit.1, hquotes, heffects, hs]

theorem quotedBy_decimal (n : Int) : QuotedBy '"' (decimal n) := by
  refine .of_forall fun c hc => ?_
  rcases mem_decimal hc with hc | rfl
  · constructor <;> rintro rfl <;> exact absurd hc (by decide)
  · decide

theorem isName_source : IsName "source".toList := by decide

theorem isName_priority : IsName "priority".toList := by decide

/-- The line of a directive leads to the policy with it. -/
theorem leads_directive {r : Reading} {e : Element} {d : Directive} (hr : r.place = .inside .logging)
    (he : e.isDirective = true) (hmessage : Fits e d.message) (hsource : QuotedBy '"' d.source.toList) :
    r.Leads (directiveLine e.tag d ++ "\n").toList
      { r with policy := { r.policy with logging := r.policy.logging.add (e, d) } } := by
  obtain ⟨quoted, henc⟩ := hmessage.2
  have hattrs : ∀ a ∈ [("source", d.source), ("priority", renderInt d.priority.toInt)],
      IsName a.1.toList ∧ QuotedBy '"' a.2.toList := by
    intro a ha
    simp only [List.mem_cons, List.not_mem_nil, or_false] at ha
    rcases ha with rfl | rfl
    · exact ⟨isName_source, hsource⟩
    · refine ⟨isName_priority, ?_⟩
      rw [renderInt, String.toList_ofList]
      exact quotedBy_decimal _
  have hopening : e.opening [("source", d.source), ("priority", renderInt d.priority.toInt)] =
      .ok { source := d.source, priority := d.priority } := by
    simp [Element.opening, he, List.lookup, renderInt, trim_decimal, readInt64_decimal]
  have hclose : e.close { source := d.source, priority := d.priority } ⟨d.message.toList, quoted⟩ r.policy =
      .ok { r.policy with logging := r.policy.logging.add (e, d) } := by
    cases e <;> first | exact absurd he (by decide) | simp [Element.close, Logging.add, hmessage.ofList_trim]
  have hcond : e ≠ .condition := Element.ne_condition he
  have hline := leads_tagged _ (Element.parent_of_isDirective he ▸ hr) (fun h => absurd h hcond) hattrs hopening henc hclose
  have hmet : (r.conditionMet || e == .condition) = r.conditionMet := by simp [hcond]
  rwa [hmet, ← toList_directiveLine] at hline

/-- The directives, one line each. -/
theorem leads_entries {r : Reading} {entries : List (Element × Directive)} (hr : r.place = .inside .logging)
    (h : ∀ x ∈ entries, x.1.isDirective = true ∧ Fits x.1 x.2.message ∧ QuotedBy '"' x.2.source.toList) :
    r.Leads (ofLines (entries.map fun x => directiveLine x.1.tag x.2)).toList
      { r with policy := { r.policy with logging := entries.foldl Logging.add r.policy.logging } } := by
  induction entries generalizing r with
  | nil => exact leads_ofLines_nil r
  | cons x entries ih =>
    obtain ⟨he, hmessage, hsource⟩ := h x (by simp)
    exact leads_ofLines_cons (leads_directive hr he hmessage hsource) (ih hr fun y hy => h y (by simp [hy]))

/-- The reading of a document between the lines around the log. -/
def inLog (r : Reading) (l : Logging) : Reading :=
  { r with place := .inside .logging, policy := { r.policy with logging := l }, opened := r.opened ++ [.logging] }

theorem leads_logging {p : Policy} (hp : p.Sound) (hsources : ∀ e, ∀ d ∈ p.directives e, QuotedBy '"' d.source.toList)
    {r : Reading} (hr : r.place = .root) (hs : .logging ∉ r.opened) (hlogging : r.policy.logging = {}) :
    r.Leads (ofLines (loggingLines p.logging)).toList
      { r with
        policy := { r.policy with logging := p.logging }
        opened := if p.logging.entries = [] then r.opened else r.opened ++ [.logging] } := by
  rw [loggingLines_eq]
  split
  · rename_i hempty
    have hnone : p.logging = {} := by rw [← p.logging.foldl_add_entries, hempty]; rfl
    rw [hnone, ← hlogging]
    exact leads_ofLines_nil r
  · have hlines : (r.inLog {}).Leads _ (r.inLog (p.logging.entries.foldl Logging.add {})) :=
      leads_entries rfl fun x hx => by
        have hmem := mem_entries.1 hx
        exact ⟨isDirective_of_mem hmem, hp.message hmem, hsources x.1 x.2 hmem⟩
    rw [Logging.foldl_add_entries] at hlines
    have hend : (r.inLog p.logging).Leads (ofLines ["  </log>"]).toList ((r.inLog p.logging).moveTo .root) :=
      leads_end rfl rfl
    have hlead : (r.inLog {}).Leads _ _ := leads_ofLines_append hlines hend
    simp only [inLog, moveTo, ← hr] at hlead ⊢
    exact leads_open (s := .logging) rfl hr hs (by rw [← hlogging]) hlead

theorem leads_condition {p : Policy} (hp : p.Sound) {r : Reading} (hr : r.place = .root)
    (hs : .conditions ∉ r.opened) (hcondition : r.policy.condition = "") (hmet : r.conditionMet = false) :
    ∃ r' : Reading, r'.place = .root ∧ r'.policy = { r.policy with condition := p.condition } ∧
      r.Leads (ofLines (conditionLines p.condition)).toList r' := by
  have hfit : Fits .condition p.condition := hp.texts .condition (by decide) _ (by simp [Policy.texts])
  obtain ⟨quoted, henc⟩ := hfit.2
  have hcore : trimmed p.condition = p.condition := hfit.ofList_trim
  unfold conditionLines
  by_cases hempty : p.condition = ""
  · simp only [hempty, ↓reduceIte, show trimmed "" = "" from rfl]
    exact ⟨r, hr, by rw [← hcondition], leads_ofLines_nil r⟩
  · simp only [hcore, hempty, ↓reduceIte]
    have hopening : Element.condition.opening [("type", "json")] = .ok {} := by decide
    have hclose : Element.condition.close {} ⟨p.condition.toList, quoted⟩ r.policy =
        .ok { r.policy with condition := p.condition } := by
      simp [Element.close, hfit.ofList_trim]
    have hline := leads_tagged [("type", "json")]
      (r := { r with place := .inside .conditions, opened := r.opened ++ [.conditions] })
      (e := .condition) rfl (fun _ => hmet)
      (by
        intro a ha
        rw [List.mem_singleton.1 ha]
        exact ⟨by decide, by decide⟩)
      hopening henc hclose
    rw [← toList_conditionLine] at hline
    refine ⟨_, ?_, ?_, leads_open (s := .conditions) rfl hr hs rfl
      (leads_ofLines_cons hline (leads_end (s := .conditions) rfl rfl))⟩
    · rfl
    · rfl

/-! ### The document -/

/-- The line that opens the root. -/
theorem leads_rootTag : Leads {} ("<policy>" ++ "\n").toList { place := .root } := by
  intro rest hrest
  constructor
  · have hmarkup : opensMarkup ("policy>\n".toList ++ rest) = true := rfl
    exact closesBeforeMarkup_tag (s := []) (by simp) hmarkup
  have hname : IsName "policy".toList := by decide
  have hopen : Spells .content ('<' :: "policy".toList) (.openTag (String.ofList "policy".toList)) .tag
      ('>' :: '\n' :: rest) := .openTag hname (by simp; decide)
  have hend : Spells .tag ['>'] .tagEnd .content ('\n' :: rest) := .tagEnd
  refine (outcome_token hopen {}).trans ((outcome_token hend { place := .rootTag }).trans ?_)
  exact outcome_blanks (r := { place := .root }) rfl rfl (s := ['\n']) (List.all_eq_true.1 rfl) rest

/-- The end of the root ends the reading. -/
theorem outcome_rootEnd {r : Reading} (hr : r.place = .root) : r.outcome .content "</policy>".toList = some r.policy := by
  have hclose : Spells .content ('<' :: '/' :: ("policy".toList ++ [] ++ ['>']))
      (.closeTag (String.ofList "policy".toList)) .content [] :=
    .closeTag (by decide) (List.all_eq_true.1 rfl) (by simp)
  have htoken := outcome_token hclose r
  rw [String.ofList_toList, step_root_closeTag hr, if_pos rfl] at htoken
  exact htoken.trans (outcome_closed rfl _ _)

end Reading

open Reading Policy

/-- The lines of the document up to the redirect. -/
def Policy.startLines (p : Policy) : List String :=
  "<policy>" :: (manifestLines p.manifest ++ (pathLines p.routes ++ effectHead p.effects))

/-- The lines of the document after the redirect. -/
def Policy.restLines (p : Policy) : List String :=
  effectRest p.effects ++ (loggingLines p.logging ++ conditionLines p.condition)

theorem Policy.document_eq (p : Policy) :
    p.document.toList = (ofLines p.startLines).toList ++
      ((ofLines (p.effects.redirect.toList.map (element "redirect"))).toList ++
        ((ofLines p.restLines).toList ++ "</policy>".toList)) := by
  have hlines : ["<policy>"] ++ manifestLines p.manifest ++ pathLines p.routes ++ effectLines p.effects ++
      loggingLines p.logging ++ conditionLines p.condition =
      p.startLines ++ (p.effects.redirect.toList.map (element "redirect") ++ p.restLines) := by
    simp [startLines, restLines, effectLines_eq]
  rw [Policy.document, hlines, ofLines_append, ofLines_append]
  simp only [String.toList_append, List.append_assoc]

/-- The reading of a document at its redirect. -/
def Policy.atRedirect (p : Policy) : Reading where
  place := .inside .effects
  policy :=
    { manifest := p.manifest, routes := p.routes
      effects := { allowed := p.effects.allowed, denied := p.effects.denied } }
  opened := [.manifest, .paths, .effects]

theorem leads_startLines {p : Policy} (hp : p.Sound) :
    Leads {} (ofLines p.startLines).toList p.atRedirect := by
  have hmanifest := leads_manifest hp (r := { place := .root }) rfl (by simp)
  have hpaths := leads_paths hp
    (r := { place := .root, policy := { manifest := p.manifest }, opened := [.manifest] }) rfl (by simp) rfl
  have heffects := leads_effectHead hp
    (r := { place := .root, policy := { manifest := p.manifest, routes := p.routes }, opened := [.manifest, .paths] })
    rfl (by simp) rfl
  exact leads_ofLines_cons leads_rootTag (leads_ofLines_append hmanifest (leads_ofLines_append hpaths heffects))

/-- The reading of a document at its log. -/
def Policy.atLog (p : Policy) : Reading where
  place := .root
  policy := { manifest := p.manifest, routes := p.routes, effects := p.effects }
  opened := [.manifest, .paths, .effects]

theorem leads_atLog {p : Policy} (hp : p.Sound)
    (h : ∀ s ∈ p.effects.redirect, Fits .redirect s ∧ stripQuotes s.toList = s.toList) :
    p.atRedirect.Leads (ofLines (p.effects.redirect.toList.map (element "redirect") ++ effectRest p.effects)).toList
      p.atLog := by
  have hredirect := leads_redirect h (r := p.atRedirect) rfl rfl
  have hrest := leads_effectRest hp
    (r := { p.atRedirect with policy := { p.atRedirect.policy with effects :=
      { allowed := p.effects.allowed, denied := p.effects.denied, redirect := p.effects.redirect } } }) rfl rfl
  exact leads_ofLines_append hredirect hrest

/-- A policy that was read, and of which nothing is written in a way that is read differently, is what its document
describes. -/
theorem parse_document {p : Policy} (hp : p.Sound) (hq : p.Restorable) : Policy.parse p.document = .ok p := by
  rw [Policy.parse_eq_ok, p.document_eq]
  have hlogging := leads_logging hp hq.sources (r := p.atLog) rfl (by simp [Policy.atLog]) rfl
  obtain ⟨r, hplace, hpolicy, hcondition⟩ := leads_condition hp
    (r := { p.atLog with
      policy := { p.atLog.policy with logging := p.logging }
      opened := if p.logging.entries = [] then p.atLog.opened else p.atLog.opened ++ [.logging] })
    rfl (by split <;> simp [Policy.atLog]) rfl rfl
  have hall := (leads_startLines hp).append
    (leads_ofLines_append (leads_atLog hp hq.redirect) (leads_ofLines_append hlogging hcondition))
  have hquiet : closesBeforeMarkup "</policy>".toList = false := by decide
  have hread := (hall _ hquiet).2
  rw [outcome_rootEnd hplace, hpolicy] at hread
  simpa [restLines, ofLines_append, Policy.atLog] using hread

end AccessPolicy
