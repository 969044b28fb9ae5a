import AccessPolicy.Proofs.Policy.Rendering

/-!
# Cleanly written policies

`parse_document` asks of a policy that each of its texts can stand in its element.  Here is a condition that can be
seen on the texts themselves: no `<` in them and no blanks at their ends, no quotes around a redirect, and nothing in
a right or a source that has to do with quotes (`Policy.CleanlyWritten`).  A text without `<` may hold any quotes and
backslashes: a quote that is closed in it is read as a quoted text, one that is not as plain text, and in either way
the element goes on to its close tag (`exists_enclosed_of_notMem`).
-/

namespace AccessPolicy

open Markup Text

/-! ### Texts -/

/-- A text that may be written between tags as it is. -/
structure IsPlain (s : String) : Prop where
  noTag : '<' ∉ s.toList
  noBlanks : trimmed s = s

instance (s : String) : Decidable (IsPlain s) :=
  decidable_of_iff ('<' ∉ s.toList ∧ trimmed s = s) ⟨fun h => ⟨h.1, h.2⟩, fun h => ⟨h.noTag, h.noBlanks⟩⟩

/-- A text that neither begins nor ends with a quote of either kind. -/
def IsUnquoted (s : String) : Prop :=
  (∀ c ∈ s.toList.head?, c ≠ '"' ∧ c ≠ '\'') ∧ ∀ c ∈ s.toList.getLast?, c ≠ '"' ∧ c ≠ '\''

theorem exists_enclosed_of_notMem {tag : String} {x : List Char} (hx : '<' ∉ x) :
    ∃ quoted, Enclosed tag .content x quoted := by
  -- on the length of the text: a quoted text is taken whole
  induction hn : x.length using Nat.strongRecOn generalizing x with
  | _ n ih =>
    cases x with
    | nil => exact ⟨[], .nil⟩
    | cons c x =>
      simp only [List.mem_cons, not_or] at hx
      have hend : closesBeforeMarkup (x ++ ['<', '/']) = closesBeforeMarkup x :=
        closesBeforeMarkup_append_closeTag (by decide) x
      by_cases hquote : c = '"' ∧ closesBeforeMarkup x = true
      · obtain ⟨rfl, hclose⟩ := hquote
        obtain ⟨body, rest, rfl, hliteral⟩ := closesBeforeMarkup_iff.1 hclose
        have hrest : '<' ∉ rest := fun h => hx.2 (by simp [h])
        have hlt : rest.length < n := by simp at hn; omega
        obtain ⟨quoted, henc⟩ := ih _ hlt hrest rfl
        have hspell : Spells .content ('"' :: (body ++ ['"'])) _ .content (rest ++ ['<', '/']) := .literal hliteral
        have htoken : Enclosed tag .content _ _ := .token hspell (by simp) henc
        exact ⟨_, by simpa using htoken⟩
      · obtain ⟨quoted, henc⟩ := ih _ (by simp at hn; omega) hx.2 rfl
        have htext : IsText c (x ++ ['<', '/']) := by
          refine ⟨fun hc => ?_, fun hc => absurd hc.symm hx.1⟩
          rw [hend]
          simpa [hc] using hquote
        exact ⟨quoted, .passed (.text htext) henc⟩

theorem IsPlain.fits {s : String} (h : IsPlain s) (e : Element) : Fits e s := by
  refine ⟨?_, exists_enclosed_of_notMem h.noTag⟩
  have htrim := congrArg String.toList h.noBlanks
  rwa [trimmed, String.toList_ofList] at htrim

theorem IsUnquoted.stripQuotes_eq {s : String} (h : IsUnquoted s) : stripQuotes s.toList = s.toList := by
  obtain ⟨hhead, hlast⟩ := h
  have hfirst : s.toList.head?.any (fun c => c == '"' || c == '\'') = false := by
    cases hc : s.toList.head? with
    | none => rfl
    | some c => simpa using hhead c hc
  have hend : s.toList.getLast?.any (fun c => c == '"' || c == '\'') = false := by
    cases hc : s.toList.getLast? with
    | none => rfl
    | some c => simpa using hlast c hc
  simp [stripQuotes, hfirst, hend]

theorem literal_of_quiet {body : List Char} (h : ∀ c ∈ body, Reading.isQuiet c = true) : Literal body := by
  refine ⟨.of_forall fun c hc => ?_, ?_⟩
  · have hc' := h c hc
    simp only [Reading.isQuiet, Bool.and_eq_true, bne_iff_ne] at hc'
    exact ⟨hc'.1.2, hc'.1.1⟩
  · rw [Reading.closesBeforeMarkup_append_quiet h]
    rfl

/-! ### Policies -/

/-- A policy of which nothing can be mistaken for markup or for a quote where it is written. -/
structure Policy.CleanlyWritten (p : Policy) : Prop where
  texts : ∀ e, ∀ s ∈ p.texts e, IsPlain s
  routes : p.routes.Nodup ∧ "" ∉ p.routes
  redirect : ∀ s ∈ p.effects.redirect, IsUnquoted s
  rights : ∀ e, ∀ s ∈ p.rights e, ∀ c ∈ s.toList, c ≠ '"' ∧ c ≠ '\\' ∧ c ≠ '<'
  sources : ∀ e, ∀ d ∈ p.directives e, ∀ c ∈ d.source.toList, c ≠ '"' ∧ c ≠ '\\'

namespace Policy.CleanlyWritten

variable {p : Policy}

theorem quotedBy_source (h : p.CleanlyWritten) {e : Element} {d : Directive} (hd : d ∈ p.directives e) :
    QuotedBy '"' d.source.toList :=
  .of_forall fun c hc => (h.sources e d hd c hc).symm

theorem sound (h : p.CleanlyWritten) : p.Sound where
  texts e _ s hs := (h.texts e s hs).fits e
  rights e s hs := by
    refine literal_of_quiet fun c hc => ?_
    obtain ⟨hquote, hescape, htag⟩ := h.rights e s hs c hc
    simp [Reading.isQuiet, hquote, hescape, htag]
  sources e d hd := .inl (h.quotedBy_source hd)
  nodup := h.routes.1
  nonempty := h.routes.2

theorem restorable (h : p.CleanlyWritten) : p.Restorable where
  redirect s hs := by
    have hplain : IsPlain s := h.texts .redirect s (by simpa [Policy.texts] using hs)
    exact ⟨hplain.fits .redirect, (h.redirect s hs).stripQuotes_eq⟩
  sources _ _ hd := h.quotedBy_source hd

end Policy.CleanlyWritten

/-- A cleanly written policy is what its document describes, however the policy came about. -/
theorem parse_document_of_cleanlyWritten {p : Policy} (h : p.CleanlyWritten) : Policy.parse p.document = .ok p :=
  parse_document h.sound h.restorable

/-- A policy whose texts hold lone quotes, quotes that are closed, and backslashes before close tags. -/
def Policy.quoting : Policy where
  manifest := { id := "\"a\\", name := "say \"hi\"", description := "\\" }
  routes := ["/\"", "/b"]
  effects := { allowed := [" read ", ""], redirect := some "/\"in\"/", returnMessage := some "" }
  logging := { onDeny := [{ source := "it's", priority := -1, message := "'\"" }] }
  condition := "\x7b\"a\": [\"b\\\"\"]\x7d"

theorem parse_document_quoting :
    Policy.quoting.CleanlyWritten ∧ Policy.parse Policy.quoting.document = .ok Policy.quoting := by
  have hclean : Policy.quoting.CleanlyWritten :=
    { texts := fun e => by cases e <;> decide
      routes := by decide
      redirect := by simp [Policy.quoting, IsUnquoted]
      rights := fun e => by cases e <;> simp [Policy.rights, Policy.quoting]
      sources := fun e => by cases e <;> simp [Policy.directives, Policy.quoting] }
  exact ⟨hclean, parse_document_of_cleanlyWritten hclean⟩

end AccessPolicy
