import AccessPolicy.Proofs.Policy.Enclosed

/-!
# The course of a reading

A reading that ends in a policy passes from place to place, and only where an element ends does its policy change.
`outcome_induction` takes each element of a section as one stride, from the end of its attributes to the end of its
close tag, so a property of such readings need never be stated for a body that is half read.
-/

namespace AccessPolicy

open Markup Text

def Place.isBody : Place → Bool
  | .body .. => true
  | _ => false

/-- The attributes met so far in the open tag of an element. -/
def Place.attributes : Place → List (String × String)
  | .elementTag _ attributes => attributes
  | _ => []

/-- What can stand after the attributes of an element up to its end, and the body that is read there. -/
inductive Ends (e : Element) : List Char → Body → Prop
  | selfClose : Ends e ['/', '>'] {}
  | closeTag {x gap : List Char} {quoted : List String} : Enclosed e.tag .content x quoted →
    (∀ c ∈ gap, isTagBlank c = true) →
    Ends e ('>' :: (x ++ '<' :: '/' :: (e.tag.toList ++ gap ++ ['>']))) ⟨x, quoted⟩

namespace Reading

theorem past_of_not_isBody {r : Reading} (h : r.place.isBody = false) (s : List Char) : r.past s = r := by
  obtain ⟨place, policy, opened, met⟩ := r
  cases place with
  | body e opening b => simp [Place.isBody] at h
  | _ => rfl

theorem openSection_cases {r r' : Reading} {tag : String} (h : r.openSection tag = .ok r') :
    r' = r ∨ ∃ s, Section.ofTag? tag = some s ∧ s ∉ r.opened ∧
      r' = { r with place := .sectionTag s, opened := r.opened ++ [s] } := by
  unfold openSection at h
  split at h
  · exact .inl (Except.ok.inj h).symm
  · rename_i s hs
    split at h
    · exact absurd h (by simp)
    · exact .inr ⟨s, hs, ‹_›, (Except.ok.inj h).symm⟩

theorem openElement_cases {r r' : Reading} {s : Section} {tag : String} (h : r.openElement s tag = .ok r') :
    r' = r ∨ ∃ e, s.element? tag = some e ∧ (e = .condition → r.conditionMet = false) ∧
      r' = { r with place := .elementTag e [], conditionMet := r.conditionMet || e == .condition } := by
  unfold openElement at h
  split at h
  · exact .inl (Except.ok.inj h).symm
  · rename_i e he
    split at h
    · exact absurd h (by simp)
    · rename_i hmet
      exact .inr ⟨e, he, by simpa using hmet, (Except.ok.inj h).symm⟩

/-- Outside elements a token moves the reading to another place and leaves the policy as it is. -/
theorem step_outside {r r' : Reading} {mode next : Mode} {source rest : List Char} {token : Token}
    (hbody : r.place.isBody = false) (helement : ∀ e attributes, r.place ≠ .elementTag e attributes)
    (hmode : r.place.inTag = true → mode = .tag) (hspell : Spells mode source token next rest)
    (h : r.step ⟨[], source, token⟩ = .ok r') :
    r'.policy = r.policy ∧ r'.place.isBody = false ∧ (r'.place.inTag = true → next = .tag) ∧
      r'.place.attributes = [] := by
  obtain ⟨place, policy, opened, met⟩ := r
  cases place with
  | body e opening b => simp [Place.isBody] at hbody
  | elementTag e attributes => exact absurd rfl (helement e attributes)
  | closed =>
    simp only [step, Except.ok.injEq] at h
    simp [← h, Place.isBody, Place.inTag, Place.attributes]
  | prolog =>
    cases hspell with
    | openTag hname hhead =>
      rw [step_prolog rfl, Except.ok.injEq] at h
      rw [← h]
      split <;> simp [moveTo, Place.isBody, Place.attributes]
    | _ =>
      simp only [step, Except.ok.injEq] at h
      simp [← h, Place.isBody, Place.inTag, Place.attributes]
  | rootTag =>
    obtain rfl := hmode rfl
    cases hspell <;> simp only [step, Except.ok.injEq] at h <;>
      simp [← h, moveTo, Place.isBody, Place.inTag, Place.attributes]
  | root =>
    cases hspell with
    | openTag hname hhead =>
      rcases openSection_cases h with rfl | ⟨s, -, -, rfl⟩ <;> simp [Place.isBody, Place.attributes]
    | closeTag hne hname hgap =>
      rw [step_root_closeTag rfl, Except.ok.injEq] at h
      rw [← h]
      split <;> simp [moveTo, Place.isBody, Place.inTag, Place.attributes]
    | _ =>
      simp only [step, Except.ok.injEq] at h
      simp [← h, Place.isBody, Place.inTag, Place.attributes]
  | sectionTag s =>
    obtain rfl := hmode rfl
    cases hspell <;> simp only [step, Except.ok.injEq] at h <;>
      simp [← h, moveTo, Place.isBody, Place.inTag, Place.attributes]
  | inside s =>
    cases hspell with
    | openTag hname hhead =>
      rcases openElement_cases h with rfl | ⟨e, -, -, rfl⟩ <;> simp [Place.isBody, Place.attributes]
    | closeTag hne hname hgap =>
      simp only [step, Except.ok.injEq] at h
      rw [← h]
      split <;> simp [moveTo, Place.isBody, Place.inTag, Place.attributes]
    | _ =>
      simp only [step, Except.ok.injEq] at h
      simp [← h, Place.isBody, Place.inTag, Place.attributes]

theorem closeElement_eq {r r' : Reading} {e : Element} {opening : Opening} {b : Body}
    (h : r.closeElement e opening b = .ok r') :
    ∃ policy, e.close opening b r.policy = .ok policy ∧ r' = { r with place := .inside e.parent, policy } := by
  unfold closeElement at h
  cases hclose : e.close opening b r.policy with
  | error err => simp [hclose, bind, Except.bind] at h
  | ok policy => exact ⟨policy, rfl, by simpa [hclose, bind, Except.bind, pure, Except.pure] using h.symm⟩

private theorem closeElement_place {r r' : Reading} {e : Element} {opening : Opening} {b : Body}
    (h : r.closeElement e opening b = .ok r') :
    r'.place.isBody = false ∧ ∀ {mode : Mode}, r'.place.inTag = true → mode = .tag := by
  obtain ⟨policy, -, rfl⟩ := closeElement_eq h
  simp [Place.isBody, Place.inTag]

/-- A reading that ends in the policy `q`, taken from its end back to the place where it is now. -/
theorem outcome_induction {q : Policy} {motive : Reading → Mode → List Char → Prop}
    (closed : ∀ r mode cs, r.place = .closed → r.policy = q → motive r mode cs)
    (passed : ∀ r mode s cs, motive r mode cs → motive r mode (s ++ cs))
    (outside : ∀ r r' mode next source cs, r'.policy = r.policy →
      (∀ e attributes, r.place ≠ .elementTag e attributes) → r'.place.attributes = [] → motive r' next cs →
      motive r mode (source ++ cs))
    (attr : ∀ r e attributes source name value cs, r.place = .elementTag e attributes →
      Spells .tag source (.attr name value) .tag cs →
      motive (r.moveTo (.elementTag e (attributes ++ [(name, value)]))) .tag cs → motive r .tag (source ++ cs))
    (element : ∀ r r' e attributes opening source b cs, r.place = .elementTag e attributes →
      e.opening attributes = .ok opening → Ends e source b → r.closeElement e opening b = .ok r' →
      motive r' .content cs → motive r .tag (source ++ cs))
    {r : Reading} {mode : Mode} {cs : List Char} (hbody : r.place.isBody = false)
    (hmode : r.place.inTag = true → mode = .tag) (h : r.outcome mode cs = some q) : motive r mode cs := by
  induction hn : cs.length using Nat.strongRecOn generalizing r mode cs with
  | _ n ih =>
    by_cases hclosed : r.place = .closed
    · rw [outcome_closed hclosed] at h
      exact closed r mode cs hclosed (Option.some.inj h)
    cases head mode cs with
    | nil =>
      rw [outcome_nil] at h
      have hfinish : r.finish.toOption = none := by
        obtain ⟨place, policy, opened, met⟩ := r
        cases place with
        | closed => exact absurd rfl hclosed
        | _ => rfl
      rw [hfinish] at h
      exact absurd h (by simp)
    | stuck hstuck =>
      rw [outcome_stuck hstuck, if_neg hclosed] at h
      exact absurd h (by simp)
    | @passed s rest hpass =>
      have hlt : rest.length < n := by cases hpass <;> simp at hn <;> omega
      rw [outcome_passed hpass hmode, past_of_not_isBody hbody] at h
      exact passed r mode s rest (ih _ hlt hbody hmode h rfl)
    | @token next source rest token hspell =>
      have hlt : rest.length < n := by cases hspell <;> simp at hn <;> omega
      rw [outcome_token hspell] at h
      cases hstep : r.step ⟨[], source, token⟩ with
      | error err => simp [hstep, Except.toOption] at h
      | ok r' =>
        replace h : r'.outcome next rest = some q := by simpa [hstep, Except.toOption] using h
        by_cases helement : ∃ e attributes, r.place = .elementTag e attributes
        · -- the tag ends here, or goes on with an attribute
          obtain ⟨e, attributes, hplace⟩ := helement
          obtain rfl := hmode (by simp [hplace, Place.inTag])
          cases hspell with
          | attr hname hbefore hafter hq hvalue =>
            simp only [step, hplace, Except.ok.injEq] at hstep
            subst hstep
            exact attr r e attributes _ _ _ rest hplace (.attr hname hbefore hafter hq hvalue)
              (ih _ hlt rfl (fun _ => rfl) h rfl)
          | tagEnd =>
            cases hopening : e.opening attributes with
            | error err => simp [step, hplace, hopening, bind, Except.bind] at hstep
            | ok opening =>
              obtain rfl : r.moveTo (.body e opening {}) = r' := by
                simpa [step, hplace, hopening, bind, Except.bind, pure, Except.pure] using hstep
              -- the body and the close tag in one stride
              obtain ⟨x, quoted, gap, more, r', rfl, hgap, henc, hclose, hout⟩ := exists_enclosed rfl h
              have hends : Ends e _ ⟨x, quoted⟩ := .closeTag henc hgap
              obtain ⟨hbody', hmode'⟩ := closeElement_place hclose
              have hlt' : more.length < n := by simp at hlt; omega
              simpa using element r r' e attributes opening _ _ more hplace hopening hends hclose
                (ih _ hlt' hbody' hmode' hout rfl)
          | selfClose =>
            cases hopening : e.opening attributes with
            | error err => simp [step, hplace, hopening, bind, Except.bind] at hstep
            | ok opening =>
              have hclose : r.closeElement e opening {} = .ok r' := by
                simpa [step, hplace, hopening, bind, Except.bind] using hstep
              obtain ⟨hbody', hmode'⟩ := closeElement_place hclose
              exact element r r' e attributes opening _ {} rest hplace hopening .selfClose hclose
                (ih _ hlt hbody' hmode' h rfl)
        · have hne : ∀ e attributes, r.place ≠ .elementTag e attributes := fun e attributes h =>
            helement ⟨e, attributes, h⟩
          obtain ⟨hpolicy, hbody', hmode', hattrs⟩ := step_outside hbody hne hmode hspell hstep
          exact outside r r' mode next source rest hpolicy hne hattrs (ih _ hlt hbody' hmode' h rfl)

end Reading

end AccessPolicy
