import AccessPolicy.Proofs.Resolution.Order

/-!
# Which policies decide

The kind of a verdict is settled by three priorities: the highest one among the policies that force a response,
among those that redirect, and among those with rights.  `resolve_cases` goes through the three kinds of verdicts,
each with what it carries; `resolve_wellFormed` reads off when each kind arises.
-/

namespace AccessPolicy

open Resolution

namespace Resolution

/-- The highest priority of a forced response, of a redirect, of a right granted or revoked. -/
abbrev responseTop (matched : List Policy) : WithBot Int := topPriority Policy.forcesResponse matched

abbrev redirectTop (matched : List Policy) : WithBot Int := topPriority (·.redirectTarget?.isSome) matched

abbrev rightsTop (matched : List Policy) : WithBot Int := topPriority Policy.hasRights matched

/-- The policy speaks last among those of a kind, and so has the highest priority among them and the greatest id at
that priority. -/
structure Decides (kind : Policy → Bool) (matched : List Policy) (p : Policy) : Prop where
  mem : p ∈ matched
  ofKind : kind p = true
  top : topPriority kind matched = p.priority.toInt
  greatestId : ∀ q ∈ matched, kind q = true → q.priority = p.priority → q.id ≤ p.id
  last : ∃ before after, ordered matched = before ++ p :: after ∧ ∀ q ∈ after, kind q = false

/-- The ids of the policies in speaking order, as the metadata have them. -/
def joinedIds (matched : List Policy) : String := ",".intercalate ((ordered matched).map Policy.id)

theorem decides_of_last? {kind : Policy → Bool} {matched : List Policy} {p : Policy}
    (h : last? kind (ordered matched) = some p) : Decides kind matched p := by
  obtain ⟨hmem, hkind, htop, hid, hlast⟩ := last?_spec h
  exact ⟨hmem, hkind, htop, hid, hlast⟩

private theorem exists_last?_of_lt {kind kind' : Policy → Bool} {matched : List Policy}
    (h : topPriority kind matched < topPriority kind' matched) : ∃ p, last? kind' (ordered matched) = some p := by
  cases hlast : last? kind' (ordered matched) with
  | some p => exact ⟨p, rfl⟩
  | none => exact absurd (last?_eq_none.1 hlast) (ne_bot_of_gt h)

/-- The three kinds of verdicts on matched policies, with what they carry. -/
theorem resolve_cases {matched : List Policy} (h : matched ≠ []) :
    (redirectTop matched ≤ responseTop matched ∧ rightsTop matched < responseTop matched ∧
      ∃ p, Decides Policy.forcesResponse matched p ∧ resolve matched =
        { kind := some .response
          response := { code := p.effects.returnCode, message := p.effects.returnMessage.getD "" }
          metadata := [("policies", joinedIds matched), ("policy", p.id)] }) ∨
    (responseTop matched < redirectTop matched ∧ rightsTop matched < redirectTop matched ∧
      ∃ p, Decides (·.redirectTarget?.isSome) matched p ∧ resolve matched =
        { kind := some .redirect
          redirect := p.redirectTarget?
          metadata := [("policies", joinedIds matched), ("policy", p.id)] }) ∨
    (¬(redirectTop matched ≤ responseTop matched ∧ rightsTop matched < responseTop matched) ∧
      ¬(responseTop matched < redirectTop matched ∧ rightsTop matched < redirectTop matched) ∧
      resolve matched =
        { kind := some .rights
          rights := grantedRights (ordered matched)
          metadata := [("policies", joinedIds matched)] }) := by
  have hresponse := above_last? Policy.forcesResponse Policy.hasRights matched
  have hredirect := above_last? (·.redirectTarget?.isSome) Policy.hasRights matched
  have hbetween := above_last? (·.redirectTarget?.isSome) Policy.forcesResponse matched
  unfold resolve
  rw [if_neg (by simpa using h)]
  by_cases hresp : redirectTop matched ≤ responseTop matched ∧ rightsTop matched < responseTop matched
  · obtain ⟨p, hp⟩ := exists_last?_of_lt hresp.2
    have hnot : above ((last? (·.redirectTarget?.isSome) (ordered matched)).map Policy.priority)
        ((last? Policy.forcesResponse (ordered matched)).map Policy.priority) = false := by
      rw [Bool.eq_false_iff, Ne, hbetween]
      exact not_lt.2 hresp.1
    refine Or.inl ⟨hresp.1, hresp.2, p, decides_of_last? hp, ?_⟩
    rw [hp] at hnot hresponse
    simp only [hp, hnot, hresponse.2 hresp.2]
    rfl
  · have hresponds : (!above ((last? (·.redirectTarget?.isSome) (ordered matched)).map Policy.priority)
        ((last? Policy.forcesResponse (ordered matched)).map Policy.priority) &&
        above ((last? Policy.forcesResponse (ordered matched)).map Policy.priority)
          ((last? Policy.hasRights (ordered matched)).map Policy.priority)) = false := by
      rw [Bool.eq_false_iff, Ne, Bool.and_eq_true, Bool.not_eq_true', Bool.eq_false_iff, Ne, hbetween, hresponse,
        not_lt]
      exact hresp
    have hnone : (last? Policy.forcesResponse (ordered matched)).filter (fun _ => false) = none := by
      cases last? Policy.forcesResponse (ordered matched) <;> rfl
    simp only [hresponds, hnone]
    by_cases hred : rightsTop matched < redirectTop matched
    · obtain ⟨p, hp⟩ := exists_last?_of_lt hred
      have hlt : responseTop matched < redirectTop matched := by
        by_contra hle
        rw [not_lt] at hle
        exact hresp ⟨hle, hred.trans_le hle⟩
      refine Or.inr (Or.inl ⟨hlt, hred, p, decides_of_last? hp, ?_⟩)
      rw [hp] at hredirect
      simp only [hp, hredirect.2 hred]
      rfl
    · have hfalse : above ((last? (·.redirectTarget?.isSome) (ordered matched)).map Policy.priority)
          ((last? Policy.hasRights (ordered matched)).map Policy.priority) = false := by
        rw [Bool.eq_false_iff, Ne, hredirect]
        exact hred
      refine Or.inr (Or.inr ⟨hresp, fun hboth => hred hboth.2, ?_⟩)
      have hnone' : (last? (·.redirectTarget?.isSome) (ordered matched)).filter (fun _ => false) = none := by
        cases last? (·.redirectTarget?.isSome) (ordered matched) <;> rfl
      simp only [hfalse, hnone']
      rfl

/-- The verdict is of the kind that the three priorities call for and carries what belongs to that kind. -/
structure WellFormed (matched : List Policy) (v : Verdict) : Prop where
  neutral : v = .neutral ↔ matched = []
  isResponse : v.kind = some .response ↔
    redirectTop matched ≤ responseTop matched ∧ rightsTop matched < responseTop matched
  isRedirect : v.kind = some .redirect ↔
    responseTop matched < redirectTop matched ∧ rightsTop matched < redirectTop matched
  isRights : v.kind = some .rights ↔ matched ≠ [] ∧
    ¬(redirectTop matched ≤ responseTop matched ∧ rightsTop matched < responseTop matched) ∧
    ¬(responseTop matched < redirectTop matched ∧ rightsTop matched < redirectTop matched)
  /-- A response is that of the deciding policy. -/
  response : v.kind = some .response → ∃ p, Decides Policy.forcesResponse matched p ∧
    v.response = { code := p.effects.returnCode, message := p.effects.returnMessage.getD "" } ∧
    v.metadata.lookup "policy" = some p.id ∧ v.redirect = none ∧ v.rights = []
  /-- A redirect goes to the target of the deciding policy. -/
  redirect : v.kind = some .redirect → ∃ p, Decides (·.redirectTarget?.isSome) matched p ∧
    v.redirect = p.redirectTarget? ∧
    v.metadata.lookup "policy" = some p.id ∧ v.response = { code := none, message := "" } ∧ v.rights = []
  /-- Rights come from all policies together. -/
  rights : v.kind = some .rights →
    v.metadata.lookup "policy" = none ∧ v.response = { code := none, message := "" } ∧ v.redirect = none
  policies : matched ≠ [] → v.metadata.lookup "policies" = some (joinedIds matched)

/-- No two of the three kinds of verdicts are called for at once. -/
private theorem not_both {matched : List Policy}
    (hresp : redirectTop matched ≤ responseTop matched ∧ rightsTop matched < responseTop matched)
    (hred : responseTop matched < redirectTop matched ∧ rightsTop matched < redirectTop matched) : False :=
  not_le.2 hred.1 hresp.1

private theorem topPriority_nil (kind : Policy → Bool) : topPriority kind [] = ⊥ := rfl

theorem resolve_wellFormed (matched : List Policy) : WellFormed matched (resolve matched) := by
  by_cases h : matched = []
  · subst h
    constructor <;> simp [resolve, Verdict.neutral, topPriority_nil]
  rcases resolve_cases h with ⟨hle, hlt, p, hp, hv⟩ | ⟨hle, hlt, p, hp, hv⟩ | ⟨hresp, hred, hv⟩ <;> rw [hv]
  · have hnot := fun hred => not_both ⟨hle, hlt⟩ hred
    exact {
      neutral := by simp [Verdict.neutral, h]
      isResponse := by simp [hle, hlt]
      isRedirect := by simpa using hnot
      isRights := by simp [hle, hlt]
      response := fun _ => ⟨p, hp, rfl, rfl, rfl, rfl⟩
      redirect := by simp
      rights := by simp
      policies := fun _ => rfl }
  · have hnot := fun hresp => not_both hresp ⟨hle, hlt⟩
    exact {
      neutral := by simp [Verdict.neutral, h]
      isResponse := by simpa using hnot
      isRedirect := by simp [hle, hlt]
      isRights := by simp [hle, hlt]
      response := by simp
      redirect := fun _ => ⟨p, hp, rfl, rfl, rfl, rfl⟩
      rights := by simp
      policies := fun _ => rfl }
  · exact {
      neutral := by simp [Verdict.neutral, h]
      isResponse := by simpa using hresp
      isRedirect := by simpa using hred
      isRights := iff_of_true rfl ⟨h, hresp, hred⟩
      response := by simp
      redirect := by simp
      rights := fun _ => ⟨rfl, rfl, rfl⟩
      policies := fun _ => rfl }

end Resolution

end AccessPolicy
