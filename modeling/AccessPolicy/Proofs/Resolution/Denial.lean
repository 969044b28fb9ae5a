import AccessPolicy.Proofs.Resolution.Permutation

/-!
# What one more denial can change

A policy that only denies takes no part in what is forced: the policies that force a response or redirect speak as they
did before (`ordered_cons`, `filter_ordered`), and so does the last of each kind (`decides_insert`).  But it is a policy
with rights, so it may raise their priority (`topPriority_insert`) above or up to that of what was forced.  Then the
verdict turns into one on rights; below, nothing is changed; and where nothing was forced, the denial takes away what is
not allowed above it (`mem_lastingRights_insert`).
-/

namespace AccessPolicy

namespace Policy

/-- The policy denies rights and does nothing else. -/
structure DeniesOnly (d : Policy) : Prop where
  denies : d.effects.denied ≠ []
  allowsNothing : d.effects.allowed = []
  forcesNothing : d.effects.returnCode = none
  redirectsNowhere : ∀ target, d.effects.redirect = some target → target = ""

theorem DeniesOnly.forcesResponse {d : Policy} (h : d.DeniesOnly) : d.forcesResponse = false := by
  rw [Policy.forcesResponse, h.forcesNothing]
  rfl

theorem DeniesOnly.redirectTarget? {d : Policy} (h : d.DeniesOnly) : d.redirectTarget?.isSome = false := by
  rw [Policy.redirectTarget?, Option.isSome_eq_false_iff, Option.isNone_iff_eq_none, Option.filter_eq_none_iff]
  intro target htarget
  simpa using h.redirectsNowhere target htarget

theorem DeniesOnly.hasRights {d : Policy} (h : d.DeniesOnly) : d.hasRights = true := by
  simp [Policy.hasRights, h.denies]

theorem DeniesOnly.allowedRights {d : Policy} (h : d.DeniesOnly) : d.allowedRights = [] := by
  rw [Policy.allowedRights, h.allowsNothing, List.map_nil]

end Policy

/-- The verdict without the ids of the matched policies. -/
def Verdict.withoutIds (v : Verdict) : Verdict := { v with metadata := v.metadata.filter (·.1 ≠ "policies") }

namespace Resolution

/-! ### One more policy among those in speaking order -/

/-- A policy that comes first speaks after those that it does not precede and before those that it precedes. -/
theorem exists_ordered_cons (p : Policy) (policies : List Policy) :
    ∃ earlier later, ordered (p :: policies) = earlier ++ p :: later ∧ ordered policies = earlier ++ later ∧
      (∀ q ∈ earlier, p.precedes q = false) ∧ ∀ q ∈ later, p.precedes q = true := by
  obtain ⟨earlier, later, hcons, htail, hearlier⟩ :=
    List.mergeSort_cons Policy.precedes_trans Policy.precedes_total p policies
  have hsorted := pairwise_ordered (p :: policies)
  rw [ordered, hcons] at hsorted
  refine ⟨earlier, later, hcons, htail, ?_, ?_⟩
  · intro q hq
    simpa using hearlier q hq
  · exact (List.pairwise_cons.1 (List.pairwise_append.1 hsorted).2.1).1

theorem ordered_cons (p : Policy) (policies : List Policy) :
    ordered (p :: policies) =
      (ordered policies).filter (!p.precedes ·) ++ p :: (ordered policies).filter (p.precedes ·) := by
  obtain ⟨earlier, later, hcons, htail, hearlier, hlater⟩ := exists_ordered_cons p policies
  have hbefore : (ordered policies).filter (!p.precedes ·) = earlier := by
    rw [htail, List.filter_append, List.filter_eq_self.2 fun q hq => by simp [hearlier q hq],
      List.filter_eq_nil_iff.2 fun q hq => by simp [hlater q hq], List.append_nil]
  have hafter : (ordered policies).filter (p.precedes ·) = later := by
    rw [htail, List.filter_append, List.filter_eq_self.2 hlater,
      List.filter_eq_nil_iff.2 fun q hq => by simp [hearlier q hq], List.nil_append]
  rw [hbefore, hafter, hcons]

/-- The policies of a kind speak in the order in which they would speak alone. -/
theorem filter_ordered (kind : Policy → Bool) (policies : List Policy) :
    (ordered policies).filter kind = ordered (policies.filter kind) := by
  induction policies with
  | nil => simp [ordered]
  | cons p policies ih =>
    cases hkind : kind p with
    | true =>
      have hcomm : ∀ side : Policy → Bool,
          ((ordered policies).filter side).filter kind = (ordered (policies.filter kind)).filter side := by
        intro side
        rw [List.filter_comm, ih]
      rw [List.filter_cons_of_pos hkind, ordered_cons, ordered_cons, List.filter_append, List.filter_cons_of_pos hkind,
        hcomm, hcomm]
    | false =>
      have hne : ¬kind p = true := by simp [hkind]
      obtain ⟨earlier, later, hcons, htail, -, -⟩ := exists_ordered_cons p policies
      rw [List.filter_cons_of_neg hne, ← ih, hcons, htail, List.filter_append, List.filter_append,
        List.filter_cons_of_neg hne]

/-- It is the last one of its kind that decides. -/
theorem decides_iff {kind : Policy → Bool} {matched : List Policy} {p : Policy} :
    Decides kind matched p ↔ last? kind (ordered matched) = some p := by
  refine ⟨fun h => ?_, decides_of_last?⟩
  obtain ⟨before, after, hsplit, hafter⟩ := h.last
  have hnone : after.filter kind = [] := List.filter_eq_nil_iff.2 fun q hq => by simp [hafter q hq]
  rw [last?, hsplit, List.filter_append, List.filter_cons_of_pos h.ofKind, hnone, List.getLast?_append_cons]
  rfl

section Insert

variable {kind : Policy → Bool} {d p : Policy} {before after : List Policy}

theorem filter_insert (h : kind d = false) : (before ++ d :: after).filter kind = (before ++ after).filter kind := by
  rw [List.filter_append, List.filter_append, List.filter_cons_of_neg (by simp [h])]

/-- A policy of another kind does not decide, nor does it change which one decides. -/
theorem decides_insert (h : kind d = false) :
    Decides kind (before ++ d :: after) p ↔ Decides kind (before ++ after) p := by
  rw [decides_iff, decides_iff, last?, last?, filter_ordered, filter_ordered, filter_insert h]

theorem topPriority_insert_of_not (h : kind d = false) :
    topPriority kind (before ++ d :: after) = topPriority kind (before ++ after) := by
  rw [topPriority, topPriority, filter_insert h]

theorem topPriority_insert (h : kind d = true) :
    topPriority kind (before ++ d :: after) =
      max (d.priority.toInt : WithBot Int) (topPriority kind (before ++ after)) := by
  have hfirst : ∀ p, p ∈ before ++ d :: after ↔ p ∈ d :: (before ++ after) := fun p => List.perm_middle.mem_iff
  rw [topPriority_congr hfirst, topPriority_eq_maximum, List.filter_cons_of_pos h, List.map_cons, List.maximum_cons,
    ← topPriority_eq_maximum]

/-- With one more policy that allows nothing, the rights last that it does not deny or that are allowed above it. -/
theorem mem_lastingRights_insert {right : String} (h : d.allowedRights = []) :
    right ∈ lastingRights (before ++ d :: after) ↔
      right ∈ lastingRights (before ++ after) ∧
        ¬(right ∈ d.deniedRights ∧
          ∀ p ∈ before ++ after, right ∈ p.allowedRights → p.priority.toInt ≤ d.priority.toInt) := by
  have hmem : ∀ p, p ∈ before ++ d :: after ↔ p = d ∨ p ∈ before ++ after := by
    intro p
    rw [List.perm_middle.mem_iff, List.mem_cons]
  rw [mem_lastingRights_iff, mem_lastingRights_iff]
  constructor
  · rintro ⟨p, hp, hallowed, hlasts⟩
    have hold : p ∈ before ++ after := by
      rcases (hmem p).1 hp with rfl | hp
      · rw [h] at hallowed
        exact absurd hallowed List.not_mem_nil
      · exact hp
    refine ⟨⟨p, hold, hallowed, fun q hq => hlasts q ((hmem q).2 (.inr hq))⟩, ?_⟩
    rintro ⟨hdenied, hbelow⟩
    have habove := hlasts d ((hmem d).2 (.inl rfl)) hdenied
    have := hbelow p hold hallowed
    omega
  · rintro ⟨⟨p, hp, hallowed, hlasts⟩, hspared⟩
    -- it is enough that the right lasts by a policy above the new one, if that denies it
    have hsuffices : ∀ q ∈ before ++ after, right ∈ q.allowedRights → p.priority.toInt ≤ q.priority.toInt →
        (right ∈ d.deniedRights → d.priority.toInt < q.priority.toInt) →
        ∃ q ∈ before ++ d :: after, right ∈ q.allowedRights ∧
          ∀ r ∈ before ++ d :: after, right ∈ r.deniedRights → r.priority.toInt < q.priority.toInt := by
      intro q hq hqallowed hle hlt
      refine ⟨q, (hmem q).2 (.inr hq), hqallowed, ?_⟩
      intro r hr hdenied
      rcases (hmem r).1 hr with rfl | hr
      · exact hlt hdenied
      · exact (hlasts r hr hdenied).trans_le hle
    by_cases hdenied : right ∈ d.deniedRights
    · obtain ⟨q, hq, hqallowed, habove⟩ : ∃ q ∈ before ++ after, right ∈ q.allowedRights ∧
          d.priority.toInt < q.priority.toInt := by
        by_contra hnone
        refine hspared ⟨hdenied, fun q hq hqallowed => ?_⟩
        by_contra hlt
        exact hnone ⟨q, hq, hqallowed, not_le.1 hlt⟩
      rcases le_total p.priority.toInt q.priority.toInt with hle | hle
      · exact hsuffices q hq hqallowed hle fun _ => habove
      · exact hsuffices p hp hallowed le_rfl fun _ => habove.trans_le hle
    · exact hsuffices p hp hallowed le_rfl fun hdenied' => absurd hdenied' hdenied

end Insert

/-! ### Forced verdicts -/

/-- The verdict is a response or a redirect, and this is the policy that decided on it. -/
def Forces (matched : List Policy) (p : Policy) : Prop :=
  ((resolve matched).kind = some .response ∧ Decides Policy.forcesResponse matched p) ∨
    ((resolve matched).kind = some .redirect ∧ Decides (·.redirectTarget?.isSome) matched p)

theorem Decides.unique {kind : Policy → Bool} {matched : List Policy} {p q : Policy} (hp : Decides kind matched p)
    (hq : Decides kind matched q) : p = q :=
  Option.some.inj ((decides_iff.1 hp).symm.trans (decides_iff.1 hq))

/-- What a response carries but for the ids of the matched policies is up to the policy that decides. -/
theorem withoutIds_response {matched : List Policy} {p : Policy} (hkind : (resolve matched).kind = some .response)
    (hp : Decides Policy.forcesResponse matched p) :
    (resolve matched).withoutIds =
      { kind := some .response
        response := { code := p.effects.returnCode, message := p.effects.returnMessage.getD "" }
        metadata := [("policy", p.id)] } := by
  rcases resolve_cases (List.ne_nil_of_mem hp.mem) with ⟨-, -, q, hq, hv⟩ | ⟨-, -, q, -, hv⟩ | ⟨-, -, hv⟩
  · rw [hv, hp.unique hq]
    rfl
  · rw [hv] at hkind
    cases hkind
  · rw [hv] at hkind
    cases hkind

/-- And so it is with a redirect. -/
theorem withoutIds_redirect {matched : List Policy} {p : Policy} (hkind : (resolve matched).kind = some .redirect)
    (hp : Decides (·.redirectTarget?.isSome) matched p) :
    (resolve matched).withoutIds =
      { kind := some .redirect
        redirect := p.redirectTarget?
        metadata := [("policy", p.id)] } := by
  rcases resolve_cases (List.ne_nil_of_mem hp.mem) with ⟨-, -, q, -, hv⟩ | ⟨-, -, q, hq, hv⟩ | ⟨-, -, hv⟩
  · rw [hv] at hkind
    cases hkind
  · rw [hv, hp.unique hq]
    rfl
  · rw [hv] at hkind
    cases hkind

/-- A verdict is forced, or it grants the rights that last. -/
theorem forces_or_lasting (matched : List Policy) :
    (∃ p, Forces matched p) ∨
      (((resolve matched).kind = some .rights ∨ (resolve matched).kind = none) ∧
        (resolve matched).rights = lastingRights matched) := by
  by_cases h : matched = []
  · subst h
    exact .inr ⟨.inr rfl, by simp [resolve, Verdict.neutral, lastingRights, lastingOf, ordered]⟩
  rcases resolve_cases h with ⟨-, -, p, hp, hv⟩ | ⟨-, -, p, hp, hv⟩ | ⟨-, -, hv⟩
  · exact .inl ⟨p, .inl ⟨by rw [hv], hp⟩⟩
  · exact .inl ⟨p, .inr ⟨by rw [hv], hp⟩⟩
  · refine .inr ⟨.inl (by rw [hv]), ?_⟩
    rw [hv]
    exact grantedRights_ordered matched

theorem Forces.kind {matched : List Policy} {p : Policy} (h : Forces matched p) :
    (resolve matched).kind = some .response ∨ (resolve matched).kind = some .redirect := by
  rcases h with ⟨hkind, -⟩ | ⟨hkind, -⟩
  · exact .inl hkind
  · exact .inr hkind

/-! ### Verdicts with one more denial -/

section Denial

variable {d p : Policy} {before after : List Policy}

theorem responseTop_insert (h : d.DeniesOnly) : responseTop (before ++ d :: after) = responseTop (before ++ after) :=
  topPriority_insert_of_not h.forcesResponse

theorem redirectTop_insert (h : d.DeniesOnly) : redirectTop (before ++ d :: after) = redirectTop (before ++ after) :=
  topPriority_insert_of_not h.redirectTarget?

theorem rightsTop_insert (h : d.DeniesOnly) :
    rightsTop (before ++ d :: after) = max (d.priority.toInt : WithBot Int) (rightsTop (before ++ after)) :=
  topPriority_insert h.hasRights

/-- Below the policy that decides, a denial leaves the verdict as it is. -/
theorem withoutIds_of_below (h : d.DeniesOnly) (hp : Forces (before ++ after) p) (hlt : d.priority < p.priority) :
    (resolve (before ++ d :: after)).withoutIds = (resolve (before ++ after)).withoutIds := by
  have hold := resolve_wellFormed (before ++ after)
  have hnew := resolve_wellFormed (before ++ d :: after)
  have hbelow : (d.priority.toInt : WithBot Int) < p.priority.toInt :=
    WithBot.coe_lt_coe.2 (Int64.lt_iff_toInt_lt.1 hlt)
  rcases hp with ⟨hkind, hdecides⟩ | ⟨hkind, hdecides⟩
  · obtain ⟨hle, hrights⟩ := hold.isResponse.1 hkind
    have hkind' : (resolve (before ++ d :: after)).kind = some .response := by
      rw [hnew.isResponse, responseTop_insert h, redirectTop_insert h, rightsTop_insert h, max_lt_iff]
      exact ⟨hle, hbelow.trans_eq hdecides.top.symm, hrights⟩
    rw [withoutIds_response hkind' ((decides_insert h.forcesResponse).2 hdecides), withoutIds_response hkind hdecides]
  · obtain ⟨hlt, hrights⟩ := hold.isRedirect.1 hkind
    have hkind' : (resolve (before ++ d :: after)).kind = some .redirect := by
      rw [hnew.isRedirect, responseTop_insert h, redirectTop_insert h, rightsTop_insert h, max_lt_iff]
      exact ⟨hlt, hbelow.trans_eq hdecides.top.symm, hrights⟩
    rw [withoutIds_redirect hkind' ((decides_insert h.redirectTarget?).2 hdecides), withoutIds_redirect hkind hdecides]

/-- A denial that the policy that decides is not above turns the verdict into one on rights. -/
theorem kind_of_notBelow (h : d.DeniesOnly) (hp : Forces (before ++ after) p) (hle : p.priority ≤ d.priority) :
    (resolve (before ++ d :: after)).kind = some .rights := by
  have hold := resolve_wellFormed (before ++ after)
  have habove : (p.priority.toInt : WithBot Int) ≤ rightsTop (before ++ d :: after) := by
    rw [rightsTop_insert h]
    exact le_max_of_le_left (WithBot.coe_le_coe.2 (Int64.le_iff_toInt_le.1 hle))
  rw [(resolve_wellFormed (before ++ d :: after)).isRights, responseTop_insert h, redirectTop_insert h]
  rcases hp with ⟨hkind, hdecides⟩ | ⟨hkind, hdecides⟩
  · obtain ⟨hresponse, -⟩ := hold.isResponse.1 hkind
    rw [← hdecides.top] at habove
    exact ⟨by simp, fun hboth => not_lt.2 habove hboth.2, fun hboth => not_lt.2 hresponse hboth.1⟩
  · obtain ⟨hredirect, -⟩ := hold.isRedirect.1 hkind
    rw [← hdecides.top] at habove
    exact ⟨by simp, fun hboth => not_le.2 hredirect hboth.1, fun hboth => not_lt.2 habove hboth.2⟩

/-- Where nothing was forced, nothing is. -/
theorem kind_of_settled (h : d.DeniesOnly)
    (hkind : (resolve (before ++ after)).kind = some .rights ∨ (resolve (before ++ after)).kind = none) :
    (resolve (before ++ d :: after)).kind = some .rights := by
  have hold := resolve_wellFormed (before ++ after)
  have hle : rightsTop (before ++ after) ≤ rightsTop (before ++ d :: after) := by
    rw [rightsTop_insert h]
    exact le_max_right _ _
  have hresponse : (resolve (before ++ after)).kind ≠ some .response := by rcases hkind with hk | hk <;> simp [hk]
  have hredirect : (resolve (before ++ after)).kind ≠ some .redirect := by rcases hkind with hk | hk <;> simp [hk]
  rw [Ne, hold.isResponse] at hresponse
  rw [Ne, hold.isRedirect] at hredirect
  rw [(resolve_wellFormed (before ++ d :: after)).isRights, responseTop_insert h, redirectTop_insert h]
  exact ⟨by simp, fun hboth => hresponse ⟨hboth.1, hle.trans_lt hboth.2⟩,
    fun hboth => hredirect ⟨hboth.1, hle.trans_lt hboth.2⟩⟩

end Denial

/-- What a verdict may turn into when one more policy is matched. -/
structure ChangedByDenial (matched : List Policy) (d : Policy) (old new : Verdict) : Prop where
  forced : old.kind = some .response ∨ old.kind = some .redirect → ∃ p, Forces matched p
  /-- Below the policy that decided, only the list of ids is changed. -/
  below : ∀ p, Forces matched p → d.priority < p.priority → new.withoutIds = old.withoutIds
  notBelow : ∀ p, Forces matched p → p.priority ≤ d.priority → new.kind = some .rights
  /-- Where nothing was forced, what is denied and not allowed above is taken away. -/
  settled : old.kind = some .rights ∨ old.kind = none → new.kind = some .rights ∧ ∀ right, right ∈ new.rights ↔
    right ∈ old.rights ∧
      ¬(right ∈ d.deniedRights ∧ ¬∃ p ∈ matched, right ∈ p.allowedRights ∧ d.priority < p.priority)
  /-- Only by overcoming what was forced, a right is let through. -/
  letThrough : ∀ right, right ∈ new.rights → right ∉ old.rights → ∃ p, Forces matched p ∧ p.priority ≤ d.priority

/-- One more policy that only denies, wherever it stands: a verdict that was forced above its priority stays as it is
but for the list of ids, one forced at its priority or below turns into one on rights, and from rights it takes away
what it denies, if no policy allows it above. -/
theorem resolve_denial {d : Policy} (h : d.DeniesOnly) (before after : List Policy) :
    ChangedByDenial (before ++ after) d (resolve (before ++ after)) (resolve (before ++ d :: after)) := by
  have hsettled : (resolve (before ++ after)).rights = lastingRights (before ++ after) →
      (resolve (before ++ d :: after)).kind = some .rights → ∀ right, right ∈ (resolve (before ++ d :: after)).rights ↔
        right ∈ (resolve (before ++ after)).rights ∧ ¬(right ∈ d.deniedRights ∧
          ¬∃ p ∈ before ++ after, right ∈ p.allowedRights ∧ d.priority < p.priority) := by
    intro hrights hkind right
    rw [(resolve_rights (before ++ d :: after)).1, if_pos hkind, hrights, mem_lastingRights_insert h.allowedRights]
    simp only [Int64.lt_iff_toInt_lt, not_exists, not_and, not_lt]
  constructor
  case forced =>
    intro hkind
    rcases forces_or_lasting (before ++ after) with hforces | ⟨hnot, -⟩
    · exact hforces
    · rcases hkind with hk | hk <;> simp [hk] at hnot
  case below => exact fun p hp hlt => withoutIds_of_below h hp hlt
  case notBelow => exact fun p hp hle => kind_of_notBelow h hp hle
  case settled =>
    intro hkind
    have hkind' := kind_of_settled h hkind
    rcases forces_or_lasting (before ++ after) with ⟨p, hp⟩ | ⟨-, hrights⟩
    · rcases hp.kind with hk | hk <;> simp [hk] at hkind
    · exact ⟨hkind', hsettled hrights hkind'⟩
  case letThrough =>
    intro right hnew hold
    rcases forces_or_lasting (before ++ after) with ⟨p, hp⟩ | ⟨hkind, hrights⟩
    · refine ⟨p, hp, ?_⟩
      by_contra hle
      have hsame := withoutIds_of_below h hp (Int64.not_le.1 hle)
      exact hold (congrArg Verdict.rights hsame ▸ hnew)
    · exact absurd ((hsettled hrights (kind_of_settled h hkind) right).1 hnew).1 hold

/-- A door that is closed to everyone at the priority of the ban. -/
def door : Policy := { manifest := { id := "d", priority := 2 }, effects := { returnCode := some 403 } }

set_option maxRecDepth 4000 in
/-- The ban opens the door that it ties with. -/
theorem resolve_denial_door :
    ban.DeniesOnly ∧ ChangedByDenial [writer, door, reader] ban (resolve [writer, door, reader])
      (resolve [writer, door, ban, reader]) ∧
      (resolve [writer, door, reader]).kind = some .response ∧
      (resolve [writer, door, ban, reader]).rights = ["r", "w"] := by
  have hban : ban.DeniesOnly := {
    denies := by decide
    allowsNothing := rfl
    forcesNothing := rfl
    redirectsNowhere := fun target h => (Option.some.inj h).symm }
  exact ⟨hban, resolve_denial hban [writer, door] [reader], by cbv, by cbv⟩

end Resolution

end AccessPolicy
