import AccessPolicy.Proofs.Resolution.Rights

/-!
# The order of registration does not matter

Matched policies come in the order in which they were registered.  The highest priority of a kind does not depend on
that order (`topPriority_congr`), nor do the rights that last but for their order (`lastingRights_perm`), so neither do
the kind of a verdict and the rights it grants.  Policies that agree in priority and id speak in the order in which they
were registered; if there are none, one order of speaking is left (`ordered_perm_eq`) and the verdict is the same
throughout (`resolve_perm`).
-/

namespace AccessPolicy.Resolution

/-- No two of the policies have both their priority and their id in common. -/
def Distinguished (matched : List Policy) : Prop :=
  matched.Pairwise fun a b => ¬(a.priority = b.priority ∧ a.id = b.id)

instance (matched : List Policy) : Decidable (Distinguished matched) := inferInstanceAs (Decidable (List.Pairwise _ _))

variable {matched matched' : List Policy}

/-! ### Kinds and rights -/

theorem topPriority_congr (h : ∀ p, p ∈ matched ↔ p ∈ matched') (kind : Policy → Bool) :
    topPriority kind matched = topPriority kind matched' := by
  cases htop : topPriority kind matched' with
  | bot =>
    rw [topPriority_eq_bot] at htop ⊢
    intro p hp
    exact htop p ((h p).1 hp)
  | coe n =>
    rw [topPriority_eq_coe] at htop ⊢
    obtain ⟨⟨p, hp, hkind, hpn⟩, hall⟩ := htop
    refine ⟨⟨p, (h p).2 hp, hkind, hpn⟩, ?_⟩
    intro q hq
    exact hall q ((h q).1 hq)

theorem mem_lastingRights_iff {right : String} :
    right ∈ lastingRights matched ↔
      ∃ p ∈ matched, right ∈ p.allowedRights ∧
        ∀ q ∈ matched, right ∈ q.deniedRights → q.priority.toInt < p.priority.toInt := by
  simp only [lastingRights, lastingOf, List.mem_eraseDups, List.mem_flatMap, mem_ordered, List.mem_filter, lasts_iff]

/-- The rights that last are the same ones, though perhaps in another order. -/
theorem lastingRights_perm (h : matched.Perm matched') : (lastingRights matched).Perm (lastingRights matched') := by
  refine (List.perm_ext_iff_of_nodup (nodup_eraseDups _) (nodup_eraseDups _)).2 fun right => ?_
  have hdenied : ∀ p : Policy, (∀ q ∈ matched, right ∈ q.deniedRights → q.priority.toInt < p.priority.toInt) ↔
      ∀ q ∈ matched', right ∈ q.deniedRights → q.priority.toInt < p.priority.toInt :=
    fun p => forall_congr' fun q => by rw [h.mem_iff]
  change right ∈ lastingRights matched ↔ right ∈ lastingRights matched'
  rw [mem_lastingRights_iff, mem_lastingRights_iff]
  exact exists_congr fun p => and_congr h.mem_iff (and_congr_right fun _ => hdenied p)

/-- The kind of verdict that matched policies call for by their highest priorities. -/
noncomputable def decidedKind (matched : List Policy) : VerdictKind :=
  if redirectTop matched ≤ responseTop matched ∧ rightsTop matched < responseTop matched then .response
  else if responseTop matched < redirectTop matched ∧ rightsTop matched < redirectTop matched then .redirect
  else .rights

theorem decidedKind_congr (h : ∀ p, p ∈ matched ↔ p ∈ matched') : decidedKind matched = decidedKind matched' := by
  simp only [decidedKind, responseTop, redirectTop, rightsTop, topPriority_congr h]

/-- A verdict is of the kind called for and grants the rights that last if that is rights. -/
theorem resolve_decidedKind (h : matched ≠ []) :
    (resolve matched).kind = some (decidedKind matched) ∧
      (resolve matched).rights = if decidedKind matched = .rights then lastingRights matched else [] := by
  unfold decidedKind
  rcases resolve_cases h with ⟨hle, hlt, p, -, hv⟩ | ⟨hlt, hlt', p, -, hv⟩ | ⟨hresponse, hredirect, hv⟩
  · rw [hv, if_pos ⟨hle, hlt⟩]
    exact ⟨rfl, rfl⟩
  · rw [hv, if_neg (fun hboth => not_le_of_gt hlt hboth.1), if_pos ⟨hlt, hlt'⟩]
    exact ⟨rfl, rfl⟩
  · rw [hv, if_neg hresponse, if_neg hredirect, grantedRights_ordered]
    exact ⟨rfl, rfl⟩

/-! ### Whole verdicts -/

/-- Policies of which none agree in priority and id can speak in one order only. -/
theorem ordered_perm_eq (h : matched.Perm matched') (hdistinct : Distinguished matched) :
    ordered matched = ordered matched' := by
  have hperm : (ordered matched).Perm (ordered matched') :=
    (ordered_perm matched).trans (h.trans (ordered_perm matched').symm)
  refine List.Perm.eq_of_pairwise ?_ (pairwise_ordered matched) (pairwise_ordered matched') hperm
  intro a b ha hb hab hba
  rw [mem_ordered] at ha
  rw [mem_ordered, ← h.mem_iff] at hb
  -- two policies that precede one another agree in priority and id
  have hsame : a.priority = b.priority ∧ a.id = b.id := by
    rw [Policy.precedes_iff] at hab hba
    have hpriority : a.priority.toInt = b.priority.toInt := by omega
    have hle : a.id ≤ b.id := by
      rcases hab with hlt | ⟨-, hid⟩
      · omega
      · exact hid
    have hge : b.id ≤ a.id := by
      rcases hba with hlt | ⟨-, hid⟩
      · omega
      · exact hid
    exact ⟨Int64.toInt_inj.1 hpriority, le_antisymm hle hge⟩
  by_contra hne
  have : Std.Symm fun a b : Policy => ¬(a.priority = b.priority ∧ a.id = b.id) :=
    ⟨fun a b hab hba => hab ⟨hba.1.symm, hba.2.symm⟩⟩
  exact hdistinct.forall ha hb hne hsame

theorem resolve_eq_of_ordered (h : ordered matched = ordered matched') : resolve matched = resolve matched' := by
  have hempty : matched.isEmpty = matched'.isEmpty := by
    rw [Bool.eq_iff_iff, List.isEmpty_iff_length_eq_zero, List.isEmpty_iff_length_eq_zero,
      ← (ordered_perm matched).length_eq, h, (ordered_perm matched').length_eq]
  rw [resolve, resolve, hempty, h]

/-- Whatever the order in which policies were registered, the verdict on them is of the same kind and grants the same
rights.  If no two of them agree in priority and id, it is the same verdict in all it carries. -/
theorem resolve_perm (h : matched.Perm matched') :
    (resolve matched).kind = (resolve matched').kind ∧
      (resolve matched).rights.Perm (resolve matched').rights ∧
      (Distinguished matched → resolve matched = resolve matched') := by
  have hidentical : Distinguished matched → resolve matched = resolve matched' :=
    fun hdistinct => resolve_eq_of_ordered (ordered_perm_eq h hdistinct)
  by_cases hne : matched = []
  · subst hne
    rw [h.nil_eq]
    exact ⟨rfl, .refl _, fun _ => rfl⟩
  · have hne' : matched' ≠ [] := fun hnil => hne (List.perm_nil.1 (hnil ▸ h))
    obtain ⟨hkind, hrights⟩ := resolve_decidedKind hne
    obtain ⟨hkind', hrights'⟩ := resolve_decidedKind hne'
    have hsame : decidedKind matched = decidedKind matched' := decidedKind_congr fun p => h.mem_iff
    refine ⟨by rw [hkind, hkind', hsame], ?_, hidentical⟩
    rw [hrights, hrights', hsame]
    split
    · exact lastingRights_perm h
    · exact .refl _

/-- A reader and a writer of one priority, and a ban of a higher one under the id of the reader. -/
def reader : Policy := { manifest := { id := "a", priority := 1 }, effects := { allowed := ["R", "l"] } }

def writer : Policy := { manifest := { id := "b", priority := 1 }, effects := { allowed := ["w"] } }

def ban : Policy := { manifest := { id := "a", priority := 2 }, effects := { denied := ["L"], redirect := some "" } }

set_option maxRecDepth 4000 in
theorem resolve_perm_ban :
    [writer, ban, reader].Perm [ban, reader, writer] ∧ Distinguished [writer, ban, reader] ∧
      (resolve [writer, ban, reader]).kind = (resolve [ban, reader, writer]).kind ∧
      (resolve [writer, ban, reader]).rights.Perm (resolve [ban, reader, writer]).rights ∧
      resolve [writer, ban, reader] = resolve [ban, reader, writer] ∧
      (resolve [writer, ban, reader]).rights = ["r", "w"] := by
  have hperm : [writer, ban, reader].Perm [ban, reader, writer] := by decide
  have hdistinct : Distinguished [writer, ban, reader] := by decide
  obtain ⟨hkind, hrights, hidentical⟩ := resolve_perm hperm
  exact ⟨hperm, hdistinct, hkind, hrights, hidentical hdistinct, by cbv⟩

end AccessPolicy.Resolution
