import AccessPolicy.Proofs.Repeats
import AccessPolicy.Proofs.Resolution.Precedence

/-!
# Which rights are granted

Rights are settled bucket by bucket, with rights taken away and given again.  The outcome has a closed form
(`lastingRights`): a right that a policy allows lasts when the policy is above every policy that denies the right,
and the rights that last stand in the order in which they are allowed first.  `settle_lastingOf` says that settling one
more bucket of higher priority keeps this form, so all buckets together have it (`grantedRights_ordered`).
-/

namespace AccessPolicy

open Resolution

namespace Resolution

/-- The policy allows the right above every priority at which one of the policies denies it. -/
def lasts (policies : List Policy) (p : Policy) (right : String) : Bool :=
  policies.all fun q => !q.deniedRights.contains right || q.priority < p.priority

/-- The rights that last, in the order in which the policies `speaking` allow them, each once. -/
def lastingOf (policies speaking : List Policy) : List String :=
  (speaking.flatMap fun p => p.allowedRights.filter (lasts policies p)).eraseDups

def lastingRights (matched : List Policy) : List String := lastingOf matched (ordered matched)

theorem lasts_iff {policies : List Policy} {p : Policy} {right : String} :
    lasts policies p right = true ↔
      ∀ q ∈ policies, right ∈ q.deniedRights → q.priority.toInt < p.priority.toInt := by
  simp only [lasts, List.all_eq_true, Bool.or_eq_true, Bool.not_eq_true', List.contains_eq_mem,
    decide_eq_false_iff_not, decide_eq_true_eq, Int64.lt_iff_toInt_lt]
  exact forall₂_congr fun q _ => by rw [imp_iff_not_or]

theorem lasts_append {earlier bucket : List Policy} {p : Policy} {right : String} :
    lasts (earlier ++ bucket) p right = (lasts earlier p right && lasts bucket p right) := by
  simp [lasts]

/-- Over policies that are all lower, a right lasts. -/
private theorem lasts_of_lt {earlier : List Policy} {p : Policy}
    (h : ∀ q ∈ earlier, q.priority.toInt < p.priority.toInt) (right : String) : lasts earlier p right = true :=
  lasts_iff.2 fun q hq _ => h q hq

/-- Against policies that are not lower, a right lasts when none of them denies it. -/
private theorem lasts_of_le {bucket : List Policy} {p : Policy}
    (h : ∀ q ∈ bucket, p.priority.toInt ≤ q.priority.toInt) (right : String) :
    lasts bucket p right = !(bucket.flatMap Policy.deniedRights).contains right := by
  rw [Bool.eq_iff_iff, lasts_iff]
  simp only [Bool.not_eq_true', List.contains_eq_mem, decide_eq_false_iff_not, List.mem_flatMap, not_exists, not_and]
  constructor
  · intro hall q hq hmem
    have := hall q hq hmem
    have := h q hq
    omega
  · intro hnone q hq hmem
    exact absurd hmem (hnone q hq)

/-! ### One bucket -/

/-- Granting rights one by one to those granted before. -/
private theorem foldl_grant (denied allowed granted : List String) :
    allowed.foldl
        (fun granted right => if denied.contains right || granted.contains right then granted else granted ++ [right])
        granted.eraseDups =
      (granted ++ allowed.filter (!denied.contains ·)).eraseDups := by
  induction allowed generalizing granted with
  | nil => simp
  | cons right allowed ih =>
    rw [List.foldl_cons, List.filter_cons]
    by_cases hdenied : denied.contains right
    · simp only [hdenied, Bool.true_or, if_true, Bool.not_true, Bool.false_eq_true, if_false]
      exact ih granted
    · rw [Bool.not_eq_true] at hdenied
      simp only [hdenied, Bool.false_or, Bool.not_false, if_true]
      have hnext := ih (granted ++ [right])
      rw [eraseDups_concat, List.append_assoc, List.singleton_append] at hnext
      rw [← hnext]
      by_cases hmem : right ∈ granted <;> simp [hmem]

/-- Settling a bucket that is above all earlier policies. -/
theorem settle_lastingOf {earlier bucket : List Policy}
    (habove : ∀ p ∈ earlier, ∀ q ∈ bucket, p.priority.toInt < q.priority.toInt)
    (hsame : ∀ p ∈ bucket, ∀ q ∈ bucket, p.priority = q.priority) :
    settle (lastingOf earlier earlier) bucket = lastingOf (earlier ++ bucket) (earlier ++ bucket) := by
  simp only [settle, lastingOf]
  rw [← eraseDups_filter, foldl_grant, List.flatMap_append, List.filter_flatMap, List.filter_flatMap]
  congr 2
  · refine List.flatMap_congr fun p hp => ?_
    rw [List.filter_filter]
    refine List.filter_congr fun right _ => ?_
    rw [lasts_append, lasts_of_le fun q hq => (habove p hp q hq).le, Bool.and_comm]
  · refine List.flatMap_congr fun p hp => List.filter_congr fun right _ => ?_
    rw [lasts_append, lasts_of_lt fun q hq => habove q hq p hp, Bool.true_and,
      lasts_of_le fun q hq => by rw [hsame p hp q hq]]

/-! ### All buckets -/

/-- Buckets of one priority each, in ascending order. -/
structure Layered (buckets : List (List Policy)) : Prop where
  same : ∀ bucket ∈ buckets, ∀ p ∈ bucket, ∀ q ∈ bucket, p.priority = q.priority
  ascending : buckets.Pairwise fun a b => ∀ p ∈ a, ∀ q ∈ b, p.priority.toInt < q.priority.toInt

theorem foldl_settle {buckets : List (List Policy)} (h : Layered buckets) :
    buckets.foldl settle [] = lastingOf buckets.flatten buckets.flatten := by
  induction buckets using List.reverseRecOn with
  | nil => rfl
  | append_singleton buckets bucket ih =>
    have hpairwise := List.pairwise_append.1 h.ascending
    rw [List.foldl_append, ih ⟨fun b hb => h.same b (by simp [hb]), hpairwise.1⟩, List.flatten_append]
    simp only [List.foldl_cons, List.foldl_nil, List.flatten_cons, List.flatten_nil, List.append_nil]
    refine settle_lastingOf ?_ (h.same bucket (by simp))
    intro p hp q hq
    obtain ⟨b, hb, hpb⟩ := List.mem_flatten.1 hp
    exact hpairwise.2.2 b hb bucket (by simp) p hpb q hq

/-- Buckets that do not descend are in ascending order when neighbours differ in priority. -/
private theorem ascending_of_chain {buckets : List (List Policy)}
    (hsame : ∀ bucket ∈ buckets, ∀ p ∈ bucket, ∀ q ∈ bucket, p.priority = q.priority)
    (hle : buckets.Pairwise fun a b => ∀ p ∈ a, ∀ q ∈ b, p.priority.toInt ≤ q.priority.toInt)
    (hchain : buckets.IsChain fun a b =>
      ∃ ha hb, ((a.getLast ha).priority == (b.head hb).priority) = false) :
    buckets.Pairwise fun a b => ∀ p ∈ a, ∀ q ∈ b, p.priority.toInt < q.priority.toInt := by
  induction buckets with
  | nil => exact List.Pairwise.nil
  | cons a buckets ih =>
    have htail := ih (fun b hb => hsame b (List.mem_cons_of_mem _ hb)) (List.pairwise_cons.1 hle).2 hchain.tail
    refine List.pairwise_cons.2 ⟨?_, htail⟩
    cases buckets with
    | nil => simp
    | cons b buckets =>
      obtain ⟨ha, hb, hne⟩ := (List.isChain_cons_cons.1 hchain).1
      have hneighbours : (a.getLast ha).priority.toInt < (b.head hb).priority.toInt := by
        have hle := (List.pairwise_cons.1 hle).1 b (by simp) _ (List.getLast_mem ha) _ (List.head_mem hb)
        refine lt_of_le_of_ne hle fun he => ?_
        simp [Int64.toInt_inj.1 he] at hne
      intro c hc p hp q hq
      have hp' := hsame a (by simp) p hp _ (List.getLast_mem ha)
      have hq' : (b.head hb).priority.toInt ≤ q.priority.toInt := by
        rcases List.mem_cons.1 hc with rfl | hc
        · rw [hsame c (by simp) q hq _ (List.head_mem hb)]
        · exact (List.pairwise_cons.1 (List.pairwise_cons.1 hle).2).1 c hc _ (List.head_mem hb) q hq
      rw [hp']
      omega

private theorem layered_splitBy {policies : List Policy}
    (h : policies.Pairwise fun a b => a.priority.toInt ≤ b.priority.toInt) :
    Layered (policies.splitBy fun a b => a.priority == b.priority) := by
  have hsame : ∀ bucket ∈ policies.splitBy fun a b => a.priority == b.priority,
      ∀ p ∈ bucket, ∀ q ∈ bucket, p.priority = q.priority := by
    intro bucket hbucket
    have hchain : bucket.IsChain fun a b => a.priority = b.priority :=
      (List.isChain_of_mem_splitBy hbucket).imp fun a b hab => by simpa using hab
    have : IsTrans Policy fun a b => a.priority = b.priority := ⟨fun _ _ _ => Eq.trans⟩
    have : Std.Symm fun a b : Policy => a.priority = b.priority := ⟨fun _ _ => Eq.symm⟩
    have hpairwise := List.isChain_iff_pairwise.1 hchain
    intro p hp q hq
    by_cases hpq : p = q
    · rw [hpq]
    · exact hpairwise.forall hp hq hpq
  have hchain := List.isChain_getLast_head_splitBy (fun a b : Policy => a.priority == b.priority) policies
  refine ⟨hsame, ascending_of_chain hsame ?_ hchain⟩
  rw [← List.flatten_splitBy (fun a b => a.priority == b.priority) policies, List.pairwise_flatten] at h
  exact h.2

theorem lastingOf_congr {policies policies' speaking : List Policy} (h : ∀ q, q ∈ policies ↔ q ∈ policies') :
    lastingOf policies speaking = lastingOf policies' speaking := by
  unfold lastingOf
  congr 1
  refine List.flatMap_congr fun p _ => List.filter_congr fun right _ => ?_
  rw [Bool.eq_iff_iff, lasts_iff, lasts_iff]
  exact forall_congr' fun q => by rw [h q]

theorem grantedRights_ordered (matched : List Policy) : grantedRights (ordered matched) = lastingRights matched := by
  have hsorted := (pairwise_ordered matched).imp Policy.priority_le_of_precedes
  unfold grantedRights
  rw [foldl_settle (layered_splitBy hsorted), List.flatten_splitBy]
  exact lastingOf_congr fun q => mem_ordered

/-- Whether a policy allows or denies a right, in any case of letters. -/
def allows (right : String) (p : Policy) : Bool := p.allowedRights.contains (Text.lower right)

def denies (right : String) (p : Policy) : Bool := p.deniedRights.contains (Text.lower right)

theorem mem_lastingRights {matched : List Policy} {right : String} :
    Text.lower right ∈ lastingRights matched ↔
      topPriority (denies right) matched < topPriority (allows right) matched := by
  rw [topPriority_lt]
  simp only [lastingRights, lastingOf, List.mem_eraseDups, List.mem_flatMap, mem_ordered, List.mem_filter, lasts_iff,
    allows, denies, List.contains_eq_mem, decide_eq_true_eq]

/-- A verdict grants the rights that last when it is one on rights, and none otherwise.  No right is granted twice,
and a right is granted exactly when the highest priority that allows it is above all that deny it. -/
theorem resolve_rights (matched : List Policy) :
    (resolve matched).rights = (if (resolve matched).kind = some .rights then lastingRights matched else []) ∧
      (resolve matched).rights.Nodup ∧
      ∀ right, (resolve matched).grants right = true ↔ (resolve matched).kind = some .rights ∧
        topPriority (denies right) matched < topPriority (allows right) matched := by
  have hrights : (resolve matched).rights =
      if (resolve matched).kind = some .rights then lastingRights matched else [] := by
    by_cases h : matched = []
    · subst h; rfl
    · rcases resolve_cases h with ⟨-, -, p, -, hv⟩ | ⟨-, -, p, -, hv⟩ | ⟨-, -, hv⟩ <;> rw [hv]
      · rfl
      · rfl
      · exact grantedRights_ordered matched
  refine ⟨hrights, ?_, fun right => ?_⟩
  · rw [hrights]
    split
    · exact nodup_eraseDups _
    · exact List.nodup_nil
  · rw [Verdict.grants, List.contains_iff_mem, hrights]
    split
    · rename_i hkind
      rw [mem_lastingRights]
      simp [hkind]
    · rename_i hkind
      simp [hkind]

end Resolution

end AccessPolicy
