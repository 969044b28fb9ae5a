import Mathlib
import AccessPolicy.Resolution

/-!
# The order in which policies speak

`ordered` rearranges the matched policies (`ordered_perm`) so that priorities ascend, and ids where priorities are
equal (`pairwise_ordered`).  The priorities of the policies of one kind have a maximum, or none when there is no such
policy (`topPriority`), and the policy of that kind that speaks last has it, with the greatest id among those
(`last?_spec`).
-/

namespace AccessPolicy

open Resolution

/-! ### Ascending order -/

namespace Policy

theorem precedes_iff {a b : Policy} :
    a.precedes b = true ↔
      a.priority.toInt < b.priority.toInt ∨ (a.priority.toInt = b.priority.toInt ∧ a.id ≤ b.id) := by
  simp [precedes, Int64.lt_iff_toInt_lt, Int64.toInt_inj]

theorem precedes_trans (a b c : Policy) (hab : a.precedes b = true) (hbc : b.precedes c = true) :
    a.precedes c = true := by
  rw [precedes_iff] at hab hbc ⊢
  rcases hab with hab | ⟨hab, hid⟩ <;> rcases hbc with hbc | ⟨hbc, hid'⟩
  · exact Or.inl (hab.trans hbc)
  · exact Or.inl (hbc ▸ hab)
  · exact Or.inl (hab ▸ hbc)
  · exact Or.inr ⟨hab.trans hbc, hid.trans hid'⟩

theorem precedes_total (a b : Policy) : (a.precedes b || b.precedes a) = true := by
  rw [Bool.or_eq_true, precedes_iff, precedes_iff]
  rcases lt_trichotomy a.priority.toInt b.priority.toInt with h | h | h
  · exact Or.inl (Or.inl h)
  · rcases le_total a.id b.id with hid | hid
    · exact Or.inl (Or.inr ⟨h, hid⟩)
    · exact Or.inr (Or.inr ⟨h.symm, hid⟩)
  · exact Or.inr (Or.inl h)

theorem priority_le_of_precedes {a b : Policy} (h : a.precedes b = true) :
    a.priority.toInt ≤ b.priority.toInt := by
  rcases precedes_iff.1 h with h | ⟨h, -⟩ <;> omega

end Policy

namespace Resolution

theorem ordered_perm (matched : List Policy) : (ordered matched).Perm matched :=
  List.mergeSort_perm matched Policy.precedes

@[simp] theorem mem_ordered {p : Policy} {matched : List Policy} : p ∈ ordered matched ↔ p ∈ matched :=
  List.mem_mergeSort

theorem pairwise_ordered (matched : List Policy) : (ordered matched).Pairwise fun a b => a.precedes b = true :=
  List.pairwise_mergeSort Policy.precedes_trans Policy.precedes_total matched

/-! ### The highest priority of a kind -/

/-- The highest priority among the policies of a kind; less than all priorities when there is none. -/
def topPriority (kind : Policy → Bool) (matched : List Policy) : WithBot Int :=
  -- with the order on integers named: the one that is found first cannot be computed with
  @List.maximum Int Int.instLinearOrder.toPreorder Int.decLt ((matched.filter kind).map (·.priority.toInt))

theorem topPriority_eq_maximum (kind : Policy → Bool) (matched : List Policy) :
    topPriority kind matched = ((matched.filter kind).map (·.priority.toInt)).maximum := rfl

theorem topPriority_eq_bot {kind : Policy → Bool} {matched : List Policy} :
    topPriority kind matched = ⊥ ↔ ∀ p ∈ matched, kind p = false := by
  simp [topPriority_eq_maximum, List.maximum_eq_bot, List.filter_eq_nil_iff]

theorem le_topPriority {kind : Policy → Bool} {matched : List Policy} {p : Policy} (hp : p ∈ matched)
    (hkind : kind p = true) : (p.priority.toInt : WithBot Int) ≤ topPriority kind matched :=
  List.le_maximum_of_mem' (List.mem_map_of_mem (List.mem_filter.2 ⟨hp, hkind⟩))

theorem topPriority_eq_coe {kind : Policy → Bool} {matched : List Policy} {n : Int} :
    topPriority kind matched = n ↔
      (∃ p ∈ matched, kind p = true ∧ p.priority.toInt = n) ∧
        ∀ p ∈ matched, kind p = true → p.priority.toInt ≤ n := by
  rw [topPriority_eq_maximum, List.maximum_eq_coe_iff, List.forall_mem_map]
  simp [and_assoc]

/-- Some policy of one kind is above all of another kind exactly when the highest of the one is above the
highest of the other. -/
theorem topPriority_lt {kind kind' : Policy → Bool} {matched : List Policy} :
    topPriority kind matched < topPriority kind' matched ↔
      ∃ p ∈ matched, kind' p = true ∧ ∀ q ∈ matched, kind q = true → q.priority.toInt < p.priority.toInt := by
  constructor
  · intro h
    obtain ⟨n, hn⟩ := WithBot.ne_bot_iff_exists.1 (ne_bot_of_gt h)
    obtain ⟨⟨p, hp, hkind, hpn⟩, -⟩ := topPriority_eq_coe.1 hn.symm
    refine ⟨p, hp, hkind, fun q hq hq' => ?_⟩
    have := (le_topPriority hq hq').trans_lt h
    rw [← hn, WithBot.coe_lt_coe] at this
    omega
  · rintro ⟨p, hp, hkind, hall⟩
    refine lt_of_lt_of_le ?_ (le_topPriority hp hkind)
    rcases hb : topPriority kind matched with _ | n
    · exact WithBot.bot_lt_coe _
    · obtain ⟨⟨q, hq, hqk, hqn⟩, -⟩ := topPriority_eq_coe.1 hb
      have := hall q hq hqk
      exact WithBot.coe_lt_coe.2 (by omega)

/-! ### The last policy of a kind -/

/-- The policy of a kind that speaks last: all after it are of another kind, and none of its kind has a higher
priority, nor a greater id at the same priority. -/
theorem last?_spec {kind : Policy → Bool} {matched : List Policy} {p : Policy}
    (h : last? kind (ordered matched) = some p) :
    p ∈ matched ∧ kind p = true ∧ topPriority kind matched = p.priority.toInt ∧
      (∀ q ∈ matched, kind q = true → q.priority = p.priority → q.id ≤ p.id) ∧
      ∃ before after, ordered matched = before ++ p :: after ∧ ∀ q ∈ after, kind q = false := by
  have hsort : ((ordered matched).filter kind).Pairwise fun a b => a.precedes b = true :=
    (pairwise_ordered matched).filter kind
  obtain ⟨earlier, hfilter⟩ := List.getLast?_eq_some_iff.1 h
  have hmem : p ∈ matched ∧ kind p = true := by
    have : p ∈ (ordered matched).filter kind := by rw [hfilter]; simp
    simpa using this
  -- every other policy of the kind comes earlier, so it precedes this one
  have hprec : ∀ q ∈ matched, kind q = true → q = p ∨ q.precedes p = true := by
    intro q hq hkind
    have : q ∈ earlier ++ [p] := by rw [← hfilter]; simp [hq, hkind]
    rw [hfilter, List.pairwise_append] at hsort
    rcases List.mem_append.1 this with hq | hq
    · exact Or.inr (hsort.2.2 q hq p (by simp))
    · exact Or.inl (List.mem_singleton.1 hq)
  refine ⟨hmem.1, hmem.2, ?_, ?_, ?_⟩
  · refine topPriority_eq_coe.2 ⟨⟨p, hmem.1, hmem.2, rfl⟩, fun q hq hkind => ?_⟩
    rcases hprec q hq hkind with rfl | h
    · exact le_refl _
    · exact Policy.priority_le_of_precedes h
  · intro q hq hkind heq
    rcases hprec q hq hkind with rfl | h
    · exact le_refl _
    · rcases Policy.precedes_iff.1 h with h | h
      · rw [heq] at h; omega
      · exact h.2
  · obtain ⟨before, after, hsplit, -, hafter⟩ := List.filter_eq_append_iff.1 hfilter
    obtain ⟨skipped, rest, rfl, -, -, hrest⟩ := List.filter_eq_cons_iff.1 hafter
    refine ⟨before ++ skipped, rest, by rw [hsplit]; simp, ?_⟩
    simpa using hrest

theorem last?_eq_none {kind : Policy → Bool} {matched : List Policy} :
    last? kind (ordered matched) = none ↔ topPriority kind matched = ⊥ := by
  rw [topPriority_eq_bot, last?, List.getLast?_eq_none_iff, List.filter_eq_nil_iff]
  simp

/-- Comparing the last policies of two kinds is comparing the highest priorities of these kinds. -/
theorem above_last? (kind kind' : Policy → Bool) (matched : List Policy) :
    above ((last? kind (ordered matched)).map Policy.priority)
        ((last? kind' (ordered matched)).map Policy.priority) = true ↔
      topPriority kind' matched < topPriority kind matched := by
  cases h : last? kind (ordered matched) with
  | none =>
    rw [last?_eq_none.1 h]
    simp [above]
  | some p =>
    rw [(last?_spec h).2.2.1]
    cases h' : last? kind' (ordered matched) with
    | none =>
      rw [last?_eq_none.1 h']
      simp [above]
    | some q =>
      rw [(last?_spec h').2.2.1, WithBot.coe_lt_coe]
      simp [above, Int64.lt_iff_toInt_lt]

end Resolution

end AccessPolicy
