import Mathlib.Data.Finset.Card

/-!
# Dropping repeats

`List.eraseDups` keeps the first of equal elements.  What is left has each element once (`nodup_eraseDups`), so it is
as long as the list has different elements (`length_eraseDups`).
-/

namespace AccessPolicy

variable {α : Type} [DecidableEq α]

/-- Induction along `List.eraseDups`: an element is followed by the others of the list without it. -/
private theorem eraseDups_induction {P : List α → Prop} (nil : P [])
    (cons : ∀ a l, P (l.filter fun b => !b == a) → P (a :: l)) (l : List α) : P l := by
  induction h : l.length using Nat.strong_induction_on generalizing l with
  | _ n ih =>
    cases l with
    | nil => exact nil
    | cons a l =>
      have hlt : (l.filter fun b => !b == a).length < n := by
        have := List.length_filter_le (fun b => !b == a) l
        rw [← h, List.length_cons]
        omega
      exact cons a l (ih _ hlt _ rfl)

theorem nodup_eraseDups (l : List α) : l.eraseDups.Nodup := by
  induction l using eraseDups_induction with
  | nil => simp
  | cons a l ih =>
    rw [List.eraseDups_cons, List.nodup_cons, List.mem_eraseDups]
    exact ⟨by simp, ih⟩

theorem length_eraseDups (l : List α) : l.eraseDups.length = l.toFinset.card := by
  rw [← List.toFinset_card_of_nodup (nodup_eraseDups l)]
  congr 1
  ext x
  rw [List.mem_toFinset, List.mem_toFinset, List.mem_eraseDups]

theorem eraseDups_filter (P : α → Bool) (l : List α) : (l.filter P).eraseDups = l.eraseDups.filter P := by
  induction l using eraseDups_induction with
  | nil => rfl
  | cons a l ih =>
    rw [List.eraseDups_cons, List.filter_cons, List.filter_cons, ← ih, List.filter_comm]
    by_cases ha : P a
    · rw [if_pos ha, if_pos ha, List.eraseDups_cons]
    · -- an element that is dropped anyway need not be looked for among the others
      have hall : (l.filter P).filter (fun b => !b == a) = l.filter P := by
        refine List.filter_eq_self.2 fun b hb => ?_
        have hne : b ≠ a := fun he => ha (he ▸ (List.mem_filter.1 hb).2)
        simpa using hne
      rw [if_neg ha, if_neg ha, hall]

theorem eraseDups_concat (l : List α) (x : α) :
    (l ++ [x]).eraseDups = if x ∈ l then l.eraseDups else l.eraseDups ++ [x] := by
  rw [List.eraseDups_append, List.removeAll]
  by_cases hx : x ∈ l <;> simp [hx, List.eraseDups_cons]

end AccessPolicy
