import Mathlib.Data.List.DropRight
import AccessPolicy.Text.Blank

/-!
# Trimming

A text that is trimmed is one with no blank at either end (`trim_eq_self`), and one trimming is enough
(`trim_trim`).
-/

namespace AccessPolicy.Text

theorem trimEnd_concat (cs : List Char) (c : Char) :
    trimEnd (cs ++ [c]) = if isBlank c then trimEnd cs else cs ++ [c] :=
  List.rdropWhile_concat isBlank cs c

private theorem trimEnd_isPrefix (cs : List Char) : trimEnd cs <+: cs := List.rdropWhile_prefix isBlank cs

private theorem trimStart_isSuffix (cs : List Char) : trimStart cs <:+ cs := List.dropWhile_suffix isBlank

theorem trim_isInfix (cs : List Char) : trim cs <:+: cs :=
  (trimEnd_isPrefix (trimStart cs)).isInfix.trans (trimStart_isSuffix cs).isInfix

theorem trim_eq_self {cs : List Char} :
    trim cs = cs ↔ (∀ c ∈ cs.head?, isBlank c = false) ∧ ∀ c ∈ cs.getLast?, isBlank c = false := by
  cases cs with
  | nil => simp [trim, trimStart, trimEnd]
  | cons c cs =>
    have hlast : trimEnd (c :: cs) = c :: cs ↔ isBlank ((c :: cs).getLast (by simp)) = false := by
      show List.rdropWhile isBlank (c :: cs) = c :: cs ↔ _
      simp
    rw [List.getLast?_eq_some_getLast (by simp : c :: cs ≠ [])]
    cases hc : isBlank c with
    | false => simpa [trim, trimStart, hc] using hlast
    | true =>
      have hshort : (trim (c :: cs)).length ≤ cs.length := by
        have htrim : trim (c :: cs) = trim cs := by simp [trim, trimStart, hc]
        rw [htrim]
        exact (trim_isInfix cs).length_le
      constructor
      · intro h
        rw [h] at hshort
        exact absurd hshort (by simp)
      · rintro ⟨h, -⟩
        simp [hc] at h

theorem isBlank_of_trim_eq_nil {cs : List Char} (h : trim cs = []) : ∀ c ∈ cs, isBlank c = true := by
  have hblank : ∀ c ∈ trimStart cs, isBlank c = true := List.rdropWhile_eq_nil_iff.1 h
  have hstart : trimStart cs = [] := by
    cases hc : trimStart cs with
    | nil => rfl
    | cons c rest =>
      have hhead := List.head?_dropWhile_not isBlank cs
      rw [show cs.dropWhile isBlank = c :: rest from hc] at hhead
      rw [hc] at hblank
      simp [hblank c List.mem_cons_self] at hhead
  exact List.dropWhile_eq_nil_iff.1 hstart

theorem trim_trim (cs : List Char) : trim (trim cs) = trim cs := by
  rw [trim_eq_self]
  constructor
  · intro c hc
    have hhead := List.head?_dropWhile_not isBlank cs
    obtain ⟨t, ht⟩ := trimEnd_isPrefix (trimStart cs)
    have hfirst : (List.dropWhile isBlank cs).head? = some c := by
      show (trimStart cs).head? = some c
      rw [← ht, List.head?_append, show (trimEnd (trimStart cs)).head? = some c from hc]
      rfl
    rw [hfirst] at hhead
    exact hhead
  · intro c hc
    obtain ⟨s, hs⟩ := List.getLast?_eq_some_iff.1 hc
    have hidem : trimEnd (trim cs) = trim cs := List.rdropWhile_idempotent isBlank (trimStart cs)
    rw [hs, trimEnd_concat] at hidem
    by_contra hblank
    rw [if_pos (by simpa using hblank)] at hidem
    have hle := (trimEnd_isPrefix s).length_le
    rw [hidem] at hle
    exact absurd hle (by simp)

end AccessPolicy.Text
