import Mathlib.Data.List.Infix

/-!
# How often a stretch occurs in a text

Occurrences in two texts are occurrences in the two put together (`occurrences_add_le`), and there are no others
if the second text begins with a character that no occurrence goes on with (`occurrences_append_cons`).
-/

namespace AccessPolicy.Text

/-- How often the stretch occurs in the text. -/
def occurrences (stretch : List Char) : List Char → Nat
  | [] => 0
  | c :: cs => (if stretch <+: c :: cs then 1 else 0) + occurrences stretch cs

variable {stretch : List Char}

theorem occurrences_add_le (s t : List Char) :
    occurrences stretch s + occurrences stretch t ≤ occurrences stretch (s ++ t) := by
  induction s with
  | nil => simp [occurrences]
  | cons c s ih =>
    have hhead : (if stretch <+: c :: s then 1 else 0) ≤ if stretch <+: c :: (s ++ t) then 1 else 0 := by
      by_cases h : stretch <+: c :: s
      · have hlong : stretch <+: c :: (s ++ t) := h.trans (List.prefix_append _ t)
        simp [h, hlong]
      · simp [h]
    rw [List.cons_append, occurrences, occurrences]
    omega

theorem occurrences_le_of_isInfix {s t : List Char} (h : s <:+: t) : occurrences stretch s ≤ occurrences stretch t := by
  obtain ⟨a, b, rfl⟩ := h
  have h1 : occurrences stretch (a ++ s) + occurrences stretch b ≤ _ := occurrences_add_le (a ++ s) b
  have h2 : occurrences stretch a + occurrences stretch s ≤ _ := occurrences_add_le a s
  omega

/-- A stretch that begins before a character it does not go on with ends before it. -/
theorem isPrefix_of_append_cons {c d : Char} (hd : d ∉ stretch.tail) {s t : List Char}
    (h : stretch <+: c :: (s ++ d :: t)) : stretch <+: c :: s := by
  have hshort : c :: s <+: c :: (s ++ d :: t) := by simp
  rcases List.prefix_or_prefix_of_prefix h hshort with hin | ⟨more, hmore⟩
  · exact hin
  · cases more with
    | nil => rw [List.append_nil] at hmore; rw [hmore]
    | cons d' more =>
      -- the stretch would go on with `d`
      rw [← hmore] at h hd
      obtain ⟨rest, hrest⟩ := h
      obtain ⟨rfl, -⟩ : d' = d ∧ _ := by simpa using hrest
      simp at hd

theorem occurrences_append_cons {d : Char} (hd : d ∉ stretch.tail) (s t : List Char) :
    occurrences stretch (s ++ d :: t) = occurrences stretch s + occurrences stretch (d :: t) := by
  induction s with
  | nil => simp [occurrences]
  | cons c s ih =>
    have hhead : stretch <+: c :: (s ++ d :: t) ↔ stretch <+: c :: s :=
      ⟨isPrefix_of_append_cons hd, fun h => h.trans (List.prefix_append _ (d :: t))⟩
    calc occurrences stretch (c :: (s ++ d :: t))
        = (if stretch <+: c :: s then 1 else 0) + occurrences stretch (s ++ d :: t) := by
          rw [occurrences]
          simp only [hhead]
      _ = occurrences stretch (c :: s) + occurrences stretch (d :: t) := by
          rw [ih, ← Nat.add_assoc]
          rfl

/-- A character that no occurrence begins with. -/
theorem occurrences_cons {c : Char} (hc : ∀ d ∈ stretch.head?, d ≠ c) (hne : stretch ≠ []) (s : List Char) :
    occurrences stretch (c :: s) = occurrences stretch s := by
  have hhead : ¬stretch <+: c :: s := by
    cases stretch with
    | nil => exact absurd rfl hne
    | cons d stretch => simpa [List.cons_prefix_cons] using fun h => absurd h (hc d rfl)
  simp [occurrences, hhead]

/-- A text without the character that every occurrence begins with. -/
theorem occurrences_eq_zero {d : Char} (hd : stretch.head? = some d) {s : List Char} (hs : d ∉ s) :
    occurrences stretch s = 0 := by
  induction s with
  | nil => rfl
  | cons c s ih =>
    simp only [List.mem_cons, not_or] at hs
    have hne : stretch ≠ [] := by rintro rfl; simp at hd
    rw [occurrences_cons (by simpa [hd] using hs.1) hne, ih hs.2]

end AccessPolicy.Text
