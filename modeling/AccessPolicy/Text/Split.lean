/-!
# Cutting a text at a character

`splitEach` gives the pieces between the occurrences of a separator, one more than there are occurrences;
`intercalate_splitEach` puts them together again.
-/

namespace AccessPolicy.Text

def splitEach (separator : Char) : List Char → List (List Char)
  | [] => [[]]
  | c :: cs =>
    if c = separator then [] :: splitEach separator cs
    else
      match splitEach separator cs with
      | [] => [[c]]
      | piece :: pieces => (c :: piece) :: pieces

theorem splitEach_ne_nil (separator : Char) (cs : List Char) : splitEach separator cs ≠ [] := by
  cases cs with
  | nil => simp [splitEach]
  | cons c cs =>
    rw [splitEach]
    split
    · simp
    · split <;> simp

theorem intercalate_splitEach (separator : Char) (cs : List Char) :
    [separator].intercalate (splitEach separator cs) = cs := by
  induction cs with
  | nil => rfl
  | cons c cs ih =>
    rw [splitEach]
    split
    · rename_i h
      obtain ⟨piece, pieces, hp⟩ := List.exists_cons_of_ne_nil (splitEach_ne_nil separator cs)
      rw [hp] at ih ⊢
      simpa [List.intercalate, h] using ih
    · obtain ⟨piece, pieces, hp⟩ := List.exists_cons_of_ne_nil (splitEach_ne_nil separator cs)
      rw [hp] at ih ⊢
      cases pieces <;> simpa [List.intercalate] using ih

/-- The strings between the occurrences of a character. -/
def splitText (separator : Char) (s : String) : List String := (splitEach separator s.toList).map String.ofList

end AccessPolicy.Text
