import AccessPolicy.Text.Blank

/-!
# Positions in the bytes of a text

A text is written in UTF-8, and a position in it counts bytes.  A position need not stand between two characters, and
may lie behind the end: `byteAt?` looks at any of them, `slice?` gives a stretch only if it begins and ends between two
characters.
-/

namespace AccessPolicy.Text

/-- The bytes of a text in UTF-8. -/
def encode (cs : List Char) : List UInt8 := cs.flatMap String.utf8EncodeChar

@[simp] theorem encode_cons (c : Char) (cs : List Char) : encode (c :: cs) = String.utf8EncodeChar c ++ encode cs := rfl

@[simp] theorem encode_append (as bs : List Char) : encode (as ++ bs) = encode as ++ encode bs := List.flatMap_append

@[simp] theorem length_encode (cs : List Char) : (encode cs).length = byteSize cs := by
  induction cs with
  | nil => rfl
  | cons c cs ih => simp [ih]

/-- The byte at a position, as the character of that number.  Below 128 the byte is that character in the text; from
there on it is a part of a character. -/
def byteAt? (cs : List Char) (i : Nat) : Option Char := (encode cs)[i]?.map Char.ofUInt8

theorem byteAt?_eq_none {cs : List Char} {i : Nat} : byteAt? cs i = none ↔ byteSize cs ≤ i := by
  simp [byteAt?]

theorem lt_of_byteAt? {cs : List Char} {i : Nat} {b : Char} (h : byteAt? cs i = some b) : i < byteSize cs := by
  refine Nat.lt_of_not_le fun hle => ?_
  rw [byteAt?_eq_none.2 hle] at h
  cases h

/-- The texts before and after a position; inside a character and behind the end there is nothing to split. -/
def splitAt? : Nat → List Char → Option (List Char × List Char)
  | 0, cs => some ([], cs)
  | _ + 1, [] => none
  | n + 1, c :: cs =>
    if c.utf8Size ≤ n + 1 then (splitAt? (n + 1 - c.utf8Size) cs).map fun (before, after) => (c :: before, after)
    else none

/-- The text between two positions. -/
def slice? (cs : List Char) (start stop : Nat) : Option (List Char) :=
  if start ≤ stop then do
    let (_, cs) ← splitAt? start cs
    let (s, _) ← splitAt? (stop - start) cs
    return s
  else none

end AccessPolicy.Text
