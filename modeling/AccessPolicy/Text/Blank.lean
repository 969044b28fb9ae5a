/-!
# Blanks and trimming

Two classes of blanks: the five ASCII ones that separate the parts of a tag, and Unicode `White_Space`, which
is trimmed from texts.  `trimStart_append_of_blank` and `trimEnd_append_of_blank` say that blanks at the ends never
count.
-/

namespace AccessPolicy.Text

/-- Space, tab, line feed, form feed and carriage return; the vertical tab is not among them. -/
def isTagBlank (c : Char) : Bool :=
  c == ' ' || c == '\t' || c == '\n' || c == '\x0c' || c == '\r'

/-- Unicode `White_Space`. -/
def isBlank (c : Char) : Bool :=
  let n := c.toNat
  (0x09 ≤ n && n ≤ 0x0D) || n == 0x20 || n == 0x85 || n == 0xA0 || n == 0x1680 ||
    (0x2000 ≤ n && n ≤ 0x200A) || n == 0x2028 || n == 0x2029 || n == 0x202F || n == 0x205F || n == 0x3000

def trimStart (cs : List Char) : List Char := cs.dropWhile isBlank

def trimEnd (cs : List Char) : List Char := (cs.reverse.dropWhile isBlank).reverse

/-- The text without the blanks at both its ends. -/
def trim (cs : List Char) : List Char := trimEnd (trimStart cs)

/-- `trim` on strings. -/
def trimmed (s : String) : String := String.ofList (trim s.toList)

/-- The length of a text in bytes of UTF-8. -/
def byteSize (cs : List Char) : Nat := cs.foldr (fun c n => c.utf8Size + n) 0

@[simp] theorem byteSize_nil : byteSize [] = 0 := rfl

@[simp] theorem byteSize_cons (c : Char) (cs : List Char) : byteSize (c :: cs) = c.utf8Size + byteSize cs := rfl

@[simp] theorem byteSize_append (as bs : List Char) : byteSize (as ++ bs) = byteSize as + byteSize bs := by
  induction as with
  | nil => simp
  | cons a as ih => simp [ih, Nat.add_assoc]

theorem isBlank_of_isTagBlank {c : Char} (h : isTagBlank c = true) : isBlank c = true := by
  simp only [isTagBlank, Bool.or_eq_true, beq_iff_eq] at h
  rcases h with (((rfl | rfl) | rfl) | rfl) | rfl <;> decide

theorem trimStart_append_of_blank {bs cs : List Char} (h : ∀ b ∈ bs, isBlank b = true) :
    trimStart (bs ++ cs) = trimStart cs := by
  induction bs with
  | nil => rfl
  | cons b bs ih =>
    have hb : isBlank b = true := h b (by simp)
    simpa [trimStart, List.dropWhile_cons, hb] using ih fun x hx => h x (by simp [hx])

theorem trimEnd_append_of_blank {cs bs : List Char} (h : ∀ b ∈ bs, isBlank b = true) :
    trimEnd (cs ++ bs) = trimEnd cs := by
  have : trimStart (bs.reverse ++ cs.reverse) = trimStart cs.reverse :=
    trimStart_append_of_blank fun b hb => h b (by simpa using hb)
  simpa [trimEnd, trimStart] using congrArg List.reverse this

end AccessPolicy.Text
