import Mathlib.Tactic.SplitIfs
import AccessPolicy.Text.Bytes

/-!
# Bytes and characters at a position

Behind a prefix stands the next character, and its bytes are looked at from there on.  An ASCII character is its only
byte (`byteAt?_ascii`); the bytes of any other are all from 128 on (`exists_byteAt?`).  So who looks out for ASCII
characters sees the same in the byte where a character stands as in the character (`byteAt?_cons`, `AlikeInAscii`).
-/

namespace AccessPolicy.Text

variable {before rest : List Char} {c : Char}

/-! ### Slices -/

theorem splitAt?_eq_some {n : Nat} {cs s t : List Char} :
    splitAt? n cs = some (s, t) ↔ cs = s ++ t ∧ byteSize s = n := by
  constructor
  · intro h
    induction cs generalizing n s with
    | nil =>
      cases n with
      | zero => cases h; exact ⟨rfl, rfl⟩
      | succ n => cases h
    | cons c cs ih =>
      cases n with
      | zero => cases h; exact ⟨rfl, rfl⟩
      | succ n =>
        rw [splitAt?] at h
        split at h
        · simp only [Option.map_eq_some_iff, Prod.exists, Prod.mk.injEq] at h
          obtain ⟨s', t', hs, rfl, rfl⟩ := h
          obtain ⟨rfl, hsize⟩ := ih hs
          exact ⟨rfl, by simp; omega⟩
        · cases h
  · rintro ⟨rfl, rfl⟩
    induction s with
    | nil => cases t <;> rfl
    | cons c s ih =>
      obtain ⟨n, hn⟩ : ∃ n, byteSize (c :: s) = n + 1 := Nat.exists_eq_succ_of_ne_zero (by
        have := c.utf8Size_pos
        simp; omega)
      have hc : n + 1 - c.utf8Size = byteSize s := by simp at hn; omega
      rw [List.cons_append, hn, splitAt?, if_pos (by simp at hn; omega), hc, ih]
      rfl

/-- A slice begins and ends between two characters, in this order and inside of the text. -/
theorem slice?_eq_some {cs s : List Char} {start stop : Nat} :
    slice? cs start stop = some s ↔
      ∃ before after, cs = before ++ s ++ after ∧ start = byteSize before ∧ stop = byteSize (before ++ s) := by
  simp only [slice?, Option.ite_none_right_eq_some, bind, Option.bind_eq_some_iff, pure, Option.some.injEq, Prod.exists,
    splitAt?_eq_some]
  constructor
  · rintro ⟨hle, before, _, ⟨rfl, rfl⟩, s, after, ⟨rfl, hs⟩, rfl⟩
    exact ⟨before, after, by simp, rfl, by simp; omega⟩
  · rintro ⟨before, after, rfl, rfl, rfl⟩
    exact ⟨by simp, before, s ++ after, by simp, s, after, by simp, rfl⟩

/-! ### Bytes behind a prefix -/

theorem byteAt?_append (before cs : List Char) (k : Nat) :
    byteAt? (before ++ cs) (byteSize before + k) = byteAt? cs k := by
  simp [byteAt?, List.getElem?_append_right]

theorem utf8Size_ascii (hc : c.toNat < 128) : c.utf8Size = 1 :=
  Char.utf8Size_eq_one_iff.2 (UInt32.le_iff_toNat_le.2 (Nat.le_of_lt_succ hc))

/-- An ASCII character is its only byte. -/
theorem byteAt?_ascii (hc : c.toNat < 128) : byteAt? (before ++ c :: rest) (byteSize before) = some c := by
  have hbyte : Char.ofUInt8 c.val.toUInt8 = c := by
    have hval : c.val.toNat % 256 = c.val.toNat := Nat.mod_eq_of_lt (Nat.lt_trans hc (by decide))
    exact Char.ext (UInt32.toNat_inj.1 (by rw [← hval]; rfl))
  rw [← Nat.add_zero (byteSize before), byteAt?_append, byteAt?, encode_cons,
    String.utf8EncodeChar_eq_singleton (utf8Size_ascii hc)]
  exact congrArg some hbyte

private theorem le_of_mem_utf8EncodeChar (hc : 128 ≤ c.toNat) :
    ∀ b ∈ String.utf8EncodeChar c, 128 ≤ b.toNat := by
  have hval : c.toNat = c.val.toNat := rfl
  have hvalid : c.val.toNat < 0x110000 := by
    rcases c.valid with hv | ⟨-, hv⟩ <;> omega
  simp only [String.utf8EncodeChar]
  split_ifs
  · omega
  all_goals simp only [List.forall_mem_cons, UInt8.toNat_ofNat']; simp; omega

/-- The bytes of a longer character are from 128 on; an ASCII character has no more than one byte. -/
theorem exists_byteAt? (before rest : List Char) {k : Nat} (hk : k < c.utf8Size) (h : 0 < k ∨ 128 ≤ c.toNat) :
    ∃ b, byteAt? (before ++ c :: rest) (byteSize before + k) = some b ∧ 128 ≤ b.toNat := by
  have hc : 128 ≤ c.toNat := by
    refine Nat.le_of_not_lt fun hlt => ?_
    have := utf8Size_ascii hlt
    omega
  have hin : k < (String.utf8EncodeChar c).length := by rwa [String.length_utf8EncodeChar]
  refine ⟨Char.ofUInt8 (String.utf8EncodeChar c)[k], ?_, le_of_mem_utf8EncodeChar hc _ (List.getElem_mem hin)⟩
  rw [byteAt?_append, byteAt?, encode_cons, List.getElem?_append_left hin, List.getElem?_eq_getElem hin]
  rfl

/-- The same ASCII character, or none either of them. -/
def AlikeInAscii (b c : Char) : Prop := b = c ∨ 128 ≤ b.toNat ∧ 128 ≤ c.toNat

namespace AlikeInAscii

variable {b c d : Char}

theorem eq_iff (h : AlikeInAscii b c) (hd : d.toNat < 128) : b = d ↔ c = d := by
  rcases h with rfl | ⟨hb, hc⟩
  · rfl
  · constructor
    · rintro rfl
      omega
    · rintro rfl
      omega

/-- A test that only ASCII characters pass does not tell them apart. -/
theorem test_eq (h : AlikeInAscii b c) {p : Char → Bool} (hp : ∀ d, 128 ≤ d.toNat → p d = false) : p b = p c := by
  rcases h with rfl | ⟨hb, hc⟩
  · rfl
  · rw [hp b hb, hp c hc]

end AlikeInAscii

/-- What is looked at where a character stands: the character, or a byte of it that is no ASCII character either. -/
theorem byteAt?_cons (before : List Char) (c : Char) (rest : List Char) :
    ∃ b, byteAt? (before ++ c :: rest) (byteSize before) = some b ∧ AlikeInAscii b c := by
  by_cases hc : c.toNat < 128
  · exact ⟨c, byteAt?_ascii hc, .inl rfl⟩
  · have hhigh : 128 ≤ c.toNat := Nat.le_of_not_lt hc
    obtain ⟨b, hb, hle⟩ := exists_byteAt? before rest c.utf8Size_pos (.inr hhigh)
    exact ⟨b, hb, .inr ⟨hle, hhigh⟩⟩

end AccessPolicy.Text
