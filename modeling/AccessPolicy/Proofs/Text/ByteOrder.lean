import Mathlib.Data.String.Basic
import Mathlib.Tactic.SplitIfs

/-!
# The order of texts is the order of their bytes

Texts are compared character by character.  The bytes of two characters differ before either comes to its end, and the
smaller character has the smaller byte there (`encode_append_lt`), so comparing the UTF-8 bytes one by one gives the
same (`lt_iff_bytes_lt`).
-/

namespace AccessPolicy.Text

/-- The bytes of a text in UTF-8. -/
def bytes (s : String) : List UInt8 := s.toUTF8.data.toList

theorem bytes_eq (s : String) : bytes s = s.toList.flatMap String.utf8EncodeChar := by
  have h : s.toUTF8 = s.toList.utf8Encode := (String.utf8Encode_toList).symm
  rw [bytes, h, List.utf8Encode]
  simp

private theorem ofNat_lt_ofNat {m n : Nat} (hm : m < 256) (hn : n < 256) : UInt8.ofNat m < UInt8.ofNat n ↔ m < n := by
  rw [UInt8.lt_iff_toNat_lt, UInt8.toNat_ofNat_of_lt' hm, UInt8.toNat_ofNat_of_lt' hn]

private theorem ofNat_eq_ofNat {m n : Nat} (hm : m < 256) (hn : n < 256) : UInt8.ofNat m = UInt8.ofNat n ↔ m = n := by
  rw [← UInt8.toNat_inj, UInt8.toNat_ofNat_of_lt' hm, UInt8.toNat_ofNat_of_lt' hn]

/-- Numbers are compared by their digits to the base 64, the first of them first. -/
private theorem digits_lt {m n : Nat} (h : m < n) (hn : n < 0x110000) :
    m / 262144 % 8 < n / 262144 % 8 ∨ m / 262144 % 8 = n / 262144 % 8 ∧
      (m / 4096 % 64 < n / 4096 % 64 ∨ m / 4096 % 64 = n / 4096 % 64 ∧
        (m / 64 % 64 < n / 64 % 64 ∨ m / 64 % 64 = n / 64 % 64 ∧ m % 64 < n % 64)) := by
  have hdigits : ∀ k < 0x110000, k = 262144 * (k / 262144 % 8) + 4096 * (k / 4096 % 64) + 64 * (k / 64 % 64) + k % 64 ∧
      k / 262144 % 8 < 8 ∧ k / 4096 % 64 < 64 ∧ k / 64 % 64 < 64 ∧ k % 64 < 64 := by omega
  have hm' := hdigits m (h.trans hn)
  have hn' := hdigits n hn
  generalize m / 262144 % 8 = m1, m / 4096 % 64 = m2, m / 64 % 64 = m3, m % 64 = m4 at hm' ⊢
  generalize n / 262144 % 8 = n1, n / 4096 % 64 = n2, n / 64 % 64 = n3, n % 64 = n4 at hn' ⊢
  omega

/-- Whatever follows them, the bytes of a smaller character are smaller. -/
theorem encode_append_lt {c d : Char} (h : c < d) (cs ds : List UInt8) :
    String.utf8EncodeChar c ++ cs < String.utf8EncodeChar d ++ ds := by
  have hlt : c.val.toNat < d.val.toNat := h
  have hd : d.val.toNat < 0x110000 := by
    rcases d.valid with hv | ⟨-, hv⟩ <;> omega
  have hdigits := digits_lt hlt hd
  simp only [String.utf8EncodeChar]
  -- one case for each pair of numbers of bytes
  split_ifs <;> simp (disch := omega) only [List.cons_append, List.nil_append, List.cons_lt_cons_iff, ofNat_lt_ofNat,
    ofNat_eq_ofNat] <;> omega

theorem bytes_lt_of_lt {s t : List Char} (h : s < t) :
    s.flatMap String.utf8EncodeChar < t.flatMap String.utf8EncodeChar := by
  induction s generalizing t with
  | nil =>
    cases t with
    | nil => exact absurd h (lt_irrefl _)
    | cons d t =>
      rw [List.flatMap_nil, List.flatMap_cons]
      cases hbytes : String.utf8EncodeChar d with
      | nil => exact absurd hbytes String.utf8EncodeChar_ne_nil
      | cons b bs => exact List.nil_lt_cons _ _
  | cons c s ih =>
    cases t with
    | nil => exact absurd h (List.not_lt_nil _)
    | cons d t =>
      rw [List.flatMap_cons, List.flatMap_cons]
      rcases List.cons_lt_cons_iff.1 h with hlt | ⟨rfl, hlt⟩
      · exact encode_append_lt hlt _ _
      · exact List.append_left_lt (ih hlt)

/-- A text is before another one exactly when its bytes are. -/
theorem lt_iff_bytes_lt {s t : String} : s < t ↔ bytes s < bytes t := by
  rw [bytes_eq, bytes_eq, String.lt_iff_toList_lt]
  constructor
  · exact bytes_lt_of_lt
  · intro h
    rcases lt_trichotomy s.toList t.toList with hlt | heq | hgt
    · exact hlt
    · rw [heq] at h
      exact absurd h (List.lt_irrefl _)
    · exact absurd h (List.lt_asymm (bytes_lt_of_lt hgt))

end AccessPolicy.Text
