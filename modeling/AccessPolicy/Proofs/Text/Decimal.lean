import AccessPolicy.Text.Decimal
import AccessPolicy.Proofs.Text.Trim

/-!
# Reading a number back

A number written in decimal digits is read back under the rules of the integer fields, whatever blanks are trimmed
from it first: it has none.
-/

namespace AccessPolicy.Text

private theorem isDigit_digitChar : ∀ d < 10, (digitChar d).isDigit = true := by decide

private theorem digitChar_eq : ∀ d < 10, digitChar d = Nat.digitChar d := by decide

theorem digits_eq_toDigits (n : Nat) : digits n = Nat.toDigits 10 n := by
  induction n using digits.induct with
  | case1 n small => rw [digits, if_pos small, Nat.toDigits_of_lt_base small, digitChar_eq n small]
  | case2 n large ih =>
    have hlast : Nat.toDigits 10 n = Nat.toDigits 10 (n / 10) ++ [Nat.digitChar (n % 10)] :=
      Nat.toDigits_of_base_le (by omega) (by omega)
    rw [digits, if_neg large, ih, hlast, digitChar_eq _ (Nat.mod_lt n (by omega))]

/-- A natural number is written as everywhere. -/
theorem renderInt_natCast (n : Nat) : renderInt n = toString n := by
  rw [Nat.toString_eq_repr, Nat.repr_eq_ofList_toDigits, ← digits_eq_toDigits]
  rfl

theorem digits_ne_nil (n : Nat) : digits n ≠ [] := by
  rw [digits]
  split <;> simp

theorem isDigit_of_mem_digits {n : Nat} {c : Char} (h : c ∈ digits n) : c.isDigit = true := by
  induction n using digits.induct with
  | case1 n small =>
    rw [digits, if_pos small, List.mem_singleton] at h
    rw [h, isDigit_digitChar n small]
  | case2 n large ih =>
    rw [digits, if_neg large, List.mem_append, List.mem_singleton] at h
    rcases h with h | rfl
    · exact ih h
    · exact isDigit_digitChar _ (Nat.mod_lt n (by omega))

theorem readDigits_digits (n : Nat) : readDigits (digits n) = some n := by
  have hall : (digits n).all Char.isDigit = true := List.all_eq_true.2 fun _ => isDigit_of_mem_digits
  have hne : (digits n).isEmpty = false := by simp [digits_ne_nil]
  simp [readDigits, hall, hne, ofDigits_digits]

theorem readNat_digits (n : Nat) : readNat (digits n) = some n := by
  unfold readNat
  split
  · rename_i cs h
    have hplus := isDigit_of_mem_digits (n := n) (c := '+') (by simp [h])
    exact absurd hplus (by decide)
  · exact readDigits_digits n

theorem readInt_decimal (n : Int) : readInt (decimal n) = some n := by
  cases n with
  | ofNat n =>
    unfold readInt
    split
    · rename_i cs h
      have hminus := isDigit_of_mem_digits (n := n) (c := '-') (by rw [show digits n = _ from h]; simp)
      exact absurd hminus (by decide)
    · show (readNat (digits n)).map Int.ofNat = _
      rw [readNat_digits]
      rfl
  | negSucc n =>
    rw [decimal, readInt, readDigits_digits]
    rfl

theorem readInt64_decimal (n : Int64) : readInt64 (decimal n.toInt) = some n := by
  have hrange : Int64.minValue.toInt ≤ n.toInt ∧ n.toInt ≤ Int64.maxValue.toInt :=
    ⟨n.minValue_le_toInt, n.toInt_le⟩
  show (readInt (decimal n.toInt)).bind _ = _
  rw [readInt_decimal]
  show (if _ then _ else _) = _
  rw [if_pos hrange, Int64.ofInt_toInt]

theorem readUInt16_decimal (n : UInt16) : readUInt16 (decimal n.toNat) = some n := by
  show (readNat (digits n.toNat)).bind _ = _
  rw [readNat_digits]
  show (if _ then _ else _) = _
  rw [if_pos n.toNat_lt, UInt16.ofNat_toNat]

/-- The characters of a number: digits, and a minus sign. -/
theorem mem_decimal {n : Int} {c : Char} (h : c ∈ decimal n) : c.isDigit = true ∨ c = '-' := by
  cases n with
  | ofNat n => exact .inl (isDigit_of_mem_digits h)
  | negSucc n =>
    rcases List.mem_cons.1 h with rfl | h
    · exact .inr rfl
    · exact .inl (isDigit_of_mem_digits h)

theorem trim_decimal (n : Int) : trim (decimal n) = decimal n := by
  have hblank : ∀ c ∈ decimal n, isBlank c = false := by
    intro c hc
    rcases mem_decimal hc with hc | rfl
    · rw [Char.isDigit_iff_toNat] at hc
      cases hb : isBlank c with
      | false => rfl
      | true =>
        simp only [isBlank, Bool.or_eq_true, Bool.and_eq_true, decide_eq_true_eq, beq_iff_eq] at hb
        have h0 : '0'.toNat = 48 := rfl
        have h9 : '9'.toNat = 57 := rfl
        omega
    · decide
  exact trim_eq_self.2 ⟨fun c hc => hblank c (List.mem_of_mem_head? hc),
    fun c hc => hblank c (List.mem_of_mem_getLast? hc)⟩

end AccessPolicy.Text
