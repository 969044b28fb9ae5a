import Mathlib.Data.Nat.Basic
import Mathlib.Tactic.Ring
import AccessPolicy.Json.Value

/-!
# Numbers and their doubles

Comparisons work on doubles, and equality only asks that these are close.  Of two numbers that are doubles themselves,
and are the same or at least `2 ^ -52` apart, every comparison says what it would say of the numbers
(`signed_toDouble`, `close_toDouble`).
-/

namespace AccessPolicy

namespace Double

/-- Nothing is lost when the digits that are cut off are zero. -/
theorem nearest_of_dvd {x : Nat} (h : 2 ^ (Nat.log2 x - 52) ∣ x) : nearest x 1 = x := by
  have hrest : x % (1 <<< (Nat.log2 x - 52)) = 0 := by
    rw [Nat.one_shiftLeft]
    exact Nat.mod_eq_zero_of_dvd h
  simp only [nearest, Nat.div_one, hrest, Nat.mul_zero, Nat.not_lt_zero, decide_false, Bool.false_or]
  rw [Nat.one_shiftLeft, if_neg (by simp), Nat.shiftLeft_eq]
  exact Nat.div_mul_cancel h

/-- Rounding does not go below a power of two. -/
theorem le_nearest {k x : Nat} (h : 1 <<< k ≤ x) : 1 <<< k ≤ nearest x 1 := by
  rw [Nat.one_shiftLeft] at h ⊢
  have hx : x ≠ 0 := by
    have := Nat.two_pow_pos k
    omega
  have hk : k ≤ Nat.log2 x := (Nat.le_log2 hx).2 h
  by_cases hsmall : Nat.log2 x ≤ 52
  · rw [nearest_of_dvd (by simp [Nat.sub_eq_zero_of_le hsmall])]
    exact h
  · -- what is kept has 53 digits, the first of which is the first digit of the number
    have hkept : 2 ^ 52 ≤ x / 2 ^ (Nat.log2 x - 52) := by
      rw [Nat.le_div_iff_mul_le (Nat.two_pow_pos _), ← Nat.pow_add]
      rw [show 52 + (Nat.log2 x - 52) = Nat.log2 x by omega]
      exact Nat.log2_self_le hx
    have hquotient : x / 2 ^ (Nat.log2 x - 52) * 2 ^ (Nat.log2 x - 52) ≤ nearest x 1 := by
      simp only [nearest, Nat.div_one, Nat.shiftLeft_eq, Nat.one_mul]
      apply Nat.mul_le_mul_right
      split <;> omega
    calc 2 ^ k ≤ 2 ^ (52 + (Nat.log2 x - 52)) := Nat.pow_le_pow_right (by decide) (by omega)
      _ = 2 ^ 52 * 2 ^ (Nat.log2 x - 52) := Nat.pow_add ..
      _ ≤ _ := Nat.mul_le_mul_right _ hkept
      _ ≤ _ := hquotient

/-- Whole numbers of at most 53 digits are kept, whatever they count, and so is the next one after them. -/
theorem nearest_mul_shiftLeft {n : Nat} (h : n ≤ 2 ^ 53) (k : Nat) : nearest (n * 1 <<< k) 1 = n * 1 <<< k := by
  rw [Nat.one_shiftLeft]
  apply nearest_of_dvd
  rcases Nat.eq_zero_or_pos n with rfl | hpos
  · simp
  rcases Nat.eq_or_lt_of_le h with rfl | hlt
  · rw [← Nat.pow_add, Nat.log2_two_pow]
    exact Nat.pow_dvd_pow _ (by omega)
  · have hne : n * 2 ^ k ≠ 0 := Nat.mul_ne_zero (by omega) (Nat.two_pow_pos k).ne'
    have hlog : Nat.log2 (n * 2 ^ k) < 53 + k := by
      rw [Nat.log2_lt hne, Nat.pow_add]
      exact Nat.mul_lt_mul_of_pos_right hlt (Nat.two_pow_pos k)
    exact (Nat.pow_dvd_pow 2 (by omega)).trans (Nat.dvd_mul_left _ _)

theorem nearest_mul_one {n : Nat} (h : n ≤ 2 ^ 53) : nearest (n * one) 1 = n * one := nearest_mul_shiftLeft h 1074

theorem signed_ofInt {n : Int} (h : n.natAbs ≤ 2 ^ 53) : (ofInt n).signed = n * one := by
  simp only [ofInt, signed, nearest_mul_one h, decide_eq_true_eq]
  split
  · rw [Int.natCast_mul, ← Int.neg_mul]
    congr 1
    omega
  · rw [Int.natCast_mul]
    congr 1
    omega

/-- Doubles are close if they are equal, and are not if they are at least `2 ^ -52` apart. -/
theorem close_iff {a b : Double} (h : a.signed = b.signed ∨ 1 <<< 1022 ≤ (a.signed - b.signed).natAbs) :
    a.close b = true ↔ a.signed = b.signed := by
  rw [close, decide_eq_true_eq]
  constructor
  · intro hclose
    exact h.resolve_right fun hapart => Nat.not_lt.2 (le_nearest hapart) hclose
  · intro heq
    rw [heq, Int.sub_self, nearest_of_dvd (by simp), Nat.one_shiftLeft]
    exact Nat.two_pow_pos 1022

end Double

namespace Number

/-- The number itself, in units of `2 ^ -1074`. -/
def inUnits : Number → Int
  | integer n => n * Double.one
  | double d => d.signed

/-- A double has just the value of the number. -/
def IsDouble (n : Number) : Prop := n.toDouble.signed = n.inUnits

theorem isDouble_integer {n : Int} (h : n.natAbs ≤ 2 ^ 53) : (integer n).IsDouble := Double.signed_ofInt h

/-- The numbers are the same, or at least `2 ^ -52` apart. -/
def Apart (m n : Number) : Prop := m.inUnits = n.inUnits ∨ 1 <<< 1022 ≤ (m.inUnits - n.inUnits).natAbs

theorem Apart.symm {m n : Number} (h : m.Apart n) : n.Apart m := by
  unfold Apart at h ⊢
  omega

/-- Whole numbers are. -/
theorem apart_integer (m n : Int) : (integer m).Apart (integer n) := by
  rcases eq_or_ne m n with rfl | hne
  · exact .inl rfl
  · right
    have hone : 1 <<< 1022 ≤ Double.one := by decide +kernel
    have hdiff : 1 ≤ (m - n).natAbs := by omega
    calc 1 <<< 1022 ≤ Double.one := hone
      _ ≤ (m - n).natAbs * Double.one := Nat.le_mul_of_pos_left _ hdiff
      _ = ((m - n) * (Double.one : Int)).natAbs := by rw [Int.natAbs_mul, Int.natAbs_natCast]
      _ = _ := by rw [Int.sub_mul, inUnits, inUnits]

theorem close_toDouble {m n : Number} (hm : m.IsDouble) (hn : n.IsDouble) (h : m.Apart n) :
    m.toDouble.close n.toDouble = true ↔ m.inUnits = n.inUnits := by
  rw [← hm, ← hn]
  refine Double.close_iff ?_
  rw [hm, hn]
  exact h

end Number

end AccessPolicy
