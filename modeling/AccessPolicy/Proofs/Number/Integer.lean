import Mathlib.Data.Nat.Log
import AccessPolicy.Proofs.Number.Rounding

/-!
# Rounding integers

The double nearest to an integer is an integer as well (`roundInt`, `signed_ofInt_eq`): the unit in which doubles are
counted does not matter, since rounding commutes with powers of two (`nearest_shiftLeft`).  Rounding keeps the order
(`nearest_mono`, `roundInt_mono`), so integers are confused by it only when they become equal.
-/

namespace AccessPolicy.Double

/-! ### The digits that are kept -/

/-- How many binary digits are cut off. -/
private def cut (x : Nat) : Nat := Nat.log2 x - 52

/-- The digits that are cut off round up. -/
private def RoundsUp (x : Nat) : Prop :=
  2 ^ cut x < 2 * (x % 2 ^ cut x) ∨ 2 ^ cut x = 2 * (x % 2 ^ cut x) ∧ x / 2 ^ cut x % 2 = 1

private instance (x : Nat) : Decidable (RoundsUp x) := inferInstanceAs (Decidable (_ ∨ _))

private theorem nearest_eq (x : Nat) :
    nearest x 1 = (if RoundsUp x then x / 2 ^ cut x + 1 else x / 2 ^ cut x) * 2 ^ cut x := by
  simp only [nearest, RoundsUp, cut, Nat.div_one, Nat.shiftLeft_eq, Nat.one_mul, Bool.or_eq_true, Bool.and_eq_true,
    decide_eq_true_eq, beq_iff_eq]
  congr

private theorem nearest_of_lt {x : Nat} (h : x < 2 ^ 53) : nearest x 1 = x := by
  have hone := nearest_mul_shiftLeft (n := x) (by omega) 0
  simpa using hone

private theorem cut_add {x : Nat} (h : 2 ^ 52 ≤ x) : cut x + 52 = Nat.log2 x := by
  have hx : x ≠ 0 := by omega
  have hlog : 52 ≤ Nat.log2 x := (Nat.le_log2 hx).2 h
  unfold cut
  omega

/-- No more than 53 digits are kept. -/
private theorem quotient_lt {x : Nat} (h : 2 ^ 52 ≤ x) : x / 2 ^ cut x < 2 ^ 53 := by
  rw [Nat.div_lt_iff_lt_mul (Nat.two_pow_pos _), ← Nat.pow_add, show 53 + cut x = Nat.log2 x + 1 by
    rw [← cut_add h]; omega]
  exact Nat.lt_log2_self

theorem nearest_le {x : Nat} : nearest x 1 ≤ 2 ^ (Nat.log2 x + 1) := by
  by_cases h : 2 ^ 52 ≤ x
  · have hkept : (if RoundsUp x then x / 2 ^ cut x + 1 else x / 2 ^ cut x) ≤ 2 ^ 53 := by
      have := quotient_lt h
      split <;> omega
    calc nearest x 1 ≤ 2 ^ 53 * 2 ^ cut x := by
          rw [nearest_eq]
          exact Nat.mul_le_mul_right _ hkept
      _ = 2 ^ (Nat.log2 x + 1) := by
          rw [← Nat.pow_add, ← cut_add h]
          congr 1
          omega
  · rw [nearest_of_lt (by omega)]
    exact Nat.lt_log2_self.le

/-! ### Order -/

/-- Of two numbers with as many digits, the smaller one is not rounded above the other. -/
private theorem nearest_mono_of_log2_eq {x y : Nat} (hlog : Nat.log2 x = Nat.log2 y) (h : x ≤ y) :
    nearest x 1 ≤ nearest y 1 := by
  have hcut : cut x = cut y := by rw [cut, cut, hlog]
  rw [nearest_eq, nearest_eq, hcut]
  apply Nat.mul_le_mul_right
  have hquotient : x / 2 ^ cut y ≤ y / 2 ^ cut y := Nat.div_le_div_right h
  rcases Nat.lt_or_eq_of_le hquotient with hlt | heq
  · split <;> split <;> omega
  · -- the rest decides, and that of the greater number is not smaller
    have hrest : x % 2 ^ cut y ≤ y % 2 ^ cut y := by
      have hx := Nat.div_add_mod x (2 ^ cut y)
      have hy := Nat.div_add_mod y (2 ^ cut y)
      rw [heq] at hx
      omega
    have hup : RoundsUp x → RoundsUp y := by
      unfold RoundsUp
      rw [hcut, heq]
      rintro (hmore | ⟨hhalf, hodd⟩)
      · exact .inl (by omega)
      · rcases Nat.lt_or_eq_of_le hrest with hlt | hsame
        · exact .inl (by omega)
        · exact .inr ⟨by omega, hodd⟩
    rw [heq]
    by_cases hx : RoundsUp x
    · rw [if_pos hx, if_pos (hup hx)]
    · rw [if_neg hx]
      split <;> omega

theorem nearest_mono {x y : Nat} (h : x ≤ y) : nearest x 1 ≤ nearest y 1 := by
  rcases Nat.eq_zero_or_pos x with rfl | hx
  · rw [nearest_of_lt (by decide)]
    exact Nat.zero_le _
  have hlog : Nat.log2 x ≤ Nat.log2 y := by
    rw [Nat.le_log2 (by omega)]
    exact (Nat.log2_self_le (by omega)).trans h
  rcases Nat.lt_or_eq_of_le hlog with hlt | heq
  · calc nearest x 1 ≤ 2 ^ (Nat.log2 x + 1) := nearest_le
      _ ≤ 2 ^ Nat.log2 y := Nat.pow_le_pow_right (by decide) hlt
      _ = 1 <<< Nat.log2 y := (Nat.one_shiftLeft _).symm
      _ ≤ nearest y 1 := le_nearest (by rw [Nat.one_shiftLeft]; exact Nat.log2_self_le (by omega))
  · exact nearest_mono_of_log2_eq heq h

/-! ### The unit does not matter -/

theorem nearest_shiftLeft (x k : Nat) : nearest (x * 1 <<< k) 1 = nearest x 1 * 1 <<< k := by
  by_cases h : x < 2 ^ 53
  · rw [nearest_mul_shiftLeft h.le, nearest_of_lt h]
  · have hx : 2 ^ 52 ≤ x := by omega
    have hpos : 0 < 2 ^ k := Nat.two_pow_pos k
    have hcut : cut (x * 2 ^ k) = cut x + k := by
      have hlog : Nat.log2 (x * 2 ^ k) = Nat.log2 x + k := by
        have hlower := Nat.log2_self_le (n := x) (by omega)
        have hupper := Nat.lt_log2_self (n := x)
        rw [Nat.log2_eq_iff (Nat.mul_ne_zero (by omega) hpos.ne'), Nat.pow_add, Nat.add_right_comm, Nat.pow_add]
        exact ⟨Nat.mul_le_mul_right _ hlower, Nat.mul_lt_mul_of_pos_right hupper hpos⟩
      have := cut_add hx
      unfold cut at this ⊢
      omega
    have hquotient : x * 2 ^ k / 2 ^ (cut x + k) = x / 2 ^ cut x := by
      rw [Nat.pow_add, Nat.mul_div_mul_right _ _ hpos]
    have hrest : x * 2 ^ k % 2 ^ (cut x + k) = x % 2 ^ cut x * 2 ^ k := by
      rw [Nat.pow_add, Nat.mul_mod_mul_right]
    have hup : RoundsUp (x * 2 ^ k) ↔ RoundsUp x := by
      unfold RoundsUp
      rw [hcut, hquotient, hrest, Nat.pow_add, ← Nat.mul_assoc, Nat.mul_lt_mul_right hpos,
        Nat.mul_left_inj hpos.ne']
    rw [Nat.one_shiftLeft, nearest_eq, nearest_eq, hcut, hquotient, Nat.pow_add, ← Nat.mul_assoc]
    simp only [hup]

/-! ### Integers -/

/-- The integer with 53 significant binary digits that is nearest to an integer. -/
def roundInt (n : Int) : Int := n.sign * nearest n.natAbs 1

theorem signed_ofInt_eq (n : Int) : (ofInt n).signed = roundInt n * one := by
  have hunits : nearest (n.natAbs * one) 1 = nearest n.natAbs 1 * one := nearest_shiftLeft n.natAbs 1074
  simp only [ofInt, signed, roundInt, hunits, decide_eq_true_eq]
  rcases Int.lt_trichotomy n 0 with h | rfl | h
  · rw [if_pos h, Int.sign_eq_neg_one_of_neg h]
    push_cast
    ring
  · rfl
  · rw [if_neg (by omega), Int.sign_eq_one_of_pos h]
    push_cast
    ring

theorem roundInt_of_natAbs_le {n : Int} (h : n.natAbs ≤ 2 ^ 53) : roundInt n = n := by
  have hkept : nearest n.natAbs 1 = n.natAbs := by simpa using nearest_mul_shiftLeft h 0
  rw [roundInt, hkept]
  exact Int.sign_mul_natAbs n

theorem roundInt_mono {a b : Int} (h : a ≤ b) : roundInt a ≤ roundInt b := by
  unfold roundInt
  rcases lt_or_ge a 0 with ha | ha <;> rcases lt_or_ge b 0 with hb | hb
  · have := nearest_mono (show b.natAbs ≤ a.natAbs by omega)
    rw [Int.sign_eq_neg_one_of_neg ha, Int.sign_eq_neg_one_of_neg hb]
    omega
  · have hsign : 0 ≤ b.sign := Int.sign_nonneg_iff.2 hb
    rw [Int.sign_eq_neg_one_of_neg ha]
    calc -1 * (nearest a.natAbs 1 : Int) ≤ 0 := by omega
      _ ≤ _ := Int.mul_nonneg hsign (Int.natCast_nonneg _)
  · omega
  · have := nearest_mono (show a.natAbs ≤ b.natAbs by omega)
    rcases Int.lt_or_eq_of_le ha with ha | rfl
    · rw [Int.sign_eq_one_of_pos ha, Int.sign_eq_one_of_pos (by omega)]
      omega
    · rw [Int.sign_zero, Int.zero_mul]
      exact Int.mul_nonneg (Int.sign_nonneg_iff.2 hb) (Int.natCast_nonneg _)

theorem roundInt_lt_iff {a b : Int} (h : a = b ∨ roundInt a ≠ roundInt b) : roundInt a < roundInt b ↔ a < b := by
  constructor
  · intro hlt
    by_contra hle
    have := roundInt_mono (not_lt.1 hle)
    omega
  · intro hlt
    have := roundInt_mono hlt.le
    omega

/-- Doubles of integers are close only if they are equal. -/
theorem close_ofInt (a b : Int) : (ofInt a).close (ofInt b) = true ↔ roundInt a = roundInt b := by
  have hone : (one : Int) ≠ 0 := by decide +kernel
  have hequal : (ofInt a).signed = (ofInt b).signed ↔ roundInt a = roundInt b := by
    rw [signed_ofInt_eq, signed_ofInt_eq, Int.mul_eq_mul_right_iff hone]
  rw [close_iff, hequal]
  -- they are doubles of integers, so they are integers themselves
  have hapart := Number.apart_integer (roundInt a) (roundInt b)
  rw [signed_ofInt_eq, signed_ofInt_eq]
  exact hapart

theorem signed_ofInt_lt (a b : Int) : (ofInt a).signed < (ofInt b).signed ↔ roundInt a < roundInt b := by
  have hone : (0 : Int) < one := by decide +kernel
  rw [signed_ofInt_eq, signed_ofInt_eq, Int.mul_lt_mul_right hone]

end AccessPolicy.Double
