import Mathlib.Data.Nat.Bitwise

/-!
# Bit fields of natural numbers

A word is packed by masks, shifts and disjunctions. When the fields do not overlap a
disjunction is a sum, and a mask cuts a field out by division and remainder.
-/

namespace GietVm.Library

/-- A bit is clear. -/
theorem and_two_pow_eq_zero_iff (w i : ℕ) : w &&& 2 ^ i = 0 ↔ w / 2 ^ i % 2 = 0 := by
  rw [Nat.and_two_pow, Nat.testBit_eq_decide_div_mod_eq]
  have hpos := Nat.two_pow_pos i
  have hbit := Nat.mod_two_eq_zero_or_one (w / 2 ^ i)
  constructor
  · intro h
    by_contra hne
    have hone : w / 2 ^ i % 2 = 1 := by omega
    rw [hone, decide_eq_true rfl, Bool.toNat_true, Nat.one_mul] at h
    omega
  · intro h
    rw [h, decide_eq_false (by decide), Bool.toNat_false, Nat.zero_mul]

/-- Fields that do not overlap are added. -/
theorem mul_two_pow_or_eq_add {i b : ℕ} (a : ℕ) (h : b < 2 ^ i) :
    a * 2 ^ i ||| b = a * 2 ^ i + b := by
  rw [Nat.mul_comm, ← Nat.two_pow_add_eq_or_of_lt h]

/-- The mask of the bits from `i` on, below `i + n`. -/
theorem and_high_eq {w i n : ℕ} (h : w < 2 ^ (i + n)) :
    w &&& ((2 ^ n - 1) * 2 ^ i) = w / 2 ^ i * 2 ^ i := by
  have hhigh : w / 2 ^ i < 2 ^ n := by
    rw [Nat.div_lt_iff_lt_mul (Nat.two_pow_pos i), ← Nat.pow_add, Nat.add_comm]
    exact h
  have hlow : w % 2 ^ i < 2 ^ i := Nat.mod_lt _ (Nat.two_pow_pos i)
  have hsplit : w = w / 2 ^ i * 2 ^ i ||| w % 2 ^ i := by
    rw [mul_two_pow_or_eq_add _ hlow, Nat.div_add_mod']
  have hclear : w % 2 ^ i &&& ((2 ^ n - 1) * 2 ^ i) = 0 := by
    apply Nat.eq_of_testBit_eq
    intro j
    rw [Nat.testBit_and, Nat.testBit_mod_two_pow, Nat.testBit_mul_two_pow, Nat.zero_testBit]
    by_cases hj : j < i
    · simp [hj]
    · simp [hj]
  have hkeep : w / 2 ^ i * 2 ^ i &&& ((2 ^ n - 1) * 2 ^ i) = w / 2 ^ i * 2 ^ i := by
    apply Nat.eq_of_testBit_eq
    intro j
    rw [Nat.testBit_and, Nat.testBit_mul_two_pow, Nat.testBit_mul_two_pow,
      Nat.testBit_two_pow_sub_one]
    by_cases hbit : (w / 2 ^ i).testBit (j - i) = true
    · have hj : j - i < n := by
        by_contra hge
        have hzero := Nat.testBit_lt_two_pow (hhigh.trans_le
          (Nat.pow_le_pow_right Nat.two_pos (Nat.le_of_not_lt hge)))
        rw [hbit] at hzero
        cases hzero
      simp [hbit, hj]
    · simp [hbit]
  calc w &&& ((2 ^ n - 1) * 2 ^ i)
      = (w / 2 ^ i * 2 ^ i ||| w % 2 ^ i) &&& ((2 ^ n - 1) * 2 ^ i) := by rw [← hsplit]
    _ = w / 2 ^ i * 2 ^ i := by rw [Nat.and_or_distrib_right, hkeep, hclear, Nat.or_zero]

end GietVm.Library
