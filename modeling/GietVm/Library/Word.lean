import Mathlib.Data.Nat.ModEq

/-!
# 32-bit arithmetic

Unsigned 32-bit values are natural numbers below `2 ^ 32`. The operations wrap around; where
no wrap-around happens they are those of the natural numbers.
-/

namespace GietVm.Library

/-- The 32-bit sum. -/
def add32 (a b : ℕ) : ℕ := (a + b) % 0x100000000

/-- The 32-bit difference. -/
def sub32 (a b : ℕ) : ℕ := (a + (0x100000000 - b)) % 0x100000000

/-- The 32-bit product. -/
def mul32 (a b : ℕ) : ℕ := (a * b) % 0x100000000

/-- The 32-bit left shift. -/
def shl32 (a n : ℕ) : ℕ := (a * 2 ^ n) % 0x100000000

theorem add32_lt (a b : ℕ) : add32 a b < 0x100000000 := Nat.mod_lt _ (by decide)

theorem mul32_lt (a b : ℕ) : mul32 a b < 0x100000000 := Nat.mod_lt _ (by decide)

theorem add32_eq {a b : ℕ} (h : a + b < 0x100000000) : add32 a b = a + b :=
  Nat.mod_eq_of_lt h

theorem mul32_eq {a b : ℕ} (h : a * b < 0x100000000) : mul32 a b = a * b :=
  Nat.mod_eq_of_lt h

theorem shl32_eq {a n : ℕ} (h : a * 2 ^ n < 0x100000000) : shl32 a n = a * 2 ^ n :=
  Nat.mod_eq_of_lt h

theorem sub32_eq {a b : ℕ} (hle : b ≤ a) (ha : a < 0x100000000) : sub32 a b = a - b := by
  rw [sub32]
  omega

end GietVm.Library
