import Mathlib.Tactic.Common

/-!
# Replacing a stretch of an array

Memories, files and buffers are functions of an index. `splice` replaces the elements of one
stretch by those of another array. Stretches that follow each other are replaced one by one.
-/

namespace GietVm.Library

variable {α : Type*} {f g g' : ℕ → α} {a m n i : ℕ}

/-- The `n` elements from index `a` on are those of `g`, the others those of `f`. -/
def splice (f : ℕ → α) (a n : ℕ) (g : ℕ → α) : ℕ → α := fun i =>
  if a ≤ i ∧ i < a + n then g (i - a) else f i

theorem splice_outside (hi : i < a ∨ a + n ≤ i) : splice f a n g i = f i :=
  if_neg (by omega)

theorem splice_congr (h : ∀ i < n, g i = g' i) : splice f a n g = splice f a n g' := by
  funext i
  rw [splice, splice]
  split
  · exact h _ (by omega)
  · rfl

end GietVm.Library
