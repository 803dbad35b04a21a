import Mathlib.Logic.Function.Basic
import Mathlib.Data.Nat.Notation
import Mathlib.Tactic.Common

/-!
# Arrays whose accesses are checked

An array of C of which only some elements have been written. A computation on such an array ends
with an error at the first access outside the array and at the first read of an element that
nothing has written, so one that returns makes neither.
-/

namespace GietVm.Library

/-- The elements of an array that have been written. -/
abbrev Cells (α : Type) := ℕ → Option α

/-- An access that C leaves undefined. -/
inductive ArrayFault
  /-- The index is outside the array. -/
  | outside
  /-- The element has not been written. -/
  | unwritten
  /-- The fuel of a loop is used up. -/
  | endless
  deriving DecidableEq, Repr

section Cells

variable {α : Type}

/-- `a[i] = c` in an array of `size` elements. -/
def writeCell (size : ℕ) (a : Cells α) (i : ℕ) (c : α) : Except ArrayFault (Cells α) :=
  if i < size then .ok (Function.update a i (some c)) else .error .outside

/-- `a[i]` in an array of `size` elements. -/
def readCell (size : ℕ) (a : Cells α) (i : ℕ) : Except ArrayFault α :=
  if i < size then
    match a i with
    | some c => .ok c
    | none => .error .unwritten
  else .error .outside

/-- The `n` elements from an offset on. -/
def readCells (size : ℕ) (a : Cells α) : ℕ → ℕ → Except ArrayFault (List α)
  | _, 0 => .ok []
  | offset, n + 1 => do
    let c ← readCell size a offset
    let rest ← readCells size a (offset + 1) n
    pure (c :: rest)

/-- The array with some elements from an offset on. -/
def putCells (a : Cells α) (offset : ℕ) (l : List α) : Cells α := fun i =>
  if offset ≤ i ∧ i < offset + l.length then l[i - offset]? else a i

theorem ok_bind {ε β γ : Type} (b : β) (f : β → Except ε γ) : (Except.ok b >>= f) = f b := rfl

variable {a : Cells α} {offset : ℕ} {l : List α}

theorem putCells_nil (a : Cells α) (offset : ℕ) : putCells a offset [] = a := by
  funext i
  rw [putCells, if_neg]
  rw [List.length_nil]
  omega

theorem putCells_cons (a : Cells α) (offset : ℕ) (c : α) (l : List α) :
    putCells a offset (c :: l) =
      putCells (Function.update a offset (some c)) (offset + 1) l := by
  funext i
  rw [putCells, putCells, List.length_cons]
  by_cases hi : i = offset
  · subst hi
    rw [if_pos (by omega), if_neg (by omega), Nat.sub_self, Function.update_self]
    rfl
  · rw [Function.update_of_ne hi]
    by_cases hin : offset + 1 ≤ i ∧ i < offset + 1 + l.length
    · rw [if_pos (by omega), if_pos hin,
        show i - offset = (i - (offset + 1)) + 1 by omega, List.getElem?_cons_succ]
    · rw [if_neg (by omega), if_neg hin]

theorem putCells_append (a : Cells α) (offset : ℕ) (l r : List α) :
    putCells (putCells a offset l) (offset + l.length) r = putCells a offset (l ++ r) := by
  induction l generalizing a offset with
  | nil => rw [putCells_nil, List.length_nil, Nat.add_zero, List.nil_append]
  | cons c l ih =>
    rw [putCells_cons, List.cons_append, putCells_cons, ← ih, List.length_cons]
    congr 1
    omega

theorem writeCell_end (size offset : ℕ) (a : Cells α) (l : List α) (c : α) :
    writeCell size (putCells a offset l) (offset + l.length) c =
      if offset + l.length < size then .ok (putCells a offset (l ++ [c]))
      else .error .outside := by
  rw [writeCell, ← putCells_append, putCells_cons, putCells_nil]

theorem putCells_below {i : ℕ} (h : i < offset) : putCells a offset l i = a i := by
  rw [putCells, if_neg (by omega)]

theorem putCells_at {i : ℕ} (hi : i < l.length) : putCells a offset l (offset + i) = some l[i] := by
  rw [putCells, if_pos (by omega), Nat.add_sub_cancel_left, List.getElem?_eq_getElem hi]

/-- Elements that have been written can be read. -/
theorem readCells_of_eq {size : ℕ} (hin : offset + l.length ≤ size)
    (ha : ∀ (i : ℕ) (hi : i < l.length), a (offset + i) = some l[i]) :
    readCells size a offset l.length = .ok l := by
  induction l generalizing offset with
  | nil => rfl
  | cons c l ih =>
    have hrest : readCells size a (offset + 1) l.length = .ok l := by
      apply ih
      · rw [List.length_cons] at hin
        omega
      · intro i hi
        rw [Nat.add_assoc, Nat.add_comm 1 i, ha (i + 1) (by rw [List.length_cons]; omega)]
        rfl
    have hfirst : a offset = some c := ha 0 (Nat.succ_pos _)
    rw [List.length_cons] at hin ⊢
    rw [readCells, readCell, if_pos (by omega), hfirst, ok_bind, hrest]
    rfl

end Cells

end GietVm.Library
