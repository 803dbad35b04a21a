import Mathlib.Data.List.Range
import Mathlib.Logic.Function.Basic

/-!
# Circular buffers

A ring is an array whose cells from an index on, modulo the depth, hold a list. Writing one
cell past the end of the list extends it, and advancing the index removes its first element.
The loops that move several elements follow by induction.
-/

namespace GietVm.Library

variable {α : Type*}

/-- The list held by `size` cells from `first` on. -/
def ringContents (data : ℕ → α) (depth first size : ℕ) : List α :=
  (List.range size).map fun i => data ((first + i) % depth)

/-- The cell after a cell. -/
def ringNext (depth i : ℕ) : ℕ := if i + 1 = depth then 0 else i + 1

theorem ringNext_eq {depth i : ℕ} (hi : i < depth) : ringNext depth i = (i + 1) % depth := by
  rw [ringNext]
  split
  · rename_i h
    rw [h, Nat.mod_self]
  · rw [Nat.mod_eq_of_lt (by omega)]

@[simp] theorem ringContents_zero (data : ℕ → α) (depth first : ℕ) :
    ringContents data depth first 0 = [] := rfl

@[simp] theorem ringContents_length (data : ℕ → α) (depth first size : ℕ) :
    (ringContents data depth first size).length = size := by
  rw [ringContents, List.length_map, List.length_range]

/-- Only the cells of the list matter. -/
theorem ringContents_congr {data data' : ℕ → α} {depth first size : ℕ}
    (h : ∀ i < size, data' ((first + i) % depth) = data ((first + i) % depth)) :
    ringContents data' depth first size = ringContents data depth first size := by
  rw [ringContents, ringContents]
  apply List.map_congr_left
  intro i hi
  exact h i (List.mem_range.mp hi)

/-- Different positions of the list are in different cells. -/
theorem ring_cell_ne {depth first i j : ℕ} (hij : i < j) (hj : j < depth) :
    (first + i) % depth ≠ (first + j) % depth := by
  intro h
  have hdiff : first + j - (first + i) = j - i := by omega
  have hmod : (j - i) % depth = 0 := hdiff ▸ Nat.sub_mod_eq_zero_of_mod_eq h.symm
  rw [Nat.mod_eq_of_lt (by omega)] at hmod
  omega

/-- Writing the cell after the end extends the list. -/
theorem ringContents_push (data : ℕ → α) {depth size : ℕ} (first : ℕ) (hsize : size < depth)
    (a : α) :
    ringContents (Function.update data ((first + size) % depth) a) depth first (size + 1) =
      ringContents data depth first size ++ [a] := by
  rw [ringContents, List.range_succ, List.map_append, List.map_singleton, Function.update_self]
  congr 1
  apply ringContents_congr
  intro i hi
  exact Function.update_of_ne (ring_cell_ne hi hsize) _ _

/-- Splitting the list. -/
theorem ringContents_add (data : ℕ → α) (depth first m n : ℕ) :
    ringContents data depth first (m + n) =
      ringContents data depth first m ++ ringContents data depth ((first + m) % depth) n := by
  rw [ringContents, List.range_add, List.map_append, List.map_map]
  congr 1
  apply List.map_congr_left
  intro i _
  change data ((first + (m + i)) % depth) = data (((first + m) % depth + i) % depth)
  rw [Nat.mod_add_mod, Nat.add_assoc]

/-! ## Loops -/

/-- The loop that writes elements `n, n + 1, …` of a source from a cell on. -/
def ringWrite (depth : ℕ) (source : ℕ → α) : ℕ → ℕ → (ℕ → α) → ℕ → (ℕ → α) × ℕ
  | 0, _, data, i => (data, i)
  | count + 1, n, data, i =>
    ringWrite depth source count (n + 1) (Function.update data i (source n)) (ringNext depth i)

/-- The loop that copies elements from a cell on to the places `n, n + 1, …` of a target. -/
def ringRead (depth : ℕ) (data : ℕ → α) : ℕ → ℕ → (ℕ → α) → ℕ → (ℕ → α) × ℕ
  | 0, _, target, i => (target, i)
  | count + 1, n, target, i =>
    ringRead depth data count (n + 1) (Function.update target n (data i)) (ringNext depth i)

/-- The loop of writes appends its elements to the list. -/
theorem ringWrite_spec {depth : ℕ} (source : ℕ → α) (count n : ℕ) (data : ℕ → α)
    {first size : ℕ} (hroom : size + count ≤ depth) :
    ringContents (ringWrite depth source count n data ((first + size) % depth)).1 depth first
        (size + count) =
      ringContents data depth first size ++ (List.range count).map (fun i => source (n + i)) ∧
    (ringWrite depth source count n data ((first + size) % depth)).2 =
      (first + (size + count)) % depth := by
  induction count generalizing n data size with
  | zero => simp [ringWrite]
  | succ count ih =>
    have hlt : (first + size) % depth < depth := Nat.mod_lt _ (by omega)
    have hnext : ringNext depth ((first + size) % depth) = (first + (size + 1)) % depth := by
      rw [ringNext_eq hlt, Nat.mod_add_mod, Nat.add_assoc]
    have hroom' : size + 1 + count ≤ depth := by omega
    have hstep := ih (n + 1) (Function.update data ((first + size) % depth) (source n)) hroom'
    rw [ringContents_push data first (by omega), List.append_assoc] at hstep
    have hsum : size + (count + 1) = size + 1 + count := by omega
    rw [ringWrite, hnext, hsum]
    refine ⟨hstep.1.trans ?_, hstep.2⟩
    congr 1
    rw [List.range_succ_eq_map, List.map_cons, List.map_map]
    refine congrArg₂ List.cons rfl (List.map_congr_left fun i _ => ?_)
    exact congrArg source (by omega)

/-- The loop of reads fills the target with the list. -/
theorem ringRead_spec {depth : ℕ} (data : ℕ → α) (count n : ℕ) (target : ℕ → α) {first : ℕ}
    (hfirst : first % depth = first) (hcount : count ≤ depth) :
    (List.range count).map (fun i => (ringRead depth data count n target first).1 (n + i)) =
      ringContents data depth first count ∧
    (∀ j, j < n ∨ n + count ≤ j → (ringRead depth data count n target first).1 j = target j) ∧
    (ringRead depth data count n target first).2 = (first + count) % depth := by
  induction count generalizing n target first with
  | zero => simp [ringRead, hfirst]
  | succ count ih =>
    have hlt : first < depth := hfirst ▸ Nat.mod_lt _ (by omega)
    have hnext : ringNext depth first = (first + 1) % depth := ringNext_eq hlt
    obtain ⟨hread, hkeep, hlast⟩ := ih (n + 1) (Function.update target n (data first))
      (Nat.mod_mod (first + 1) depth) (by omega)
    rw [ringRead, hnext]
    refine ⟨?_, fun j hj => ?_, ?_⟩
    · have hsum : count + 1 = 1 + count := by omega
      have hhead : ringContents data depth first 1 = [data first] := by
        change [data ((first + 0) % depth)] = _
        rw [Nat.add_zero, hfirst]
      rw [hsum, ringContents_add, ← hread, hhead, ← hsum, List.range_succ_eq_map,
        List.map_cons, List.map_map, List.singleton_append]
      congr 1
      · rw [hkeep _ (Or.inl (by omega)), Nat.add_zero, Function.update_self]
      · apply List.map_congr_left
        intro i _
        have hplace : n + (i + 1) = n + 1 + i := by omega
        change (ringRead _ _ _ _ _ _).1 (n + (i + 1)) = _
        rw [hplace]
    · rw [hkeep j (by omega)]
      exact Function.update_of_ne (by omega) _ _
    · rw [hlast, Nat.mod_add_mod]
      congr 1
      omega

end GietVm.Library
