import Mathlib.Data.Nat.ModEq

/-!
# Cyclic scans

A loop visits the indices of a cycle from a starting point on, works on each one, and stops at
the first index that passes a test. The work may change the state on which the later tests are
made. When it concerns the visited index only, the outcome can be read off the state before the
loop.

A round-robin policy starts each scan after the last selected index. Then an index that passes
all its tests is selected within as many scans as the cycle has indices.
-/

namespace GietVm.Library

section Cycle

variable {n start t i j : ℕ}

/-- The number of indices that a scan of a cycle of length `n` visits before it reaches `t`. -/
def ahead (n start t : ℕ) : ℕ := (t + (n - start % n)) % n

theorem ahead_lt (start t : ℕ) (hn : 0 < n) : ahead n start t < n := Nat.mod_lt _ hn

/-- After that many indices the scan is at `t`. -/
theorem add_ahead (ht : t < n) : (start + ahead n start t) % n = t := by
  have hstart : start % n < n := Nat.mod_lt start (by omega)
  rw [ahead, Nat.add_mod_mod]
  have hsplit : start + (t + (n - start % n)) = t + n * (start / n + 1) := by
    have hdiv := Nat.div_add_mod start n
    rw [Nat.mul_add_one]
    omega
  rw [hsplit, Nat.add_mul_mod_self_left, Nat.mod_eq_of_lt ht]

/-- A scan that visits at most `n` indices visits no index twice. -/
theorem visit_inj (hi : i < n) (hj : j < n) (h : (start + i) % n = (start + j) % n) : i = j := by
  have hmod : i ≡ j [MOD n] := Nat.ModEq.add_left_cancel' start h
  exact hmod.eq_of_lt_of_lt hi hj

theorem ahead_eq (hj : j < n) (h : (start + j) % n = t) : ahead n start t = j := by
  have ht : t < n := h ▸ Nat.mod_lt _ (by omega)
  exact visit_inj (ahead_lt start t (by omega)) hj ((add_ahead ht).trans h.symm)

/-- A scan that starts after the index at distance `j` is nearer to `t` by `j + 1`. -/
theorem ahead_after (ht : t < n) (hj : j < ahead n start t) :
    ahead n ((start + j) % n + 1) t = ahead n start t - (j + 1) := by
  have hlt := ahead_lt start t (Nat.zero_lt_of_lt ht)
  refine ahead_eq (by omega) ?_
  rw [Nat.add_assoc, Nat.mod_add_mod]
  have hsum : start + j + (1 + (ahead n start t - (j + 1))) = start + ahead n start t := by omega
  rw [hsum, add_ahead ht]

end Cycle

/-! ## Scans with side effects -/

section Scan

variable {σ : Type*} (n : ℕ) (body : ℕ → σ → σ) (test : ℕ → σ → Bool)

/-- The loop: at most `left` indices from `tid` on are worked on, and the first one that then
passes the test is returned. -/
def scanFrom : ℕ → ℕ → σ → σ × Option ℕ
  | 0, _, s => (s, none)
  | left + 1, tid, s =>
    let s := body (tid % n) s
    if test (tid % n) s then (s, some (tid % n)) else scanFrom left (tid + 1) s

/-- The state after the work on the first `count` indices. -/
def turns (tid : ℕ) : ℕ → σ → σ
  | 0, s => s
  | count + 1, s => body ((tid + count) % n) (turns tid count s)

/-- The index at distance `count` fails the test that is made after the work on it. -/
def Fails (tid count : ℕ) (s : σ) : Prop :=
  test ((tid + count) % n) (turns n body tid (count + 1) s) = false

theorem turns_succ (tid count : ℕ) (s : σ) :
    turns n body tid (count + 1) s = turns n body (tid + 1) count (body (tid % n) s) := by
  induction count with
  | zero => rfl
  | succ count ih =>
    rw [turns, ih, turns, Nat.add_assoc, Nat.add_comm 1 count]

/-- The scan stops at the first index that passes its test, or after the last index. -/
theorem scanFrom_cases (left tid : ℕ) (s : σ) :
    (∃ j, j < left ∧ (∀ i, i < j → Fails n body test tid i s) ∧
      test ((tid + j) % n) (turns n body tid (j + 1) s) = true ∧
      scanFrom n body test left tid s = (turns n body tid (j + 1) s, some ((tid + j) % n))) ∨
    ((∀ i, i < left → Fails n body test tid i s) ∧
      scanFrom n body test left tid s = (turns n body tid left s, none)) := by
  induction left generalizing tid s with
  | zero => exact Or.inr ⟨fun i hi => absurd hi (Nat.not_lt_zero i), rfl⟩
  | succ left ih =>
    have hfirst : turns n body tid 1 s = body (tid % n) s := rfl
    rw [scanFrom]
    by_cases htest : test (tid % n) (body (tid % n) s) = true
    · refine Or.inl ⟨0, Nat.succ_pos left, fun i hi => absurd hi (Nat.not_lt_zero i), ?_, ?_⟩
      · rw [hfirst]
        exact htest
      · rw [if_pos htest, hfirst]
        rfl
    have hzero : Fails n body test tid 0 s := by
      rw [Fails, hfirst]
      exact Bool.eq_false_iff.mpr htest
    -- the failures of the rest of the scan are those of this scan, one index later
    have hshift {i : ℕ} (hi : Fails n body test (tid + 1) i (body (tid % n) s)) :
        Fails n body test tid (i + 1) s := by
      rw [Fails, turns_succ]
      rw [Fails, Nat.add_assoc, Nat.add_comm 1 i] at hi
      exact hi
    rw [if_neg htest]
    rcases ih (tid + 1) (body (tid % n) s) with ⟨j, hj, hfails, hpass, heq⟩ | ⟨hfails, heq⟩
    · rw [Nat.add_assoc, Nat.add_comm 1 j] at hpass heq
      refine Or.inl ⟨j + 1, by omega, fun i hi => ?_, ?_, ?_⟩
      · cases i with
        | zero => exact hzero
        | succ i => exact hshift (hfails i (by omega))
      · rw [turns_succ]
        exact hpass
      · rw [turns_succ]
        exact heq
    · refine Or.inr ⟨fun i hi => ?_, ?_⟩
      · cases i with
        | zero => exact hzero
        | succ i => exact hshift (hfails i (by omega))
      · rw [turns_succ]
        exact heq

end Scan

/-! ## Work that concerns one index -/

section Local

variable {σ α : Type*} {n : ℕ} {body : ℕ → σ → σ}

/-- When the work on an index changes what belongs to this index only, each index is worked on
once if the scan has reached it, and not at all otherwise. -/
theorem turns_view (view : σ → ℕ → α) (work : ℕ → α → α)
    (hself : ∀ i s, i < n → view (body i s) i = work i (view s i))
    (hother : ∀ i t s, i < n → t ≠ i → view (body i s) t = view s t)
    {start count t : ℕ} (ht : t < n) (hcount : count ≤ n) (s : σ) :
    view (turns n body start count s) t =
      if ahead n start t < count then work t (view s t) else view s t := by
  induction count with
  | zero => rw [turns, if_neg (Nat.not_lt_zero _)]
  | succ count ih =>
    have hvisit : (start + count) % n < n := Nat.mod_lt _ (by omega)
    rw [turns]
    by_cases hreach : (start + count) % n = t
    · have hahead : ahead n start t = count := ahead_eq (by omega) hreach
      rw [hreach, hself t _ ht, ih (by omega), if_neg (by omega), if_pos (by omega)]
    · have hahead : ahead n start t ≠ count := by
        rintro rfl
        exact hreach (add_ahead ht)
      rw [hother _ t _ hvisit (Ne.symm hreach), ih (by omega)]
      exact if_congr (by omega) rfl rfl

/-- An index outside the cycle is not worked on. -/
theorem turns_view_of_le (view : σ → ℕ → α)
    (hother : ∀ i t s, i < n → t ≠ i → view (body i s) t = view s t)
    {start count t : ℕ} (hn : 0 < n) (ht : n ≤ t) (s : σ) :
    view (turns n body start count s) t = view s t := by
  induction count with
  | zero => rfl
  | succ count ih =>
    have hvisit : (start + count) % n < n := Nat.mod_lt _ hn
    rw [turns, hother _ t _ hvisit (by omega), ih]

/-- What no work changes is the same after the scan. -/
theorem turns_const {β : Type*} {keep : σ → β} (h : ∀ i s, keep (body i s) = keep s)
    (start count : ℕ) (s : σ) : keep (turns n body start count s) = keep s := by
  induction count with
  | zero => rfl
  | succ count ih => rw [turns, h, ih]

end Local

/-! ## Round robin -/

/-- Each scan starts after the index that the last one has selected, and selects an index that
is no farther than `t`. Then `t` is selected within `n` scans. -/
theorem selected_within {n t : ℕ} (ht : t < n) (current : ℕ → ℕ)
    (hnext : ∀ k, k < n → ∃ j, j ≤ ahead n (current k + 1) t ∧
      current (k + 1) = (current k + 1 + j) % n) :
    ∃ k, k < n ∧ current (k + 1) = t := by
  by_contra hnone
  rw [not_exists] at hnone
  -- the distance decreases with each scan that selects another index
  have hdistance (k : ℕ) (hk : k ≤ n) : ahead n (current k + 1) t + k < n := by
    induction k with
    | zero => exact ahead_lt _ _ (Nat.zero_lt_of_lt ht)
    | succ k ih =>
      obtain ⟨j, hj, heq⟩ := hnext k (by omega)
      have hne : j ≠ ahead n (current k + 1) t := by
        rintro rfl
        exact hnone k ⟨by omega, heq.trans (add_ahead ht)⟩
      have hlt := ih (by omega)
      rw [heq, ahead_after ht (by omega)]
      omega
  have hlast := hdistance n le_rfl
  omega

end GietVm.Library
