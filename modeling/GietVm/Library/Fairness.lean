import Mathlib.Algebra.BigOperators.Group.Finset.Basic
import Mathlib.Algebra.Order.BigOperators.Group.Finset

/-!
# Fair schedules

Some parties take the steps of a machine in the order of an infinite schedule. The schedule
is fair if every party occurs in it again and again.

If a step that changes the state lowers a rank, and a state that is not yet final always has
a party whose step lowers the rank, then every fair schedule reaches a final state. The rank
may be a sum over the parties of what each has left to do.
-/

namespace GietVm.Library

variable {S T : Type*}

/-- The states that a schedule goes through. -/
def trace (step : S → T → S) (s : S) (schedule : ℕ → T) : ℕ → S
  | 0 => s
  | k + 1 => step (trace step s schedule k) (schedule k)

/-- Only the parties occur in the schedule, and each of them after every moment. -/
structure Fair (parties : Finset T) (schedule : ℕ → T) : Prop where
  mem : ∀ k, schedule k ∈ parties
  again : ∀ t ∈ parties, ∀ k, ∃ i, schedule (k + i) = t

variable {parties : Finset T} {step : S → T → S} {schedule : ℕ → T} {s : S} {inv final : S → Prop}
  {rank : S → ℕ}

/-- What every step keeps holds along the schedule. -/
theorem trace_inv (hstep : ∀ s t, inv s → t ∈ parties → inv (step s t))
    (hfair : Fair parties schedule) (h : inv s) (k : ℕ) : inv (trace step s schedule k) := by
  induction k with
  | zero => exact h
  | succ k ih => exact hstep _ _ ih (hfair.mem k)

/-- From a state that is not final, a fair schedule lowers the rank. -/
theorem exists_rank_lt (hstep : ∀ s t, inv s → t ∈ parties → inv (step s t))
    (hrank : ∀ s t, inv s → t ∈ parties → step s t = s ∨ rank (step s t) < rank s)
    (hgo : ∀ s, inv s → ¬final s → ∃ t ∈ parties, rank (step s t) < rank s)
    (hfair : Fair parties schedule) (h : inv s) {k : ℕ}
    (hk : ¬final (trace step s schedule k)) :
    ∃ j, rank (trace step s schedule j) < rank (trace step s schedule k) := by
  obtain ⟨t, ht, hlt⟩ := hgo _ (trace_inv hstep hfair h k) hk
  obtain ⟨i, hi⟩ := hfair.again t ht k
  by_contra hnone
  push Not at hnone
  -- no step before the turn of the party changes the state
  have hsame : ∀ j, trace step s schedule (k + j) = trace step s schedule k := by
    intro j
    induction j with
    | zero => rfl
    | succ j ih =>
      have hnext := hrank _ _ (trace_inv hstep hfair h (k + j)) (hfair.mem (k + j))
      have hle := hnone (k + j + 1)
      rw [trace, ih] at hle
      rw [ih] at hnext
      obtain heq | hless := hnext
      · rw [← Nat.add_assoc, trace, ih, heq]
      · omega
  have hle := hnone (k + i + 1)
  rw [trace, hsame, hi] at hle
  omega

variable (inv final rank) in
/-- Every fair schedule reaches a final state. -/
theorem exists_final (hstep : ∀ s t, inv s → t ∈ parties → inv (step s t))
    (hrank : ∀ s t, inv s → t ∈ parties → step s t = s ∨ rank (step s t) < rank s)
    (hgo : ∀ s, inv s → ¬final s → ∃ t ∈ parties, rank (step s t) < rank s)
    (hfair : Fair parties schedule) (h : inv s) : ∃ k, final (trace step s schedule k) := by
  have hdescend : ∀ r k, rank (trace step s schedule k) = r →
      ∃ j, final (trace step s schedule j) := by
    intro r
    induction r using Nat.strong_induction_on with
    | _ r ih =>
      intro k hr
      by_cases hk : final (trace step s schedule k)
      · exact ⟨k, hk⟩
      · obtain ⟨j, hj⟩ := exists_rank_lt hstep hrank hgo hfair h hk
        exact ih _ (hr ▸ hj) j rfl
  exact hdescend _ 0 rfl

/-- A step that lowers what its own party has left lowers the sum. -/
theorem sum_lt_sum_of_party {left left' : T → ℕ} {t : T} (ht : t ∈ parties)
    (hother : ∀ u, u ≠ t → left' u = left u) (hlt : left' t < left t) :
    ∑ u ∈ parties, left' u < ∑ u ∈ parties, left u := by
  refine Finset.sum_lt_sum (fun u _ => ?_) ⟨t, ht, hlt⟩
  by_cases hu : u = t
  · exact hu ▸ hlt.le
  · exact (hother u hu).le

end GietVm.Library
