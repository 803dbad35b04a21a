import GietVm.Library.Fairness

/-!
# What a fair schedule leads to

A property of states leads to another one in a run if the run goes on from every state with the
first to a state with the second. Three rules suffice for the progress of parties that wait for
each other. A party whose turn comes makes the step that only it can make. What leads to something
still does so while a third property lasts. And a property that leads to a lower rank, as long as
the goal is not reached, leads to the goal.
-/

namespace GietVm.Library

variable {S T : Type*}

/-- From every state of the run with the first property, the run goes on to a state with the
second. -/
def LeadsTo (run : ℕ → S) (P Q : S → Prop) : Prop :=
  ∀ k, P (run k) → ∃ j, k ≤ j ∧ Q (run j)

namespace LeadsTo

variable {run : ℕ → S} {P Q R U : S → Prop}

theorem trans (hpq : LeadsTo run P Q) (hqr : LeadsTo run Q R) : LeadsTo run P R := by
  intro k hk
  obtain ⟨j, hkj, hj⟩ := hpq k hk
  obtain ⟨i, hji, hi⟩ := hqr j hj
  exact ⟨i, hkj.trans hji, hi⟩

/-- A property that lasts unless something happens still holds when the goal is reached. -/
theorem and_lasting (h : LeadsTo run P Q)
    (hkeep : ∀ k, R (run k) → R (run (k + 1)) ∨ U (run (k + 1))) :
    LeadsTo run (fun s => P s ∧ R s) (fun s => Q s ∧ R s ∨ U s) := by
  intro k ⟨hP, hR⟩
  obtain ⟨j, hkj, hQ⟩ := h k hP
  have hlast : ∀ i, (∃ l, k ≤ l ∧ U (run l)) ∨ R (run (k + i)) := by
    intro i
    induction i with
    | zero => exact Or.inr hR
    | succ i ih =>
      obtain hU | hR := ih
      · exact Or.inl hU
      · obtain hR | hU := hkeep (k + i) hR
        · exact Or.inr hR
        · exact Or.inl ⟨k + i + 1, by omega, hU⟩
  obtain ⟨l, hkl, hU⟩ | hR := hlast (j - k)
  · exact ⟨l, hkl, Or.inr hU⟩
  · rw [Nat.add_sub_of_le hkj] at hR
    exact ⟨j, hkj, Or.inl ⟨hQ, hR⟩⟩

/-- A rank goes down until the goal is reached. -/
theorem by_rank (rank : S → ℕ)
    (h : ∀ r, LeadsTo run (fun s => P s ∧ rank s = r) (fun s => Q s ∨ P s ∧ rank s < r)) :
    LeadsTo run P Q := by
  have hdescend : ∀ r k, P (run k) → rank (run k) = r → ∃ j, k ≤ j ∧ Q (run j) := by
    intro r
    induction r using Nat.strong_induction_on with
    | _ r ih =>
      intro k hP hr
      obtain ⟨j, hkj, hQ | ⟨hP, hlt⟩⟩ := h r k ⟨hP, hr⟩
      · exact ⟨j, hkj, hQ⟩
      · obtain ⟨i, hji, hQ⟩ := ih _ hlt j hP rfl
        exact ⟨i, hkj.trans hji, hQ⟩
  intro k hP
  exact hdescend _ k hP rfl

end LeadsTo

section Turn

variable {parties : Finset T} {step : S → T → S} {schedule : ℕ → T} {s : S}
  {inv P Q : S → Prop} {t : T}

/-- In a fair schedule the turn of a party comes, unless the goal is reached before. -/
theorem leadsTo_turn (hfair : Fair parties schedule) (hinv : ∀ k, inv (trace step s schedule k))
    (ht : t ∈ parties)
    (hother : ∀ s u, inv s → u ∈ parties → u ≠ t → P s → P (step s u) ∨ Q (step s u))
    (hself : ∀ s, inv s → P s → Q (step s t)) : LeadsTo (trace step s schedule) P Q := by
  intro k hk
  obtain ⟨i, hi⟩ := hfair.again t ht k
  have hwait : ∀ i, (∃ j, k ≤ j ∧ Q (trace step s schedule j)) ∨
      P (trace step s schedule (k + i)) := by
    intro i
    induction i with
    | zero => exact Or.inr hk
    | succ i ih =>
      obtain hQ | hP := ih
      · exact Or.inl hQ
      · by_cases hturn : schedule (k + i) = t
        · refine Or.inl ⟨k + i + 1, by omega, ?_⟩
          rw [trace, hturn]
          exact hself _ (hinv _) hP
        · obtain hP | hQ := hother _ _ (hinv _) (hfair.mem (k + i)) hturn hP
          · exact Or.inr hP
          · exact Or.inl ⟨k + i + 1, by omega, hQ⟩
  obtain hQ | hP := hwait i
  · exact hQ
  · refine ⟨k + i + 1, by omega, ?_⟩
    rw [trace, hi]
    exact hself _ (hinv _) hP

end Turn

end GietVm.Library
