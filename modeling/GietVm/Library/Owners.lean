import Mathlib.Data.List.Nodup
import Mathlib.Data.Nat.Basic
import Mathlib.Logic.Function.Basic

/-!
# Allocators of numbered resources

Owners record the index of the resource that they hold; an index that is not below the number
of resources stands for none. Two allocators are related to the records of the owners.

A table of marks marks the resources that are held. It serves the owners in any order of
allocations and releases. A counter counts them, and its value is the next index: it stands
for the set of held resources only while the resources are released in the reverse order of
their allocation.
-/

namespace GietVm.Library

/-- The first index from `index` on that is not marked, among `left` of them. -/
def firstFree (mark : ℕ → Bool) : ℕ → ℕ → ℕ
  | 0, index => index
  | left + 1, index => if mark index = true then firstFree mark left (index + 1) else index

/-- The search marks off a range of marked indices, and ends at its end or at a free index. -/
theorem firstFree_spec (mark : ℕ → Bool) (left index : ℕ) :
    index ≤ firstFree mark left index ∧ firstFree mark left index ≤ index + left ∧
      (firstFree mark left index < index + left → mark (firstFree mark left index) = false) ∧
      ∀ i, index ≤ i → i < firstFree mark left index → mark i = true := by
  induction left generalizing index with
  | zero =>
    refine ⟨le_rfl, le_rfl, fun h => ?_, fun i hlow hi => ?_⟩
    · exact absurd h (lt_irrefl index)
    · exact absurd hi hlow.not_gt
  | succ left ih =>
    rw [firstFree]
    split
    · rename_i hmark
      obtain ⟨hlow, hle, hfree, hused⟩ := ih (index + 1)
      refine ⟨by omega, by omega, fun h => hfree (by omega), fun i hi hlt => ?_⟩
      by_cases heq : i = index
      · exact heq ▸ hmark
      · exact hused i (by omega) hlt
    · rename_i hmark
      refine ⟨le_rfl, by omega, fun _ => by simpa using hmark, fun i hlow hi => ?_⟩
      exact absurd hi hlow.not_gt

section Search

variable {bound index : ℕ} {mark : ℕ → Bool}

theorem firstFree_le : firstFree mark bound 0 ≤ bound := by
  have hle := (firstFree_spec mark bound 0).2.1
  omega

theorem firstFree_free (h : firstFree mark bound 0 < bound) :
    mark (firstFree mark bound 0) = false :=
  (firstFree_spec mark bound 0).2.2.1 (by omega)

/-- The search finds an index if there is a free one. -/
theorem firstFree_lt (hlt : index < bound) (hfree : mark index = false) :
    firstFree mark bound 0 < bound := by
  by_contra hnone
  have hmark := (firstFree_spec mark bound 0).2.2.2 index (Nat.zero_le index) (by omega)
  rw [hfree] at hmark
  cases hmark

/-- The search finds the least free index. -/
theorem firstFree_eq (hlt : index < bound) (hfree : mark index = false)
    (hused : ∀ i, i < index → mark i = true) : firstFree mark bound 0 = index := by
  have hfound := firstFree_free (firstFree_lt hlt hfree)
  rcases lt_trichotomy (firstFree mark bound 0) index with h | h | h
  · rw [hused _ h] at hfound
    cases hfound
  · exact h
  · have hmark := (firstFree_spec mark bound 0).2.2.2 index (Nat.zero_le index) h
    rw [hfree] at hmark
    cases hmark

end Search

variable {Owner : Type*} {bound count index none : ℕ} {mark : ℕ → Bool} {held : Owner → ℕ}
  {o : Owner}

/-! ## Successive allocations -/

/-- Different owners that allocate one after the other get the records of successive
numbers, when each allocation does and changes the record of its owner only. -/
theorem foldl_alloc {State Record : Type*} (view : State → Owner → Record)
    (alloc : State → Owner → State) (counted : ℕ → State → Prop) (empty : Record → Prop)
    (gets : ℕ → Record → Prop) (number : ℕ)
    (hstep : ∀ n s o, counted n s → n < number → empty (view s o) →
      counted (n + 1) (alloc s o) ∧ gets n (view (alloc s o) o) ∧
        ∀ o', o' ≠ o → view (alloc s o) o' = view s o')
    {n : ℕ} {s : State} (hs : counted n s) {os : List Owner} (hnodup : os.Nodup)
    (hbound : n + os.length ≤ number) (hempty : ∀ o, o ∈ os → empty (view s o)) :
    (∀ i (_ : i < os.length), gets (n + i) (view (os.foldl alloc s) os[i])) ∧
      ∀ o, o ∉ os → view (os.foldl alloc s) o = view s o := by
  induction os generalizing n s with
  | nil => exact ⟨fun i hi => absurd hi (Nat.not_lt_zero i), fun _ _ => rfl⟩
  | cons o os ih =>
    rw [List.length_cons] at hbound
    obtain ⟨hfirst, hrest⟩ := List.nodup_cons.mp hnodup
    obtain ⟨hs', hgets, hother⟩ := hstep n s o hs (by omega) (hempty o List.mem_cons_self)
    have hne {o' : Owner} (ho' : o' ∈ os) : o' ≠ o := by
      rintro rfl
      exact hfirst ho'
    obtain ⟨hall, hframe⟩ := ih hs' hrest (by omega) fun o' ho' => by
      rw [hother o' (hne ho')]
      exact hempty o' (List.mem_cons_of_mem o ho')
    refine ⟨fun i hi => ?_, fun o' ho' => ?_⟩
    · cases i with
      | zero =>
        rw [List.foldl_cons, List.getElem_cons_zero, hframe o hfirst]
        exact hgets
      | succ i =>
        have hlt : i < os.length := by
          rw [List.length_cons] at hi
          omega
        have hget := hall i hlt
        rw [List.foldl_cons, List.getElem_cons_succ, Nat.add_comm i 1, ← Nat.add_assoc]
        exact hget
    · rw [List.mem_cons, not_or] at ho'
      rw [List.foldl_cons, hframe o' ho'.2, hother o' ho'.1]

/-! ## Owners -/

/-- Each resource has at most one owner. -/
def Exclusive (bound : ℕ) (held : Owner → ℕ) : Prop :=
  ∀ o o', held o < bound → held o = held o' → o = o'

/-- Each resource has at most one owner, and the marked resources are those that are held. -/
structure Marks (bound : ℕ) (mark : ℕ → Bool) (held : Owner → ℕ) : Prop where
  unique : Exclusive bound held
  mark : ∀ i, i < bound → (mark i = true ↔ ∃ o, held o = i)

/-- Each resource has at most one owner, and the resources below the counter are held. -/
structure Counts (bound count : ℕ) (held : Owner → ℕ) : Prop where
  le : count ≤ bound
  lt : ∀ o, held o < bound → held o < count
  unique : Exclusive bound held
  onto : ∀ i, i < count → ∃ o, held o = i

/-- Without owners nothing is marked. -/
theorem Marks.clear (h : Marks bound mark held) (hnone : ∀ o, bound ≤ held o) {i : ℕ}
    (hi : i < bound) : mark i = false := by
  by_contra hmark
  obtain ⟨o, ho⟩ := (h.mark i hi).mp (by simpa using hmark)
  have hlow := hnone o
  omega

/-- Without owners the counter is zero. -/
theorem Counts.clear (h : Counts bound count held) (hnone : ∀ o, bound ≤ held o) : count = 0 := by
  by_contra hcount
  obtain ⟨o, ho⟩ := h.onto 0 (Nat.pos_of_ne_zero hcount)
  have hlow := hnone o
  have hle := h.le
  omega

variable [DecidableEq Owner]

/-- An owner takes a resource that is not held. -/
theorem Exclusive.take (h : Exclusive bound held) (hfree : index < bound → ∀ o', held o' ≠ index) :
    Exclusive bound (Function.update held o index) := by
  intro o₁ o₂ hlt heq
  by_cases h₁ : o₁ = o <;> by_cases h₂ : o₂ = o
  · rw [h₁, h₂]
  · subst h₁
    rw [Function.update_self] at hlt heq
    rw [Function.update_of_ne h₂] at heq
    exact absurd heq.symm (hfree hlt o₂)
  · subst h₂
    rw [Function.update_of_ne h₁] at hlt heq
    rw [Function.update_self] at heq
    exact absurd heq (hfree (heq ▸ hlt) o₁)
  · rw [Function.update_of_ne h₁] at hlt heq
    rw [Function.update_of_ne h₂] at heq
    exact h o₁ o₂ hlt heq

/-- An owner that takes no resource. -/
theorem Exclusive.drop (h : Exclusive bound held) (hnone : bound ≤ none) :
    Exclusive bound (Function.update held o none) :=
  h.take fun hlt => absurd hlt hnone.not_gt

/-- What is held when one owner has changed its record. -/
theorem exists_update_iff {i : ℕ} :
    (∃ o', Function.update held o index o' = i) ↔ index = i ∨ ∃ o', o' ≠ o ∧ held o' = i := by
  constructor
  · rintro ⟨o', ho'⟩
    by_cases hself : o' = o
    · subst hself
      exact Or.inl ((Function.update_self ..).symm.trans ho')
    · exact Or.inr ⟨o', hself, (Function.update_of_ne hself _ _).symm.trans ho'⟩
  · rintro (heq | ⟨o', hself, heq⟩)
    · exact ⟨o, (Function.update_self ..).trans heq⟩
    · exact ⟨o', (Function.update_of_ne hself _ _).trans heq⟩

/-! ## Tables of marks -/

/-- An owner without a resource takes one that is not marked. -/
theorem Marks.take (h : Marks bound mark held) (ho : bound ≤ held o) (hlt : index < bound)
    (hfree : mark index = false) :
    Marks bound (Function.update mark index true) (Function.update held o index) := by
  refine ⟨h.unique.take fun _ o' heq => ?_, fun i hi => ?_⟩
  · rw [(h.mark index hlt).mpr ⟨o', heq⟩] at hfree
    cases hfree
  · rw [exists_update_iff]
    by_cases hindex : i = index
    · subst hindex
      exact iff_of_true (Function.update_self ..) (Or.inl rfl)
    · rw [Function.update_of_ne hindex, h.mark i hi]
      constructor
      · rintro ⟨o', heq⟩
        refine Or.inr ⟨o', ?_, heq⟩
        rintro rfl
        omega
      · rintro (heq | ⟨o', -, heq⟩)
        · exact absurd heq.symm hindex
        · exact ⟨o', heq⟩

/-- An owner releases its resource. -/
theorem Marks.drop (h : Marks bound mark held) (ho : held o < bound) (hnone : bound ≤ none) :
    Marks bound (Function.update mark (held o) false) (Function.update held o none) := by
  refine ⟨h.unique.drop hnone, fun i hi => ?_⟩
  rw [exists_update_iff]
  by_cases hindex : i = held o
  · subst hindex
    rw [Function.update_self]
    refine iff_of_false Bool.false_ne_true ?_
    rintro (heq | ⟨o', hself, heq⟩)
    · omega
    · exact hself (h.unique o o' ho heq.symm).symm
  · rw [Function.update_of_ne hindex, h.mark i hi]
    constructor
    · rintro ⟨o', heq⟩
      refine Or.inr ⟨o', ?_, heq⟩
      rintro rfl
      exact hindex heq.symm
    · rintro (heq | ⟨o', -, heq⟩)
      · omega
      · exact ⟨o', heq⟩

/-! ## Counters -/

/-- An owner without a resource takes the next one. -/
theorem Counts.take (h : Counts bound count held) (ho : bound ≤ held o) (hlt : count < bound) :
    Counts bound (count + 1) (Function.update held o count) := by
  refine ⟨hlt, fun o' ho' => ?_, h.unique.take fun _ o' heq => ?_, fun i hi => ?_⟩
  · by_cases hself : o' = o
    · subst hself
      rw [Function.update_self]
      omega
    · rw [Function.update_of_ne hself] at ho' ⊢
      have hcount := h.lt o' ho'
      omega
  · have hcount := h.lt o' (by omega)
    omega
  · rw [exists_update_iff]
    by_cases hcount : i = count
    · exact Or.inl hcount.symm
    · obtain ⟨o', heq⟩ := h.onto i (by omega)
      refine Or.inr ⟨o', ?_, heq⟩
      rintro rfl
      omega

/-- The owner of the last resource releases it. -/
theorem Counts.drop (h : Counts bound count held) (ho : held o + 1 = count) (hnone : bound ≤ none) :
    Counts bound (count - 1) (Function.update held o none) := by
  have hle := h.le
  refine ⟨by omega, fun o' ho' => ?_, h.unique.drop hnone, fun i hi => ?_⟩
  · by_cases hself : o' = o
    · subst hself
      rw [Function.update_self] at ho'
      omega
    · rw [Function.update_of_ne hself] at ho' ⊢
      have hlt := h.lt o' ho'
      have hne : held o' ≠ held o := fun heq => hself (h.unique o' o ho' heq)
      omega
  · rw [exists_update_iff]
    obtain ⟨o', heq⟩ := h.onto i (by omega)
    refine Or.inr ⟨o', ?_, heq⟩
    rintro rfl
    omega

end GietVm.Library
