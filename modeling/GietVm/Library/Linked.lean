import Mathlib.Data.List.Nodup

/-!
# Cells linked by a successor function

A singly linked list threaded through a store is a head cell together with a
successor function, read until a terminator is met. `Linked stop next h l` says that
`l` enumerates, in order, the cells met from `h`. The store is only visible through
`next`, so the same facts serve null-terminated pointers and tables of successors.

Three edits are covered: a frame that leaves the successors of the members alone, a
new head, and the removal of one member by redirecting the cell before it.
-/

namespace GietVm.Library

variable {α : Type*} {stop : α → Prop} {next next' : α → α}

/-- `l` lists the cells met from a head by following `next` up to the first terminator. -/
def Linked (stop : α → Prop) (next : α → α) : α → List α → Prop
  | h, [] => stop h
  | h, a :: l => h = a ∧ ¬ stop a ∧ Linked stop next (next a) l

@[simp] theorem linked_nil {h : α} : Linked stop next h [] ↔ stop h := Iff.rfl

@[simp] theorem linked_cons {h a : α} {l : List α} :
    Linked stop next h (a :: l) ↔ h = a ∧ ¬ stop a ∧ Linked stop next (next a) l := Iff.rfl

/-- No member of the list is a terminator. -/
theorem Linked.not_stop {h : α} {l : List α} (hl : Linked stop next h l) :
    ∀ a ∈ l, ¬ stop a := by
  induction l generalizing h with
  | nil => simp
  | cons b l ih =>
    obtain ⟨-, hb, htail⟩ := hl
    intro a ha
    rcases List.mem_cons.mp ha with rfl | ha
    · exact hb
    · exact ih htail a ha

/-- A head determines its list. -/
theorem Linked.unique {h : α} {l l' : List α} (hl : Linked stop next h l)
    (hl' : Linked stop next h l') : l = l' := by
  induction l generalizing h l' with
  | nil =>
    cases l' with
    | nil => rfl
    | cons b l' => exact absurd (hl'.1 ▸ hl : stop b) hl'.2.1
  | cons a l ih =>
    cases l' with
    | nil => exact absurd (hl.1 ▸ hl' : stop a) hl.2.1
    | cons b l' =>
      obtain ⟨rfl, -, htail⟩ := hl
      obtain ⟨rfl, -, htail'⟩ := hl'
      rw [ih htail htail']

/-- A head that is no terminator is the first member. -/
theorem Linked.head {h : α} {l : List α} (hl : Linked stop next h l) (hh : ¬ stop h) :
    ∃ rest, l = h :: rest ∧ Linked stop next (next h) rest := by
  cases l with
  | nil => exact absurd hl hh
  | cons a rest =>
    obtain ⟨rfl, -, htail⟩ := hl
    exact ⟨rest, rfl, htail⟩

/-- A terminating head has no member. -/
theorem Linked.eq_nil {h : α} {l : List α} (hl : Linked stop next h l) (hh : stop h) : l = [] :=
  have hnil : Linked stop next h [] := hh
  hl.unique hnil

/-- Changing the successors of cells outside the list keeps it. -/
theorem Linked.frame {h : α} {l : List α} (hl : Linked stop next h l)
    (heq : ∀ a ∈ l, next' a = next a) : Linked stop next' h l := by
  induction l generalizing h with
  | nil => exact hl
  | cons a l ih =>
    obtain ⟨rfl, ha, htail⟩ := hl
    refine ⟨rfl, ha, ?_⟩
    rw [heq h List.mem_cons_self]
    exact ih htail fun b hb => heq b (List.mem_cons_of_mem _ hb)

/-- A cell whose successor is the old head becomes the new head. -/
theorem Linked.push {h a : α} {l : List α} (hl : Linked stop next h l) (ha : ¬ stop a)
    (hnext : next' a = h) (heq : ∀ b ∈ l, next' b = next b) : Linked stop next' a (a :: l) :=
  ⟨rfl, ha, by rw [hnext]; exact hl.frame heq⟩

/-- The suffix of a list starts at the successor of its last predecessor. -/
theorem Linked.split {h a : α} {l₁ l₂ : List α} (hl : Linked stop next h (l₁ ++ a :: l₂)) :
    Linked stop next a (a :: l₂) := by
  induction l₁ generalizing h with
  | nil =>
    obtain ⟨rfl, hrest⟩ := hl
    exact ⟨rfl, hrest⟩
  | cons b l₁ ih => exact ih hl.2.2

/-- Redirecting the cell `p` before `a` to the successor of `a` removes `a`. -/
theorem Linked.unlink {h a p : α} {l₁ l₂ : List α}
    (hl : Linked stop next h (l₁ ++ p :: a :: l₂)) (hp : next' p = next a)
    (h₁ : ∀ b ∈ l₁, next' b = next b) (h₂ : ∀ b ∈ l₂, next' b = next b) :
    Linked stop next' h (l₁ ++ p :: l₂) := by
  induction l₁ generalizing h with
  | nil =>
    obtain ⟨rfl, hstop, -, -, htail⟩ := hl
    exact ⟨rfl, hstop, by rw [hp]; exact htail.frame h₂⟩
  | cons b l₁ ih =>
    obtain ⟨rfl, hstop, htail⟩ := hl
    refine ⟨rfl, hstop, ?_⟩
    rw [h₁ h List.mem_cons_self]
    exact ih htail fun c hc => h₁ c (List.mem_cons_of_mem _ hc)

end GietVm.Library
