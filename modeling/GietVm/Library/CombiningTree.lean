import Mathlib.Data.Finset.Sum
import Mathlib.Data.Finset.Card
import Mathlib.Tactic.Common
import Mathlib.Logic.Relation

/-!
# Combining trees

A combining tree gathers the arrivals of a finite set of tasks. A task arrives at its
leaf, and a node whose arrivers are all there arrives at its parent in turn. The progress
of repeated rounds is counted by two functions: the number of rounds a node has completed,
and the number of times an arriver, that is a task or a node, has arrived.

Two consequences of the local counting rules are general. No node has completed more
rounds than any task has arrivals. And where a round of a node is not complete, the
reason is a task that has not arrived, or a full node that has not passed its round on.
-/

namespace GietVm.Library

/-- A finite tree of nodes with the tasks attached to them. -/
structure CombiningTree (T N : Type*) where
  tasks : Finset T
  nodes : Finset N
  leaf : T → N
  parent : N → Option N
  level : N → ℕ
  height : ℕ
  root : N
  root_mem : root ∈ nodes
  leaf_mem : ∀ t ∈ tasks, leaf t ∈ nodes
  parent_mem : ∀ {n p}, n ∈ nodes → parent n = some p → p ∈ nodes
  level_lt : ∀ {n p}, n ∈ nodes → parent n = some p → level n < level p
  level_le : ∀ n ∈ nodes, level n ≤ height
  parent_root : ∀ n ∈ nodes, parent n = none ↔ n = root

namespace CombiningTree

variable {T N : Type*} {tree : CombiningTree T N} {t : T} {m n p : N}

/-- Induction from the root down. -/
theorem root_induction {P : N → Prop} (hroot : P tree.root)
    (hstep : ∀ n ∈ tree.nodes, ∀ p ∈ tree.nodes, tree.parent n = some p → P p → P n)
    (hn : n ∈ tree.nodes) : P n := by
  induction hk : tree.height - tree.level n using Nat.strong_induction_on generalizing n with
  | _ k ih =>
    cases hp : tree.parent n with
    | none =>
      rw [(tree.parent_root n hn).mp hp]
      exact hroot
    | some p =>
      have hpmem := tree.parent_mem hn hp
      have hlt := tree.level_lt hn hp
      have hle := tree.level_le p hpmem
      exact hstep n hn p hpmem hp (ih (tree.height - tree.level p) (by omega) hpmem rfl)

/-! ## Paths -/

/-- A node lies on the path from another one to the root. -/
def Above (tree : CombiningTree T N) (m n : N) : Prop :=
  Relation.ReflTransGen (fun a b => tree.parent a = some b) m n

theorem above_refl (n : N) : tree.Above n n := Relation.ReflTransGen.refl

/-- A path starts with the parent. -/
theorem above_iff_of_parent (hp : tree.parent m = some p) :
    tree.Above m n ↔ n = m ∨ tree.Above p n := by
  constructor
  · intro h
    obtain heq | ⟨q, hq, hrest⟩ := Relation.ReflTransGen.cases_head h
    · exact Or.inl heq.symm
    · exact Or.inr (Option.some.inj (hp.symm.trans hq) ▸ hrest)
  · intro h
    obtain heq | hrest := h
    · exact heq ▸ above_refl n
    · exact Relation.ReflTransGen.head hp hrest

/-- The path from the root is the root. -/
theorem above_iff_of_none (hp : tree.parent m = none) : tree.Above m n ↔ n = m := by
  constructor
  · intro h
    obtain heq | ⟨q, hq, -⟩ := Relation.ReflTransGen.cases_head h
    · exact heq.symm
    · cases hp.symm.trans hq
  · intro h
    exact h ▸ above_refl n

theorem Above.parent (h : tree.Above m n) (hp : tree.parent n = some p) : tree.Above m p :=
  Relation.ReflTransGen.tail h hp

theorem Above.mem (h : tree.Above m n) (hm : m ∈ tree.nodes) :
    n ∈ tree.nodes ∧ tree.level m ≤ tree.level n := by
  induction h with
  | refl => exact ⟨hm, le_rfl⟩
  | tail _ hp ih => exact ⟨tree.parent_mem ih.1 hp, ih.2.trans (tree.level_lt ih.1 hp).le⟩

/-- A parent is not below its child. -/
theorem not_above_of_parent (hm : m ∈ tree.nodes) (hp : tree.parent m = some p) :
    ¬tree.Above p m := by
  intro h
  have hlt := tree.level_lt hm hp
  have hle := (h.mem (tree.parent_mem hm hp)).2
  omega

theorem Above.antisymm (h : tree.Above m n) (h' : tree.Above n m) (hm : m ∈ tree.nodes) :
    n = m := by
  cases hp : tree.parent m with
  | none => exact (above_iff_of_none hp).mp h
  | some p =>
    obtain heq | hrest := (above_iff_of_parent hp).mp h
    · exact heq
    · exact absurd (Relation.ReflTransGen.trans hrest h') (not_above_of_parent hm hp)

/-- Two nodes on one path lie one above the other. -/
theorem Above.total {l : N} (hm : tree.Above l m) (hn : tree.Above l n) :
    tree.Above m n ∨ tree.Above n m :=
  Relation.ReflTransGen.total_of_right_unique
    (fun _ _ _ hb hc => Option.some.inj (hb.symm.trans hc)) hm hn

/-- Every path ends at the root. -/
theorem above_root (hn : n ∈ tree.nodes) : tree.Above n tree.root :=
  root_induction (P := fun n => tree.Above n tree.root) (above_refl _)
    (fun _ _ _ _ hp h => (above_iff_of_parent hp).mpr (Or.inr h)) hn

/-! ## Arrivals -/

variable [DecidableEq N]

/-- The tasks and nodes that arrive at a node. -/
def arrivers (tree : CombiningTree T N) (n : N) : Finset (T ⊕ N) :=
  (tree.tasks.filter fun t => tree.leaf t = n).disjSum
    (tree.nodes.filter fun m => tree.parent m = some n)

@[simp] theorem inl_mem_arrivers :
    Sum.inl t ∈ tree.arrivers n ↔ t ∈ tree.tasks ∧ tree.leaf t = n := by
  simp [arrivers]

@[simp] theorem inr_mem_arrivers :
    Sum.inr m ∈ tree.arrivers n ↔ m ∈ tree.nodes ∧ tree.parent m = some n := by
  simp [arrivers]

/-- An arriver belongs to one node. -/
theorem arrivers_unique {a : T ⊕ N} (hm : a ∈ tree.arrivers m) (hn : a ∈ tree.arrivers n) :
    m = n := by
  rcases a with t | k
  · exact (inl_mem_arrivers.mp hm).2.symm.trans (inl_mem_arrivers.mp hn).2
  · exact Option.some.inj ((inr_mem_arrivers.mp hm).2.symm.trans (inr_mem_arrivers.mp hn).2)

/-- The counting rules: an arriver has arrived in the completed rounds and at most once
more, a node arrives after all its own arrivers, and completes after its parent. -/
structure Progress (tree : CombiningTree T N) (epoch : N → ℕ) (arrivals : T ⊕ N → ℕ) : Prop where
  epoch_le : ∀ n ∈ tree.nodes, ∀ a ∈ tree.arrivers n, epoch n ≤ arrivals a
  le_epoch : ∀ n ∈ tree.nodes, ∀ a ∈ tree.arrivers n, arrivals a ≤ epoch n + 1
  pass : ∀ n ∈ tree.nodes, ∀ a ∈ tree.arrivers n, arrivals (.inr n) ≤ arrivals a
  epoch_parent : ∀ n ∈ tree.nodes, ∀ p, tree.parent n = some p → epoch n ≤ epoch p

variable {epoch : N → ℕ} {arrivals : T ⊕ N → ℕ}

/-- The root has completed at least the rounds of every node. -/
theorem Progress.epoch_le_root (h : Progress tree epoch arrivals) (hn : n ∈ tree.nodes) :
    epoch n ≤ epoch tree.root :=
  root_induction (P := fun n => epoch n ≤ epoch tree.root) le_rfl
    (fun n hn p _ hp hle => (h.epoch_parent n hn p hp).trans hle) hn

/-- Every arriver has arrived in the rounds that the root has completed. -/
theorem Progress.root_le_arrivals (h : Progress tree epoch arrivals) (hn : n ∈ tree.nodes) :
    ∀ a ∈ tree.arrivers n, epoch tree.root ≤ arrivals a :=
  root_induction (P := fun n => ∀ a ∈ tree.arrivers n, epoch tree.root ≤ arrivals a)
    (h.epoch_le _ tree.root_mem)
    (fun n hn _ _ hp hle a ha => (hle _ (inr_mem_arrivers.mpr ⟨hn, hp⟩)).trans (h.pass n hn a ha))
    hn

/-- No node has completed more rounds than a task has arrivals. -/
theorem Progress.epoch_le_arrivals (h : Progress tree epoch arrivals) (hn : n ∈ tree.nodes)
    (ht : t ∈ tree.tasks) : epoch n ≤ arrivals (.inl t) :=
  (h.epoch_le_root hn).trans
    (h.root_le_arrivals (tree.leaf_mem t ht) _ (inl_mem_arrivers.mpr ⟨ht, rfl⟩))

/-- All arrivers of a node have arrived in its current round. -/
def Full (tree : CombiningTree T N) (epoch : N → ℕ) (arrivals : T ⊕ N → ℕ) (n : N) : Prop :=
  ∀ a ∈ tree.arrivers n, arrivals a = epoch n + 1

/-- Below a node that is not full, some task has not arrived, or some full node has not
passed its round on. -/
theorem Progress.exists_late (h : Progress tree epoch arrivals) (hn : n ∈ tree.nodes)
    (hlate : ¬ Full tree epoch arrivals n) :
    (∃ t ∈ tree.tasks, arrivals (.inl t) = epoch (tree.leaf t)) ∨
      ∃ m ∈ tree.nodes, ∃ p, tree.parent m = some p ∧ Full tree epoch arrivals m ∧
        arrivals (.inr m) = epoch p := by
  induction hk : tree.level n using Nat.strong_induction_on generalizing n with
  | _ k ih =>
    simp only [Full, not_forall] at hlate
    obtain ⟨a, ha, hne⟩ := hlate
    have hlow := h.epoch_le n hn a ha
    have hhigh := h.le_epoch n hn a ha
    have heq : arrivals a = epoch n := by omega
    rcases a with t | m
    · obtain ⟨ht, rfl⟩ := inl_mem_arrivers.mp ha
      exact Or.inl ⟨t, ht, heq⟩
    · obtain ⟨hm, hp⟩ := inr_mem_arrivers.mp ha
      by_cases hfull : Full tree epoch arrivals m
      · exact Or.inr ⟨m, hm, n, hp, hfull, heq⟩
      · exact ih _ (hk ▸ tree.level_lt hm hp) hm hfull rfl

end CombiningTree

end GietVm.Library
