import GietVm.Barrier.Decrement

/-!
# Arrivals at the nodes of an SQT

The invariant of the SQT barrier counts, for each node, the completed rounds, called its
epoch, and, for each task and node, its arrivals. The count of a node is the number of its
arrivers that are still missing, and its sense is the parity of its epoch. A task that
brought the last arrival holds the node until it resets the sense flag: it waits in an
inner call, or it is about to write the flag.

Every step keeps the invariant, provided that no decrement meets a node between the two
writes of its reset: there the sense already shows the next round and the count does not.
-/

namespace GietVm.Barrier

open GietVm.Library CombiningTree

variable {T N : Type*}

/-- The task waits for an inner call from a node, or is about to reset its sense. -/
def Task.Holds (k : Task N) (n : N) : Prop :=
  (∃ e, (n, e) ∈ k.stack) ∨ ∃ e, k.pc = .writeSense n e

/-- The task has decremented the node of its innermost call. -/
def Pc.arrived : Pc N → Bool
  | .idle | .readSense _ | .decrement _ _ => false
  | .poll _ _ | .writeSense _ _ | .writeCount _ => true

/-- The node of the innermost call. -/
def Pc.node? : Pc N → Option N
  | .idle => none
  | .readSense n | .decrement n _ | .poll n _ | .writeSense n _ | .writeCount n => some n

/-- As what a task arrives at the node of its innermost call: as itself, or for the node
of the call around it. -/
def arriver (t : T) : List (N × ℕ) → T ⊕ N
  | [] => .inl t
  | (m, _) :: _ => .inr m

/-- One, while the task has started a call without having arrived at its leaf. -/
def Task.entering (k : Task N) : ℕ :=
  match k.stack, k.pc with
  | [], .readSense _ | [], .decrement _ _ => 1
  | _, _ => 0

/-- The open calls form a path from the leaf of the task. -/
inductive Path (tree : CombiningTree T N) (t : T) : List (N × ℕ) → N → Prop
  | leaf : Path tree t [] (tree.leaf t)
  | parent {m n e rest} (h : Path tree t rest m) (hp : tree.parent m = some n) :
      Path tree t ((m, e) :: rest) n

/-- What a task knows of the round of the node of its innermost call. -/
def PcOk (tree : CombiningTree T N) (epoch : N → ℕ) (arrivals : T ⊕ N → ℕ) (a : T ⊕ N) : Pc N → Prop
  | .idle => True
  | .readSense n => arrivals a = epoch n
  | .decrement n e => arrivals a = epoch n ∧ e = (epoch n + 1) % 2
  | .poll n e => (arrivals a = epoch n + 1 ∧ e = (epoch n + 1) % 2) ∨
      (arrivals a = epoch n ∧ e = epoch n % 2)
  | .writeSense n e => e = (epoch n + 1) % 2 ∧ arrivals (.inr n) = epoch n + 1 ∧
      ∀ p, tree.parent n = some p → epoch p = epoch n + 1
  | .writeCount n => arrivals a = epoch n

/-- The local part of the invariant. -/
structure TaskOk (tree : CombiningTree T N) (epoch : N → ℕ) (arrivals : T ⊕ N → ℕ) (t : T)
    (k : Task N) : Prop where
  idle : k.pc = .idle → k.stack = [] ∧ k.returned = k.started ∧
    arrivals (.inl t) = epoch (tree.leaf t)
  calls : k.pc ≠ .idle → k.started = k.returned + 1
  path : ∀ n, k.pc.node? = some n → Path tree t k.stack n
  pc : PcOk tree epoch arrivals (arriver t k.stack) k.pc
  expected : ∀ m e, (m, e) ∈ k.stack → e = (epoch m + 1) % 2
  passed : ∀ m e rest, k.stack = (m, e) :: rest →
    arrivals (.inr m) = epoch m + if k.pc.arrived then 1 else 0
  started : k.started = arrivals (.inl t) + k.entering

/-! ## Paths and owners -/

section Path

variable {tree : CombiningTree T N} {t : T} {n : N} {stack : List (N × ℕ)}

theorem Path.mem_nodes (h : Path tree t stack n) (ht : t ∈ tree.tasks) :
    n ∈ tree.nodes ∧ ∀ f ∈ stack, f.1 ∈ tree.nodes := by
  induction h with
  | leaf => exact ⟨tree.leaf_mem t ht, by simp⟩
  | parent h hp ih => exact ⟨tree.parent_mem ih.1 hp, by simpa using ⟨ih.1, fun m e => ih.2 (m, e)⟩⟩

/-- The nodes of the outer calls lie below the node of the innermost one. -/
theorem Path.level_lt (h : Path tree t stack n) (ht : t ∈ tree.tasks) :
    ∀ f ∈ stack, tree.level f.1 < tree.level n := by
  induction h with
  | leaf => simp
  | parent h hp ih =>
    have hlt := tree.level_lt (h.mem_nodes ht).1 hp
    simp only [List.mem_cons, forall_eq_or_imp]
    exact ⟨hlt, fun f hf => (ih f hf).trans hlt⟩

theorem Path.leaf_mem (h : Path tree t stack n) (hne : stack ≠ []) :
    ∃ e, (tree.leaf t, e) ∈ stack := by
  induction h with
  | leaf => exact absurd rfl hne
  | @parent m n e rest h hp ih =>
    cases h with
    | leaf => exact ⟨e, by simp⟩
    | parent h' hp' =>
      obtain ⟨e', he'⟩ := ih (by simp)
      exact ⟨e', List.mem_cons_of_mem _ he'⟩

/-- An outer call waits for the arrival of its node at the node of a call further in. -/
theorem Path.parent_mem (h : Path tree t stack n) {m : N} {e : ℕ} (hm : (m, e) ∈ stack) :
    (∃ rest, stack = (m, e) :: rest ∧ tree.parent m = some n) ∨
      ∃ p e', tree.parent m = some p ∧ (p, e') ∈ stack := by
  induction h with
  | leaf => simp at hm
  | @parent k n e₀ rest h hp ih =>
    rcases List.mem_cons.mp hm with heq | hm
    · cases heq
      exact Or.inl ⟨rest, rfl, hp⟩
    · rcases ih hm with ⟨rest', rfl, hpk⟩ | ⟨p, e', hpm, hmem⟩
      · exact Or.inr ⟨k, e₀, hpk, by simp⟩
      · exact Or.inr ⟨p, e', hpm, by simp [hmem]⟩

theorem Path.arriver_mem [DecidableEq N] (h : Path tree t stack n) (ht : t ∈ tree.tasks) :
    arriver t stack ∈ tree.arrivers n := by
  cases h with
  | leaf => simpa [arriver] using ht
  | parent h hp => simpa [arriver] using ⟨(h.mem_nodes ht).1, hp⟩

end Path

/-- The arrivers that speak for a task: itself and the nodes it holds. -/
def Owns (t : T) (k : Task N) (a : T ⊕ N) : Prop :=
  a = .inl t ∨ ∃ n, a = .inr n ∧ k.Holds n

theorem owns_arriver (t : T) (k : Task N) : Owns t k (arriver t k.stack) := by
  rcases hstack : k.stack with - | ⟨⟨m, e⟩, rest⟩
  · exact Or.inl rfl
  · exact Or.inr ⟨m, rfl, Or.inl ⟨e, by simp [hstack]⟩⟩

section Frame

variable {tree : CombiningTree T N} {epoch : N → ℕ} {arrivals arrivals' : T ⊕ N → ℕ} {t u : T}
  {k : Task N} {n : N}

/-- A task knows only the arrivals of the arrivers that it owns. -/
theorem TaskOk.congr (h : TaskOk tree epoch arrivals t k)
    (heq : ∀ a, Owns t k a → arrivals' a = arrivals a) : TaskOk tree epoch arrivals' t k where
  idle hpc := by
    rw [heq _ (Or.inl rfl)]
    exact h.idle hpc
  calls := h.calls
  path := h.path
  pc := by
    have hpc := h.pc
    have harr := heq _ (owns_arriver t k)
    cases hk : k.pc with
    | idle => trivial
    | writeSense n e =>
      have hn := heq (.inr n) (Or.inr ⟨n, rfl, Or.inr ⟨e, hk⟩⟩)
      simpa only [hk, PcOk, hn] using hpc
    | readSense n | decrement n e | poll n e | writeCount n =>
      simpa only [hk, PcOk, harr] using hpc
  expected := h.expected
  passed m e rest hstack := by
    rw [heq _ (Or.inr ⟨m, rfl, Or.inl ⟨e, by simp [hstack]⟩⟩)]
    exact h.passed m e rest hstack
  started := by
    rw [heq _ (Or.inl rfl)]
    exact h.started

theorem TaskOk.node_mem (h : TaskOk tree epoch arrivals t k) (ht : t ∈ tree.tasks)
    (hn : k.pc.node? = some n) : n ∈ tree.nodes :=
  ((h.path n hn).mem_nodes ht).1

/-- A task at rest holds no node, and one about to reset a flag holds it. -/
theorem holds_return (hpc : ∀ n e, k.pc ≠ .writeSense n e) : k.return.Holds n ↔ k.Holds n := by
  rcases hstack : k.stack with - | ⟨⟨m, e⟩, rest⟩
  · simp [Task.Holds, Task.return, hstack, hpc]
  · simp only [Task.Holds, Task.return, hstack, hpc, exists_false, or_false, List.mem_cons,
      Prod.mk.injEq, Pc.writeSense.injEq]
    constructor
    · rintro (⟨e', he'⟩ | ⟨e', rfl, rfl⟩)
      · exact ⟨e', Or.inr he'⟩
      · exact ⟨e, Or.inl ⟨rfl, rfl⟩⟩
    · rintro ⟨e', ⟨rfl, rfl⟩ | he'⟩
      · exact Or.inr ⟨e', rfl, rfl⟩
      · exact Or.inl ⟨e', he'⟩

end Frame

/-! ## The invariant -/

variable [DecidableEq N]

/-- The invariant of the barrier. -/
structure Inv (tree : CombiningTree T N) (epoch : N → ℕ) (arrivals : T ⊕ N → ℕ)
    (s : State T N) : Prop where
  progress : Progress tree epoch arrivals
  task : ∀ t ∈ tree.tasks, TaskOk tree epoch arrivals t (s.task t)
  parent : ∀ n ∈ tree.nodes, (s.node n).parent = tree.parent n
  arity : ∀ n ∈ tree.nodes, (s.node n).arity = (tree.arrivers n).card
  sense : ∀ n ∈ tree.nodes, (s.node n).sense = epoch n % 2
  reset : ∀ t ∈ tree.tasks, ∀ n, (s.task t).pc = .writeCount n →
    (s.node n).count = 0 ∧ (∀ a ∈ tree.arrivers n, arrivals a = epoch n) ∧
      ∀ u ∈ tree.tasks, (s.task u).pc = .writeCount n → u = t
  count : ∀ n ∈ tree.nodes, (∀ t ∈ tree.tasks, (s.task t).pc ≠ .writeCount n) →
    (s.node n).count = ((tree.arrivers n).filter fun a => arrivals a = epoch n).card
  holder : ∀ t ∈ tree.tasks, ∀ n, (s.task t).Holds n →
    Full tree epoch arrivals n ∧ ∀ u ∈ tree.tasks, (s.task u).Holds n → u = t
  full : ∀ n ∈ tree.nodes, Full tree epoch arrivals n → ∃ t ∈ tree.tasks, (s.task t).Holds n
  free : ∀ n ∈ tree.nodes, (∀ t ∈ tree.tasks, ¬ (s.task t).Holds n) →
    arrivals (.inr n) = epoch n

end GietVm.Barrier
