import GietVm.Barrier.Steps

/-!
# Rounds of an SQT barrier

A run in which no decrement meets a half reset node keeps the invariant, from a tree whose
nodes all wait for their full arity. It follows that no task returns from a round that
some task has not started, and that some task can always go on.
-/

namespace GietVm.Barrier

open GietVm.Library CombiningTree

variable {T N : Type*} [DecidableEq N] {tree : CombiningTree T N}
  {epoch : N → ℕ} {arrivals : T ⊕ N → ℕ} {s s₀ : State T N} {t u : T}

/-- The nodes of a tree as they are built: no task has arrived. -/
structure Built (tree : CombiningTree T N) (node : N → Node N) : Prop where
  parent : ∀ n ∈ tree.nodes, (node n).parent = tree.parent n
  arity : ∀ n ∈ tree.nodes, (node n).arity = (tree.arrivers n).card
  count : ∀ n ∈ tree.nodes, (node n).count = (node n).arity
  sense : ∀ n ∈ tree.nodes, (node n).sense = 0

theorem inv_init {node : N → Node N} (h : Built tree node)
    (hne : ∀ n ∈ tree.nodes, (tree.arrivers n).Nonempty) :
    Inv tree (fun _ => 0) (fun _ => 0) ⟨node, fun _ => Task.init⟩ where
  progress := ⟨by simp, by simp, by simp, by simp⟩
  task t ht := ⟨by simp [Task.init], by simp [Task.init], by simp [Task.init, Pc.node?], trivial,
    by simp [Task.init], by simp [Task.init], rfl⟩
  parent := h.parent
  arity := h.arity
  sense n hn := h.sense n hn
  reset t ht n hpc := by simp [Task.init] at hpc
  count n hn _ := by
    rw [h.count n hn, h.arity n hn, Finset.filter_true_of_mem (by simp)]
  holder t ht n hold := by simp [Task.Holds, Task.init] at hold
  full n hn hfull := by
    obtain ⟨a, ha⟩ := hne n hn
    exact absurd (hfull a ha) (by simp)
  free n hn _ := rfl

/-- A task has returned only from rounds that its leaf has completed. -/
theorem TaskOk.returned_le {k : Task N} (h : TaskOk tree epoch arrivals t k)
    (hle : arrivals (.inl t) ≤ epoch (tree.leaf t) + 1) : k.returned ≤ epoch (tree.leaf t) := by
  by_cases hpc : k.pc = .idle
  · obtain ⟨hstack, hret, harr⟩ := h.idle hpc
    have hstarted := h.started
    have hentering : k.entering = 0 := by simp [Task.entering, hstack, hpc]
    omega
  · have hcalls := h.calls hpc
    have hstarted := h.started
    rcases hstack : k.stack with - | ⟨f, rest⟩
    · have hok := h.pc
      rw [hstack, arriver] at hok
      cases hk : k.pc with
      | idle => exact absurd hk hpc
      | readSense n | decrement n e =>
        have hpath := h.path n (by simp [hk, Pc.node?])
        rw [hstack] at hpath
        cases hpath
        simp only [hk, PcOk] at hok
        simp only [Task.entering, hstack, hk] at hstarted
        omega
      | poll n e | writeSense n e | writeCount n =>
        simp only [Task.entering, hstack, hk] at hstarted
        omega
    · simp only [Task.entering, hstack] at hstarted
      omega

/-- No task has returned from more rounds than any task has started. -/
theorem Inv.returned_le_started (h : Inv tree epoch arrivals s) (ht : t ∈ tree.tasks)
    (hu : u ∈ tree.tasks) : (s.task t).returned ≤ (s.task u).started := by
  have hleaf := tree.leaf_mem t ht
  calc (s.task t).returned
      ≤ epoch (tree.leaf t) := (h.task t ht).returned_le
        (h.progress.le_epoch _ hleaf _ (inl_mem_arrivers.mpr ⟨ht, rfl⟩))
    _ ≤ arrivals (.inl u) := h.progress.epoch_le_arrivals hleaf hu
    _ ≤ (s.task u).started := by
      rw [(h.task u hu).started]
      exact Nat.le_add_right _ _

/-- A stuck task has arrived in a round that is not complete, on behalf of its leaf and of
every node it has come from. -/
theorem Inv.stuck (h : Inv tree epoch arrivals s) (ht : t ∈ tree.tasks) (hs : Stuck s t) :
    ∃ n, (s.task t).pc.node? = some n ∧
      arrivals (arriver t (s.task t).stack) = epoch n + 1 ∧
      ∀ m, (s.task t).Holds m → ∃ e, (m, e) ∈ (s.task t).stack := by
  obtain ⟨n, e, hpc, hsense⟩ := hs
  have hk := h.task t ht
  have hnode : (s.task t).pc.node? = some n := by simp [hpc, Pc.node?]
  have hok := hk.pc
  simp only [hpc, PcOk] at hok
  rw [h.sense n (hk.node_mem ht hnode)] at hsense
  refine ⟨n, hnode, ?_, fun m hold => ?_⟩
  · rcases hok with hok | hok
    · exact hok.1
    · exact absurd hok.2.symm hsense
  · rcases hold with hold | ⟨e', he'⟩
    · exact hold
    · rw [hpc] at he'
      cases he'

/-- Some task can go on. -/
theorem Inv.exists_not_stuck (h : Inv tree epoch arrivals s) :
    ∃ t ∈ tree.tasks, ¬ Stuck s t := by
  by_contra hall
  push Not at hall
  -- the last task of the root would be past every poll
  have hroot : ¬ Full tree epoch arrivals tree.root := by
    intro hfull
    obtain ⟨u, hu, hold⟩ := h.full _ tree.root_mem hfull
    obtain ⟨n, hnode, -, hstack⟩ := h.stuck hu (hall u hu)
    obtain ⟨e, he⟩ := hstack _ hold
    have hpar := (tree.parent_root _ tree.root_mem).mpr rfl
    rcases ((h.task u hu).path n hnode).parent_mem he with ⟨rest, -, hp⟩ | ⟨p, e', hp, -⟩
    · cases hpar.symm.trans hp
    · cases hpar.symm.trans hp
  rcases h.progress.exists_late tree.root_mem hroot with
    ⟨t, ht, hlate⟩ | ⟨m, hm, p, hp, hfull, hlate⟩
  · obtain ⟨n, hnode, harr, -⟩ := h.stuck ht (hall t ht)
    have hpath := (h.task t ht).path n hnode
    rcases hstack : (s.task t).stack with - | ⟨f, rest⟩
    · rw [hstack] at hpath harr
      cases hpath
      rw [arriver] at harr
      omega
    · obtain ⟨e, he⟩ := hpath.leaf_mem (by simp [hstack])
      have := (h.holder t ht _ (Or.inl ⟨e, he⟩)).1 (.inl t) (inl_mem_arrivers.mpr ⟨ht, rfl⟩)
      omega
  · obtain ⟨u, hu, hold⟩ := h.full m hm hfull
    obtain ⟨n, hnode, harr, hstack⟩ := h.stuck hu (hall u hu)
    obtain ⟨e, he⟩ := hstack m hold
    rcases ((h.task u hu).path n hnode).parent_mem he with ⟨rest, hrest, hpn⟩ | ⟨p', e', hpp, hmem⟩
    · cases hp.symm.trans hpn
      rw [hrest, arriver] at harr
      omega
    · cases hp.symm.trans hpp
      have := (h.holder u hu _ (Or.inl ⟨e', hmem⟩)).1 (.inr m) (inr_mem_arrivers.mpr ⟨hm, hp⟩)
      omega

variable [DecidableEq T]

/-- Every step of a task that does not decrement a half reset node keeps the invariant. -/
theorem Inv.step (h : Inv tree epoch arrivals s)
    (hne : ∀ n ∈ tree.nodes, (tree.arrivers n).Nonempty)
    (hbound : ∀ n ∈ tree.nodes, (tree.arrivers n).card < 0x100000000) (ht : t ∈ tree.tasks)
    (hapart : StepApart tree.tasks s t) :
    ∃ epoch' arrivals', Inv tree epoch' arrivals' (step tree.leaf s t) := by
  cases hpc : (s.task t).pc with
  | idle => exact ⟨_, _, h.start ht hpc⟩
  | readSense n => exact ⟨_, _, h.readSense ht hpc⟩
  | decrement n e => exact ⟨_, h.decrement hbound ht hpc hapart⟩
  | poll n e => exact ⟨_, _, h.poll hne ht hpc⟩
  | writeSense n e => exact ⟨_, _, h.writeSense hne ht hpc⟩
  | writeCount n => exact ⟨_, _, h.writeCount hne ht hpc⟩

theorem RunApart.inv (h : RunApart tree.tasks tree.leaf s₀ s) (h₀ : Inv tree epoch arrivals s₀)
    (hne : ∀ n ∈ tree.nodes, (tree.arrivers n).Nonempty)
    (hbound : ∀ n ∈ tree.nodes, (tree.arrivers n).card < 0x100000000) :
    ∃ epoch' arrivals', Inv tree epoch' arrivals' s := by
  induction h with
  | refl => exact ⟨_, _, h₀⟩
  | step h ht hapart ih =>
    obtain ⟨epoch', arrivals', hinv⟩ := ih
    exact hinv.step hne hbound ht hapart

end GietVm.Barrier
