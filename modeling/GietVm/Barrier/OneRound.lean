import GietVm.Barrier.Rounds
import GietVm.Library.Fairness

/-!
# One round of an SQT barrier

Every task calls the barrier once. Then no decrement can meet a node between the two writes
of its reset, because the tasks below a reset node have all arrived. Each step that changes
the state brings its task closer to the end of its call, and as long as a call is open, some
task with an open call is not stuck. So under a fair schedule all the calls return.
-/

namespace GietVm.Barrier

open GietVm.Library CombiningTree

variable {T N : Type*} [DecidableEq N]

variable {tree : CombiningTree T N} {epoch : N → ℕ} {arrivals : T ⊕ N → ℕ} {s : State T N}
  {t u : T} {n : N}

/-! ## No decrement meets a half reset node -/

/-- What a task arrives for has arrived no more often than the task. -/
theorem Path.arrivals_le {stack : List (N × ℕ)} (hpath : Path tree t stack n)
    (ht : t ∈ tree.tasks) (h : Progress tree epoch arrivals) :
    arrivals (arriver t stack) ≤ arrivals (.inl t) := by
  induction hpath with
  | leaf => exact le_rfl
  | @parent m n e rest hrest hp ih =>
    exact (h.pass m (hrest.mem_nodes ht).1 _ (hrest.arriver_mem ht)).trans ih

theorem Inv.arrivals_le_started (h : Inv tree epoch arrivals s) (ht : t ∈ tree.tasks) :
    arrivals (.inl t) ≤ (s.task t).started := by
  rw [(h.task t ht).started]
  exact Nat.le_add_right _ _

/-- A task that is about to reset the count of a node has arrived there in a round that is
complete. -/
theorem Inv.epoch_pos (h : Inv tree epoch arrivals s) (ht : t ∈ tree.tasks)
    (hpc : (s.task t).pc = .writeCount n) : 0 < epoch n := by
  have hk := h.task t ht
  have hok := hk.pc
  simp only [hpc, PcOk] at hok
  have hcalls := hk.calls (by simp [hpc])
  rcases hstack : (s.task t).stack with - | ⟨⟨m, e⟩, rest⟩
  · have hstarted := hk.started
    simp only [Task.entering, hstack, hpc] at hstarted
    rw [hstack, arriver] at hok
    omega
  · have hpassed := hk.passed m e rest hstack
    simp only [hpc, Pc.arrived, if_true] at hpassed
    rw [hstack, arriver] at hok
    omega

/-- A task in its only call does not decrement a half reset node. -/
theorem Inv.apart (h : Inv tree epoch arrivals s) (ht : t ∈ tree.tasks)
    (hone : (s.task t).started ≤ 1) : StepApart tree.tasks s t := by
  intro n e hpc u hu hreset
  have hpos := h.epoch_pos hu hreset
  have hk := h.task t ht
  have hok := hk.pc
  simp only [hpc, PcOk] at hok
  have hpath := hk.path n (by rw [hpc]; rfl)
  have hstarted := hk.started
  rcases hstack : (s.task t).stack with - | ⟨⟨m, e'⟩, rest⟩
  · simp only [Task.entering, hstack, hpc] at hstarted
    rw [hstack, arriver] at hok
    omega
  · -- the node below has completed a round already and is full again
    have hpassed := hk.passed m e' rest hstack
    simp only [hpc, Pc.arrived, Bool.false_eq_true, if_false] at hpassed
    have hfull := (h.holder t ht m (Or.inl ⟨e', by simp [hstack]⟩)).1
    rw [hstack] at hpath hok
    rw [arriver] at hok
    cases hpath with
    | parent hrest hp =>
      have harr := hfull _ (hrest.arriver_mem ht)
      have hle := hrest.arrivals_le ht h.progress
      omega

/-! ## Some task goes on -/

/-- The only call of the task has returned. -/
def Returned (s : State T N) (t : T) : Prop := (s.task t).pc = .idle ∧ (s.task t).returned = 1

omit [DecidableEq N] in
/-- Between a node in its first round and a root that has completed a round, there is a node in
its first round whose parent has completed one. -/
theorem exists_behind_parent (hn : n ∈ tree.nodes) (hzero : epoch n = 0)
    (hroot : 0 < epoch tree.root) :
    ∃ m ∈ tree.nodes, ∃ p, tree.parent m = some p ∧ epoch m = 0 ∧ 0 < epoch p := by
  refine root_induction (P := fun n => epoch n = 0 →
    ∃ m ∈ tree.nodes, ∃ p, tree.parent m = some p ∧ epoch m = 0 ∧ 0 < epoch p) ?_ ?_ hn hzero
  · intro hz
    omega
  · intro n hn p hp hparent ih hz
    obtain hpz | hpos := Nat.eq_zero_or_pos (epoch p)
    · exact ih hpz
    · exact ⟨n, hn, p, hparent, hz, hpos⟩

theorem Inv.not_returned_of_holds (h : Inv tree epoch arrivals s) (ht : t ∈ tree.tasks)
    (hold : (s.task t).Holds n) : ¬Returned s t := by
  intro hret
  obtain ⟨e, he⟩ | ⟨e, hpc⟩ := hold
  · rw [((h.task t ht).idle hret.1).1] at he
    exact List.not_mem_nil he
  · exact absurd (hret.1.symm.trans hpc) (by simp)

/-- As long as a call is open, some task with an open call is not stuck. -/
theorem Inv.exists_open (h : Inv tree epoch arrivals s)
    (hne : ∀ n ∈ tree.nodes, (tree.arrivers n).Nonempty)
    (hone : ∀ t ∈ tree.tasks, (s.task t).started ≤ 1) (hopen : ∃ t ∈ tree.tasks, ¬Returned s t) :
    ∃ t ∈ tree.tasks, ¬Returned s t ∧ ¬Stuck s t := by
  by_contra hall
  push Not at hall
  obtain hroot | hroot := Nat.eq_zero_or_pos (epoch tree.root)
  · -- nobody has returned from the first round
    have hnone : ∀ t ∈ tree.tasks, ¬Returned s t := by
      intro t ht hret
      have hleaf := tree.leaf_mem t ht
      have hle := (h.task t ht).returned_le
        (h.progress.le_epoch _ hleaf _ (inl_mem_arrivers.mpr ⟨ht, rfl⟩))
      have hup := h.progress.epoch_le_root hleaf
      have hret := hret.2
      omega
    obtain ⟨t, ht, hnot⟩ := h.exists_not_stuck
    exact hnot (hall t ht (hnone t ht))
  · obtain ⟨t, ht, hnot⟩ := hopen
    obtain ⟨n, hnode, harr, -⟩ := h.stuck ht (hall t ht hnot)
    have hn := (h.task t ht).node_mem ht hnode
    have hzero : epoch n = 0 := by
      have hle := ((h.task t ht).path n hnode).arrivals_le ht h.progress
      have hstarted := h.arrivals_le_started ht
      have hlast := hone t ht
      omega
    obtain ⟨m, hm, p, hp, hmz, hpos⟩ := exists_behind_parent hn hzero hroot
    have hpmem := tree.parent_mem hm hp
    have hbelow := h.progress.epoch_le p hpmem (.inr m) (inr_mem_arrivers.mpr ⟨hm, hp⟩)
    -- the task that holds the late node has nothing to wait for
    obtain ⟨u, hu, hold⟩ : ∃ u ∈ tree.tasks, (s.task u).Holds m := by
      by_contra hnone
      push Not at hnone
      have := h.free m hm hnone
      omega
    have hfirst : arrivals (.inr m) ≤ 1 := by
      obtain ⟨a, ha⟩ := hne m hm
      have hpass := h.progress.pass m hm a ha
      have hfull := (h.holder u hu m hold).1 a ha
      omega
    obtain ⟨n', hnode', harr', hstack'⟩ :=
      h.stuck hu (hall u hu (h.not_returned_of_holds hu hold))
    obtain ⟨e, he⟩ := hstack' m hold
    rcases ((h.task u hu).path n' hnode').parent_mem he with ⟨rest, hrest, hpn⟩ | ⟨p', e', hpp, hmem⟩
    · cases hp.symm.trans hpn
      rw [hrest, arriver] at harr'
      omega
    · cases hp.symm.trans hpp
      have := (h.holder u hu _ (Or.inl ⟨e', hmem⟩)).1 (.inr m) (inr_mem_arrivers.mpr ⟨hm, hp⟩)
      omega

/-! ## The steps of one task -/

variable [DecidableEq T]

/-- One step of a task that calls `sqt_barrier_wait` once. -/
def stepOnce (leaf : T → N) (s : State T N) (t : T) : State T N :=
  if (s.task t).pc = .idle ∧ (s.task t).started ≠ 0 then s else step leaf s t

/-- A bound on the number of steps that a task has left in its only call. -/
def Task.left (tree : CombiningTree T N) (k : Task N) : ℕ :=
  match k.pc with
  | .idle => if k.started = 0 then 4 * tree.height + 5 else 0
  | .readSense n => 4 * (tree.height - tree.level n) + 4 + 2 * k.stack.length
  | .decrement n _ => 4 * (tree.height - tree.level n) + 3 + 2 * k.stack.length
  | .writeSense _ _ => 2 + 2 * k.stack.length
  | .poll _ _ | .writeCount _ => 1 + 2 * k.stack.length

theorem step_task_of_ne {leaf : T → N} (h : u ≠ t) : (step leaf s t).task u = s.task u := by
  unfold step
  dsimp only
  split
  · exact Function.update_of_ne h _ _
  · exact Function.update_of_ne h _ _
  · split
    · split
      · exact Function.update_of_ne h _ _
      · exact Function.update_of_ne h _ _
    · exact Function.update_of_ne h _ _
  · split
    · exact Function.update_of_ne h _ _
    · rfl
  · exact Function.update_of_ne h _ _
  · exact Function.update_of_ne h _ _

theorem stepOnce_task_of_ne {leaf : T → N} (h : u ≠ t) :
    (stepOnce leaf s t).task u = s.task u := by
  unfold stepOnce
  split
  · rfl
  · exact step_task_of_ne h

omit [DecidableEq T] [DecidableEq N] in
/-- A return leaves less to do than any place before it in the same call. -/
theorem left_return (k : Task N) (hstarted : k.started ≠ 0) :
    k.return.left tree < 1 + 2 * k.stack.length := by
  unfold Task.return
  split
  · rename_i hstack
    simp [Task.left, hstarted]
  · rename_i hstack
    simp only [Task.left, hstack, List.length_cons]
    omega

/-- A step of a task in its only call either changes nothing, and the task polls a flag that
shows the other value or has returned, or leaves the task less to do. -/
theorem stepOnce_left (h : Inv tree epoch arrivals s) (ht : t ∈ tree.tasks) :
    (stepOnce tree.leaf s t = s ∧ (Stuck s t ∨ (s.task t).pc = .idle ∧ (s.task t).started ≠ 0)) ∨
      ((stepOnce tree.leaf s t).task t).left tree < (s.task t).left tree := by
  have hself (s : State T N) (k : Task N) : (s.setTask t k).task t = k := Function.update_self ..
  have hcalls := (h.task t ht).calls
  unfold stepOnce
  split
  · rename_i hdone
    exact Or.inl ⟨rfl, Or.inr hdone⟩
  · rename_i hopen
    cases hpc : (s.task t).pc with
    | idle =>
      have hstack := ((h.task t ht).idle hpc).1
      have hstarted : (s.task t).started = 0 := by
        by_contra hne
        exact hopen ⟨hpc, hne⟩
      refine Or.inr ?_
      simp only [step, hpc, hself, Task.left, hstarted, hstack, List.length_nil, if_true]
      omega
    | readSense n =>
      refine Or.inr ?_
      simp only [step, hpc, hself, Task.left]
      omega
    | decrement n e =>
      refine Or.inr ?_
      have hn : n ∈ tree.nodes := (h.task t ht).node_mem ht (by rw [hpc]; rfl)
      have hleft : (s.task t).left tree =
          4 * (tree.height - tree.level n) + 3 + 2 * (s.task t).stack.length := by
        rw [Task.left, hpc]
      rw [hleft]
      by_cases hcount : (s.node n).count = 1
      · cases hp : (s.node n).parent with
        | none =>
          simp only [step, hpc, hcount, hp, if_true, hself, Task.left]
          omega
        | some p =>
          have hparent : tree.parent n = some p := (h.parent n hn).symm.trans hp
          have hlt := tree.level_lt hn hparent
          have hle := tree.level_le p (tree.parent_mem hn hparent)
          simp only [step, hpc, hcount, hp, if_true, hself, Task.left, List.length_cons]
          omega
      · simp only [step, hpc, hcount, if_false, hself, Task.left]
        omega
    | poll n e =>
      have hstarted := hcalls (by simp [hpc])
      simp only [step, hpc]
      split
      · refine Or.inr ?_
        have hleft : (s.task t).return.left tree < 1 + 2 * (s.task t).stack.length :=
          left_return (s.task t) (by omega)
        simp only [hself]
        simpa only [Task.left, hpc] using hleft
      · rename_i hsense
        exact Or.inl ⟨rfl, Or.inl ⟨n, e, hpc, hsense⟩⟩
    | writeSense n e =>
      refine Or.inr ?_
      simp only [step, hpc, hself, Task.left]
      omega
    | writeCount n =>
      refine Or.inr ?_
      have hstarted := hcalls (by simp [hpc])
      have hleft : (s.task t).return.left tree < 1 + 2 * (s.task t).stack.length :=
        left_return (s.task t) (by omega)
      simp only [step, hpc, hself]
      simpa only [Task.left, hpc] using hleft

/-! ## All calls return -/

/-- The invariant of the barrier, with at most one call of each task. -/
def OnceInv (tree : CombiningTree T N) (s : State T N) : Prop :=
  (∃ epoch arrivals, Inv tree epoch arrivals s) ∧ ∀ t ∈ tree.tasks, (s.task t).started ≤ 1

theorem step_started (leaf : T → N) (hbusy : (s.task t).pc ≠ .idle) :
    ((step leaf s t).task t).started = (s.task t).started := by
  have hself (s : State T N) (k : Task N) : (s.setTask t k).task t = k := Function.update_self ..
  have hreturn (k : Task N) : k.return.started = k.started := by
    unfold Task.return
    split <;> rfl
  unfold step
  dsimp only
  split
  · rename_i hpc
    exact absurd hpc hbusy
  · rw [hself]
  · split
    · split <;> rw [hself]
    · rw [hself]
  · split
    · rw [hself, hreturn]
    · rfl
  · rw [hself]
  · rw [hself, hreturn]

theorem OnceInv.stepOnce (h : OnceInv tree s)
    (hne : ∀ n ∈ tree.nodes, (tree.arrivers n).Nonempty)
    (hbound : ∀ n ∈ tree.nodes, (tree.arrivers n).card < 0x100000000) (ht : t ∈ tree.tasks) :
    OnceInv tree (stepOnce tree.leaf s t) := by
  unfold Barrier.stepOnce
  split
  · exact h
  · rename_i hopen
    obtain ⟨⟨epoch, arrivals, hinv⟩, hone⟩ := h
    refine ⟨hinv.step hne hbound ht (hinv.apart ht (hone t ht)), fun u hu => ?_⟩
    by_cases hut : u = t
    · subst hut
      by_cases hpc : (s.task u).pc = .idle
      · have hstarted : (s.task u).started = 0 := by
          by_contra hstarted
          exact hopen ⟨hpc, hstarted⟩
        simp [step, hpc, State.setTask, hstarted]
      · rw [step_started _ hpc]
        exact hone u hu
    · rw [step_task_of_ne hut]
      exact hone u hu

/-- When every task calls the barrier once, every fair schedule lets all the calls return. -/
theorem all_return (hne : ∀ n ∈ tree.nodes, (tree.arrivers n).Nonempty)
    (hbound : ∀ n ∈ tree.nodes, (tree.arrivers n).card < 0x100000000)
    {node : N → Node N} (hbuilt : Built tree node) {schedule : ℕ → T}
    (hfair : Fair tree.tasks schedule) :
    ∃ k, ∀ t ∈ tree.tasks,
      Returned (trace (stepOnce tree.leaf) ⟨node, fun _ => Task.init⟩ schedule k) t := by
  refine exists_final (OnceInv tree) (fun s => ∀ t ∈ tree.tasks, Returned s t)
    (fun s => ∑ t ∈ tree.tasks, (s.task t).left tree)
    (fun s t h ht => h.stepOnce hne hbound ht) (fun s t h ht => ?_) (fun s h hopen => ?_) hfair
    ⟨⟨_, _, inv_init hbuilt hne⟩, fun t _ => Nat.zero_le 1⟩
  · obtain ⟨⟨epoch, arrivals, hinv⟩, -⟩ := h
    refine (stepOnce_left hinv ht).imp And.left fun hlt => ?_
    exact sum_lt_sum_of_party ht (fun u hu => by rw [stepOnce_task_of_ne hu]) hlt
  · obtain ⟨⟨epoch, arrivals, hinv⟩, hone⟩ := h
    push Not at hopen
    obtain ⟨t, ht, hnot, hgo⟩ := hinv.exists_open hne hone hopen
    refine ⟨t, ht, sum_lt_sum_of_party ht (fun u hu => by rw [stepOnce_task_of_ne hu]) ?_⟩
    obtain ⟨-, hstuck | ⟨hpc, hstarted⟩⟩ | hlt := stepOnce_left hinv ht
    · exact absurd hstuck hgo
    · have hle := hone t ht
      have hret := ((hinv.task t ht).idle hpc).2.1
      exact absurd ⟨hpc, by omega⟩ hnot
    · exact hlt

end GietVm.Barrier
