import GietVm.Locks.SqtBuild
import GietVm.Library.LeadsTo

/-!
# The progress of an SQT lock

In a fair schedule every task takes the lock again and again. The first task in the queue of a
node owns the node or sees its own ticket. If every wait above the node comes to an end, this task
reaches the root, leaves the critical section and gives the node back, so every place in the queue
comes to the front. The waits come to an end from the root down.
-/

namespace GietVm.Locks

open Library CombiningTree Barrier

variable {T N : Type*} {tree : CombiningTree T N} {s s₀ : State T N} {t u v : T} {m n p : N}
  {g i : ℕ} {schedule : ℕ → T}

/-! ## Single steps -/

section Step

variable [DecidableEq T] [DecidableEq N] {leaf : T → N}

/-- A step leaves the other tasks where they are. -/
theorem step_task_of_ne (h : u ≠ t) : (step leaf s t).task u = s.task u := by
  unfold step
  split
  · exact setTask_of_ne s _ h
  · exact setTask_of_ne _ _ h
  · split
    · exact setTask_of_ne _ _ h
    · rfl
  · exact setTask_of_ne s _ h
  · exact setTask_of_ne s _ h
  · exact setTask_of_ne _ _ h

/-- Only the write of `current` counts. -/
theorem step_given_of_ne (h : ∀ value, s.task t ≠ .write n value) :
    (step leaf s t).given n = s.given n := by
  unfold step
  split
  · rfl
  · rfl
  · split
    · rfl
    · rfl
  · rfl
  · rfl
  · next m value hpc =>
    have hnm : n ≠ m := by
      intro heq
      rw [← heq] at hpc
      exact h value hpc
    exact (give_given s m n (add32 value 1)).trans (if_neg hnm)

theorem step_given_write {value : ℕ} (h : s.task t = .write n value) :
    (step leaf s t).given n = s.given n + 1 := by
  unfold step
  rw [h]
  exact (give_given s n n (add32 value 1)).trans (if_pos rfl)

/-- Places in the history of a node are kept. -/
theorem step_drawn (h : (s.drawn n)[i]? = some u) :
    ((step leaf s t).drawn n)[i]? = some u := by
  unfold step
  split
  · exact h
  · next m hpc =>
    change ((s.draw t m).drawn n)[i]? = some u
    rw [draw_drawn]
    split
    · obtain ⟨hlt, _⟩ := List.getElem?_eq_some_iff.1 h
      rw [List.getElem?_append_left hlt, h]
    · exact h
  · split
    · exact h
    · exact h
  · exact h
  · exact h
  · exact h

theorem step_idle (h : s.task t = .idle) :
    (step leaf s t).task t = .take (leaf t) := by
  unfold step
  rw [h]
  exact setTask_self s t _

theorem step_take (h : s.task t = .take n) :
    (step leaf s t).task t = .poll n (s.node n).free := by
  unfold step
  rw [h]
  exact setTask_self _ t _

theorem step_poll {ticket : ℕ} (h : s.task t = .poll n ticket)
    (hcurrent : (s.node n).current = ticket) :
    (step leaf s t).task t = takeNext (s.node n).parent := by
  unfold step
  rw [h]
  dsimp only
  rw [if_pos hcurrent]
  exact setTask_self _ t _

/-- A task polls in vain without changing anything. -/
theorem step_poll_of_ne {ticket : ℕ} (h : s.task t = .poll n ticket)
    (hcurrent : (s.node n).current ≠ ticket) : step leaf s t = s := by
  unfold step
  rw [h]
  exact if_neg hcurrent

theorem step_critical (h : s.task t = .critical) :
    (step leaf s t).task t = .read (leaf t) := by
  unfold step
  rw [h]
  exact setTask_self s t _

theorem step_read (h : s.task t = .read n) :
    (step leaf s t).task t = .write n (s.node n).current := by
  unfold step
  rw [h]
  exact setTask_self s t _

theorem step_write {value : ℕ} (h : s.task t = .write n value) :
    (step leaf s t).task t = giveNext (s.node n).parent := by
  unfold step
  rw [h]
  exact setTask_self _ t _

end Step

/-! ## What a task has left to do -/

/-- How many steps a task has left until it is idle, at most. -/
def Pc.left (tree : CombiningTree T N) : Pc N → ℕ
  | .idle => 0
  | .write n _ => 2 * (tree.height - tree.level n) + 1
  | .read n => 2 * (tree.height - tree.level n) + 2
  | .critical => 2 * tree.height + 3
  | .poll n _ => 2 * tree.height + 4 + 2 * (tree.height - tree.level n)
  | .take n => 2 * tree.height + 5 + 2 * (tree.height - tree.level n)

theorem left_takeNext (hn : n ∈ tree.nodes) (ticket : ℕ) :
    (takeNext (tree.parent n)).left tree < (Pc.poll n ticket).left tree := by
  cases hp : tree.parent n with
  | none =>
    change 2 * tree.height + 3 < 2 * tree.height + 4 + 2 * (tree.height - tree.level n)
    omega
  | some p =>
    have hlt := tree.level_lt hn hp
    have hle := tree.level_le p (tree.parent_mem hn hp)
    change 2 * tree.height + 5 + 2 * (tree.height - tree.level p) <
      2 * tree.height + 4 + 2 * (tree.height - tree.level n)
    omega

theorem left_giveNext (hn : n ∈ tree.nodes) (value : ℕ) :
    (giveNext (tree.parent n)).left tree < (Pc.write n value).left tree := by
  cases hp : tree.parent n with
  | none => exact Nat.succ_pos _
  | some p =>
    have hlt := tree.level_lt hn hp
    have hle := tree.level_le p (tree.parent_mem hn hp)
    change 2 * (tree.height - tree.level p) + 2 < 2 * (tree.height - tree.level n) + 1
    omega

theorem left_read_leaf : (Pc.read n).left tree < Pc.critical.left tree := by
  change 2 * (tree.height - tree.level n) + 2 < 2 * tree.height + 3
  omega

/-- A step of a task that is not idle brings it nearer to its end, unless it polls in vain. -/
theorem left_step [DecidableEq T] [DecidableEq N] (h : Inv tree s) (ht : t ∈ tree.tasks)
    (hidle : s.task t ≠ .idle) (hpoll : ∀ n ticket, s.task t = .poll n ticket →
      (s.node n).current = ticket) :
    ((step tree.leaf s t).task t).left tree < (s.task t).left tree := by
  cases hpc : s.task t with
  | idle => exact absurd hpc hidle
  | take n =>
    rw [step_take hpc]
    change 2 * tree.height + 4 + _ < 2 * tree.height + 5 + _
    omega
  | poll n ticket =>
    have hn := h.node_mem ht (n := n) (by rw [hpc]; rfl)
    rw [step_poll hpc (hpoll n ticket hpc), h.parent n hn]
    exact left_takeNext hn ticket
  | critical =>
    rw [step_critical hpc]
    exact left_read_leaf
  | read n =>
    rw [step_read hpc]
    exact Nat.lt_succ_self _
  | write n value =>
    have hn := h.node_mem ht (n := n) (by rw [hpc]; rfl)
    rw [step_write hpc, h.parent n hn]
    exact left_giveNext hn value

/-! ## Places in a queue -/

/-- The task is at a place of the history of the node, and has not been passed by. -/
structure Place (n : N) (i : ℕ) (t : T) (s : State T N) : Prop where
  drawn : (s.drawn n)[i]? = some t
  given_le : s.given n ≤ i

theorem Place.mem_queue (h : Place n i t s) : t ∈ s.queue n := by
  obtain ⟨j, hj⟩ := Nat.exists_eq_add_of_le h.given_le
  have hget : (s.queue n)[j]? = some t := by
    rw [State.queue, ticketQueue, List.getElem?_drop, ← hj]
    exact h.drawn
  exact List.mem_of_getElem? hget

/-- A task has one place in the queue of a node. -/
theorem Place.unique {j : ℕ} (hinv : Inv tree s) (hn : n ∈ tree.nodes) (hi : Place n i t s)
    (hj : Place n j t s) : i = j := by
  have hnodup := hinv.nodup n hn
  rw [State.queue, ticketQueue] at hnodup
  have hget {k : ℕ} (hk : Place n k t s) :
      ((s.drawn n).drop (s.given n))[k - s.given n]? = some t := by
    rw [List.getElem?_drop, Nat.add_sub_of_le hk.given_le]
    exact hk.drawn
  obtain ⟨hilt, hieq⟩ := List.getElem?_eq_some_iff.1 (hget hi)
  obtain ⟨hjlt, hjeq⟩ := List.getElem?_eq_some_iff.1 (hget hj)
  have heq := (List.Nodup.getElem_inj_iff hnodup).1 (hieq.trans hjeq.symm)
  have hile := hi.given_le
  have hjle := hj.given_le
  omega

/-- A task that polls has a place, and its ticket is the place. -/
theorem exists_place_poll (hinv : Inv tree s) (ht : t ∈ tree.tasks) {ticket : ℕ}
    (hpc : s.task t = .poll n ticket) :
    ∃ i, Place n i t s ∧ (s.served n).length ≤ i ∧ ticket = i % 0x100000000 := by
  have hn := hinv.node_mem ht (n := n) (by rw [hpc]; rfl)
  obtain ⟨i, hget, hle, hticket⟩ := hinv.waiting t ht n ticket hpc
  exact ⟨i, ⟨hget, (hinv.lock n hn).given_le.trans hle⟩, hle, hticket⟩

/-- The first task of a queue that polls sees its ticket. -/
theorem current_of_first (hinv : Inv tree s) (ht : t ∈ tree.tasks) {ticket : ℕ}
    (hpc : s.task t = .poll n ticket) (hplace : Place n i t s) (hfirst : s.given n = i) :
    (s.node n).current = ticket := by
  have hn := hinv.node_mem ht (n := n) (by rw [hpc]; rfl)
  obtain ⟨j, hj, _, hticket⟩ := exists_place_poll hinv ht hpc
  rw [hticket, ← hplace.unique hinv hn hj, ← hfirst]
  exact (hinv.lock n hn).current_eq

/-- A node is not taken back. -/
theorem given_le_step [DecidableEq T] [DecidableEq N] (leaf : T → N) (s : State T N) (n : N)
    (t : T) : s.given n ≤ (step leaf s t).given n := by
  by_cases h : ∃ value, s.task t = .write n value
  · obtain ⟨value, h⟩ := h
    rw [step_given_write h]
    exact Nat.le_succ _
  · rw [step_given_of_ne (not_exists.1 h)]

/-- A place is kept until the node has been given back beyond it. -/
theorem Place.step [DecidableEq T] [DecidableEq N] (leaf : T → N) (h : Place n i t s)
    (u : T) : Place n i t (step leaf s u) ∨ i < (step leaf s u).given n := by
  have hdrawn : ((Locks.step leaf s u).drawn n)[i]? = some t := step_drawn h.drawn
  obtain hle | hlt := Nat.lt_or_ge i ((Locks.step leaf s u).given n)
  · exact Or.inr hle
  · exact Or.inl ⟨hdrawn, hlt⟩

/-- A task that polls keeps its place while the others take steps. -/
theorem Place.step_of_poll [DecidableEq T] [DecidableEq N] (hinv : Inv tree s)
    (ht : t ∈ tree.tasks) (hu : u ∈ tree.tasks) {ticket : ℕ} (hpc : s.task t = .poll n ticket)
    (h : Place n i t s) : Place n i t (Locks.step tree.leaf s u) := by
  refine ⟨step_drawn h.drawn, ?_⟩
  have hn := hinv.node_mem ht (n := n) (by rw [hpc]; rfl)
  obtain ⟨j, hj, hserved, _⟩ := exists_place_poll hinv ht hpc
  rw [← h.unique hinv hn hj] at hserved
  by_cases hwrite : ∃ value, s.task u = .write n value
  · obtain ⟨value, hwrite⟩ := hwrite
    have howner := hinv.owner u hu n (by rw [hwrite]; exact above_refl n)
    rw [step_given_write hwrite, ← howner.1]
    exact hserved
  · rw [step_given_of_ne (not_exists.1 hwrite)]
    exact h.given_le

/-- The task polls the node at a place of its queue. -/
def WaitsAt (n : N) (i : ℕ) (t : T) (s : State T N) : Prop :=
  Place n i t s ∧ ∃ ticket, s.task t = .poll n ticket

/-- A task goes on waiting while the others take steps. -/
theorem WaitsAt.step_other [DecidableEq T] [DecidableEq N] (hinv : Inv tree s)
    (ht : t ∈ tree.tasks) (hu : u ∈ tree.tasks) (hne : u ≠ t) (h : WaitsAt n i t s) :
    WaitsAt n i t (Locks.step tree.leaf s u) := by
  obtain ⟨hplace, ticket, hpc⟩ := h
  refine ⟨hplace.step_of_poll hinv ht hu hpc, ticket, ?_⟩
  rw [step_task_of_ne hne.symm]
  exact hpc

/-- A task goes on waiting until it is served. -/
theorem WaitsAt.step [DecidableEq T] [DecidableEq N] (hinv : Inv tree s) (hn : n ∈ tree.nodes)
    (ht : t ∈ tree.tasks) (hu : u ∈ tree.tasks) (h : WaitsAt n i t s) :
    WaitsAt n i t (Locks.step tree.leaf s u) ∨
      (Locks.step tree.leaf s u).task t = takeNext (tree.parent n) := by
  by_cases hut : u = t
  · obtain ⟨hplace, ticket, hpc⟩ := h
    rw [hut]
    by_cases hcurrent : (s.node n).current = ticket
    · rw [step_poll hpc hcurrent, hinv.parent n hn]
      exact Or.inr rfl
    · rw [step_poll_of_ne hpc hcurrent]
      exact Or.inl ⟨hplace, ticket, hpc⟩
  · exact Or.inl (h.step_other hinv ht hu hut)

/-! ## Fair schedules -/

section Fair

variable [DecidableEq T] [DecidableEq N]

/-- The states of a run of the tasks of the tree all satisfy the invariant. -/
theorem trace_locks_inv (h : Inv tree s₀)
    (hbound : ∀ n ∈ tree.nodes, (tree.arrivers n).card < 0x100000000)
    (hfair : Fair tree.tasks schedule) (k : ℕ) :
    Inv tree (trace (step tree.leaf) s₀ schedule k) :=
  trace_inv (fun _ _ hs ht => hs.step hbound ht) hfair h k

variable (hinv : ∀ k, Inv tree (trace (step tree.leaf) s₀ schedule k))
  (hfair : Fair tree.tasks schedule)

include hinv hfair

/-- A task that is not idle comes nearer to its end at its turn, unless it polls in vain. What it
has for itself until then is kept by the others. -/
theorem leadsTo_left (ht : t ∈ tree.tasks) {P Q : State T N → Prop} {pc : Pc N}
    (hidle : pc ≠ .idle)
    (hpoll : ∀ s, Inv tree s → P s → s.task t = pc → ∀ n ticket, pc = .poll n ticket →
      (s.node n).current = ticket)
    (hother : ∀ s u, Inv tree s → u ∈ tree.tasks → u ≠ t → P s → s.task t = pc →
      P (step tree.leaf s u) ∨ Q (step tree.leaf s u))
    (hself : ∀ s, Inv tree s → P s → s.task t = pc →
      P (step tree.leaf s t) ∨ Q (step tree.leaf s t)) :
    LeadsTo (trace (step tree.leaf) s₀ schedule) (fun s => P s ∧ s.task t = pc)
      (fun s => Q s ∨ P s ∧ (s.task t).left tree < pc.left tree) := by
  refine leadsTo_turn hfair hinv ht ?_ ?_
  · intro s u hs hu hne ⟨hP, hpc⟩
    obtain hP' | hQ := hother s u hs hu hne hP hpc
    · left
      refine ⟨hP', ?_⟩
      rw [step_task_of_ne hne.symm]
      exact hpc
    · exact Or.inr (Or.inl hQ)
  · intro s hs ⟨hP, hpc⟩
    obtain hP' | hQ := hself s hs hP hpc
    · right
      refine ⟨hP', ?_⟩
      have hlt := left_step hs ht (by rw [hpc]; exact hidle)
        (by intro n ticket h; exact hpoll s hs hP hpc n ticket (hpc ▸ h))
      rwa [hpc] at hlt
    · exact Or.inl hQ

omit hinv hfair in
/-- The first place of a queue stays the first until its task gives the node back. -/
theorem first_step (hfirst : Place n g t s ∧ s.given n = g) (u : T) :
    (Place n g t (step tree.leaf s u) ∧ (step tree.leaf s u).given n = g) ∨
      g < (step tree.leaf s u).given n := by
  obtain hplace | hlt := hfirst.1.step tree.leaf u
  · have hle := given_le_step tree.leaf s n u
    rw [hfirst.2] at hle
    exact Or.inl ⟨hplace, Nat.le_antisymm hplace.given_le hle⟩
  · exact Or.inr hlt

/-- Every wait at the node comes to an end. -/
def Serves (tree : CombiningTree T N) (run : ℕ → State T N) (n : N) : Prop :=
  ∀ t ∈ tree.tasks, LeadsTo run (fun s => ∃ ticket, s.task t = .poll n ticket)
    fun s => s.task t = takeNext (tree.parent n)

/-- If the waits above the node come to an end, the first task of its queue gives it back. -/
theorem frees_of_serves (hn : n ∈ tree.nodes)
    (habove : ∀ m, tree.Above n m → n ≠ m →
      Serves tree (trace (step tree.leaf) s₀ schedule) m) :
    LeadsTo (trace (step tree.leaf) s₀ schedule) (fun s => Place n g t s ∧ s.given n = g)
      fun s => g < s.given n := by
  apply LeadsTo.by_rank fun s => (s.task t).left tree
  intro r k ⟨hfirst, hr⟩
  obtain ⟨ht, hqueued⟩ := ((hinv k).mem_queue n hn t).1 hfirst.1.mem_queue
  by_cases hwait : ∃ m ticket, (trace (step tree.leaf) s₀ schedule k).task t = .poll m ticket ∧
      m ≠ n
  · obtain ⟨m, ticket, hpc, hne⟩ := hwait
    have hm := (hinv k).node_mem ht (n := m) (by rw [hpc]; rfl)
    have hup : tree.Above n m ∧ n ≠ m := by
      rw [hpc] at hqueued
      obtain ⟨_, hup⟩ | ⟨_, heq⟩ := hqueued
      · exact hup
      · exact absurd (Pc.poll.inj heq).1 hne
    -- the task waits above the node, and stays the first of the queue meanwhile
    obtain ⟨j, hkj, hj⟩ := (habove m hup.1 hup.2 t ht).and_lasting
      (R := fun s => Place n g t s ∧ s.given n = g) (U := fun s => g < s.given n)
      (fun k hfirst => first_step hfirst (schedule k)) k ⟨⟨ticket, hpc⟩, hfirst⟩
    refine ⟨j, hkj, ?_⟩
    obtain ⟨hnext, hfirst⟩ | hdone := hj
    · right
      refine ⟨hfirst, ?_⟩
      rw [hnext, ← hr, hpc]
      exact left_takeNext hm _
    · exact Or.inl hdone
  · have hidle : (trace (step tree.leaf) s₀ schedule k).task t ≠ .idle := by
      intro hpc
      rw [hpc] at hqueued
      obtain hown | ⟨_, heq⟩ := hqueued
      · exact hown
      · cases heq
    have hstep := leadsTo_left hinv hfair ht (P := fun s => Place n g t s ∧ s.given n = g)
      (Q := fun s => g < s.given n) hidle ?_ (fun s u _ _ _ hfirst _ => first_step hfirst u)
      (fun s _ hfirst _ => first_step hfirst t)
    · obtain ⟨j, hkj, hj⟩ := hstep k ⟨hfirst, rfl⟩
      rw [hr] at hj
      exact ⟨j, hkj, hj⟩
    · intro s hs hfirst hpc m ticket heq
      have hmn : m = n := by
        by_contra hne
        exact hwait ⟨m, ticket, heq, hne⟩
      rw [heq, hmn] at hpc
      rw [hmn]
      exact current_of_first hs ht hpc hfirst.1 hfirst.2

/-- If the first tasks of its queue give the node back, the waits at the node come to an end. -/
theorem serves_of_frees (hn : n ∈ tree.nodes)
    (hfree : ∀ u g, LeadsTo (trace (step tree.leaf) s₀ schedule)
      (fun s => Place n g u s ∧ s.given n = g) fun s => g < s.given n) :
    Serves tree (trace (step tree.leaf) s₀ schedule) n := by
  intro t ht
  have hplaced (i : ℕ) : LeadsTo (trace (step tree.leaf) s₀ schedule) (WaitsAt n i t)
      fun s => s.task t = takeNext (tree.parent n) := by
    apply LeadsTo.by_rank fun s => i - s.given n
    intro r k ⟨hwait, hr⟩
    by_cases hfirst : (trace (step tree.leaf) s₀ schedule k).given n = i
    · have hturn := leadsTo_turn hfair hinv ht (P := fun s => WaitsAt n i t s ∧ s.given n = i)
        (Q := fun s => s.task t = takeNext (tree.parent n)) ?_ ?_
      · obtain ⟨j, hkj, hj⟩ := hturn k ⟨hwait, hfirst⟩
        exact ⟨j, hkj, Or.inl hj⟩
      · intro s u hs hu hne ⟨hwait, hgiven⟩
        have hwait' := hwait.step_other hs ht hu hne
        have hle := given_le_step tree.leaf s n u
        rw [hgiven] at hle
        exact Or.inl ⟨hwait', Nat.le_antisymm hwait'.1.given_le hle⟩
      · intro s hs ⟨⟨hplace, ticket, hpc⟩, hgiven⟩
        rw [step_poll hpc (current_of_first hs ht hpc hplace hgiven), hs.parent n hn]
    · have hlt := lt_of_le_of_ne hwait.1.given_le hfirst
      obtain ⟨hilt, _⟩ := List.getElem?_eq_some_iff.1 hwait.1.drawn
      -- another task is the first of the queue
      have hother : Place n ((trace (step tree.leaf) s₀ schedule k).given n) _ _ :=
        ⟨List.getElem?_eq_getElem (hlt.trans hilt), Nat.le_refl _⟩
      obtain ⟨j, hkj, hj⟩ := (hfree _ _).and_lasting (R := WaitsAt n i t)
        (U := fun s => s.task t = takeNext (tree.parent n))
        (fun k hwait => hwait.step (hinv k) hn ht (hfair.mem k)) k ⟨⟨hother, rfl⟩, hwait⟩
      refine ⟨j, hkj, ?_⟩
      obtain ⟨hgiven, hwait⟩ | hserved := hj
      · exact Or.inr ⟨hwait, by omega⟩
      · exact Or.inl hserved
  intro k ⟨ticket, hpc⟩
  obtain ⟨i, hplace, _⟩ := exists_place_poll (hinv k) ht hpc
  exact hplaced i k ⟨hplace, ticket, hpc⟩

/-- All waits come to an end, from the root down. -/
theorem serves (hn : n ∈ tree.nodes) : Serves tree (trace (step tree.leaf) s₀ schedule) n := by
  have hall : ∀ m, tree.Above n m → Serves tree (trace (step tree.leaf) s₀ schedule) m := by
    refine root_induction (P := fun n => ∀ m, tree.Above n m →
      Serves tree (trace (step tree.leaf) s₀ schedule) m) ?_ ?_ hn
    · intro m hm
      have hnone := (tree.parent_root tree.root tree.root_mem).2 rfl
      rw [(above_iff_of_none hnone).1 hm]
      refine serves_of_frees hinv hfair tree.root_mem fun u g =>
        frees_of_serves hinv hfair tree.root_mem ?_
      intro m hm hne
      exact absurd ((above_iff_of_none hnone).1 hm).symm hne
    · intro n hn p _ hp ih m hm
      obtain heq | hup := (above_iff_of_parent hp).1 hm
      · rw [heq]
        refine serves_of_frees hinv hfair hn fun u g => frees_of_serves hinv hfair hn ?_
        intro m hm hne
        exact ih m (((above_iff_of_parent hp).1 hm).resolve_left hne.symm)
      · exact ih m hup
  exact hall n (above_refl n)

/-- A task stays where it is until its turn. -/
theorem leadsTo_own (ht : t ∈ tree.tasks) (pc : Pc N) {Q : State T N → Prop}
    (hself : ∀ s, Inv tree s → s.task t = pc → Q (step tree.leaf s t)) :
    LeadsTo (trace (step tree.leaf) s₀ schedule) (fun s => s.task t = pc) Q := by
  refine leadsTo_turn hfair hinv ht ?_ hself
  intro s u _ _ hne hpc
  left
  rw [step_task_of_ne hne.symm]
  exact hpc

/-- The task acquires the lock. -/
def Pc.Acquiring (pc : Pc N) : Prop := ∃ n, pc = .take n ∨ ∃ ticket, pc = .poll n ticket

theorem acquiring_leadsTo (ht : t ∈ tree.tasks) :
    LeadsTo (trace (step tree.leaf) s₀ schedule) (fun s => (s.task t).Acquiring)
      fun s => s.task t = .critical := by
  apply LeadsTo.by_rank fun s => (s.task t).left tree
  intro r k ⟨⟨n, hpc⟩, hr⟩
  obtain hpc | ⟨ticket, hpc⟩ := hpc
  · have hturn := leadsTo_own hinv hfair ht (.take n)
      (Q := fun s => (s.task t).Acquiring ∧ (s.task t).left tree < r) ?_
    · obtain ⟨j, hkj, hj⟩ := hturn k hpc
      exact ⟨j, hkj, Or.inr hj⟩
    · intro s hs hs'
      rw [step_take hs']
      refine ⟨⟨n, Or.inr ⟨_, rfl⟩⟩, ?_⟩
      rw [← hr, hpc]
      change 2 * tree.height + 4 + _ < 2 * tree.height + 5 + _
      omega
  · have hn := (hinv k).node_mem ht (n := n) (by rw [hpc]; rfl)
    obtain ⟨j, hkj, hj⟩ := serves hinv hfair hn t ht k ⟨ticket, hpc⟩
    refine ⟨j, hkj, ?_⟩
    have hlt := left_takeNext hn ticket
    rw [← hpc, hr, ← hj] at hlt
    cases hp : tree.parent n with
    | none =>
      rw [hp] at hj
      exact Or.inl hj
    | some p =>
      rw [hp] at hj
      exact Or.inr ⟨⟨p, Or.inl hj⟩, hlt⟩

theorem releasing_leadsTo (ht : t ∈ tree.tasks) :
    LeadsTo (trace (step tree.leaf) s₀ schedule) (fun s => (s.task t).Releasing)
      fun s => s.task t = .idle := by
  apply LeadsTo.by_rank fun s => (s.task t).left tree
  intro r k ⟨⟨n, hpc⟩, hr⟩
  have hn := (hinv k).node_mem ht (n := n) (by
    obtain hpc | ⟨value, hpc⟩ := hpc
    · rw [hpc]
      rfl
    · rw [hpc]
      rfl)
  obtain hpc | ⟨value, hpc⟩ := hpc
  · have hturn := leadsTo_own hinv hfair ht (.read n)
      (Q := fun s => (s.task t).Releasing ∧ (s.task t).left tree < r) ?_
    · obtain ⟨j, hkj, hj⟩ := hturn k hpc
      exact ⟨j, hkj, Or.inr hj⟩
    · intro s hs hs'
      rw [step_read hs']
      refine ⟨⟨n, Or.inr ⟨_, rfl⟩⟩, ?_⟩
      rw [← hr, hpc]
      exact Nat.lt_succ_self _
  · have hturn := leadsTo_own hinv hfair ht (.write n value)
      (Q := fun s => s.task t = .idle ∨ (s.task t).Releasing ∧ (s.task t).left tree < r) ?_
    · exact hturn k hpc
    · intro s hs hs'
      have hlt := left_giveNext hn value
      rw [← hpc, hr] at hlt
      rw [step_write hs', hs.parent n hn]
      cases hp : tree.parent n with
      | none => exact Or.inl rfl
      | some p =>
        rw [hp] at hlt
        exact Or.inr ⟨⟨p, Or.inl rfl⟩, hlt⟩

/-- Every task holds the lock again and again. -/
theorem leadsTo_critical (ht : t ∈ tree.tasks) :
    LeadsTo (trace (step tree.leaf) s₀ schedule) (fun _ => True)
      fun s => s.task t = .critical := by
  have hidle : LeadsTo (trace (step tree.leaf) s₀ schedule) (fun s => s.task t = .idle)
      fun s => s.task t = .critical := by
    refine LeadsTo.trans ?_ (acquiring_leadsTo hinv hfair ht)
    refine leadsTo_own hinv hfair ht .idle fun s _ hpc => ?_
    rw [step_idle hpc]
    exact ⟨tree.leaf t, Or.inl rfl⟩
  have hreleasing := (releasing_leadsTo hinv hfair ht).trans hidle
  intro k _
  cases hpc : (trace (step tree.leaf) s₀ schedule k).task t with
  | idle => exact hidle k hpc
  | take n => exact acquiring_leadsTo hinv hfair ht k ⟨n, Or.inl hpc⟩
  | poll n ticket => exact acquiring_leadsTo hinv hfair ht k ⟨n, Or.inr ⟨ticket, hpc⟩⟩
  | critical => exact ⟨k, Nat.le_refl k, hpc⟩
  | read n => exact hreleasing k ⟨n, Or.inl hpc⟩
  | write n value => exact hreleasing k ⟨n, Or.inr ⟨value, hpc⟩⟩

end Fair

/-! ## The lock that is built -/

/-- On every mesh and in every fair schedule, every task comes into the critical section again and
again. -/
theorem sqtLock_progress {xmax ymax ntasks level : ℕ} (hx : 0 < xmax) (hy : 0 < ymax)
    (hntasks : ntasks < 0x100000000) {node : NodeId → SqtLockNode NodeId}
    {schedule : ℕ → TaskId} (hfair : Fair (sqtTasks xmax ymax ntasks level) schedule) {t : TaskId}
    (ht : t ∈ sqtTasks xmax ymax ntasks level) (k : ℕ) :
    ∃ j, k ≤ j ∧
      (trace (step leafOf) (sqtLockInit xmax ymax level node) schedule j).task t = .critical := by
  have hbound : ∀ n ∈ (sqtTree xmax ymax ntasks level hx hy).nodes,
      ((sqtTree xmax ymax ntasks level hx hy).arrivers n).card < 0x100000000 := by
    intro n hn
    rw [card_arrivers hn]
    exact arityOf_lt hntasks
  have hfair' : Fair (sqtTree xmax ymax ntasks level hx hy).tasks schedule := hfair
  exact leadsTo_critical (trace_locks_inv inv_init hbound hfair') hfair' ht k trivial

/-- The turns of two tasks of the first cluster. -/
def twoTurns (k : ℕ) : TaskId := ⟨0, 0, k % 2⟩

/-- When two tasks take turns, the second comes into the critical section after step 20, too. -/
theorem sqtLock_progress_two :
    ∃ j, 20 ≤ j ∧
      (trace (step leafOf) (sqtLockInit 1 1 0 rawNode) twoTurns j).task ⟨0, 0, 1⟩ = .critical := by
  have hfair : Fair (sqtTasks 1 1 2 0) twoTurns := by
    constructor
    · intro k
      rw [mem_sqtTasks]
      exact ⟨⟨Nat.one_pos, Nat.one_pos⟩, ⟨Nat.one_pos, Nat.one_pos⟩, Nat.mod_lt k Nat.two_pos⟩
    · intro t ht k
      obtain ⟨⟨hx, _⟩, ⟨hy, _⟩, hp⟩ := mem_sqtTasks.1 ht
      obtain ⟨x, y, p⟩ := t
      refine ⟨k + p, ?_⟩
      rw [twoTurns, TaskId.mk.injEq]
      dsimp only at hx hy hp ⊢
      omega
  exact sqtLock_progress (by decide) (by decide) (by decide) hfair (by decide) 20

end GietVm.Locks
