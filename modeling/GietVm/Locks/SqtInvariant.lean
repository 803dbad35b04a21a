import GietVm.Locks.Sqt
import Mathlib.Data.Finset.Option
import Mathlib.Combinatorics.Enumerative.DoubleCounting

/-!
# The invariant of an SQT lock

In every state the queue of a node holds exactly the tasks that own the node or wait for it,
each of them once. The queue is short: a task in it that does not release came from its leaf
or through a child that it owns, and only one task releases, the owner of the root. So the
tickets of a node stand for positions although they wrap around.
-/

namespace GietVm.Locks

open Library CombiningTree

variable {T N : Type*} {tree : CombiningTree T N} {s : State T N} {t u : T} {m n p : N}

/-- The invariant of the nodes and the tasks. -/
structure Inv (tree : CombiningTree T N) (s : State T N) : Prop where
  parent : ∀ n ∈ tree.nodes, (s.node n).parent = tree.parent n
  lock : ∀ n ∈ tree.nodes,
    TicketOk (s.node n).current (s.node n).free (s.drawn n) (s.served n) (s.given n)
  nodup : ∀ n ∈ tree.nodes, (s.queue n).Nodup
  mem_queue : ∀ n ∈ tree.nodes, ∀ t, t ∈ s.queue n ↔
    t ∈ tree.tasks ∧ (s.task t).Queued tree t n
  path : ∀ t ∈ tree.tasks, ∀ n, (s.task t).node? = some n → tree.Above (tree.leaf t) n
  waiting : ∀ t ∈ tree.tasks, ∀ n ticket, s.task t = .poll n ticket →
    TicketWaiting (s.drawn n) (s.served n) t ticket
  owner : ∀ t ∈ tree.tasks, ∀ n, (s.task t).Owns tree t n →
    TicketOwner (s.drawn n) (s.served n) (s.given n) t
  value : ∀ t ∈ tree.tasks, ∀ n v, s.task t = .write n v → v = (s.node n).current

/-- The node of a task belongs to the tree. -/
theorem Inv.node_mem (h : Inv tree s) (ht : t ∈ tree.tasks) (hn : (s.task t).node? = some n) :
    n ∈ tree.nodes :=
  ((h.path t ht n hn).mem (tree.leaf_mem t ht)).1

/-- No two tasks own the same node. -/
theorem Inv.owner_unique (h : Inv tree s) (ht : t ∈ tree.tasks) (hu : u ∈ tree.tasks)
    (hto : (s.task t).Owns tree t n) (huo : (s.task u).Owns tree u n) : t = u :=
  (h.owner t ht n hto).unique (h.owner u hu n huo)

/-! ## The length of a queue -/

/-- A task that gives the lock back. -/
def Pc.Releasing (pc : Pc N) : Prop := ∃ m, pc = .read m ∨ ∃ v, pc = .write m v

/-- A task that gives the lock back owns the root. -/
theorem Inv.releasing_owns (h : Inv tree s) (ht : t ∈ tree.tasks)
    (hrel : (s.task t).Releasing) : (s.task t).Owns tree t tree.root := by
  obtain ⟨m, hm⟩ := hrel
  have hnode : (s.task t).node? = some m := by
    obtain hpc | ⟨v, hpc⟩ := hm
    · rw [hpc]
      rfl
    · rw [hpc]
      rfl
  have hroot := above_root (h.node_mem ht hnode)
  obtain hpc | ⟨v, hpc⟩ := hm
  · rw [hpc]
    exact hroot
  · rw [hpc]
    exact hroot

/-- The nodes of a task that does not release lie on the path from its leaf. -/
theorem Pc.Queued.above {pc : Pc N} (h : pc.Queued tree t n) (hrel : ¬pc.Releasing)
    (hpath : ∀ m, pc.node? = some m → tree.Above (tree.leaf t) m) :
    tree.Above (tree.leaf t) n := by
  obtain hown | ⟨ticket, hpc⟩ := h
  · cases pc with
    | idle => exact hown.elim
    | take m => exact hown.1
    | poll m ticket => exact hown.1
    | critical => exact hown
    | read m => exact absurd ⟨m, Or.inl rfl⟩ hrel
    | write m v => exact absurd ⟨m, Or.inr ⟨v, rfl⟩⟩ hrel
  · exact hpath n (by rw [hpc]; rfl)

/-- A task that does not release and is in the queue of a node owns the child through which
it came. -/
theorem Pc.Queued.owns_child {pc : Pc N} (h : pc.Queued tree t n) (hrel : ¬pc.Releasing)
    (hmem : m ∈ tree.nodes) (hpath : tree.Above (tree.leaf t) m) (hp : tree.parent m = some n) :
    pc.Owns tree t m := by
  have hstrict : ∀ k, tree.Above n k → tree.Above m k ∧ m ≠ k := by
    intro k hk
    refine ⟨(above_iff_of_parent hp).mpr (Or.inr hk), fun heq => ?_⟩
    exact not_above_of_parent hmem hp (heq ▸ hk)
  obtain hown | ⟨ticket, hpc⟩ := h
  · cases pc with
    | idle => exact hown.elim
    | take k => exact ⟨hpath, hstrict k hown.2.1⟩
    | poll k ticket => exact ⟨hpath, hstrict k hown.2.1⟩
    | critical => exact hpath
    | read k => exact absurd ⟨k, Or.inl rfl⟩ hrel
    | write k v => exact absurd ⟨k, Or.inr ⟨v, rfl⟩⟩ hrel
  · rw [hpc]
    exact ⟨hpath, hstrict n (above_refl n)⟩

/-- A task in a queue that does not release came from its leaf or owns a child. -/
theorem Inv.queued_from (h : Inv tree s) (ht : t ∈ tree.tasks)
    (hqueued : (s.task t).Queued tree t n) (hrel : ¬(s.task t).Releasing)
    (hleaf : tree.leaf t ≠ n) :
    ∃ c ∈ tree.nodes, tree.parent c = some n ∧ (s.task t).Owns tree t c := by
  have hpath : tree.Above (tree.leaf t) n := hqueued.above hrel (h.path t ht)
  obtain heq | ⟨c, hc, hp⟩ := Relation.ReflTransGen.cases_tail hpath
  · exact absurd heq.symm hleaf
  · have hmem := ((show tree.Above (tree.leaf t) c from hc).mem (tree.leaf_mem t ht)).1
    exact ⟨c, hmem, hp, hqueued.owns_child hrel hmem hc hp⟩

/-- A queue holds at most one task more than a node has tasks and children. -/
theorem Inv.queue_length [DecidableEq N] (h : Inv tree s) (hn : n ∈ tree.nodes) :
    (s.queue n).length ≤ (tree.arrivers n).card + 1 := by
  classical
  have hmem : ∀ u ∈ (s.queue n).toFinset, u ∈ tree.tasks ∧ (s.task u).Queued tree u n :=
    fun u hu => (h.mem_queue n hn u).mp (List.mem_toFinset.mp hu)
  -- the releasing task, a task of the leaf, or the child that the task owns
  let origin : T → Option (T ⊕ N) → Prop := fun u a =>
    match a with
    | none => (s.task u).Releasing
    | some (.inl v) => u = v
    | some (.inr c) => (s.task u).Owns tree u c
  rw [← List.toFinset_card_of_nodup (h.nodup n hn), ← Finset.card_insertNone]
  apply Finset.card_le_card_of_forall_subsingleton origin
  · intro u hu
    obtain ⟨hu, hqueued⟩ := hmem u hu
    by_cases hrel : (s.task u).Releasing
    · exact ⟨none, Finset.none_mem_insertNone, hrel⟩
    · by_cases hleaf : tree.leaf u = n
      · exact ⟨some (.inl u), Finset.some_mem_insertNone.mpr
          (inl_mem_arrivers.mpr ⟨hu, hleaf⟩), rfl⟩
      · obtain ⟨c, hc, hp, hown⟩ := h.queued_from hu hqueued hrel hleaf
        exact ⟨some (.inr c), Finset.some_mem_insertNone.mpr
          (inr_mem_arrivers.mpr ⟨hc, hp⟩), hown⟩
  · intro a _ u hu v hv
    have hut := (hmem u hu.1).1
    have hvt := (hmem v hv.1).1
    match a with
    | none =>
      exact h.owner_unique hut hvt (h.releasing_owns hut hu.2) (h.releasing_owns hvt hv.2)
    | some (.inl w) => exact hu.2.trans (Eq.symm hv.2)
    | some (.inr c) => exact h.owner_unique hut hvt hu.2 hv.2

/-! ## Steps -/

section Step

variable [DecidableEq T]

@[simp] theorem setTask_self (s : State T N) (t : T) (pc : Pc N) :
    (s.setTask t pc).task t = pc := by
  simp [State.setTask]

theorem setTask_of_ne (s : State T N) {t u : T} (pc : Pc N) (h : u ≠ t) :
    (s.setTask t pc).task u = s.task u := by
  simp [State.setTask, h]

/-- A property of the new place of one task and of the old ones of the others holds of all
tasks. -/
theorem forall_setTask {tasks : Finset T} {pc : Pc N} {P : T → Pc N → Prop} (hself : P t pc)
    (hother : ∀ u ∈ tasks, u ≠ t → P u (s.task u)) :
    ∀ u ∈ tasks, P u ((s.setTask t pc).task u) := by
  intro u hu
  by_cases hut : u = t
  · rw [hut, setTask_self]
    exact hself
  · rw [setTask_of_ne s pc hut]
    exact hother u hu hut

/-- The steps that read or only move the task. -/
theorem Inv.setTask (h : Inv tree s) {pc : Pc N}
    (howns : ∀ n, pc.Owns tree t n ↔ (s.task t).Owns tree t n)
    (hpoll : ∀ n ticket, pc ≠ .poll n ticket) (hbefore : ∀ n ticket, s.task t ≠ .poll n ticket)
    (hpath : ∀ n, pc.node? = some n → tree.Above (tree.leaf t) n)
    (hvalue : ∀ n v, pc = .write n v → v = (s.node n).current) (ht : t ∈ tree.tasks) :
    Inv tree (s.setTask t pc) where
  parent := h.parent
  lock := h.lock
  nodup := h.nodup
  mem_queue := by
    intro n hn u
    have hqueue := h.mem_queue n hn u
    by_cases hut : u = t
    · rw [hut] at hqueue ⊢
      rw [setTask_self]
      refine hqueue.trans (and_congr_right fun _ => ?_)
      exact or_congr (howns n).symm (iff_of_false (fun hp => hbefore n _ hp.choose_spec)
        fun hp => hpoll n _ hp.choose_spec)
    · rw [setTask_of_ne s pc hut]
      exact hqueue
  path := forall_setTask (P := fun u pc => ∀ n, pc.node? = some n → tree.Above (tree.leaf u) n)
    hpath fun u hu _ => h.path u hu
  waiting := forall_setTask (P := fun u pc => ∀ n ticket, pc = .poll n ticket →
      TicketWaiting (s.drawn n) (s.served n) u ticket)
    (fun n ticket hp => absurd hp (hpoll n ticket)) fun u hu _ => h.waiting u hu
  owner := forall_setTask (P := fun u pc => ∀ n, pc.Owns tree u n →
      TicketOwner (s.drawn n) (s.served n) (s.given n) u)
    (fun n hown => h.owner t ht n ((howns n).mp hown)) fun u hu _ => h.owner u hu
  value := forall_setTask (P := fun _ pc => ∀ n v, pc = .write n v → v = (s.node n).current)
    hvalue fun u hu _ => h.value u hu

variable [DecidableEq N]

omit [DecidableEq T] in
theorem draw_drawn (s : State T N) (t : T) (m n : N) :
    (s.draw t m).drawn n = if n = m then s.drawn n ++ [t] else s.drawn n := by
  by_cases h : n = m
  · rw [if_pos h, State.draw, h]
    exact Function.update_self ..
  · rw [if_neg h, State.draw]
    exact Function.update_of_ne h ..

omit [DecidableEq T] in
theorem draw_node (s : State T N) (t : T) (m n : N) :
    (s.draw t m).node n =
      if n = m then { s.node n with free := add32 (s.node n).free 1 } else s.node n := by
  by_cases h : n = m
  · rw [if_pos h, State.draw, h]
    exact Function.update_self ..
  · rw [if_neg h, State.draw]
    exact Function.update_of_ne h ..

omit [DecidableEq T] in
theorem serve_served (s : State T N) (t : T) (m n : N) :
    (s.serve t m).served n = if n = m then s.served n ++ [t] else s.served n := by
  by_cases h : n = m
  · rw [if_pos h, State.serve, h]
    exact Function.update_self ..
  · rw [if_neg h, State.serve]
    exact Function.update_of_ne h ..

omit [DecidableEq T] in
theorem give_node (s : State T N) (m n : N) (v : ℕ) :
    (s.give m v).node n = if n = m then { s.node n with current := v } else s.node n := by
  by_cases h : n = m
  · rw [if_pos h, State.give, h]
    exact Function.update_self ..
  · rw [if_neg h, State.give]
    exact Function.update_of_ne h ..

omit [DecidableEq T] in
theorem give_given (s : State T N) (m n : N) (v : ℕ) :
    (s.give m v).given n = if n = m then s.given n + 1 else s.given n := by
  by_cases h : n = m
  · rw [if_pos h, State.give, h]
    exact Function.update_self ..
  · rw [if_neg h, State.give]
    exact Function.update_of_ne h ..

/-- The increment of `free`: the task enters the queue. -/
theorem Inv.take (h : Inv tree s) (ht : t ∈ tree.tasks) (hpc : s.task t = .take m) :
    Inv tree ((s.draw t m).setTask t (.poll m (s.node m).free)) := by
  have hm := h.node_mem ht (n := m) (by rw [hpc]; rfl)
  have hlock := h.lock m hm
  have howns : ∀ n, (Pc.poll m (s.node m).free).Owns tree t n ↔ (s.task t).Owns tree t n := by
    intro n
    rw [hpc]
    exact Iff.rfl
  have hout : t ∉ s.queue m := by
    intro hmem
    obtain ⟨-, hown | ⟨ticket, hp⟩⟩ := (h.mem_queue m hm t).mp hmem
    · rw [hpc] at hown
      exact hown.2.2 rfl
    · cases hpc.symm.trans hp
  have hqueue : ∀ n ∈ tree.nodes, ((s.draw t m).setTask t (.poll m (s.node m).free)).queue n =
      if n = m then s.queue n ++ [t] else s.queue n := by
    intro n hn
    change ticketQueue ((s.draw t m).drawn n) (s.given n) = _
    rw [draw_drawn]
    split
    · exact (h.lock n hn).draw_queue t
    · rfl
  have hwaiting : ∀ n u ticket, TicketWaiting (s.drawn n) (s.served n) u ticket →
      TicketWaiting ((s.draw t m).drawn n) (s.served n) u ticket := by
    intro n u ticket hw
    rw [draw_drawn]
    split
    · exact hw.draw t
    · exact hw
  have howner : ∀ n u, TicketOwner (s.drawn n) (s.served n) (s.given n) u →
      TicketOwner ((s.draw t m).drawn n) (s.served n) (s.given n) u := by
    intro n u ho
    rw [draw_drawn]
    split
    · exact ho.draw t
    · exact ho
  refine ⟨fun n hn => ?_, fun n hn => ?_, fun n hn => ?_, fun n hn u => ?_, ?_, ?_, ?_, ?_⟩
  · change ((s.draw t m).node n).parent = _
    rw [draw_node]
    split
    · exact h.parent n hn
    · exact h.parent n hn
  · change TicketOk ((s.draw t m).node n).current ((s.draw t m).node n).free
      ((s.draw t m).drawn n) (s.served n) (s.given n)
    rw [draw_node, draw_drawn]
    split
    · exact (h.lock n hn).draw t
    · exact h.lock n hn
  · rw [hqueue n hn]
    split
    · rename_i hnm
      exact (h.nodup n hn).append (List.nodup_singleton t)
        (List.disjoint_singleton.mpr (hnm ▸ hout))
    · exact h.nodup n hn
  · rw [hqueue n hn]
    have hold := h.mem_queue n hn u
    by_cases hut : u = t
    · rw [hut] at hold ⊢
      rw [setTask_self]
      split
      · rename_i hnm
        exact iff_of_true (List.mem_append_right _ (List.mem_singleton_self t))
          ⟨ht, Or.inr ⟨_, by rw [hnm]⟩⟩
      · rename_i hnm
        rw [hold, hpc]
        refine and_congr_right fun _ => or_congr Iff.rfl (iff_of_false ?_ ?_)
        · exact fun hp => nomatch hp.choose_spec
        · intro hp
          obtain ⟨ticket, hp⟩ := hp
          exact hnm (Pc.poll.inj hp).1.symm
    · rw [setTask_of_ne _ _ hut]
      have hsingle : u ∉ [t] := fun hu => hut (List.mem_singleton.mp hu)
      split
      · rw [List.mem_append, or_iff_left hsingle]
        exact hold
      · exact hold
  · refine forall_setTask (s := s.draw t m) (P := fun u pc => ∀ n, pc.node? = some n →
      tree.Above (tree.leaf u) n) (fun n hn => ?_) fun u hu _ => h.path u hu
    exact h.path t ht n (by rw [hpc]; exact hn)
  · refine forall_setTask (s := s.draw t m) (P := fun u pc => ∀ n ticket,
      pc = .poll n ticket → TicketWaiting ((s.draw t m).drawn n) (s.served n) u ticket)
      (fun n ticket hp => ?_) fun u hu _ n ticket hp => hwaiting n u ticket
        (h.waiting u hu n ticket hp)
    obtain ⟨hn, hticket⟩ := Pc.poll.inj hp
    rw [← hn, ← hticket, draw_drawn, if_pos rfl]
    exact hlock.draw_waiting t
  · exact forall_setTask (s := s.draw t m) (P := fun u pc => ∀ n, pc.Owns tree u n →
      TicketOwner ((s.draw t m).drawn n) (s.served n) (s.given n) u)
      (fun n hown => howner n t (h.owner t ht n ((howns n).mp hown)))
      fun u hu _ n hown => howner n u (h.owner u hu n hown)
  · refine forall_setTask (s := s.draw t m) (P := fun _ pc => ∀ n v, pc = .write n v →
      v = ((s.draw t m).node n).current) (fun n v hp => nomatch hp) fun u hu _ n v hp => ?_
    have hv := h.value u hu n v hp
    rw [draw_node]
    split
    · exact hv
    · exact hv

/-- The end of the polling: the task owns the node. -/
theorem Inv.serve (h : Inv tree s) (hbound : ∀ n ∈ tree.nodes, (tree.arrivers n).card < 0x100000000)
    (ht : t ∈ tree.tasks) {ticket : ℕ} (hpc : s.task t = .poll m ticket)
    (hcurrent : (s.node m).current = ticket) :
    Inv tree ((s.serve t m).setTask t (takeNext (s.node m).parent)) := by
  have hm := h.node_mem ht (n := m) (by rw [hpc]; rfl)
  have hpath := h.path t ht m (by rw [hpc]; rfl)
  have hlock := h.lock m hm
  have hlength : (s.queue m).length ≤ 0x100000000 :=
    (h.queue_length hm).trans (hbound m hm)
  have hwait : TicketWaiting (s.drawn m) (s.served m) t (s.node m).current :=
    h.waiting t ht m _ (hcurrent ▸ hpc)
  obtain ⟨hnext, hget⟩ := hlock.served_next hlength hwait
  obtain ⟨hserved, hown⟩ := hlock.serve hlength hwait
  rw [h.parent m hm]
  have howns : ∀ n, (takeNext (tree.parent m)).Owns tree t n ↔
      (s.task t).Owns tree t n ∨ n = m := by
    intro n
    rw [hpc]
    exact owns_takeNext ht hpath
  -- the node had no owner
  have hfree : ∀ u ∈ tree.tasks, ¬(s.task u).Owns tree u m := by
    intro u hu ho
    have := (h.owner u hu m ho).1
    omega
  have howner : ∀ u ∈ tree.tasks, ∀ n, (s.task u).Owns tree u n →
      TicketOwner (s.drawn n) ((s.serve t m).served n) (s.given n) u := by
    intro u hu n ho
    rw [serve_served]
    split
    · rename_i hnm
      exact absurd (hnm ▸ ho) (hfree u hu)
    · exact h.owner u hu n ho
  refine ⟨h.parent, fun n hn => ?_, h.nodup, fun n hn u => ?_, ?_, ?_, ?_, ?_⟩
  · change TicketOk _ _ (s.drawn n) ((s.serve t m).served n) (s.given n)
    rw [serve_served]
    split
    · rename_i hnm
      rw [hnm]
      exact hserved
    · exact h.lock n hn
  · have hold := h.mem_queue n hn u
    by_cases hut : u = t
    · rw [hut] at hold ⊢
      rw [setTask_self]
      refine hold.trans (and_congr_right fun _ => ?_)
      rw [Pc.Queued, Pc.Queued, howns n]
      have hpoll : (∃ k, s.task t = .poll n k) ↔ n = m := by
        rw [hpc]
        constructor
        · intro hp
          obtain ⟨k, hp⟩ := hp
          exact (Pc.poll.inj hp).1.symm
        · intro hnm
          exact ⟨ticket, by rw [hnm]⟩
      have hnone : ¬∃ k, takeNext (tree.parent m) = Pc.poll n k := by
        intro hp
        obtain ⟨k, hp⟩ := hp
        cases hparent : tree.parent m with
        | none => simp [hparent, takeNext] at hp
        | some p => simp [hparent, takeNext] at hp
      rw [hpoll, or_iff_left hnone]
    · rw [setTask_of_ne _ _ hut]
      exact hold
  · refine forall_setTask (s := s.serve t m) (P := fun u pc => ∀ n, pc.node? = some n →
      tree.Above (tree.leaf u) n) (fun n hn => ?_) fun u hu _ => h.path u hu
    cases hp : tree.parent m with
    | none =>
      rw [hp] at hn
      cases hn
    | some p =>
      rw [hp] at hn
      cases hn
      exact hpath.parent hp
  · refine forall_setTask (s := s.serve t m) (P := fun u pc => ∀ n k, pc = .poll n k →
      TicketWaiting (s.drawn n) ((s.serve t m).served n) u k) (fun n k hp => ?_)
      fun u hu hut n k hp => ?_
    · cases hparent : tree.parent m with
      | none => simp [hparent, takeNext] at hp
      | some p => simp [hparent, takeNext] at hp
    · have hold := h.waiting u hu n k hp
      rw [serve_served]
      split
      · rename_i hnm
        rw [hnm] at hold ⊢
        exact hold.serve (hnext ▸ hget) hut
      · exact hold
  · refine forall_setTask (s := s.serve t m) (P := fun u pc => ∀ n, pc.Owns tree u n →
      TicketOwner (s.drawn n) ((s.serve t m).served n) (s.given n) u) (fun n ho => ?_)
      fun u hu _ => howner u hu
    obtain ho | hnm := (howns n).mp ho
    · exact howner t ht n ho
    · rw [hnm, serve_served, if_pos rfl]
      exact hown
  · refine forall_setTask (s := s.serve t m) (P := fun _ pc => ∀ n v, pc = .write n v →
      v = (s.node n).current) (fun n v hp => ?_) fun u hu _ => h.value u hu
    cases hparent : tree.parent m with
    | none => simp [hparent, takeNext] at hp
    | some p => simp [hparent, takeNext] at hp

/-- The write of `current`: the task gives the node back. -/
theorem Inv.give (h : Inv tree s) (ht : t ∈ tree.tasks) {value : ℕ}
    (hpc : s.task t = .write m value) :
    Inv tree ((s.give m (add32 value 1)).setTask t (giveNext (s.node m).parent)) := by
  have hm := h.node_mem ht (n := m) (by rw [hpc]; rfl)
  have hpath := h.path t ht m (by rw [hpc]; rfl)
  have hlock := h.lock m hm
  have hvalue : value = (s.node m).current := h.value t ht m value hpc
  have hown : TicketOwner (s.drawn m) (s.served m) (s.given m) t :=
    h.owner t ht m (by rw [hpc]; exact above_refl m)
  have hgive := hlock.give hown
  rw [h.parent m hm, hvalue]
  generalize add32 (s.node m).current 1 = w at hgive ⊢
  have howns : ∀ n, (giveNext (tree.parent m)).Owns tree t n ↔
      (s.task t).Owns tree t n ∧ n ≠ m := by
    intro n
    rw [hpc]
    exact owns_giveNext hm
  have hpoll : ∀ (n : N) (k : ℕ), giveNext (tree.parent m) ≠ Pc.poll n k := by
    intro n k hp
    cases hparent : tree.parent m with
    | none => simp [hparent, giveNext] at hp
    | some p => simp [hparent, giveNext] at hp
  have howner : ∀ u ∈ tree.tasks, ∀ n, n ≠ m → (s.task u).Owns tree u n →
      TicketOwner (s.drawn n) (s.served n) ((s.give m w).given n) u := by
    intro u hu n hnm ho
    rw [give_given, if_neg hnm]
    exact h.owner u hu n ho
  refine ⟨fun n hn => ?_, fun n hn => ?_, fun n hn => ?_, fun n hn u => ?_, ?_, ?_, ?_, ?_⟩
  · change ((s.give m w).node n).parent = _
    rw [give_node]
    split
    · exact h.parent n hn
    · exact h.parent n hn
  · change TicketOk ((s.give m w).node n).current ((s.give m w).node n).free (s.drawn n)
      (s.served n) ((s.give m w).given n)
    rw [give_node, give_given]
    split
    · rename_i hnm
      rw [hnm]
      exact hgive
    · exact h.lock n hn
  · change (ticketQueue (s.drawn n) ((s.give m w).given n)).Nodup
    rw [give_given]
    split
    · exact ticketQueue_nodup_succ (h.nodup n hn)
    · exact h.nodup n hn
  · change u ∈ ticketQueue (s.drawn n) ((s.give m w).given n) ↔ _
    have hold := h.mem_queue n hn u
    rw [give_given]
    by_cases hut : u = t
    · rw [hut] at hold ⊢
      have hnone : ¬∃ k, giveNext (tree.parent m) = Pc.poll n k :=
        fun hp => hpoll n _ hp.choose_spec
      rw [setTask_self, Pc.Queued, or_iff_left hnone, howns n]
      have hqueued : (s.task t).Queued tree t n ↔ (s.task t).Owns tree t n := by
        rw [hpc]
        exact or_iff_left fun hp => nomatch hp.choose_spec
      rw [hqueued] at hold
      split
      · rename_i hnm
        rw [hnm, hown.mem_give (h.nodup m hm)]
        exact iff_of_false (fun hmem => hmem.2 rfl) fun hmem => hmem.2.2 rfl
      · rename_i hnm
        rw [and_iff_left hnm]
        exact hold
    · rw [setTask_of_ne _ _ hut]
      split
      · rename_i hnm
        rw [hnm] at hold ⊢
        rw [hown.mem_give (h.nodup m hm), and_iff_left hut]
        exact hold
      · exact hold
  · refine forall_setTask (s := s.give m w) (P := fun u pc => ∀ n, pc.node? = some n →
      tree.Above (tree.leaf u) n) (fun n hn => ?_) fun u hu _ => h.path u hu
    cases hp : tree.parent m with
    | none =>
      rw [hp] at hn
      cases hn
    | some p =>
      rw [hp] at hn
      cases hn
      exact hpath.parent hp
  · exact forall_setTask (s := s.give m w) (P := fun u pc => ∀ n k, pc = .poll n k →
      TicketWaiting (s.drawn n) (s.served n) u k) (fun n k hp => absurd hp (hpoll n k))
      fun u hu _ => h.waiting u hu
  · refine forall_setTask (s := s.give m w) (P := fun u pc => ∀ n, pc.Owns tree u n →
      TicketOwner (s.drawn n) (s.served n) ((s.give m w).given n) u) (fun n ho => ?_)
      fun u hu hut n ho => ?_
    · obtain ⟨ho, hnm⟩ := (howns n).mp ho
      exact howner t ht n hnm ho
    · refine howner u hu n (fun hnm => hut ?_) ho
      exact (h.owner u hu m (hnm ▸ ho)).unique hown
  · refine forall_setTask (s := s.give m w) (P := fun _ pc => ∀ n v, pc = .write n v →
      v = ((s.give m w).node n).current) (fun n v hp => ?_)
      fun u hu hut n v hp => ?_
    · cases hparent : tree.parent m with
      | none => simp [hparent, giveNext] at hp
      | some p => simp [hparent, giveNext] at hp
    · have hnm : n ≠ m := by
        intro hnm
        have ho : (s.task u).Owns tree u m := by
          have hp' : s.task u = .write n v := hp
          rw [hp', hnm]
          exact above_refl m
        exact hut ((h.owner u hu m ho).unique hown)
      rw [give_node, if_neg hnm]
      exact h.value u hu n v hp

/-- Every step keeps the invariant. -/
theorem Inv.step (h : Inv tree s) (hbound : ∀ n ∈ tree.nodes, (tree.arrivers n).card < 0x100000000)
    (ht : t ∈ tree.tasks) : Inv tree (step tree.leaf s t) := by
  have hleaf : ∀ {pc : Pc N}, pc.node? = some (tree.leaf t) →
      ∀ n, pc.node? = some n → tree.Above (tree.leaf t) n := by
    intro pc hpc n hn
    exact Option.some.inj (hpc.symm.trans hn) ▸ above_refl _
  unfold Locks.step
  split
  · rename_i hpc
    refine h.setTask (fun n => ?_) (fun n k hp => nomatch hp) (by simp [hpc]) (hleaf rfl)
      (fun n v hp => nomatch hp) ht
    rw [hpc]
    exact iff_of_false (not_owns_take_leaf ht) id
  · rename_i hpc
    exact h.take ht hpc
  · rename_i hpc
    split
    · rename_i hcurrent
      exact h.serve hbound ht hpc hcurrent
    · exact h
  · rename_i hpc
    refine h.setTask (fun n => ?_) (fun n k hp => nomatch hp) (by simp [hpc]) (hleaf rfl)
      (fun n v hp => nomatch hp) ht
    rw [hpc]
    exact Iff.rfl
  · rename_i m hpc
    refine h.setTask (fun n => ?_) (fun n k hp => nomatch hp) (by simp [hpc])
      (fun n hn => h.path t ht n (by rw [hpc]; exact hn)) (fun n v hp => ?_) ht
    · rw [hpc]
      exact Iff.rfl
    · obtain ⟨hn, hv⟩ := Pc.write.inj hp
      rw [← hn, hv]
  · rename_i hpc
    exact h.give ht hpc

/-- The invariant holds after every schedule. -/
theorem run_inv (h : Inv tree s) (hbound : ∀ n ∈ tree.nodes, (tree.arrivers n).card < 0x100000000)
    {schedule : List T} (hschedule : ∀ t ∈ schedule, t ∈ tree.tasks) :
    Inv tree (run tree.leaf s schedule) := by
  induction schedule generalizing s with
  | nil => exact h
  | cons t rest ih =>
    exact ih (h.step hbound (hschedule t List.mem_cons_self))
      fun u hu => hschedule u (List.mem_cons_of_mem t hu)

end Step

end GietVm.Locks
