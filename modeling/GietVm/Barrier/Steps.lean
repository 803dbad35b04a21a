import GietVm.Barrier.Invariant

/-!
# The steps of the SQT barrier

Each step keeps the invariant, with new epochs and arrivals where a node completes a round
or a task arrives. Only the decrement needs that no other task is between the two writes
that reset the node.
-/

set_option linter.unusedSectionVars false

namespace GietVm.Barrier

open GietVm.Library CombiningTree

variable {T N : Type*} [DecidableEq T] [DecidableEq N] {s : State T N} {t u : T} {n m : N}
  {k : Task N} {v : ℕ}

/-! ## Reading the updated state -/

@[simp] theorem setTask_node : (s.setTask t k).node = s.node := rfl

@[simp] theorem setTask_self : (s.setTask t k).task t = k := by simp [State.setTask]

theorem setTask_of_ne (h : u ≠ t) : (s.setTask t k).task u = s.task u := by
  simp [State.setTask, h]

@[simp] theorem setCount_task : (s.setCount n v).task = s.task := rfl

@[simp] theorem setSense_task : (s.setSense n v).task = s.task := rfl

@[simp] theorem setCount_parent : ((s.setCount n v).node m).parent = (s.node m).parent := by
  rcases eq_or_ne m n with rfl | h <;> simp [State.setCount, *]

@[simp] theorem setCount_arity : ((s.setCount n v).node m).arity = (s.node m).arity := by
  rcases eq_or_ne m n with rfl | h <;> simp [State.setCount, *]

@[simp] theorem setCount_sense : ((s.setCount n v).node m).sense = (s.node m).sense := by
  rcases eq_or_ne m n with rfl | h <;> simp [State.setCount, *]

@[simp] theorem setCount_count_self : ((s.setCount n v).node n).count = v := by
  simp [State.setCount]

theorem setCount_count_of_ne (h : m ≠ n) :
    ((s.setCount n v).node m).count = (s.node m).count := by
  simp [State.setCount, h]

@[simp] theorem setSense_parent : ((s.setSense n v).node m).parent = (s.node m).parent := by
  rcases eq_or_ne m n with rfl | h <;> simp [State.setSense, *]

@[simp] theorem setSense_arity : ((s.setSense n v).node m).arity = (s.node m).arity := by
  rcases eq_or_ne m n with rfl | h <;> simp [State.setSense, *]

@[simp] theorem setSense_count : ((s.setSense n v).node m).count = (s.node m).count := by
  rcases eq_or_ne m n with rfl | h <;> simp [State.setSense, *]

@[simp] theorem setSense_sense_self : ((s.setSense n v).node n).sense = v := by
  simp [State.setSense]

theorem setSense_sense_of_ne (h : m ≠ n) :
    ((s.setSense n v).node m).sense = (s.node m).sense := by
  simp [State.setSense, h]

/-! ## Consequences of the invariant -/

namespace Inv

variable {tree : CombiningTree T N} {epoch : N → ℕ} {arrivals : T ⊕ N → ℕ}

/-- An arriver belongs to at most one task. -/
theorem owns_unique (h : Inv tree epoch arrivals s) {a : T ⊕ N} (ht : t ∈ tree.tasks)
    (hu : u ∈ tree.tasks) (hta : Owns t (s.task t) a) (hua : Owns u (s.task u) a) : u = t := by
  rcases hta with rfl | ⟨n, rfl, hn⟩
  · rcases hua with hua | ⟨n, hua, -⟩
    · exact (Sum.inl.inj hua).symm
    · cases hua
  · rcases hua with hua | ⟨m, hua, hm⟩
    · cases hua
    · cases hua
      exact (h.holder t ht n hn).2 u hu hm

/-- Where some arriver is missing, no task holds the node. -/
theorem not_holds (h : Inv tree epoch arrivals s) {a : T ⊕ N} (ha : a ∈ tree.arrivers n)
    (hmiss : arrivals a = epoch n) (hu : u ∈ tree.tasks) : ¬ (s.task u).Holds n := by
  intro hhold
  have := (h.holder u hu n hhold).1 a ha
  omega

/-- The rounds of the nodes of the outer calls of an inner node that is full. -/
theorem epoch_eq_of_full (h : Inv tree epoch arrivals s)
    (hne : ∀ n ∈ tree.nodes, (tree.arrivers n).Nonempty) (hm : m ∈ tree.nodes)
    (hp : tree.parent m = some n) (hfull : Full tree epoch arrivals m)
    (harr : arrivals (.inr m) = epoch n + 1) : epoch m = epoch n := by
  obtain ⟨a, ha⟩ := hne m hm
  have hpass := h.progress.pass m hm a ha
  have hle := h.progress.epoch_parent m hm n hp
  have := hfull a ha
  omega

/-- A task whose innermost call returns goes on with the reset of the outer node, whose
parent has completed the round, or leaves the barrier. -/
theorem taskOk_return (h : Inv tree epoch arrivals s)
    (hne : ∀ n ∈ tree.nodes, (tree.arrivers n).Nonempty) (ht : t ∈ tree.tasks)
    (hn : (s.task t).pc.node? = some n) (harr : (s.task t).pc.arrived = true)
    (hdone : arrivals (arriver t (s.task t).stack) = epoch n) :
    TaskOk tree epoch arrivals t (s.task t).return := by
  have hk := h.task t ht
  have hpath := hk.path n hn
  have hidle : (s.task t).pc ≠ .idle := fun hidle => by simp [hidle, Pc.arrived] at harr
  have hstarted := hk.started
  have hcalls := hk.calls hidle
  have hentering : (s.task t).entering = 0 := by
    cases hpc : (s.task t).pc <;> simp [Task.entering, hpc, Pc.arrived] at harr ⊢
  rcases hstack : (s.task t).stack with - | ⟨⟨m, e⟩, rest⟩
  · rw [hstack] at hpath hdone
    cases hpath
    simp only [Task.return, hstack]
    refine ⟨fun _ => ⟨rfl, by simpa using hcalls.symm, hdone⟩, fun hne => absurd rfl hne,
      by simp [Pc.node?], trivial, by simp, by simp, ?_⟩
    rw [hstarted, hentering]
    rfl
  · have hmem : (m, e) ∈ (s.task t).stack := by simp [hstack]
    have hhold : (s.task t).Holds m := Or.inl ⟨e, hmem⟩
    have hfull := (h.holder t ht m hhold).1
    have hpassed := hk.passed m e rest hstack
    rw [hstack] at hpath hdone
    rw [harr] at hpassed
    cases hpath with
    | parent hpath hp =>
      have hmn := (hpath.mem_nodes ht).1
      simp only [Task.return, hstack]
      refine ⟨by simp, fun _ => hcalls, ?_, ⟨hk.expected m e hmem, hpassed, fun p hpar => ?_⟩,
        fun m' e' hm' => hk.expected m' e' (by simp [hstack, hm']), fun m' e' rest' hrest => ?_, ?_⟩
      · rintro _ ⟨⟩
        exact hpath
      · cases hp.symm.trans hpar
        exact hdone.symm.trans hpassed
      · -- the next outer node has passed on the round in which its parent is full
        change rest = _ at hrest
        subst hrest
        cases hpath with
        | parent hpath' hp' =>
          have hm'n := (hpath'.mem_nodes ht).1
          have hhold' : (s.task t).Holds m' := Or.inl ⟨e', by simp [hstack]⟩
          have harr' := hfull (.inr m') (inr_mem_arrivers.mpr ⟨hm'n, hp'⟩)
          have heq := h.epoch_eq_of_full hne hm'n hp' (h.holder t ht m' hhold').1 harr'
          simp [Pc.arrived, harr', heq]
      · change (s.task t).started = _
        rw [hstarted, hentering]
        cases rest <;> rfl

/-- Tasks that hold what they held before hold it in the updated state. -/
theorem holds_setTask (hholds : ∀ n, k.Holds n ↔ (s.task t).Holds n) (u : T) (n : N) :
    ((s.setTask t k).task u).Holds n ↔ (s.task u).Holds n := by
  rcases eq_or_ne u t with rfl | hu
  · rw [setTask_self]
    exact hholds n
  · rw [setTask_of_ne hu]

/-- A step that only moves its task on, outside the reset of a count. -/
theorem setTask (h : Inv tree epoch arrivals s) (hk : TaskOk tree epoch arrivals t k)
    (hholds : ∀ n, k.Holds n ↔ (s.task t).Holds n) (hpc : ∀ n, k.pc ≠ .writeCount n)
    (hpc' : ∀ n, (s.task t).pc ≠ .writeCount n) : Inv tree epoch arrivals (s.setTask t k) := by
  have hwrite : ∀ u n, ((s.setTask t k).task u).pc = .writeCount n ↔
      (s.task u).pc = .writeCount n := by
    intro u n
    rcases eq_or_ne u t with rfl | hu
    · simp [hpc, hpc']
    · rw [setTask_of_ne hu]
  refine { h with task := fun u hu => ?_, reset := ?_, count := ?_, holder := ?_, full := ?_, free := ?_ }
  · rcases eq_or_ne u t with rfl | hut
    · simpa using hk
    · rw [setTask_of_ne hut]
      exact h.task u hu
  · simp only [hwrite]
    exact h.reset
  · simp only [ne_eq, hwrite]
    exact h.count
  · simp only [holds_setTask hholds]
    exact h.holder
  · simp only [holds_setTask hholds]
    exact h.full
  · simp only [holds_setTask hholds]
    exact h.free

/-! ## Steps without a write -/

theorem start (h : Inv tree epoch arrivals s) (ht : t ∈ tree.tasks)
    (hpc : (s.task t).pc = .idle) : Inv tree epoch arrivals (step tree.leaf s t) := by
  have hk := h.task t ht
  obtain ⟨hstack, hret, harr⟩ := hk.idle hpc
  have hstarted := hk.started
  simp only [step, hpc]
  refine h.setTask ⟨by simp, fun _ => ?_, ?_, ?_, hk.expected, ?_, ?_⟩ (fun n => ?_) (by simp)
    (by simp [hpc])
  · change (s.task t).started + 1 = _
    rw [hret]
  · rintro _ ⟨⟩
    change Path tree t (s.task t).stack _
    rw [hstack]
    exact .leaf
  · change PcOk tree epoch arrivals (arriver t (s.task t).stack) _
    rw [hstack]
    exact harr
  · simp [hstack]
  · rw [hstarted]
    simp [Task.entering, hstack, hpc]
  · simp [Task.Holds, hpc]

theorem readSense (h : Inv tree epoch arrivals s) (ht : t ∈ tree.tasks)
    (hpc : (s.task t).pc = .readSense n) : Inv tree epoch arrivals (step tree.leaf s t) := by
  have hk := h.task t ht
  have hn := hk.node_mem ht (n := n) (by simp [hpc, Pc.node?])
  have hexp : (if (s.node n).sense = 0 then 1 else 0) = (epoch n + 1) % 2 := by
    rw [h.sense n hn]
    split <;> omega
  simp only [step, hpc]
  have hok := hk.pc
  have hstarted := hk.started
  have hcalls := hk.calls (by simp [hpc])
  have hpassed := hk.passed
  simp only [hpc, PcOk] at hok
  simp only [hpc] at hpassed
  refine h.setTask ⟨by simp, fun _ => hcalls, ?_, ⟨hok, hexp⟩, hk.expected, hpassed, ?_⟩
    (fun m => ?_) (by simp) (by simp [hpc])
  · rintro _ ⟨⟩
    exact hk.path n (by simp [hpc, Pc.node?])
  · rw [hstarted]
    cases hstack : (s.task t).stack <;> simp [Task.entering, hstack, hpc]
  · simp [Task.Holds, hpc]

theorem poll (h : Inv tree epoch arrivals s)
    (hne : ∀ n ∈ tree.nodes, (tree.arrivers n).Nonempty) (ht : t ∈ tree.tasks) {e : ℕ}
    (hpc : (s.task t).pc = .poll n e) : Inv tree epoch arrivals (step tree.leaf s t) := by
  have hk := h.task t ht
  have hnode : (s.task t).pc.node? = some n := by simp [hpc, Pc.node?]
  simp only [step, hpc]
  split
  · rename_i hsense
    have hok := hk.pc
    simp only [hpc, PcOk] at hok
    rw [h.sense n (hk.node_mem ht hnode)] at hsense
    have hdone : arrivals (arriver t (s.task t).stack) = epoch n := by
      rcases hok with ⟨-, he⟩ | ⟨harr, -⟩
      · omega
      · exact harr
    refine h.setTask (h.taskOk_return hne ht hnode (by simp [hpc, Pc.arrived]) hdone)
      (fun m => holds_return (by simp [hpc])) (fun m => ?_) (by simp [hpc])
    cases hstack : (s.task t).stack <;> simp [Task.return, hstack]
  · exact h

/-! ## The two writes of a reset -/

/-- The reset of a sense flag completes the round of the node. -/
theorem progress_epoch (h : Inv tree epoch arrivals s) (hfull : Full tree epoch arrivals n)
    (hparent : ∀ p, tree.parent n = some p → epoch p = epoch n + 1) :
    Progress tree (Function.update epoch n (epoch n + 1)) arrivals where
  epoch_le m hm a ha := by
    rcases eq_or_ne m n with rfl | hmn
    · rw [Function.update_self, hfull a ha]
    · rw [Function.update_of_ne hmn]
      exact h.progress.epoch_le m hm a ha
  le_epoch m hm a ha := by
    have hle := h.progress.le_epoch m hm a ha
    rcases eq_or_ne m n with rfl | hmn
    · rw [Function.update_self]
      omega
    · rwa [Function.update_of_ne hmn]
  pass := h.progress.pass
  epoch_parent m hm p hp := by
    have hle := h.progress.epoch_parent m hm p hp
    have hmp : m ≠ p := by
      rintro rfl
      exact absurd (tree.level_lt hm hp) (lt_irrefl _)
    rcases eq_or_ne m n with rfl | hmn
    · rw [Function.update_self, Function.update_of_ne hmp.symm, hparent p hp]
    · rw [Function.update_of_ne hmn]
      rcases eq_or_ne p n with rfl | hpn
      · rw [Function.update_self]
        omega
      · rwa [Function.update_of_ne hpn]

/-- For the other tasks the completed round is the one they poll for. -/
theorem taskOk_epoch (h : Inv tree epoch arrivals s) (ht : t ∈ tree.tasks)
    (hu : u ∈ tree.tasks) (hut : u ≠ t) (hn : n ∈ tree.nodes) (hhold : (s.task t).Holds n) :
    TaskOk tree (Function.update epoch n (epoch n + 1)) arrivals u (s.task u) := by
  have hk := h.task u hu
  obtain ⟨hfull, huniq⟩ := h.holder t ht n hhold
  have hnot : ¬ (s.task u).Holds n := fun hold => hut (huniq u hu hold)
  have harriver : ∀ m, (s.task u).pc.node? = some m →
      arriver u (s.task u).stack ∈ tree.arrivers m := fun m hm => (hk.path m hm).arriver_mem hu
  refine ⟨fun hpc => ?_, hk.calls, hk.path, ?_, fun m e hm => ?_, fun m e rest hrest => ?_,
    hk.started⟩
  · obtain ⟨hstack, hret, harr⟩ := hk.idle hpc
    refine ⟨hstack, hret, ?_⟩
    have hleaf : tree.leaf u ≠ n := by
      rintro rfl
      have := hfull (.inl u) (inl_mem_arrivers.mpr ⟨hu, rfl⟩)
      omega
    rwa [Function.update_of_ne hleaf]
  · have hok := hk.pc
    cases hpc : (s.task u).pc with
    | idle => trivial
    | readSense m | decrement m e | writeCount m =>
      have hmem := harriver m (by simp [hpc, Pc.node?])
      have hmn : m ≠ n := by
        rintro rfl
        have hmiss := hfull _ hmem
        simp only [hpc, PcOk] at hok
        omega
      simpa only [hpc, PcOk, Function.update_of_ne hmn] using hok
    | poll m e =>
      have hmem := harriver m (by simp [hpc, Pc.node?])
      simp only [hpc, PcOk] at hok ⊢
      rcases eq_or_ne m n with rfl | hmn
      · have hmiss := hfull _ hmem
        rw [Function.update_self]
        omega
      · rwa [Function.update_of_ne hmn]
    | writeSense m e =>
      have hmn : m ≠ n := by
        rintro rfl
        exact hnot (Or.inr ⟨e, hpc⟩)
      simp only [hpc, PcOk] at hok ⊢
      rw [Function.update_of_ne hmn]
      refine ⟨hok.1, hok.2.1, fun p hp => ?_⟩
      have hpn : p ≠ n := by
        rintro rfl
        have hm := hk.node_mem hu (n := m) (by simp [hpc, Pc.node?])
        have := hfull (.inr m) (inr_mem_arrivers.mpr ⟨hm, hp⟩)
        have := hok.2.2 p hp
        omega
      rw [Function.update_of_ne hpn]
      exact hok.2.2 p hp
  · have hmn : m ≠ n := by
      rintro rfl
      exact hnot (Or.inl ⟨e, hm⟩)
    rw [Function.update_of_ne hmn]
    exact hk.expected m e hm
  · have hmn : m ≠ n := by
      rintro rfl
      exact hnot (Or.inl ⟨e, by simp [hrest]⟩)
    rw [Function.update_of_ne hmn]
    exact hk.passed m e rest hrest

theorem writeSense (h : Inv tree epoch arrivals s)
    (hne : ∀ n ∈ tree.nodes, (tree.arrivers n).Nonempty) (ht : t ∈ tree.tasks) {e : ℕ}
    (hpc : (s.task t).pc = .writeSense n e) :
    Inv tree (Function.update epoch n (epoch n + 1)) arrivals (step tree.leaf s t) := by
  have hk := h.task t ht
  have hnode : (s.task t).pc.node? = some n := by simp [hpc, Pc.node?]
  have hn := hk.node_mem ht hnode
  have hpath := hk.path n hnode
  have hhold : (s.task t).Holds n := Or.inr ⟨e, hpc⟩
  obtain ⟨hfull, huniq⟩ := h.holder t ht n hhold
  obtain ⟨a₀, ha₀⟩ := hne n hn
  have hfull₀ := hfull a₀ ha₀
  have hok := hk.pc
  simp only [hpc, PcOk] at hok
  obtain ⟨hexp, harrn, hparent⟩ := hok
  have houter : ∀ f ∈ (s.task t).stack, f.1 ≠ n := by
    intro f hf hfn
    have := hpath.level_lt ht f hf
    rw [hfn] at this
    exact lt_irrefl _ this
  -- nobody else is between the two writes of the reset of this node
  have hnobody : ∀ u ∈ tree.tasks, (s.task u).pc ≠ .writeCount n := by
    intro u hu hwc
    have := (h.reset u hu n hwc).2.1 a₀ ha₀
    omega
  have hcount : (s.node n).count = 0 := by
    rw [h.count n hn hnobody, Finset.card_eq_zero, Finset.filter_eq_empty_iff]
    intro a ha heq
    have := hfull a ha
    omega
  simp only [step, hpc]
  set k : Task N := { s.task t with pc := .writeCount n } with hkdef
  have hholds : ∀ u m, m ≠ n →
      ((((s.setSense n e).setTask t k).task u).Holds m ↔ (s.task u).Holds m) := by
    intro u m hm
    rcases eq_or_ne u t with rfl | hut
    · simp [Task.Holds, hkdef, hpc, hm.symm]
    · rw [setTask_of_ne hut]
      rfl
  have hfree : ∀ u ∈ tree.tasks, ¬ (((s.setSense n e).setTask t k).task u).Holds n := by
    intro u hu
    rcases eq_or_ne u t with rfl | hut
    · simp only [setTask_self, Task.Holds, hkdef, reduceCtorEq, exists_false, or_false, not_exists]
      exact fun e' he' => houter (n, e') he' rfl
    · rw [setTask_of_ne hut]
      exact fun hold => hut (huniq u hu hold)
  refine ⟨h.progress_epoch hfull hparent, fun u hu => ?_, fun m hm => ?_, fun m hm => ?_,
    fun m hm => ?_, fun u hu m hwc => ?_, fun m hm hwc => ?_, fun u hu m hold => ?_,
    fun m hm hfullm => ?_, fun m hm hno => ?_⟩
  · rcases eq_or_ne u t with rfl | hut
    · rw [setTask_self]
      refine ⟨by simp [hkdef], fun _ => hk.calls (by simp [hpc]), ?_, ?_, fun m e' hm => ?_,
        fun m e' rest hrest => ?_, ?_⟩
      · rintro _ ⟨⟩
        exact hpath
      · change arrivals (arriver u (s.task u).stack) = _
        rw [hfull _ (hpath.arriver_mem ht), Function.update_self]
      · rw [Function.update_of_ne (houter _ hm)]
        exact hk.expected m e' hm
      · rw [Function.update_of_ne (houter (m, e') (by simpa [hkdef] using hrest ▸ List.mem_cons_self))]
        have := hk.passed m e' rest hrest
        rwa [hpc] at this
      · have := hk.started
        cases hstack : (s.task u).stack <;> simp [hkdef, Task.entering, hstack, hpc] at this ⊢ <;>
          exact this
    · rw [setTask_of_ne hut]
      exact h.taskOk_epoch ht hu hut hn hhold
  · simpa using h.parent m hm
  · simpa using h.arity m hm
  · rw [setTask_node]
    rcases eq_or_ne m n with rfl | hmn
    · rw [setSense_sense_self, Function.update_self, hexp]
    · rw [setSense_sense_of_ne hmn, Function.update_of_ne hmn]
      exact h.sense m hm
  · rw [setTask_node, setSense_count]
    rcases eq_or_ne m n with rfl | hmn
    · refine ⟨hcount, fun a ha => ?_, fun v hv hvc => ?_⟩
      · rw [Function.update_self]
        exact hfull a ha
      · rcases eq_or_ne v t with rfl | hvt
        · rcases eq_or_ne u v with rfl | huv
          · rfl
          · rw [setTask_of_ne huv] at hwc
            exact absurd hwc (hnobody u hu)
        · rw [setTask_of_ne hvt] at hvc
          exact absurd hvc (hnobody v hv)
    · have hold : ∀ v, (((s.setSense n e).setTask t k).task v).pc = .writeCount m →
          (s.task v).pc = .writeCount m := by
        intro v hv
        rcases eq_or_ne v t with rfl | hvt
        · simp [hkdef, hmn.symm] at hv
        · rwa [setTask_of_ne hvt] at hv
      obtain ⟨hzero, harr, huniq'⟩ := h.reset u hu m (hold u hwc)
      refine ⟨hzero, fun a ha => ?_, fun v hv hvc => huniq' v hv (hold v hvc)⟩
      rw [Function.update_of_ne hmn]
      exact harr a ha
  · have hmn : m ≠ n := by
      rintro rfl
      exact hwc t ht (by simp [hkdef])
    rw [setTask_node, setSense_count, Function.update_of_ne hmn]
    refine h.count m hm fun u hu hum => ?_
    rcases eq_or_ne u t with rfl | hut
    · simp [hpc] at hum
    · exact hwc u hu (by rw [setTask_of_ne hut]; exact hum)
  · have hmn : m ≠ n := by
      rintro rfl
      exact hfree u hu hold
    rw [hholds u m hmn] at hold
    obtain ⟨hfullm, huniqm⟩ := h.holder u hu m hold
    refine ⟨fun a ha => ?_, fun v hv hvold => huniqm v hv ((hholds v m hmn).mp hvold)⟩
    rw [Function.update_of_ne hmn]
    exact hfullm a ha
  · have hmn : m ≠ n := by
      rintro rfl
      have := hfullm a₀ ha₀
      rw [Function.update_self] at this
      omega
    obtain ⟨u, hu, hold⟩ := h.full m hm fun a ha => by
      have := hfullm a ha
      rwa [Function.update_of_ne hmn] at this
    exact ⟨u, hu, (hholds u m hmn).mpr hold⟩
  · rcases eq_or_ne m n with rfl | hmn
    · rw [Function.update_self]
      exact harrn
    · rw [Function.update_of_ne hmn]
      exact h.free m hm fun u hu hold => hno u hu ((hholds u m hmn).mpr hold)

theorem writeCount (h : Inv tree epoch arrivals s)
    (hne : ∀ n ∈ tree.nodes, (tree.arrivers n).Nonempty) (ht : t ∈ tree.tasks)
    (hpc : (s.task t).pc = .writeCount n) : Inv tree epoch arrivals (step tree.leaf s t) := by
  have hk := h.task t ht
  have hnode : (s.task t).pc.node? = some n := by simp [hpc, Pc.node?]
  have hn := hk.node_mem ht hnode
  obtain ⟨-, harr, huniq⟩ := h.reset t ht n hpc
  have hdone := harr _ ((hk.path n hnode).arriver_mem ht)
  have hret := h.taskOk_return hne ht hnode (by simp [hpc, Pc.arrived]) hdone
  have hretpc : ∀ m, (s.task t).return.pc ≠ .writeCount m := by
    intro m
    cases hstack : (s.task t).stack <;> simp [Task.return, hstack]
  simp only [step, hpc]
  have hholds : ∀ u m, ((((s.setCount n (s.node n).arity).setTask t (s.task t).return).task u).Holds m
      ↔ (s.task u).Holds m) := fun u m =>
    holds_setTask (s := s.setCount n (s.node n).arity)
      (fun m => holds_return (k := s.task t) (by simp [hpc])) u m
  have hwrite : ∀ u m, m ≠ n → ((((s.setCount n (s.node n).arity).setTask t
      (s.task t).return).task u).pc = .writeCount m ↔ (s.task u).pc = .writeCount m) := by
    intro u m hmn
    rcases eq_or_ne u t with rfl | hut
    · simp [hretpc, hpc, hmn.symm]
    · rw [setTask_of_ne hut]
      rfl
  have hnobody : ∀ u ∈ tree.tasks, (((s.setCount n (s.node n).arity).setTask t
      (s.task t).return).task u).pc ≠ .writeCount n := by
    intro u hu hwc
    rcases eq_or_ne u t with rfl | hut
    · exact hretpc n (by simpa using hwc)
    · rw [setTask_of_ne hut] at hwc
      exact hut (huniq u hu hwc)
  refine ⟨h.progress, fun u hu => ?_, fun m hm => ?_, fun m hm => ?_, fun m hm => ?_,
    fun u hu m hwc => ?_, fun m hm hwc => ?_, ?_, ?_, ?_⟩
  · rcases eq_or_ne u t with rfl | hut
    · simpa using hret
    · rw [setTask_of_ne hut]
      exact h.task u hu
  · simpa using h.parent m hm
  · simpa using h.arity m hm
  · simpa using h.sense m hm
  · have hmn : m ≠ n := by
      rintro rfl
      exact hnobody u hu hwc
    obtain ⟨hzero, harrm, huniqm⟩ := h.reset u hu m ((hwrite u m hmn).mp hwc)
    rw [setTask_node, setCount_count_of_ne hmn]
    exact ⟨hzero, harrm, fun v hv hvc => huniqm v hv ((hwrite v m hmn).mp hvc)⟩
  · rw [setTask_node]
    rcases eq_or_ne m n with rfl | hmn
    · rw [setCount_count_self, h.arity m hm, Finset.filter_true_of_mem harr]
    · rw [setCount_count_of_ne hmn]
      exact h.count m hm fun u hu hum => hwc u hu ((hwrite u m hmn).mpr hum)
  · simp only [hholds]
    exact h.holder
  · simp only [hholds]
    exact h.full
  · simp only [hholds]
    exact h.free

/-! ## The decrement -/

/-- An arrival counts for the node of the innermost call. -/
theorem progress_arrive (h : Inv tree epoch arrivals s) (ht : t ∈ tree.tasks)
    (hn : (s.task t).pc.node? = some n) (harrived : (s.task t).pc.arrived = false)
    (hmiss : arrivals (arriver t (s.task t).stack) = epoch n) :
    Progress tree epoch
      (Function.update arrivals (arriver t (s.task t).stack) (epoch n + 1)) := by
  have hk := h.task t ht
  have hpath := hk.path n hn
  have hmem := hpath.arriver_mem ht
  set a := arriver t (s.task t).stack with ha
  have hgrow : ∀ b, arrivals b ≤ Function.update arrivals a (epoch n + 1) b := by
    intro b
    rcases eq_or_ne b a with rfl | hb
    · rw [Function.update_self]
      omega
    · rw [Function.update_of_ne hb]
  refine ⟨fun m hm b hb => (h.progress.epoch_le m hm b hb).trans (hgrow b), fun m hm b hb => ?_,
    fun m hm b hb => ?_, h.progress.epoch_parent⟩
  · rcases eq_or_ne b a with rfl | hba
    · rw [arrivers_unique hb hmem, Function.update_self]
    · rw [Function.update_of_ne hba]
      exact h.progress.le_epoch m hm b hb
  · rcases eq_or_ne (Sum.inr m) a with hma | hma
    · -- the node arrives when all its own arrivers have
      rw [hma, Function.update_self]
      rcases hstack : (s.task t).stack with - | ⟨⟨m', e⟩, rest⟩
      · rw [hstack, arriver] at ha
        cases hma.trans ha
      · rw [hstack, arriver] at ha
        cases hma.trans ha
        have hpassed := hk.passed m e rest hstack
        rw [harrived] at hpassed
        have hfull := (h.holder t ht m (Or.inl ⟨e, by simp [hstack]⟩)).1 b hb
        have := hgrow b
        rw [← hma] at hmiss
        simp only [Bool.false_eq_true, if_false] at hpassed
        omega
    · rw [Function.update_of_ne hma]
      exact (h.progress.pass m hm b hb).trans (hgrow b)

/-- The arrivers that are still missing before an arrival, and after it. -/
theorem filter_arrive {arrivals' : T ⊕ N → ℕ} {a : T ⊕ N} (hself : arrivals' a = epoch n + 1)
    (hother : ∀ b ∈ tree.arrivers n, b ≠ a → arrivals' b = arrivals b) :
    ((tree.arrivers n).filter fun b => arrivals' b = epoch n) =
      ((tree.arrivers n).filter fun b => arrivals b = epoch n).erase a := by
  ext b
  rcases eq_or_ne b a with rfl | hba
  · simp [hself]
  · simp only [Finset.mem_filter, Finset.mem_erase, ne_eq, hba, not_false_eq_true, true_and]
    refine and_congr_right fun hb => ?_
    rw [hother b hb hba]

/-- The last arrival makes the node full. -/
theorem full_arrive {arrivals' : T ⊕ N → ℕ} (hprogress : Progress tree epoch arrivals')
    (hn : n ∈ tree.nodes)
    (hcard : ((tree.arrivers n).filter fun b => arrivals' b = epoch n).card = 0) :
    Full tree epoch arrivals' n := by
  intro b hb
  have hne : arrivals' b ≠ epoch n := Finset.filter_eq_empty_iff.mp (Finset.card_eq_zero.mp hcard) hb
  have := hprogress.epoch_le n hn b hb
  have := hprogress.le_epoch n hn b hb
  omega

/-- The root of a full tree passes its round on by itself. -/
theorem progress_root (h : Progress tree epoch arrivals) (hp : tree.parent n = none)
    (hfull : Full tree epoch arrivals n) :
    Progress tree epoch (Function.update arrivals (.inr n) (epoch n + 1)) := by
  have hoff : ∀ m, ∀ b ∈ tree.arrivers m,
      Function.update arrivals (.inr n) (epoch n + 1) b = arrivals b := by
    intro m b hb
    refine Function.update_of_ne ?_ _ _
    rintro rfl
    rw [inr_mem_arrivers, hp] at hb
    cases hb.2
  refine ⟨fun m hm b hb => ?_, fun m hm b hb => ?_, fun m hm b hb => ?_, h.epoch_parent⟩
  · rw [hoff m b hb]
    exact h.epoch_le m hm b hb
  · rw [hoff m b hb]
    exact h.le_epoch m hm b hb
  · rw [hoff m b hb]
    rcases eq_or_ne m n with rfl | hmn
    · rw [Function.update_self, hfull b hb]
    · rw [Function.update_of_ne fun he => hmn (Sum.inr.inj he)]
      exact h.pass m hm b hb

/-- An arrival at a node that is not being reset. The task holds the node afterwards if it
read the count 1, and then the node is full. -/
theorem arrive (h : Inv tree epoch arrivals s) (ht : t ∈ tree.tasks)
    (hnode : (s.task t).pc.node? = some n)
    (hmiss : arrivals (arriver t (s.task t).stack) = epoch n)
    (hapart : ∀ u ∈ tree.tasks, (s.task u).pc ≠ .writeCount n) {arrivals' : T ⊕ N → ℕ}
    (hprogress : Progress tree epoch arrivals')
    (hself : arrivals' (arriver t (s.task t).stack) = epoch n + 1)
    (hother : ∀ b, b ≠ arriver t (s.task t).stack → (b = .inr n → tree.parent n ≠ none) →
      arrivals' b = arrivals b)
    (hk : TaskOk tree epoch arrivals' t k) (hpc : ∀ m, k.pc ≠ .writeCount m)
    (hpc' : ∀ m, (s.task t).pc ≠ .writeCount m)
    (hholds : ∀ m, m ≠ n → (k.Holds m ↔ (s.task t).Holds m))
    (hlast : k.Holds n ↔ (s.node n).count = 1)
    (hkeep : (s.node n).count ≠ 1 → arrivals' (.inr n) = arrivals (.inr n)) :
    Inv tree epoch arrivals' ((s.setCount n ((s.node n).count - 1)).setTask t k) := by
  have hpath := (h.task t ht).path n hnode
  have hn := (hpath.mem_nodes ht).1
  have hmem := hpath.arriver_mem ht
  have howns := owns_arriver t (s.task t)
  set a := arriver t (s.task t).stack with ha
  have hnobody : ∀ u ∈ tree.tasks, ¬ (s.task u).Holds n := fun u hu => h.not_holds hmem hmiss hu
  have hcount := h.count n hn hapart
  have hsame : ∀ m, ∀ b ∈ tree.arrivers m, b ≠ a → arrivals' b = arrivals b := by
    intro m b hb hba
    refine hother b hba ?_
    rintro rfl
    rw [(inr_mem_arrivers.mp hb).2]
    simp
  have hapartm : ∀ m, m ≠ n → ∀ b ∈ tree.arrivers m, arrivals' b = arrivals b := by
    intro m hmn b hb
    refine hsame m b hb ?_
    rintro rfl
    exact hmn (arrivers_unique hb hmem)
  have hfilter := filter_arrive hself (hsame n)
  have hcard : ((tree.arrivers n).filter fun b => arrivals' b = epoch n).card =
      (s.node n).count - 1 := by
    rw [hfilter, Finset.card_erase_of_mem (Finset.mem_filter.mpr ⟨hmem, hmiss⟩), hcount]
  have hpos : 0 < (s.node n).count := by
    rw [hcount]
    exact Finset.card_pos.mpr ⟨a, Finset.mem_filter.mpr ⟨hmem, hmiss⟩⟩
  have hwrite : ∀ u m, (((s.setCount n ((s.node n).count - 1)).setTask t k).task u).pc =
      .writeCount m ↔ (s.task u).pc = .writeCount m := by
    intro u m
    rcases eq_or_ne u t with rfl | hut
    · simp [hpc, hpc']
    · rw [setTask_of_ne hut]
      rfl
  have holds : ∀ u m, m ≠ n → ((((s.setCount n ((s.node n).count - 1)).setTask t k).task u).Holds m
      ↔ (s.task u).Holds m) := by
    intro u m hmn
    rcases eq_or_ne u t with rfl | hut
    · rw [setTask_self]
      exact hholds m hmn
    · rw [setTask_of_ne hut]
      rfl
  have honly : ∀ u ∈ tree.tasks,
      (((s.setCount n ((s.node n).count - 1)).setTask t k).task u).Holds n → u = t := by
    intro u hu hold
    by_contra hut
    rw [setTask_of_ne hut] at hold
    exact hnobody u hu hold
  refine ⟨hprogress, fun u hu => ?_, fun m hm => ?_, fun m hm => ?_, fun m hm => ?_,
    fun u hu m hwc => ?_, fun m hm hwc => ?_, fun u hu m hold => ?_, fun m hm hfullm => ?_,
    fun m hm hno => ?_⟩
  · rcases eq_or_ne u t with rfl | hut
    · simpa using hk
    · rw [setTask_of_ne hut]
      refine (h.task u hu).congr fun b hb => hother b ?_ ?_
      · rintro rfl
        exact hut (h.owns_unique ht hu howns hb)
      · rintro rfl
        rcases hb with hb | ⟨m, hb, hold⟩
        · cases hb
        · cases hb
          exact absurd hold (hnobody u hu)
  · simpa using h.parent m hm
  · simpa using h.arity m hm
  · simpa using h.sense m hm
  · rw [hwrite] at hwc
    have hmn : m ≠ n := by
      rintro rfl
      exact hapart u hu hwc
    obtain ⟨hzero, harrm, huniqm⟩ := h.reset u hu m hwc
    rw [setTask_node, setCount_count_of_ne hmn]
    exact ⟨hzero, fun b hb => (hapartm m hmn b hb).trans (harrm b hb),
      fun v hv hvc => huniqm v hv ((hwrite v m).mp hvc)⟩
  · rw [setTask_node]
    rcases eq_or_ne m n with rfl | hmn
    · rw [setCount_count_self, hcard]
    · rw [setCount_count_of_ne hmn, h.count m hm fun u hu => by simpa only [ne_eq, hwrite] using hwc u hu]
      congr 1
      exact Finset.filter_congr fun b hb => by rw [hapartm m hmn b hb]
  · rcases eq_or_ne m n with rfl | hmn
    · obtain rfl := honly u hu hold
      rw [setTask_self] at hold
      have hone := hlast.mp hold
      exact ⟨full_arrive hprogress hn (by omega), honly⟩
    · obtain ⟨hfullm, huniqm⟩ := h.holder u hu m ((holds u m hmn).mp hold)
      exact ⟨fun b hb => (hapartm m hmn b hb).trans (hfullm b hb),
        fun v hv hvold => huniqm v hv ((holds v m hmn).mp hvold)⟩
  · rcases eq_or_ne m n with rfl | hmn
    · refine ⟨t, ht, ?_⟩
      rw [setTask_self, hlast]
      have hempty : ((tree.arrivers m).filter fun b => arrivals' b = epoch m) = ∅ := by
        refine Finset.filter_eq_empty_iff.mpr fun b hb heq => ?_
        have := hfullm b hb
        omega
      rw [hempty, Finset.card_empty] at hcard
      omega
    · obtain ⟨u, hu, hold⟩ := h.full m hm fun b hb => (hapartm m hmn b hb).symm.trans (hfullm b hb)
      exact ⟨u, hu, (holds u m hmn).mpr hold⟩
  · rcases eq_or_ne m n with rfl | hmn
    · have hne : (s.node m).count ≠ 1 := fun hone => hno t ht (by simpa using hlast.mpr hone)
      rw [hkeep hne]
      exact h.free m hm hnobody
    · have hold : ∀ u ∈ tree.tasks, ¬ (s.task u).Holds m := fun u hu hold =>
        hno u hu ((holds u m hmn).mpr hold)
      rw [hother (.inr m) ?_ fun hmn' => absurd (Sum.inr.inj hmn') hmn]
      · exact h.free m hm hold
      · rintro hma
        rcases howns with hown | ⟨m', hown, hm'⟩
        · cases hma.trans hown
        · cases hma.trans hown
          exact hold t ht hm'

/-- The decrement of a node that is not being reset. -/
theorem decrement (h : Inv tree epoch arrivals s)
    (hbound : ∀ n ∈ tree.nodes, (tree.arrivers n).card < 0x100000000) (ht : t ∈ tree.tasks) {e : ℕ}
    (hpc : (s.task t).pc = .decrement n e) (hapart : StepApart tree.tasks s t) :
    ∃ arrivals', Inv tree epoch arrivals' (step tree.leaf s t) := by
  have hk := h.task t ht
  have hnode : (s.task t).pc.node? = some n := by simp [hpc, Pc.node?]
  have harrived : (s.task t).pc.arrived = false := by simp [hpc, Pc.arrived]
  have hpath := hk.path n hnode
  have hn := (hpath.mem_nodes ht).1
  have hmem := hpath.arriver_mem ht
  have hok := hk.pc
  simp only [hpc, PcOk] at hok
  obtain ⟨hmiss, hexp⟩ := hok
  have hnobody := hapart n e hpc
  have hcount := h.count n hn hnobody
  have hcalls := hk.calls (by simp [hpc])
  have hstarted := hk.started
  have hfree := h.free n hn fun u hu => h.not_holds hmem hmiss hu
  have hprogress := h.progress_arrive ht hnode harrived hmiss
  have hwrap : ((s.node n).count + 0x100000000 - 1) % 0x100000000 = (s.node n).count - 1 := by
    have hpos : 0 < (s.node n).count := by
      rw [hcount]
      exact Finset.card_pos.mpr ⟨_, Finset.mem_filter.mpr ⟨hmem, hmiss⟩⟩
    have hle : (s.node n).count < 0x100000000 := by
      rw [hcount]
      exact (Finset.card_filter_le _ _).trans_lt (hbound n hn)
    omega
  have houter : ∀ f ∈ (s.task t).stack, f.1 ≠ n := by
    intro f hf hfn
    have := hpath.level_lt ht f hf
    rw [hfn] at this
    exact lt_irrefl _ this
  have hnotholds : ¬ (s.task t).Holds n := h.not_holds hmem hmiss ht
  have hne : Sum.inr n ≠ arriver t (s.task t).stack := by
    rintro hna
    rcases owns_arriver t (s.task t) with hown | ⟨m, hown, hm⟩
    · cases hna.trans hown
    · cases hna.trans hown
      exact hnotholds hm
  set a := arriver t (s.task t).stack with ha
  set arrivals₁ := Function.update arrivals a (epoch n + 1) with harr₁
  have hself : arrivals₁ a = epoch n + 1 := Function.update_self _ _ _
  have hoff : ∀ b, b ≠ a → arrivals₁ b = arrivals b := fun b hb => Function.update_of_ne hb _ _
  -- the arrival of the task itself, or of the node it comes from
  have hstarted₁ : (s.task t).started = arrivals₁ (.inl t) := by
    rw [hstarted]
    rcases hstack : (s.task t).stack with - | ⟨⟨m, e'⟩, rest⟩
    · rw [hstack, arriver] at ha
      rw [← ha, hself, ← hmiss, ha]
      simp [Task.entering, hstack, hpc]
    · rw [hstack, arriver] at ha
      rw [hoff (.inl t) (by simp [ha])]
      simp [Task.entering, hstack]
  have hpassed₁ : ∀ m e' rest, (s.task t).stack = (m, e') :: rest →
      arrivals₁ (.inr m) = epoch m + 1 := by
    intro m e' rest hstack
    have hpassed := hk.passed m e' rest hstack
    rw [harrived] at hpassed
    rw [hstack, arriver] at ha
    rw [← ha, hself, ← hmiss, ha]
    simpa using hpassed
  have hparent := h.parent n hn
  simp only [step, hpc, hwrap]
  by_cases hone : (s.node n).count = 1
  · rw [if_pos hone, hparent]
    cases hp : tree.parent n with
    | some p =>
      refine ⟨arrivals₁, h.arrive ht hnode hmiss hnobody hprogress hself (fun b hb _ => hoff b hb)
        ⟨by simp, fun _ => hcalls, ?_, ?_, fun m e' hm => ?_, fun m e' rest hrest => ?_, ?_⟩
        (by simp) (by simp [hpc]) (fun m hm => ?_) ?_ (fun hc => absurd hone hc)⟩
      · rintro _ ⟨⟩
        exact .parent hpath hp
      · -- the parent has not completed the round of the node
        change arrivals₁ (.inr n) = epoch p
        rw [hoff _ hne, hfree]
        have hle := h.progress.epoch_parent n hn p hp
        have hge := h.progress.epoch_le p (tree.parent_mem hn hp) (.inr n)
          (inr_mem_arrivers.mpr ⟨hn, hp⟩)
        omega
      · rcases List.mem_cons.mp hm with heq | hm
        · cases heq
          exact hexp
        · exact hk.expected m e' hm
      · cases hrest
        rw [hoff _ hne, hfree]
        simp [Pc.arrived]
      · rw [hstarted₁]
        rfl
      · simp only [Task.Holds, List.mem_cons, Prod.mk.injEq, hm, false_and, false_or, hpc]
        simp
      · simp only [hone, iff_true]
        exact Or.inl ⟨e, by simp⟩
    | none =>
      -- the root passes its round on by itself
      have hfull : Full tree epoch arrivals₁ n := by
        refine full_arrive hprogress hn ?_
        rw [filter_arrive hself fun b _ hb => hoff b hb,
          Finset.card_erase_of_mem (Finset.mem_filter.mpr ⟨hmem, hmiss⟩), ← hcount, hone]
      set arrivals₂ := Function.update arrivals₁ (.inr n) (epoch n + 1) with harr₂
      have hoff₂ : ∀ b, b ≠ .inr n → arrivals₂ b = arrivals₁ b := fun b hb =>
        Function.update_of_ne hb _ _
      refine ⟨arrivals₂, h.arrive ht hnode hmiss hnobody (progress_root hprogress hp hfull)
        ((hoff₂ a hne.symm).trans hself) (fun b hb hbn => ?_)
        ⟨by simp, fun _ => hcalls, ?_, ⟨hexp, Function.update_self _ _ _, by simp [hp]⟩,
          hk.expected, fun m e' rest hrest => ?_, ?_⟩
        (by simp) (by simp [hpc]) (fun m hm => ?_) ?_ (fun hc => absurd hone hc)⟩
      · rw [hoff₂ b fun hbe => absurd hp (hbn hbe), hoff b hb]
      · rintro _ ⟨⟩
        exact hpath
      · have hmn : m ≠ n := houter (m, e') (by simp [show (s.task t).stack = _ from hrest])
        rw [hoff₂ _ fun he => hmn (Sum.inr.inj he)]
        simpa [Pc.arrived] using hpassed₁ m e' rest hrest
      · rw [hoff₂ _ (by simp)]
        change (s.task t).started = _
        rw [hstarted₁]
        cases (s.task t).stack <;> simp [Task.entering]
      · simp [Task.Holds, hpc, hm.symm]
      · simp only [hone, iff_true]
        exact Or.inr ⟨e, rfl⟩
  · rw [if_neg hone]
    refine ⟨arrivals₁, h.arrive ht hnode hmiss hnobody hprogress hself (fun b hb _ => hoff b hb)
      ⟨by simp, fun _ => hcalls, ?_, Or.inl ⟨hself, hexp⟩, hk.expected, fun m e' rest hrest => ?_, ?_⟩
      (by simp) (by simp [hpc]) (fun m hm => ?_) ?_ (fun _ => hoff _ hne)⟩
    · rintro _ ⟨⟩
      exact hpath
    · simpa [Pc.arrived] using hpassed₁ m e' rest hrest
    · change (s.task t).started = _
      rw [hstarted₁]
      cases (s.task t).stack <;> simp [Task.entering]
    · simp [Task.Holds, hpc]
    · simp only [hone, iff_false]
      rintro (⟨e', he'⟩ | ⟨e', he'⟩)
      · exact houter (n, e') he' rfl
      · cases he'

end Inv

end GietVm.Barrier
