import GietVm.Boot.Placement

/-!
# When the tasks and the interrupts are placed

A boot places the tasks and the interrupts when each task is in one context of one scheduler, that of
the processor that it names, the contexts leave the other words of the schedulers as step 1 has set
them, and each HWI input of the XCUs is enabled for one processor, whose interrupt vector has its ISR
and its channel. This is so if and only if the ranges of the vspaces give every processor at most 13
tasks and none of them twice, every task is in one of the ranges and names a processor that exists,
and the last declaration of each HWI input is the one that counts.
-/

namespace GietVm.Boot.Sched

open Library

variable {c : Config} {m : Mapping} {x y : ℕ}

/-! ## Entries -/

/-- `isr_type` in `_irq_demux` -/
def isrOf (entry : ℕ) : ℕ := entry &&& 0x0000FFFF

/-- `channel` in `_irq_demux` -/
def channelOf (entry : ℕ) : ℕ := entry >>> 16 &&& 0x00007FFF

theorem hwiEntry_eq (irq : Irq) : hwiEntry irq = irq.channel % 2 ^ 16 * 2 ^ 16 + irq.isr % 2 ^ 16 := by
  have hisr : irq.isr &&& 0xFFFF = irq.isr % 2 ^ 16 := Nat.and_two_pow_sub_one_eq_mod irq.isr 16
  have hchannel : shl32 irq.channel 16 = irq.channel % 2 ^ 16 * 2 ^ 16 := by
    unfold shl32
    omega
  rw [hwiEntry, hisr, hchannel, Nat.or_comm]
  exact mul_two_pow_or_eq_add _ (Nat.mod_lt _ (by decide))

/-- An entry keeps the 16 low bits of an ISR. -/
theorem isrOf_hwiEntry (irq : Irq) : isrOf (hwiEntry irq) = irq.isr % 2 ^ 16 := by
  rw [hwiEntry_eq]
  refine (Nat.and_two_pow_sub_one_eq_mod _ 16).trans ?_
  omega

/-- An entry gives the 15 low bits of a channel. -/
theorem channelOf_hwiEntry (irq : Irq) : channelOf (hwiEntry irq) = irq.channel % 2 ^ 15 := by
  rw [hwiEntry_eq, channelOf, Nat.shiftRight_eq_div_pow]
  refine (Nat.and_two_pow_sub_one_eq_mod _ 15).trans ?_
  omega

/-! ## The property -/

/-- A processor of the platform. -/
def Config.Exists (c : Config) (m : Mapping) (x y lpid : ℕ) : Prop :=
  x < c.xSize ∧ y < c.ySize ∧ lpid < (m.cluster (x * c.ySize + y)).procs

/-- A place for a task: a processor and an index in its scheduler. -/
structure Place where
  x : ℕ
  y : ℕ
  lpid : ℕ
  ltid : ℕ
  deriving DecidableEq

/-- The place with an index on the processor that a task names. -/
def Mapping.place (m : Mapping) (id ltid : ℕ) : Place :=
  ⟨(m.cluster (m.task id).clusterid).x, (m.cluster (m.task id).clusterid).y, (m.task id).proclocid,
    ltid⟩

/-- The context of a place, among those of the tasks of a scheduler, is that of a task. -/
def Records (c : Config) (m : Mapping) (r : ℕ → ℕ → Booted) (id : ℕ) (p : Place) : Prop :=
  c.Exists m p.x p.y p.lpid ∧ p.ltid < (r p.x p.y).words (tasksWord p.lpid) ∧
    (r p.x p.y).words (contextWord p.lpid p.ltid ctxGtid) = id

/-- A HWI input is enabled for one of the local processors, whose vector has its ISR and channel. -/
def Routed (nprocs : ℕ) (b : Booted) (irq : Irq) : Prop :=
  ∃ lpid < nprocs, (∀ l < nprocs, (b.hwiMask l).testBit irq.srcid = true ↔ l = lpid) ∧
    isrOf (b.words (hwiWord lpid irq.srcid)) = irq.isr ∧
    channelOf (b.words (hwiWord lpid irq.srcid)) = irq.channel

/-- The tasks and the interrupts are placed: `w₀` are the words of the clusters before the boot, and
`r` is what the boot leaves. -/
structure Placed (c : Config) (m : Mapping) (w₀ : ℕ → ℕ → Words) (r : ℕ → ℕ → Booted) : Prop where
  tasks : ∀ id < m.nbTasks, ∃ ltid, (∀ p, Records c m r id p ↔ p = m.place id ltid) ∧
    ∀ x < c.xSize, ∀ y < c.ySize, 0 < (m.cluster (x * c.ySize + y)).procs → ∀ l,
      (r x y).ltid id = some l → l = ltid
  schedulers : ∀ x y lpid, c.Exists m x y lpid →
    (r x y).words (tasksWord lpid) = (m.turns.filter (Fit m x y lpid ·)).length ∧
    (r x y).words (tasksWord lpid) ≤ idleTaskIndex ∧
    (∀ j < (r x y).words (tasksWord lpid), (r x y).words (contextWord lpid j ctxLtid) = j ∧
      (r x y).ltid ((r x y).words (contextWord lpid j ctxGtid)) = some j) ∧
    ∀ b₀, schedulerInit1 c m x y (w₀ x y) = some b₀ → ∀ i, 832 ≤ i → i < 994 → i ≠ 896 →
      (r x y).words (2048 * lpid + i) = b₀.words (2048 * lpid + i)
  inputs : ∀ x < c.xSize, ∀ y < c.ySize, ∀ irq ∈ (m.xcus (x * c.ySize + y)).flatMap m.irqs,
    Routed (m.cluster (x * c.ySize + y)).procs (r x y) irq

/-! ## The condition -/

/-- The last declaration of an input has an ISR and a channel that fit in an entry, and the other
declarations of the input fall on the same processor. -/
def LastDeclares (nprocs : ℕ) (irqs : List Irq) (irq : Irq) : Prop :=
  ∃ (k : ℕ) (last : Irq), irqs[k]? = some last ∧ last.srcid = irq.srcid ∧
    last.isr % 2 ^ 16 = irq.isr ∧ last.channel % 2 ^ 15 = irq.channel ∧
    ∀ (k' : ℕ) (irq' : Irq), irqs[k']? = some irq' → irq'.srcid = irq.srcid →
      k' ≤ k ∧ k' % nprocs = k % nprocs

/-- The mapping is one that the boot can place. -/
structure Fits (c : Config) (m : Mapping) : Prop where
  present : ∀ id < m.nbTasks, id ∈ m.turns.map Turn.taskId ∧
    c.Exists m (m.cluster (m.task id).clusterid).x (m.cluster (m.task id).clusterid).y
      (m.task id).proclocid
  room : ∀ x y lpid, c.Exists m x y lpid → (m.turns.filter (Fit m x y lpid ·)).length ≤ 13 ∧
    ((m.turns.filter (Fit m x y lpid ·)).map Turn.taskId).Nodup
  inputs : ∀ x < c.xSize, ∀ y < c.ySize, ∀ irq ∈ (m.xcus (x * c.ySize + y)).flatMap m.irqs,
    0 < (m.cluster (x * c.ySize + y)).procs ∧ ∃ xcu, (m.xcus (x * c.ySize + y)).getLast? = some xcu ∧
      LastDeclares (m.cluster (x * c.ySize + y)).procs (m.irqs xcu) irq

/-! ## One cluster -/

section Cluster

variable {w : Words} {b : Booted}

/-- The boot of a cluster is step 1, and then the tasks of the cluster. -/
theorem bootSchedulerInit_booted (hprocs : 0 < (m.cluster (x * c.ySize + y)).procs)
    (h : bootSchedulerInit c m x y w = some b) : ∃ b₀, schedulerInit1 c m x y w = some b₀ ∧
      Initialised m (x * c.ySize + y) (m.cluster (x * c.ySize + y)).procs b₀ ∧
      b = appendAll c m b₀ (m.here x y (m.cluster (x * c.ySize + y)).procs) := by
  rw [bootSchedulerInit, Option.map_eq_some_iff] at h
  obtain ⟨b₀, hinit, hb⟩ := h
  refine ⟨b₀, hinit, schedulerInit1_initialised hprocs hinit, ?_⟩
  rw [← hb, schedulerInit2_eq]
  rfl

variable {nprocs lpid : ℕ} {b₀ : Booted} {clusterId : ℕ}

/-- The number of tasks of a scheduler is the number of those that the mapping places on it. -/
theorem appendHere_tasks (hinit : Initialised m clusterId nprocs b₀) (hlpid : lpid < nprocs) :
    (appendAll c m b₀ (m.here x y nprocs)).words (tasksWord lpid) =
      (m.turns.filter (Fit m x y lpid ·)).length := by
  rw [appendAll_tasks, hinit.tasks lpid hlpid, onProc_here hlpid, Nat.zero_add]

/-- Where the processors have at most 13 tasks, their contexts are those of their tasks. -/
theorem appendHere_appended (hinit : Initialised m clusterId nprocs b₀)
    (hroom : ∀ lpid < nprocs, (m.turns.filter (Fit m x y lpid ·)).length ≤ 13) :
    Appended m nprocs b₀ (m.here x y nprocs) (appendAll c m b₀ (m.here x y nprocs)) := by
  apply appendAll_appended hinit.tasks
  · intro t ht
    have hhere : Here m x y nprocs t := of_decide_eq_true (List.mem_filter.mp ht).2
    exact hhere.2.2
  · intro lpid hlpid
    rw [onProc_here hlpid]
    exact hroom lpid hlpid

/-- The context of an index and its task. -/
theorem appendHere_context (hinit : Initialised m clusterId nprocs b₀)
    (hroom : ∀ lpid < nprocs, (m.turns.filter (Fit m x y lpid ·)).length ≤ 13)
    (hlpid : lpid < nprocs) {j : ℕ} (hj : j < (m.turns.filter (Fit m x y lpid ·)).length) :
    ∃ t, (m.turns.filter (Fit m x y lpid ·))[j]? = some t ∧ t ∈ m.turns ∧ Fit m x y lpid t ∧
      (appendAll c m b₀ (m.here x y nprocs)).words (contextWord lpid j ctxLtid) = j ∧
      (appendAll c m b₀ (m.here x y nprocs)).words (contextWord lpid j ctxGtid) = t.taskId := by
  have hget := List.getElem?_eq_getElem hj
  generalize (m.turns.filter (Fit m x y lpid ·))[j] = t at hget
  have hmem := List.mem_filter.mp (List.mem_of_getElem? hget)
  have hget' := hget
  rw [← onProc_here hlpid] at hget'
  obtain ⟨hltid, hgtid⟩ := (appendHere_appended (c := c) hinit hroom).context lpid hlpid j t hget'
  exact ⟨t, hget, hmem.1, of_decide_eq_true hmem.2, hltid, hgtid⟩

end Cluster

/-! ## The inputs of a XCU -/

section Inputs

variable {nprocs : ℕ} {irqs : List Irq} {w w' : Words} {b : Booted}

/-- An input that is declared has a last declaration. -/
theorem exists_last {srcid : ℕ}
    (h : ∃ (k : ℕ) (irq : Irq), irqs[k]? = some irq ∧ irq.srcid = srcid) :
    ∃ (k : ℕ) (last : Irq), irqs[k]? = some last ∧ last.srcid = srcid ∧
      ∀ (k' : ℕ) (irq' : Irq), irqs[k']? = some irq' → irq'.srcid = srcid → k' ≤ k := by
  induction irqs using List.reverseRecOn with
  | nil =>
    obtain ⟨k, irq, hk, -⟩ := h
    cases hk
  | append_singleton irqs irq₁ ih =>
    have hlt : ∀ (k : ℕ) (irq : Irq), (irqs ++ [irq₁])[k]? = some irq → k ≤ irqs.length := by
      intro k irq hk
      obtain ⟨hk, -⟩ := List.getElem?_eq_some_iff.mp hk
      rw [List.length_append, List.length_singleton] at hk
      omega
    have hget : ∀ (k : ℕ) (irq : Irq), (irqs ++ [irq₁])[k]? = some irq →
        irqs[k]? = some irq ∨ (k = irqs.length ∧ irq = irq₁) := by
      intro k irq hk
      rw [List.getElem?_append] at hk
      split_ifs at hk with hlen
      · exact Or.inl hk
      · rw [List.getElem?_singleton] at hk
        split_ifs at hk with hzero
        exact Or.inr ⟨by omega, (Option.some.inj hk).symm⟩
    by_cases hlast : irq₁.srcid = srcid
    · exact ⟨irqs.length, irq₁, List.getElem?_concat_length, hlast, fun k irq hk _ => hlt k irq hk⟩
    · have hbefore : ∀ (k : ℕ) (irq : Irq), (irqs ++ [irq₁])[k]? = some irq → irq.srcid = srcid →
          irqs[k]? = some irq := by
        intro k irq hk hsrcid
        obtain hk | ⟨-, rfl⟩ := hget k irq hk
        · exact hk
        · exact absurd hsrcid hlast
      obtain ⟨k, irq, hk, hsrcid⟩ := h
      obtain ⟨k, last, hk, hsrcid, hmax⟩ := ih ⟨k, irq, hbefore k irq hk hsrcid, hsrcid⟩
      obtain ⟨hlen, -⟩ := List.getElem?_eq_some_iff.mp hk
      refine ⟨k, last, ?_, hsrcid, fun k' irq' hk' hs => hmax k' irq' (hbefore k' irq' hk' hs) hs⟩
      rw [List.getElem?_append_left hlen]
      exact hk

/-- The loop on the inputs routes an input if and only if its last declaration is the one that
counts. -/
theorem routed_iff (hprocs : 0 < nprocs)
    (hregisters : Registers nprocs 0 irqs w w' (fun _ => 0) b.hwiMask)
    (hwords : ∀ lpid < nprocs, ∀ slot ≤ 31, b.words (hwiWord lpid slot) = w' (hwiWord lpid slot))
    (irq : Irq) : Routed nprocs b irq ↔ LastDeclares nprocs irqs irq := by
  have hmod : ∀ k, k % nprocs < nprocs := fun k => Nat.mod_lt k hprocs
  have hmask : ∀ l, (b.hwiMask l).testBit irq.srcid = true ↔ ∃ (k : ℕ) (irq' : Irq),
      irqs[k]? = some irq' ∧ k % nprocs = l ∧ irq'.srcid = irq.srcid := by
    intro l
    rw [hregisters.mask, Nat.zero_testBit]
    simp only [Nat.zero_add, Bool.false_eq_true, false_or]
  -- the word of the vector is the entry of the last declaration
  have hentry : ∀ (k : ℕ) (last : Irq), irqs[k]? = some last → last.srcid = irq.srcid →
      (∀ (k' : ℕ) (irq' : Irq), irqs[k']? = some irq' → irq'.srcid = irq.srcid → k' ≤ k) →
      b.words (hwiWord (k % nprocs) irq.srcid) = hwiEntry last := by
    intro k last hk hsrcid hmax
    rw [← hsrcid, hwords _ (hmod k) _ (hregisters.srcid k last hk)]
    have hlast := hregisters.entry k last hk fun k' irq' hlt hk' _ heq => by
      have hle := hmax k' irq' hk' (heq.trans hsrcid)
      omega
    rw [Nat.zero_add] at hlast
    exact hlast
  constructor
  · rintro ⟨lpid, hlpid, hone, hisr, hchannel⟩
    have hproc : ∀ (k : ℕ) (irq' : Irq), irqs[k]? = some irq' → irq'.srcid = irq.srcid →
        k % nprocs = lpid := fun k irq' hk hsrcid =>
      (hone _ (hmod k)).mp ((hmask _).mpr ⟨k, irq', hk, rfl, hsrcid⟩)
    obtain ⟨k, irq', hk, -, hsrcid⟩ := (hmask lpid).mp ((hone lpid hlpid).mpr rfl)
    obtain ⟨k, last, hk, hsrcid, hmax⟩ := exists_last ⟨k, irq', hk, hsrcid⟩
    have hword := hentry k last hk hsrcid hmax
    rw [hproc k last hk hsrcid] at hword
    rw [hword, isrOf_hwiEntry] at hisr
    rw [hword, channelOf_hwiEntry] at hchannel
    refine ⟨k, last, hk, hsrcid, hisr, hchannel, fun k' irq' hk' hs => ⟨hmax k' irq' hk' hs, ?_⟩⟩
    rw [hproc k' irq' hk' hs, hproc k last hk hsrcid]
  · rintro ⟨k, last, hk, hsrcid, hisr, hchannel, hmax⟩
    have hword := hentry k last hk hsrcid fun k' irq' hk' hs => (hmax k' irq' hk' hs).1
    refine ⟨k % nprocs, hmod k, fun l _ => ?_, ?_, ?_⟩
    · rw [hmask]
      constructor
      · rintro ⟨k', irq', hk', rfl, hs⟩
        exact (hmax k' irq' hk' hs).2
      · intro hl
        exact ⟨k, last, hk, hl.symm, hsrcid⟩
    · rw [hword, isrOf_hwiEntry]
      exact hisr
    · rw [hword, channelOf_hwiEntry]
      exact hchannel

end Inputs

/-! ## All the clusters -/

section Clusters

variable {w₀ : ℕ → ℕ → Words} {r : ℕ → ℕ → Booted}

/-- The boot of a cluster that has the processor of a task. -/
theorem exists_booted (hboot : ∀ x < c.xSize, ∀ y < c.ySize,
      0 < (m.cluster (x * c.ySize + y)).procs → bootSchedulerInit c m x y (w₀ x y) = some (r x y))
    {lpid : ℕ} (h : c.Exists m x y lpid) : ∃ b₀, schedulerInit1 c m x y (w₀ x y) = some b₀ ∧
      Initialised m (x * c.ySize + y) (m.cluster (x * c.ySize + y)).procs b₀ ∧
      r x y = appendAll c m b₀ (m.here x y (m.cluster (x * c.ySize + y)).procs) := by
  obtain ⟨hx, hy, hlpid⟩ := h
  have hprocs : 0 < (m.cluster (x * c.ySize + y)).procs := by omega
  exact bootSchedulerInit_booted hprocs (hboot x hx y hy hprocs)

/-- Where the processors of a cluster have at most 13 tasks, an input of its XCUs is routed if and
only if its last declaration in the last XCU is the one that counts. -/
theorem booted_routed_iff (hx : x < c.xSize) (hy : y < c.ySize)
    (hprocs : 0 < (m.cluster (x * c.ySize + y)).procs)
    (hboot : bootSchedulerInit c m x y (w₀ x y) = some (r x y))
    (hroom : ∀ lpid, c.Exists m x y lpid → (m.turns.filter (Fit m x y lpid ·)).length ≤ 13)
    (irq : Irq) : Routed (m.cluster (x * c.ySize + y)).procs (r x y) irq ↔
      ∃ xcu, (m.xcus (x * c.ySize + y)).getLast? = some xcu ∧
        LastDeclares (m.cluster (x * c.ySize + y)).procs (m.irqs xcu) irq := by
  obtain ⟨b₀, -, hinit, hr⟩ := bootSchedulerInit_booted hprocs hboot
  obtain ⟨xcu, w, w', hxcu, hregisters, hwords⟩ := hinit.inputs
  have happended := appendHere_appended (c := c) hinit fun lpid hlpid => hroom lpid ⟨hx, hy, hlpid⟩
  rw [← hr] at happended
  have hmask : (r x y).hwiMask = b₀.hwiMask := by
    rw [hr]
    exact appendAll_mask _
  rw [← hmask] at hregisters
  have hiff := routed_iff (b := r x y) hprocs hregisters (fun lpid hlpid slot hslot => ?_) irq
  · rw [hiff]
    constructor
    · exact fun h => ⟨xcu, hxcu, h⟩
    · rintro ⟨xcu', hxcu', h⟩
      rw [hxcu] at hxcu'
      rw [Option.some.inj hxcu']
      exact h
  · rw [← hwords lpid hlpid slot hslot]
    have hrest := happended.rest lpid hlpid (898 + slot) (by omega) (by omega) (by omega)
    rw [← Nat.add_assoc] at hrest
    exact hrest

/-- The number of tasks of a scheduler. -/
theorem booted_tasks (hboot : ∀ x < c.xSize, ∀ y < c.ySize,
      0 < (m.cluster (x * c.ySize + y)).procs → bootSchedulerInit c m x y (w₀ x y) = some (r x y))
    {lpid : ℕ} (hexists : c.Exists m x y lpid) :
    (r x y).words (tasksWord lpid) = (m.turns.filter (Fit m x y lpid ·)).length := by
  obtain ⟨b₀, -, hinit, hr⟩ := exists_booted hboot hexists
  rw [hr, appendHere_tasks hinit hexists.2.2]

/-- The contexts of a scheduler, where the processors have at most 13 tasks. -/
theorem booted_context (hboot : ∀ x < c.xSize, ∀ y < c.ySize,
      0 < (m.cluster (x * c.ySize + y)).procs → bootSchedulerInit c m x y (w₀ x y) = some (r x y))
    (hroom : ∀ x y lpid, c.Exists m x y lpid → (m.turns.filter (Fit m x y lpid ·)).length ≤ 13)
    {lpid : ℕ} (hexists : c.Exists m x y lpid) {j : ℕ}
    (hj : j < (r x y).words (tasksWord lpid)) :
    ∃ t, (m.turns.filter (Fit m x y lpid ·))[j]? = some t ∧ t ∈ m.turns ∧ Fit m x y lpid t ∧
      (r x y).words (contextWord lpid j ctxLtid) = j ∧
      (r x y).words (contextWord lpid j ctxGtid) = t.taskId := by
  obtain ⟨b₀, -, hinit, hr⟩ := exists_booted hboot hexists
  obtain ⟨hx, hy, hlpid⟩ := hexists
  rw [hr, appendHere_tasks hinit hlpid] at hj
  have hcontext := appendHere_context (c := c) hinit (fun l hl => hroom x y l ⟨hx, hy, hl⟩) hlpid hj
  rw [← hr] at hcontext
  exact hcontext

/-- The mapping has the index of the context of a task that is on one of the processors. -/
theorem Fits.ltid (hfits : Fits c m) (hboot : ∀ x < c.xSize, ∀ y < c.ySize,
      0 < (m.cluster (x * c.ySize + y)).procs → bootSchedulerInit c m x y (w₀ x y) = some (r x y))
    {lpid : ℕ} (hexists : c.Exists m x y lpid) {j : ℕ} {t : Turn}
    (hget : (m.turns.filter (Fit m x y lpid ·))[j]? = some t) :
    (r x y).ltid t.taskId = some j := by
  obtain ⟨b₀, -, hinit, hr⟩ := exists_booted hboot hexists
  obtain ⟨hx, hy, hlpid⟩ := hexists
  have happended := appendHere_appended (c := c) hinit
    fun l hl => (hfits.room x y l ⟨hx, hy, hl⟩).1
  rw [← hr] at happended
  apply happended.ltid _ lpid hlpid
  · rw [onProc_here hlpid]
    exact hget
  · intro l hl
    rw [onProc_here hl]
    exact (hfits.room x y l ⟨hx, hy, hl⟩).2

/-- A task is in one context of one scheduler, and no other cluster gives it an index. -/
theorem Fits.task_placed (hfits : Fits c m) (hboot : ∀ x < c.xSize, ∀ y < c.ySize,
      0 < (m.cluster (x * c.ySize + y)).procs → bootSchedulerInit c m x y (w₀ x y) = some (r x y))
    {id : ℕ} (hid : id < m.nbTasks) : ∃ ltid, (∀ p, Records c m r id p ↔ p = m.place id ltid) ∧
      ∀ x < c.xSize, ∀ y < c.ySize, 0 < (m.cluster (x * c.ySize + y)).procs → ∀ l,
        (r x y).ltid id = some l → l = ltid := by
  have hroom := fun x y lpid hexists => (hfits.room x y lpid hexists).1
  obtain ⟨hmem, hexists⟩ := hfits.present id hid
  obtain ⟨t, ht, rfl⟩ := List.mem_map.mp hmem
  have hfit : t ∈ m.turns.filter (Fit m (m.cluster (m.task t.taskId).clusterid).x
      (m.cluster (m.task t.taskId).clusterid).y (m.task t.taskId).proclocid ·) :=
    List.mem_filter.mpr ⟨ht, decide_eq_true ⟨rfl, rfl, rfl⟩⟩
  obtain ⟨ltid, hget⟩ := List.mem_iff_getElem?.mp hfit
  have hone := hfits.ltid hboot hexists hget
  refine ⟨ltid, fun p => ?_, fun x hx y hy hprocs l hl => ?_⟩
  · constructor
    · rintro ⟨hp, hj, hgtid⟩
      obtain ⟨t', hget', -, hfit', -, hgtid'⟩ := booted_context hboot hroom hp hj
      have heq : t'.taskId = t.taskId := hgtid'.symm.trans hgtid
      have hone' := hfits.ltid hboot hp hget'
      obtain ⟨px, py, plpid, pltid⟩ := p
      obtain ⟨hx, hy, hlpid⟩ := hfit'
      rw [heq] at hx hy hlpid hone'
      change px = _ at hx
      change py = _ at hy
      change _ = plpid at hlpid
      subst hx
      subst hy
      subst hlpid
      change (r _ _).ltid t.taskId = some pltid at hone'
      rw [hone] at hone'
      rw [← Option.some.inj hone']
      rfl
    · rintro rfl
      have hj := (List.getElem?_eq_some_iff.mp hget).1
      rw [← booted_tasks hboot hexists] at hj
      obtain ⟨t', hget', -, -, -, hgtid⟩ := booted_context hboot hroom hexists hj
      rw [hget] at hget'
      rw [← Option.some.inj hget'] at hgtid
      exact ⟨hexists, hj, hgtid⟩
  · obtain ⟨b₀, -, hinit, hr⟩ := bootSchedulerInit_booted hprocs (hboot x hx y hy hprocs)
    by_cases hhere : t.taskId ∈ (m.here x y (m.cluster (x * c.ySize + y)).procs).map Turn.taskId
    · obtain ⟨t', ht', heq⟩ := List.mem_map.mp hhere
      have hhere' : Here m x y _ t' := of_decide_eq_true (List.mem_filter.mp ht').2
      obtain ⟨hx', hy', -⟩ := hhere'
      rw [heq] at hx' hy'
      rw [hx', hy', hone] at hl
      exact (Option.some.inj hl).symm
    · rw [hr, appendAll_ltid_none hinit.ltid hhere] at hl
      cases hl

/-- A mapping that fits is placed. -/
theorem Fits.placed (hfits : Fits c m) (hboot : ∀ x < c.xSize, ∀ y < c.ySize,
      0 < (m.cluster (x * c.ySize + y)).procs → bootSchedulerInit c m x y (w₀ x y) = some (r x y)) :
    Placed c m w₀ r := by
  have hroom := fun x y lpid hexists => (hfits.room x y lpid hexists).1
  refine ⟨fun id hid => hfits.task_placed hboot hid, fun x y lpid hexists =>
    ⟨booted_tasks hboot hexists, ?_, fun j hj => ?_, fun b₀ hb₀ i hlow hhigh hne => ?_⟩,
    fun x hx y hy irq hirq => ?_⟩
  · rw [booted_tasks hboot hexists]
    exact hroom x y lpid hexists
  · obtain ⟨t, hget, -, -, hctx, hgtid⟩ := booted_context hboot hroom hexists hj
    refine ⟨hctx, ?_⟩
    rw [hgtid]
    exact hfits.ltid hboot hexists hget
  · obtain ⟨b₁, hb₁, hinit, hr⟩ := exists_booted hboot hexists
    rw [hb₁] at hb₀
    rw [← Option.some.inj hb₀, hr]
    have happended := appendHere_appended (c := c) hinit
      fun l hl => hroom x y l ⟨hexists.1, hexists.2.1, hl⟩
    exact happended.rest lpid hexists.2.2 i hlow hhigh hne
  · obtain ⟨hprocs, hlast⟩ := hfits.inputs x hx y hy irq hirq
    rw [booted_routed_iff hx hy hprocs (hboot x hx y hy hprocs) (hroom x y)]
    exact hlast

/-- A mapping that is placed fits. -/
theorem Placed.fits (hplaced : Placed c m w₀ r) (hboot : ∀ x < c.xSize, ∀ y < c.ySize,
      0 < (m.cluster (x * c.ySize + y)).procs → bootSchedulerInit c m x y (w₀ x y) = some (r x y)) :
    Fits c m := by
  have hroom : ∀ x y lpid, c.Exists m x y lpid →
      (m.turns.filter (Fit m x y lpid ·)).length ≤ 13 := by
    intro x y lpid hexists
    obtain ⟨htasks, hle, -, -⟩ := hplaced.schedulers x y lpid hexists
    rw [htasks] at hle
    exact hle
  refine ⟨fun id hid => ?_, fun x y lpid hexists => ⟨hroom x y lpid hexists, ?_⟩,
    fun x hx y hy irq hirq => ?_⟩
  · obtain ⟨ltid, hrecords, -⟩ := hplaced.tasks id hid
    obtain ⟨hexists, hj, hgtid⟩ := (hrecords _).mpr rfl
    obtain ⟨t, -, hmem, -, -, hgtid'⟩ := booted_context hboot hroom hexists hj
    have hid : t.taskId = id := hgtid'.symm.trans hgtid
    refine ⟨?_, hexists⟩
    rw [← hid]
    exact List.mem_map_of_mem hmem
  · -- two indices with one task have one `ltid`
    obtain ⟨htasks, -, hltid, -⟩ := hplaced.schedulers x y lpid hexists
    rw [List.nodup_iff_getElem?_ne_getElem?]
    intro i j hij hj heq
    rw [List.length_map, ← htasks] at hj
    have hi : i < (r x y).words (tasksWord lpid) := by omega
    obtain ⟨t, hget, -, -, -, hgtid⟩ := booted_context hboot hroom hexists hi
    obtain ⟨t', hget', -, -, -, hgtid'⟩ := booted_context hboot hroom hexists hj
    rw [List.getElem?_map, List.getElem?_map, hget, hget'] at heq
    have hid : t.taskId = t'.taskId := Option.some.inj heq
    have hone := (hltid i hi).2
    have htwo := (hltid j hj).2
    rw [hgtid, hid] at hone
    rw [hgtid', hone] at htwo
    have hsame := Option.some.inj htwo
    omega
  · have hrouted := hplaced.inputs x hx y hy irq hirq
    have hprocs : 0 < (m.cluster (x * c.ySize + y)).procs := by
      obtain ⟨lpid, hlpid, -⟩ := hrouted
      omega
    rw [booted_routed_iff hx hy hprocs (hboot x hx y hy hprocs) (hroom x y)] at hrouted
    exact ⟨hprocs, hrouted⟩

/-- When the boot ends in the clusters with processors, the tasks and the interrupts are placed if
and only if the mapping fits. -/
theorem bootSchedulerInit_placed_iff (hboot : ∀ x < c.xSize, ∀ y < c.ySize,
      0 < (m.cluster (x * c.ySize + y)).procs → bootSchedulerInit c m x y (w₀ x y) = some (r x y)) :
    Placed c m w₀ r ↔ Fits c m :=
  ⟨fun h => h.fits hboot, fun h => h.placed hboot⟩

end Clusters

/-- A platform with one processor. -/
def oneProc : Config :=
  { xSize := 1, ySize := 1, nbProcsMax := 1, irqPerProcessor := 1, srInitValue := 0x2000FF13,
    isrTick := 1, isrWakup := 6, ptabPaddr := fun _ _ _ => 0x200000,
    ptabVaddr := fun _ _ _ => 0x80200000 }

/-- A mapping with one vspace, whose tasks are all on the one processor, and one HWI input. -/
def oneProcMapping (tasks : ℕ) : Mapping :=
  { irqPerProc := 1, nbTasks := tasks, nbVsegs := 2, cluster := fun _ => ⟨0, 0, 1, 1, 0⟩,
    vspace := [⟨1, tasks, 0, 1⟩],
    vseg := fun id => if id = 0 then ⟨0x80100000, 0x2000, 0, 5⟩ else ⟨0x10000000, 0x10000, 0, 1⟩,
    psegCluster := fun _ => 0, task := fun id => ⟨0, 0, id, 1, 0⟩,
    periph := fun _ => ⟨12, 16, 16, 16, 16, 1, 0⟩, irq := fun _ => ⟨0, 10, 2, 3⟩ }

/-- The boot of this platform. -/
def oneProcBooted (tasks : ℕ) : Booted :=
  (bootSchedulerInit oneProc (oneProcMapping tasks) 0 0 fun _ => 0).getD ⟨fun _ => 0, fun _ => 0,
    fun _ => none⟩

theorem oneProcBooted_eq {tasks x y : ℕ} (hx : x < 1) (hy : y < 1)
    (hend : (bootSchedulerInit oneProc (oneProcMapping tasks) 0 0 fun _ => 0).isSome = true) :
    bootSchedulerInit oneProc (oneProcMapping tasks) x y (fun _ => 0) =
      some (oneProcBooted tasks) := by
  obtain rfl : x = 0 := by omega
  obtain rfl : y = 0 := by omega
  obtain ⟨b, hb⟩ := Option.isSome_iff_exists.mp hend
  rw [oneProcBooted, hb]
  rfl

/-- One task on the one processor. -/
theorem bootSchedulerInit_placed_iff_one :
    (∀ x < oneProc.xSize, ∀ y < oneProc.ySize,
      0 < ((oneProcMapping 1).cluster (x * oneProc.ySize + y)).procs →
        bootSchedulerInit oneProc (oneProcMapping 1) x y (fun _ => 0) = some (oneProcBooted 1)) ∧
    (Placed oneProc (oneProcMapping 1) (fun _ _ _ => 0) (fun _ _ => oneProcBooted 1) ↔
      Fits oneProc (oneProcMapping 1)) :=
  ⟨fun _ hx _ hy _ => oneProcBooted_eq hx hy (by decide +kernel),
    bootSchedulerInit_placed_iff fun _ hx _ hy _ => oneProcBooted_eq hx hy (by decide +kernel)⟩

/-- With 14 tasks on one processor the boot ends, and the context of the last one is on the one of
the idle task. -/
theorem bootSchedulerInit_not_placed :
    (∀ x < oneProc.xSize, ∀ y < oneProc.ySize,
      bootSchedulerInit oneProc (oneProcMapping 14) x y (fun _ => 0) = some (oneProcBooted 14)) ∧
    ¬ Placed oneProc (oneProcMapping 14) (fun _ _ _ => 0) (fun _ _ => oneProcBooted 14) := by
  have hboot := fun x (hx : x < 1) y (hy : y < 1) =>
    @oneProcBooted_eq 14 x y hx hy (by decide +kernel)
  refine ⟨hboot, fun hplaced => ?_⟩
  have hfits := hplaced.fits fun x hx y hy _ => hboot x hx y hy
  have hexists : oneProc.Exists (oneProcMapping 14) 0 0 0 := ⟨by decide, by decide, by decide⟩
  have hroom := (hfits.room 0 0 0 hexists).1
  revert hroom
  decide

end GietVm.Boot.Sched
