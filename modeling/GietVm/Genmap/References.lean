import GietVm.Genmap.Declared

/-!
# The cross-references of the binary mapping

An offset and a count in the binary mapping cover an interval of global indexes, and an identifier
is one global index. `References` says that they mean what the script declared: an interval covers
exactly the objects declared in a cluster, a vspace or a peripheral, and an identifier designates
an object of the name that the call gave, in the cluster or in the vspace that the call gave.

The serialiser looks names up in the cluster at the place `x * y_size + y`, and writes zero for a
task that names no heap, while the kernel takes `0xFFFFFFFF` for no heap. So the references are
right exactly when all coordinates are in the mesh and every task names a heap.
-/

namespace GietVm.Genmap

open GietVm.Library

/-! ## What references should mean -/

/-- The interval of indexes covers exactly the objects of the list that satisfy the property. -/
def Covers {α : Type} (offset count : Word) (l : List α) (p : α → Prop) : Prop :=
  ∀ k, offset.toNat ≤ k ∧ k < offset.toNat + count.toNat ↔ ∃ o, l[k]? = some o ∧ p o

/-- The index is that of an object of the list that satisfies the property. -/
def Designates {α : Type} (id : Word) (l : List α) (p : α → Prop) : Prop :=
  ∃ o, l[id.toNat]? = some o ∧ p o

/-- The coordinates are those of the cluster at a place. -/
def MappingArgs.At (a : MappingArgs) (i : ℕ) (x y : ℤ) : Prop :=
  x = ((i / a.ySize : ℕ) : ℤ) ∧ y = ((i % a.ySize : ℕ) : ℤ)

/-- The word is the place of the cluster of the coordinates. -/
def MappingArgs.IsCluster (a : MappingArgs) (id : Word) (x y : ℤ) : Prop :=
  id.toNat < a.xSize * a.ySize ∧ a.At id.toNat x y

/-- The coordinates are those of a cluster. -/
def MappingArgs.InMesh (a : MappingArgs) (x y : ℤ) : Prop :=
  0 ≤ x ∧ x < a.xSize ∧ 0 ≤ y ∧ y < a.ySize

instance (a : MappingArgs) (x y : ℤ) : Decidable (a.InMesh x y) :=
  inferInstanceAs (Decidable (_ ∧ _ ∧ _ ∧ _))

/-- The references of a cluster. -/
structure ClusterRefs (a : MappingArgs) (d : Declared) (i : ℕ) (c : MappingCluster) : Prop where
  x : c.x = BitVec.ofNat 32 (i / a.ySize)
  y : c.y = BitVec.ofNat 32 (i % a.ySize)
  psegs : Covers c.psegOffset c.psegs d.psegs fun p => a.At i p.x p.y
  procs : Covers c.procOffset c.procs d.procs fun p => a.At i p.x p.y
  periphs : Covers c.periphOffset c.periphs d.periphs fun p =>
    ∃ s, d.psegs[p.pseg]? = some s ∧ a.At i s.x s.y

/-- The references of a vspace. -/
structure VspaceRefs (d : Declared) (k : ℕ) (args : VspaceArgs) (s : MappingVspace) : Prop where
  vsegs : Covers s.vsegOffset s.vsegs d.vsegs fun v => v.vspace = some k
  tasks : Covers s.taskOffset s.tasks d.tasks fun t => t.vspace = k
  start : Designates s.startVsegId d.vsegs fun v => v.vspace = some k ∧ v.name = args.startname

/-- The references of a task. -/
structure TaskRefs (a : MappingArgs) (d : Declared) (args : TaskDecl) (t : MappingTask) :
    Prop where
  cluster : a.IsCluster t.clusterid args.x args.y
  stack : Designates t.stackVsegId d.vsegs fun v =>
    v.vspace = some args.vspace ∧ v.name = args.stackname
  noHeap : args.heapname = [] → t.heapVsegId = 0xFFFFFFFF
  heap : args.heapname ≠ [] → Designates t.heapVsegId d.vsegs fun v =>
    v.vspace = some args.vspace ∧ v.name = args.heapname

/-- The counts and references of the binary mapping mean what was declared. -/
structure References (a : MappingArgs) (d : Declared) (im : Image) : Prop where
  psegCount : im.header.psegs = BitVec.ofNat 32 d.psegs.length
  vspaceCount : im.header.vspaces = BitVec.ofNat 32 d.vspaces.length
  vsegCount : im.header.vsegs = BitVec.ofNat 32 d.vsegs.length
  taskCount : im.header.tasks = BitVec.ofNat 32 d.tasks.length
  procCount : im.header.procs = BitVec.ofNat 32 d.procs.length
  irqCount : im.header.irqs = BitVec.ofNat 32 d.irqs.length
  periphCount : im.header.periphs = BitVec.ofNat 32 d.periphs.length
  globals : ∀ k v, d.vsegs[k]? = some v → (k < im.header.globals.toNat ↔ v.vspace = none)
  clusters : ∀ i < a.xSize * a.ySize, ClusterRefs a d i (im.cluster (BitVec.ofNat 32 i))
  psegs : ∀ k p, d.psegs[k]? = some p →
    a.IsCluster (im.pseg (BitVec.ofNat 32 k)).clusterid p.x p.y
  vspaces : ∀ k s, d.vspaces[k]? = some s → VspaceRefs d k s (im.vspace (BitVec.ofNat 32 k))
  vsegs : ∀ k v, d.vsegs[k]? = some v →
    Designates (im.vseg (BitVec.ofNat 32 k)).psegid d.psegs fun p =>
      p.name = v.psegname ∧ p.x = v.x ∧ p.y = v.y
  tasks : ∀ k t, d.tasks[k]? = some t → TaskRefs a d t (im.task (BitVec.ofNat 32 k))
  periphPsegs : ∀ k p, d.periphs[k]? = some p →
    (im.periph (BitVec.ofNat 32 k)).psegid = BitVec.ofNat 32 p.pseg
  periphIrqs : ∀ k p, d.periphs[k]? = some p →
    Covers (im.periph (BitVec.ofNat 32 k)).irqOffset (im.periph (BitVec.ofNat 32 k)).irqs d.irqs
      fun q => q.periph = k

/-- All coordinates are in the mesh. -/
structure Meshed (a : MappingArgs) (d : Declared) : Prop where
  psegs : ∀ p ∈ d.psegs, a.InMesh p.x p.y
  procs : ∀ p ∈ d.procs, a.InMesh p.x p.y
  vsegs : ∀ v ∈ d.vsegs, a.InMesh v.x v.y
  tasks : ∀ t ∈ d.tasks, a.InMesh t.x t.y

/-- All coordinates are in the mesh, and every task names a heap. -/
structure Consistent (a : MappingArgs) (d : Declared) : Prop extends Meshed a d where
  heaps : ∀ t ∈ d.tasks, t.heapname ≠ []

/-! ## Coordinates -/

section Coordinates

variable {a : MappingArgs} {x y : ℤ} {i : ℕ}

/-- The place of the cluster of coordinates in the mesh. -/
theorem exists_place (h : a.InMesh x y) :
    ∃ i : ℕ, x * a.ySize + y = i ∧ i < a.xSize * a.ySize ∧ a.At i x y := by
  obtain ⟨hx, hxs, hy, hys⟩ := h
  obtain ⟨x, rfl⟩ := Int.eq_ofNat_of_zero_le hx
  obtain ⟨y, rfl⟩ := Int.eq_ofNat_of_zero_le hy
  rw [Int.ofNat_lt] at hxs hys
  obtain ⟨hdiv, hmod⟩ := place_div_mod (x := x) hys
  refine ⟨x * a.ySize + y, by norm_cast, ?_, ?_⟩
  · calc x * a.ySize + y < x * a.ySize + a.ySize := by omega
      _ = (x + 1) * a.ySize := by rw [Nat.add_mul, Nat.one_mul]
      _ ≤ a.xSize * a.ySize := Nat.mul_le_mul_right _ hxs
  · rw [MappingArgs.At, hdiv, hmod]
    exact ⟨rfl, rfl⟩

theorem At.unique {j : ℕ} (hi : a.At i x y) (hj : a.At j x y) : i = j := by
  have hdiv : i / a.ySize = j / a.ySize := Int.ofNat_inj.1 (hi.1.symm.trans hj.1)
  have hmod : i % a.ySize = j % a.ySize := Int.ofNat_inj.1 (hi.2.symm.trans hj.2)
  rw [← Nat.div_add_mod i a.ySize, hdiv, hmod, Nat.div_add_mod]

/-- In the mesh, a list of clusters is indexed without going round. -/
theorem at_of_clusterOf (h : a.InMesh x y) (hi : a.clusterOf x y = .ok i) : a.At i x y := by
  obtain ⟨j, hj, hlt, hat⟩ := exists_place h
  rw [MappingArgs.clusterOf, hj, listIndex, if_pos ⟨Int.natCast_nonneg j, by exact_mod_cast hlt⟩]
    at hi
  have heq : j = i := Except.ok.inj hi
  rw [← heq]
  exact hat

theorem At.inMesh (hi : i < a.xSize * a.ySize) (h : a.At i x y) : a.InMesh x y := by
  obtain ⟨rfl, rfl⟩ := h
  have hpos : 0 < a.ySize := by
    by_contra hzero
    rw [Nat.eq_zero_of_not_pos hzero, Nat.mul_zero] at hi
    omega
  refine ⟨Int.natCast_nonneg _, ?_, Int.natCast_nonneg _, ?_⟩
  · exact_mod_cast Nat.div_lt_of_lt_mul (Nat.mul_comm _ _ ▸ hi)
  · exact_mod_cast Nat.mod_lt i hpos

end Coordinates

/-! ## A written mapping -/

theorem lastIndex_spec {α : Type} {test : α → Bool} {index : α → ℕ} {l : List α}
    (h : lastIndex test index l ≠ 0xFFFFFFFF) :
    ∃ o ∈ l, test o = true ∧ lastIndex test index l = index o := by
  induction l using List.reverseRecOn with
  | nil => exact absurd rfl h
  | append_singleton l o ih =>
    have hlast : lastIndex test index (l ++ [o]) =
        if test o then index o else lastIndex test index l := by
      rw [lastIndex, List.foldl_append]
      rfl
    rw [hlast] at h ⊢
    by_cases ho : test o = true
    · rw [if_pos ho]
      exact ⟨o, List.mem_append_right _ (List.mem_singleton_self _), ho, rfl⟩
    · rw [if_neg ho] at h ⊢
      obtain ⟨o', ho', htest, heq⟩ := ih h
      exact ⟨o', List.mem_append_left _ ho', htest, heq⟩

namespace Agrees

variable {a : MappingArgs} {d : Declared} {m : Mapping} {im : Image} {k : ℕ}

theorem map_clusterPsegs (m : Mapping) :
    m.clusterPsegs.map (·.2) = m.clusters.flatMap (·.psegs) := by
  rw [Mapping.clusterPsegs, List.map_flatMap]
  apply List.flatMap_congr
  intro c _
  rw [List.map_map]
  exact List.map_id _

theorem map_vspaceTasks (m : Mapping) :
    m.vspaceTasks.map (fun o => (o.1.index, o.2)) = ownedTasks m.vspaces := by
  rw [Mapping.vspaceTasks, List.map_flatMap]
  apply List.flatMap_congr
  intro s _
  rw [List.map_map]
  rfl

theorem map_ownedVsegs (m : Mapping) :
    (ownedVsegs m.globs m.vspaces).map (·.2) = m.vsegs := by
  rw [ownedVsegs, vspaceVsegs, List.map_append, List.map_map, List.map_flatMap, Mapping.vsegs]
  congr 1
  · exact List.map_id _
  · apply List.flatMap_congr
    intro s _
    rw [List.map_map]
    exact List.map_id _

theorem map_periphIrqs (m : Mapping) : (periphIrqs m.periphs).map (·.2) = m.irqs := by
  rw [periphIrqs, List.map_flatMap]
  apply List.flatMap_congr
  intro p _
  rw [List.map_map]
  exact List.map_id _

theorem counted (h : Agrees a d m) : m.Counted := by
  constructor
  · rw [h.hardware.length, h.args]
  · exact h.totalGlobals.symm
  · rw [h.totalPsegs, ← h.hardware.psegs.length, ← map_clusterPsegs, List.length_map]
  · rw [h.totalVspaces, ← h.software.args, List.length_map]
  · rw [h.totalVsegs, ← h.software.vsegs.length, ← map_ownedVsegs, List.length_map]
  · rw [h.totalTasks, ← h.software.tasks.length, ← map_vspaceTasks, List.length_map]
  · rw [h.totalProcs, ← h.hardware.procs.length, Mapping.procs]
  · rw [h.totalIrqs, ← h.hardware.irqs.length, ← map_periphIrqs, List.length_map]
    rfl
  · rw [h.totalPeriphs, ← h.hardware.periphs.length, Mapping.periphs]

/-! ### Numbering -/

theorem numbered_psegs (hw : Written im m) :
    Numbered (·.index) (m.clusters.flatMap (·.psegs)) := by
  rw [numbered_iff, ← map_clusterPsegs]
  intro k p hp
  rw [List.getElem?_map, Option.map_eq_some_iff] at hp
  obtain ⟨o, ho, rfl⟩ := hp
  exact (hw.psegs k o ho).1.1

theorem numbered_procs (hw : Written im m) :
    Numbered (·.index) (m.clusters.flatMap (·.procs)) :=
  numbered_iff.2 fun k p hp => (hw.procs k p hp).1

theorem numbered_periphs (hw : Written im m) :
    Numbered (·.index) (m.clusters.flatMap (·.periphs)) :=
  numbered_iff.2 fun k p hp => (hw.periphs k p hp).1

theorem numbered_irqs (hw : Written im m) :
    Numbered (·.index) (m.periphs.flatMap (·.irqs)) :=
  numbered_iff.2 fun k q hq => (hw.irqs k q hq).1

theorem numbered_vsegs (hw : Written im m) : Numbered (·.index) m.vsegs :=
  numbered_iff.2 fun k v hv => (hw.vsegs k v hv).1.1

theorem numbered_ownedVsegs (hw : Written im m) :
    Numbered (·.2.index) (ownedVsegs m.globs m.vspaces) := by
  rw [numbered_iff]
  intro k o ho
  have hv : m.vsegs[k]? = some o.2 := by
    rw [← map_ownedVsegs, List.getElem?_map, ho]
    rfl
  exact (hw.vsegs k o.2 hv).1.1

theorem numbered_tasks (hw : Written im m) :
    Numbered (·.index) (m.vspaces.flatMap (·.tasks)) := by
  have hmap : m.vspaceTasks.map (·.2) = m.vspaces.flatMap (·.tasks) := by
    rw [Mapping.vspaceTasks, List.map_flatMap]
    apply List.flatMap_congr
    intro s _
    rw [List.map_map]
    exact List.map_id _
  rw [numbered_iff, ← hmap]
  intro k t ht
  rw [List.getElem?_map, Option.map_eq_some_iff] at ht
  obtain ⟨o, ho, rfl⟩ := ht
  exact (hw.tasks k o ho).1.1

/-- All counts fit in a word. -/
theorem sizes (h : Agrees a d m) (hw : Written im m) :
    132 + 32 * (a.xSize * a.ySize) + 60 * d.psegs.length + 56 * d.vspaces.length +
      128 * d.vsegs.length + 60 * d.tasks.length + 4 * d.procs.length + 24 * d.irqs.length +
      40 * d.periphs.length < 2 ^ 32 := by
  have hsmall := hw.small
  have hc := h.counted
  rwa [hc.clusters, hc.psegs, hc.vspaces, hc.vsegs, hc.tasks, hc.procs, hc.irqs, hc.periphs,
    h.totalPsegs, h.totalVspaces, h.totalVsegs, h.totalTasks, h.totalProcs, h.totalIrqs,
    h.totalPeriphs, h.args] at hsmall

end Agrees

/-! ### Intervals and identifiers -/

theorem word_toNat {k : ℕ} (hk : k < 2 ^ 32) : (BitVec.ofNat 32 k).toNat = k := by
  rw [BitVec.toNat_ofNat, Nat.mod_eq_of_lt hk]

section Intervals

variable {α β γ : Type} {number : α → ℕ} {g : γ → List α} {groups : List γ} {c : γ}

/-- The offset and the count that are written for a group make the interval of its numbers. -/
theorem interval_group (hnum : Numbered number (groups.flatMap g)) (hc : c ∈ groups)
    (hlen : (groups.flatMap g).length < 2 ^ 32) (k : ℕ) :
    (BitVec.ofNat 32 (firstIndex number (g c))).toNat ≤ k ∧
      k < (BitVec.ofNat 32 (firstIndex number (g c))).toNat +
        (BitVec.ofNat 32 (g c).length).toNat ↔ ∃ o ∈ g c, number o = k := by
  have hcount : (g c).length ≤ (groups.flatMap g).length := by
    obtain ⟨before, after, rfl⟩ := List.append_of_mem hc
    rw [List.flatMap_append, List.flatMap_cons, List.length_append, List.length_append]
    omega
  have hfirst : firstIndex number (g c) < 2 ^ 32 := by
    cases hg : g c with
    | nil => exact Nat.two_pow_pos 32
    | cons o rest =>
      have ho : o ∈ groups.flatMap g :=
        List.mem_flatMap.2 ⟨c, hc, by rw [hg]; exact List.mem_cons_self⟩
      obtain ⟨j, hj⟩ := List.getElem?_of_mem ho
      have hlt := (List.getElem?_eq_some_iff.1 hj).1
      rw [firstIndex, numbered_iff.1 hnum j o hj]
      omega
  rw [word_toNat hfirst, word_toNat (by omega)]
  apply hnum.mem_group hc
  intro o ho
  cases hg : g c with
  | nil =>
    rw [hg] at ho
    cases ho
  | cons o' rest =>
    rw [hg] at ho
    rw [firstIndex, Option.some.inj ho]

/-- The interval of a group covers the declarations that have the numbers of its objects. -/
theorem covers_group {l : List β} {p : β → Prop} (hnum : Numbered number (groups.flatMap g))
    (hc : c ∈ groups) (hlen : (groups.flatMap g).length < 2 ^ 32)
    (hmem : ∀ k, (∃ o ∈ g c, number o = k) ↔ ∃ o, l[k]? = some o ∧ p o) :
    Covers (BitVec.ofNat 32 (firstIndex number (g c))) (BitVec.ofNat 32 (g c).length) l p := by
  intro k
  rw [← hmem k]
  exact interval_group hnum hc hlen k

end Intervals

namespace Agrees

variable {a : MappingArgs} {d : Declared} {m : Mapping} {im : Image} {i k : ℕ}

/-! ### Hardware -/

theorem at_pseg (h : Agrees a d m) (hmeshed : Meshed a d) {c : Cluster}
    (hc : m.clusters[i]? = some c) {p : Pseg} (hp : p ∈ c.psegs) : a.At i p.x p.y := by
  have hmem : p ∈ m.clusters.flatMap (·.psegs) :=
    List.mem_flatMap.2 ⟨c, List.mem_of_getElem? hc, hp⟩
  have hmesh := hmeshed.psegs _ (List.mem_of_getElem? (h.hardware.psegs.declared p hmem))
  exact at_of_clusterOf hmesh ((h.hardware.placed i c hc).psegs p hp)

theorem at_proc (h : Agrees a d m) (hmeshed : Meshed a d) {c : Cluster}
    (hc : m.clusters[i]? = some c) {p : Processor} (hp : p ∈ c.procs) : a.At i p.x p.y := by
  have hmem : p ∈ m.clusters.flatMap (·.procs) :=
    List.mem_flatMap.2 ⟨c, List.mem_of_getElem? hc, hp⟩
  have hmesh := hmeshed.procs _ (List.mem_of_getElem? (h.hardware.procs.declared p hmem))
  exact at_of_clusterOf hmesh ((h.hardware.placed i c hc).procs p hp)

theorem clusterRefs (h : Agrees a d m) (hw : Written im m) (hmeshed : Meshed a d)
    (hi : i < a.xSize * a.ySize) : ClusterRefs a d i (im.cluster (BitVec.ofNat 32 i)) := by
  have hsizes := h.sizes hw
  have hlt : i < m.clusters.length := by rw [h.hardware.length]; exact hi
  have hc : m.clusters[i]? = some m.clusters[i] := List.getElem?_eq_getElem hlt
  have hmem : m.clusters[i] ∈ m.clusters := List.mem_of_getElem? hc
  have hplaced := h.hardware.placed i _ hc
  rw [(hw.clusters i _ hc).2]
  constructor
  · exact congrArg (BitVec.ofNat 32) hplaced.x
  · exact congrArg (BitVec.ofNat 32) hplaced.y
  · apply covers_group (numbered_psegs hw) hmem
    · rw [h.hardware.psegs.length]
      omega
    · intro k
      exact h.hardware.psegs.mem_group (q := fun j p => a.At j p.x p.y)
        (fun j c hj p hp => h.at_pseg hmeshed hj hp) (fun _ _ _ => At.unique) hc
  · apply covers_group (numbered_procs hw) hmem
    · rw [h.hardware.procs.length]
      omega
    · intro k
      exact h.hardware.procs.mem_group (q := fun j p => a.At j p.x p.y)
        (fun j c hj p hp => h.at_proc hmeshed hj hp) (fun _ _ _ => At.unique) hc
  · apply covers_group (numbered_periphs hw) hmem
    · rw [h.hardware.periphs.length]
      omega
    · intro k
      refine h.hardware.periphs.mem_group
        (q := fun j p => ∃ s, d.psegs[p.pseg]? = some s ∧ a.At j s.x s.y) ?_ ?_ hc
      · intro j c hj p hp
        have hpseg := (h.hardware.placed j c hj).periphs p hp
        have hreg : p.pseg ∈ m.clusters.flatMap (·.psegs) :=
          List.mem_flatMap.2 ⟨c, List.mem_of_getElem? hj, hpseg⟩
        exact ⟨_, h.hardware.psegs.declared _ hreg, h.at_pseg hmeshed hj hpseg⟩
      · intro j j' p ⟨s, hs, hj⟩ ⟨s', hs', hj'⟩
        rw [hs] at hs'
        rw [← Option.some.inj hs'] at hj'
        exact At.unique hj hj'

theorem psegRefs (h : Agrees a d m) (hw : Written im m) (hmeshed : Meshed a d) {p : PsegArgs}
    (hp : d.psegs[k]? = some p) :
    a.IsCluster (im.pseg (BitVec.ofNat 32 k)).clusterid p.x p.y := by
  have hget := h.hardware.psegs.getElem? (numbered_psegs hw) k
  rw [hp, ← map_clusterPsegs, List.getElem?_map, Option.map_map] at hget
  obtain ⟨⟨c, p'⟩, ho, rfl⟩ := Option.map_eq_some_iff.1 hget.symm
  have hmem := List.mem_of_getElem? ho
  rw [Mapping.clusterPsegs, List.mem_flatMap] at hmem
  obtain ⟨c', hc', hpair⟩ := hmem
  obtain ⟨p'', hp'', heq⟩ := List.mem_map.1 hpair
  obtain ⟨rfl, rfl⟩ := Prod.mk.inj heq
  obtain ⟨j, hj⟩ := List.getElem?_of_mem hc'
  have hlt : j < a.xSize * a.ySize := by
    rw [← h.hardware.length]
    exact (List.getElem?_eq_some_iff.1 hj).1
  have hsizes := h.sizes hw
  rw [(hw.psegs k _ ho).2, MappingArgs.IsCluster]
  change (BitVec.ofNat 32 c'.index).toNat < _ ∧ a.At (BitVec.ofNat 32 c'.index).toNat _ _
  rw [(h.hardware.placed j c' hj).index, word_toNat (by omega)]
  exact ⟨hlt, h.at_pseg hmeshed hj hp''⟩

theorem periphRefs (h : Agrees a d m) (hw : Written im m) {p : PeriphDecl}
    (hp : d.periphs[k]? = some p) :
    (im.periph (BitVec.ofNat 32 k)).psegid = BitVec.ofNat 32 p.pseg ∧
      Covers (im.periph (BitVec.ofNat 32 k)).irqOffset (im.periph (BitVec.ofNat 32 k)).irqs d.irqs
        fun q => q.periph = k := by
  have hget := h.hardware.periphs.getElem? (numbered_periphs hw) k
  rw [hp] at hget
  obtain ⟨p', hp', rfl⟩ := Option.map_eq_some_iff.1 hget.symm
  have hsizes := h.sizes hw
  have hlen : m.irqs.length = d.irqs.length := h.counted.irqs.trans h.totalIrqs
  rw [(hw.periphs k p' hp').2]
  refine ⟨rfl, covers_group (numbered_irqs hw) (List.mem_of_getElem? hp') ?_ ?_⟩
  · change m.irqs.length < 2 ^ 32
    rw [hlen]
    omega
  · intro j
    exact h.hardware.irqs.mem_members (f := IrqDecl.periph) (fun _ => rfl)
      ((numbered_periphs hw).mem_pairs (f := id) Function.injective_id hp')

/-! ### Software -/

theorem mem_vsegs (h : Agrees a d m) {s : Vspace} (hs : m.vspaces[i]? = some s) (v : Vseg) :
    (some i, v) ∈ ownedVsegs m.globs m.vspaces ↔ v ∈ s.vsegs := by
  rw [ownedVsegs, List.mem_append, vspaceVsegs,
    h.software.numbered.mem_pairs (Option.some_injective ℕ) hs]
  constructor
  · intro hv
    obtain hglob | hv := hv
    · obtain ⟨_, _, heq⟩ := List.mem_map.1 hglob
      exact absurd (Prod.mk.inj heq).1.symm (Option.some_ne_none i)
    · exact hv
  · intro hv
    exact Or.inr hv

/-- The objects of a vspace at its place. -/
theorem exists_vspace (h : Agrees a d m) {args : VspaceArgs} (hk : d.vspaces[k]? = some args) :
    ∃ s, m.vspaces[k]? = some s ∧ s.toVspaceArgs = args := by
  rw [← h.software.args, List.getElem?_map, Option.map_eq_some_iff] at hk
  exact hk

/-- A name that is found in a vspace designates a vseg of the vspace. -/
theorem designates_vseg (h : Agrees a d m) (hw : Written im m) {s : Vspace}
    (hs : m.vspaces[i]? = some s) {name : Text}
    (hfound : lastIndex (fun v : Vseg => v.name = name) (·.index) s.vsegs ≠ 0xFFFFFFFF) :
    Designates (BitVec.ofNat 32 (lastIndex (fun v : Vseg => v.name = name) (·.index) s.vsegs))
      d.vsegs fun v => v.vspace = some i ∧ v.name = name := by
  obtain ⟨v, hv, hname, heq⟩ := lastIndex_spec hfound
  have hget := h.software.vsegs.declared (some i, v) ((h.mem_vsegs hs v).2 hv)
  have hlt := (List.getElem?_eq_some_iff.1 hget).1
  have hsizes := h.sizes hw
  have hindex : v.index < 2 ^ 32 := by
    change v.index < d.vsegs.length at hlt
    omega
  rw [heq, Designates, word_toNat hindex]
  exact ⟨_, hget, rfl, of_decide_eq_true hname⟩

theorem vspaceRefs (h : Agrees a d m) (hw : Written im m) {args : VspaceArgs}
    (hk : d.vspaces[k]? = some args) : VspaceRefs d k args (im.vspace (BitVec.ofNat 32 k)) := by
  obtain ⟨s, hs, rfl⟩ := h.exists_vspace hk
  have hsizes := h.sizes hw
  obtain ⟨⟨_, _, hstart, _, _⟩, hrecord⟩ := hw.vspaces k s hs
  have hmem := List.mem_of_getElem? hs
  rw [hrecord]
  constructor
  · have hgroups : m.vsegs = (m.globs :: m.vspaces.map (·.vsegs)).flatMap id := by
      rw [List.flatMap_cons, List.flatMap_map]
      rfl
    have hnum := numbered_vsegs hw
    have hlen : m.vsegs.length = d.vsegs.length := h.counted.vsegs.trans h.totalVsegs
    rw [hgroups] at hnum hlen
    refine covers_group (g := id) hnum (List.mem_cons_of_mem _ (List.mem_map_of_mem hmem)) ?_ ?_
    · rw [hlen]
      omega
    · intro j
      exact h.software.vsegs.mem_members (f := VsegDecl.vspace) (fun _ => rfl) (h.mem_vsegs hs)
  · have hlen : (m.vspaces.flatMap (·.tasks)).length = d.tasks.length := by
      rw [← h.software.tasks.length, ownedTasks, List.length_flatMap, List.length_flatMap]
      simp only [List.length_map]
    refine covers_group (numbered_tasks hw) hmem ?_ ?_
    · rw [hlen]
      omega
    · intro j
      exact h.software.tasks.mem_members (f := TaskDecl.vspace) (fun _ => rfl)
        (h.software.numbered.mem_pairs (f := id) Function.injective_id hs)
  · exact h.designates_vseg hw hs hstart

/-- A task at its place, and its vspace. -/
theorem exists_task (h : Agrees a d m) (hw : Written im m) {args : TaskDecl}
    (hk : d.tasks[k]? = some args) :
    ∃ s t, m.vspaceTasks[k]? = some (s, t) ∧ m.vspaces[args.vspace]? = some s ∧
      t.toTaskArgs = args.toTaskArgs := by
  have hnum : Numbered (·.2.index) (ownedTasks m.vspaces) := by
    rw [numbered_iff, ← map_vspaceTasks]
    intro j o ho
    rw [List.getElem?_map, Option.map_eq_some_iff] at ho
    obtain ⟨o', ho', rfl⟩ := ho
    exact (hw.tasks j o' ho').1.1
  have hget := h.software.tasks.getElem? hnum k
  rw [hk, ← map_vspaceTasks, List.getElem?_map, Option.map_map] at hget
  obtain ⟨⟨s, t⟩, ho, rfl⟩ := Option.map_eq_some_iff.1 hget.symm
  refine ⟨s, t, ho, ?_, rfl⟩
  have hmem := List.mem_of_getElem? ho
  rw [Mapping.vspaceTasks, List.mem_flatMap] at hmem
  obtain ⟨s', hs', hpair⟩ := hmem
  obtain ⟨t', _, heq⟩ := List.mem_map.1 hpair
  obtain ⟨rfl, rfl⟩ := Prod.mk.inj heq
  obtain ⟨j, hj⟩ := List.getElem?_of_mem hs'
  change m.vspaces[s'.index]? = some s'
  rw [h.software.index_eq hj]
  exact hj

theorem taskCluster (h : Agrees a d m) (hw : Written im m) {args : TaskDecl}
    (hk : d.tasks[k]? = some args) (hmesh : a.InMesh args.x args.y) :
    a.IsCluster (im.task (BitVec.ofNat 32 k)).clusterid args.x args.y := by
  obtain ⟨s, t, ho, _, hargs⟩ := h.exists_task hw hk
  have hsizes := h.sizes hw
  have hx : t.x = args.x := congrArg TaskArgs.x hargs
  have hy : t.y = args.y := congrArg TaskArgs.y hargs
  obtain ⟨j, hj, hlt, hat⟩ := exists_place hmesh
  have hid : (t.record m s).clusterid = BitVec.ofNat 32 j := by
    change BitVec.ofInt 32 (t.x * m.ySize + t.y) = _
    rw [hx, hy, h.args, hj, BitVec.ofInt_natCast]
  rw [(hw.tasks k _ ho).2, hid, MappingArgs.IsCluster, word_toNat (by omega)]
  exact ⟨hlt, hat⟩

theorem taskStack (h : Agrees a d m) (hw : Written im m) {args : TaskDecl}
    (hk : d.tasks[k]? = some args) :
    Designates (im.task (BitVec.ofNat 32 k)).stackVsegId d.vsegs fun v =>
      v.vspace = some args.vspace ∧ v.name = args.stackname := by
  obtain ⟨s, t, ho, hs, hargs⟩ := h.exists_task hw hk
  obtain ⟨⟨_, _, hstack, _⟩, hrecord⟩ := hw.tasks k _ ho
  have hstackname : t.stackname = args.stackname := congrArg TaskArgs.stackname hargs
  rw [hrecord, ← hstackname]
  exact h.designates_vseg hw hs hstack

theorem taskHeap (h : Agrees a d m) (hw : Written im m) {args : TaskDecl}
    (hk : d.tasks[k]? = some args) (hnamed : args.heapname ≠ []) :
    Designates (im.task (BitVec.ofNat 32 k)).heapVsegId d.vsegs fun v =>
      v.vspace = some args.vspace ∧ v.name = args.heapname := by
  obtain ⟨s, t, ho, hs, hargs⟩ := h.exists_task hw hk
  obtain ⟨⟨_, _, _, hheap⟩, hrecord⟩ := hw.tasks k _ ho
  have hheapname : t.heapname = args.heapname := congrArg TaskArgs.heapname hargs
  have hid : t.heapId s = lastIndex (fun v => v.name = args.heapname) (·.index) s.vsegs := by
    rw [Task.heapId, hheapname, if_neg hnamed]
  rw [hid] at hheap
  have hdes := h.designates_vseg hw hs hheap
  rw [← hid] at hdes
  rw [hrecord]
  exact hdes

theorem taskRefs (h : Agrees a d m) (hw : Written im m) (hcons : Consistent a d)
    {args : TaskDecl} (hk : d.tasks[k]? = some args) :
    TaskRefs a d args (im.task (BitVec.ofNat 32 k)) := by
  have hmem := List.mem_of_getElem? hk
  constructor
  · exact h.taskCluster hw hk (hcons.tasks args hmem)
  · exact h.taskStack hw hk
  · intro hempty
    exact absurd hempty (hcons.heaps args hmem)
  · exact h.taskHeap hw hk

theorem vsegRefs (h : Agrees a d m) (hw : Written im m) (hmeshed : Meshed a d)
    {args : VsegDecl} (hk : d.vsegs[k]? = some args) :
    Designates (im.vseg (BitVec.ofNat 32 k)).psegid d.psegs fun p =>
      p.name = args.psegname ∧ p.x = args.x ∧ p.y = args.y := by
  have hget := h.software.vsegs.getElem? (numbered_ownedVsegs hw) k
  rw [hk] at hget
  obtain ⟨⟨w, v⟩, ho, rfl⟩ := Option.map_eq_some_iff.1 hget.symm
  have hv : m.vsegs[k]? = some v := by
    rw [← map_ownedVsegs, List.getElem?_map, ho]
    rfl
  obtain ⟨_, i, hi, hfound, hrecord⟩ := hw.vsegs k v hv
  rw [h.clusterAt_eq] at hi
  have hat := at_of_clusterOf (hmeshed.vsegs _ (List.mem_of_getElem? hk)) hi
  obtain ⟨p, hp, hname, heq⟩ := lastIndex_spec hfound
  cases hc : m.clusters[i]? with
  | none =>
    rw [Mapping.psegsAt, hc] at hp
    exact absurd hp List.not_mem_nil
  | some c =>
    rw [Mapping.psegsAt, hc] at hp
    have hat' := h.at_pseg hmeshed hc hp
    have hreg : p ∈ m.clusters.flatMap (·.psegs) :=
      List.mem_flatMap.2 ⟨c, List.mem_of_getElem? hc, hp⟩
    have hdecl := h.hardware.psegs.declared p hreg
    have hlt : p.index < d.psegs.length := (List.getElem?_eq_some_iff.1 hdecl).1
    have hsizes := h.sizes hw
    have hid : (v.record m i).psegid.toNat = p.index := by
      change (BitVec.ofNat 32 (v.psegId m i)).toNat = _
      rw [Vseg.psegId, heq, word_toNat (by omega)]
    rw [hrecord, Designates, hid]
    exact ⟨_, hdecl, (of_decide_eq_true hname).symm, hat'.1.trans hat.1.symm,
      hat'.2.trans hat.2.symm⟩

/-- The global vsegs come first. -/
theorem globals_iff (h : Agrees a d m) (hw : Written im m) :
    k < im.header.globals.toNat ↔ ∃ v, d.vsegs[k]? = some v ∧ v.vspace = none := by
  have hget := h.software.vsegs.getElem? (numbered_ownedVsegs hw) k
  have hsizes := h.sizes hw
  have hle : m.globs.length ≤ d.vsegs.length := by
    rw [← h.software.vsegs.length, ownedVsegs, List.length_append, List.length_map]
    omega
  have hglobals : im.header.globals.toNat = m.globs.length := by
    rw [hw.header]
    change (BitVec.ofNat 32 m.totalGlobals).toNat = _
    rw [h.totalGlobals, word_toNat (by omega)]
  rw [hglobals]
  constructor
  · intro hlt
    rw [ownedVsegs, List.getElem?_append_left (by rwa [List.length_map]), List.getElem?_map,
      List.getElem?_eq_getElem hlt] at hget
    exact ⟨_, hget, rfl⟩
  · rintro ⟨v, hk, hnone⟩
    by_contra hge
    rw [hk] at hget
    obtain ⟨⟨w, v⟩, ho, rfl⟩ := Option.map_eq_some_iff.1 hget.symm
    rw [ownedVsegs, List.getElem?_append_right (by rw [List.length_map]; omega)] at ho
    have hmem := List.mem_of_getElem? ho
    rw [vspaceVsegs, List.mem_flatMap] at hmem
    obtain ⟨s, _, hpair⟩ := hmem
    obtain ⟨_, _, heq⟩ := List.mem_map.1 hpair
    exact Option.some_ne_none _ ((Prod.mk.inj heq).1.trans hnone)

/-! ### Both directions -/

theorem references (h : Agrees a d m) (hw : Written im m) (hcons : Consistent a d) :
    References a d im := by
  have hheader := hw.header
  constructor
  · rw [hheader, ← h.totalPsegs]
    rfl
  · rw [hheader, ← h.totalVspaces]
    rfl
  · rw [hheader, ← h.totalVsegs]
    rfl
  · rw [hheader, ← h.totalTasks]
    rfl
  · rw [hheader, ← h.totalProcs]
    rfl
  · rw [hheader, ← h.totalIrqs]
    rfl
  · rw [hheader, ← h.totalPeriphs]
    rfl
  · intro k v hv
    rw [h.globals_iff hw, hv]
    constructor
    · rintro ⟨_, heq, hnone⟩
      rwa [Option.some.inj heq]
    · intro hnone
      exact ⟨v, rfl, hnone⟩
  · intro i hi
    exact h.clusterRefs hw hcons.toMeshed hi
  · intro k p hp
    exact h.psegRefs hw hcons.toMeshed hp
  · intro k s hs
    exact h.vspaceRefs hw hs
  · intro k v hv
    exact h.vsegRefs hw hcons.toMeshed hv
  · intro k t ht
    exact h.taskRefs hw hcons ht
  · intro k p hp
    exact (h.periphRefs hw hp).1
  · intro k p hp
    exact (h.periphRefs hw hp).2

/-- A task without a heap is written with the index of the first vseg. -/
theorem heapId_of_empty (h : Agrees a d m) (hw : Written im m) {args : TaskDecl}
    (hk : d.tasks[k]? = some args) (hempty : args.heapname = []) :
    (im.task (BitVec.ofNat 32 k)).heapVsegId = 0 := by
  obtain ⟨s, t, ho, _, hargs⟩ := h.exists_task hw hk
  have hheapname : t.heapname = [] := (congrArg TaskArgs.heapname hargs).trans hempty
  rw [(hw.tasks k _ ho).2]
  change BitVec.ofNat 32 (t.heapId s) = 0
  rw [Task.heapId, if_pos hheapname]
  rfl

theorem meshed (h : Agrees a d m) (hw : Written im m) (href : References a d im) :
    Meshed a d := by
  have hmesh {id : Word} {x y : ℤ} (hid : a.IsCluster id x y) : a.InMesh x y :=
    At.inMesh hid.1 hid.2
  constructor
  · intro p hp
    obtain ⟨k, hk⟩ := List.getElem?_of_mem hp
    exact hmesh (href.psegs k p hk)
  · intro p hp
    obtain ⟨k, hk⟩ := List.getElem?_of_mem hp
    obtain ⟨p', hp', hindex, rfl⟩ := h.hardware.procs.exists_object hk
    obtain ⟨c, hc, hmem⟩ := List.mem_flatMap.1 hp'
    obtain ⟨i, hi⟩ := List.getElem?_of_mem hc
    have hlt : i < a.xSize * a.ySize := by
      rw [← h.hardware.length]
      exact (List.getElem?_eq_some_iff.1 hi).1
    have hcovers := (href.clusters i hlt).procs k
    rw [(hw.clusters i c hi).2] at hcovers
    have hsizes := h.sizes hw
    have hlen : (m.clusters.flatMap (·.procs)).length < 2 ^ 32 := by
      rw [h.hardware.procs.length]
      omega
    have hinterval := (interval_group (numbered_procs hw) hc hlen k).2 ⟨p', hmem, hindex⟩
    obtain ⟨o, ho, hat⟩ := hcovers.1 hinterval
    rw [hk] at ho
    rw [← Option.some.inj ho] at hat
    exact At.inMesh hlt hat
  · intro v hv
    obtain ⟨k, hk⟩ := List.getElem?_of_mem hv
    obtain ⟨p, hp, _, hx, hy⟩ := href.vsegs k v hk
    rw [← hx, ← hy]
    exact hmesh (href.psegs _ p hp)
  · intro t ht
    obtain ⟨k, hk⟩ := List.getElem?_of_mem ht
    exact hmesh (href.tasks k t hk).cluster

theorem consistent (h : Agrees a d m) (hw : Written im m) (href : References a d im) :
    Consistent a d := by
  constructor
  · exact h.meshed hw href
  · intro t ht hempty
    obtain ⟨k, hk⟩ := List.getElem?_of_mem ht
    have hnone := (href.tasks k t hk).noHeap hempty
    rw [h.heapId_of_empty hw hk hempty] at hnone
    exact absurd hnone (by decide)

end Agrees

/-- The references of a written mapping mean what its script declared exactly when all coordinates
are in the mesh and every task names a heap. -/
theorem references_iff {a : MappingArgs} {calls : List Call} {m : Mapping} {bytes : Text}
    {im : Image} (hbuild : buildMapping a calls = .ok m) (hcbin : m.cbin = .ok bytes)
    (hload : Loaded im a bytes) :
    References a (declared a calls) im ↔ Consistent a (declared a calls) := by
  have h := buildMapping_agrees hbuild
  have hw : Written im m := cbin_written h.counted hcbin (h.args ▸ hload)
  constructor
  · intro href
    exact h.consistent hw href
  · intro hcons
    exact h.references hw hcons

/-- One cluster with a memory and a processor. -/
def smallArgs : MappingArgs := { name := [0x6D], xSize := 1, ySize := 1, nprocs := 1 }

/-- A vspace with one vseg and one task, which has the vseg as stack, and the given heap. -/
def smallScript (heapname : Text) : List Call :=
  [.addRam [0x72] 0 0,
    .addProc ⟨0, 0, 0⟩,
    .addVspace ⟨[0x61], [0x73], true⟩,
    .addVseg 0
      { name := [0x73], vbase := 0x1000, length := 0x1000, mode := ⟨false, false, true, true⟩
        vtype := .buffer, x := 0, y := 0, psegname := [0x72] },
    .addTask 0 ⟨[0x74], 0, 0, 0, 0, [0x73], heapname, 0⟩]

/-- A script that runs to its end, and the file that it writes. -/
theorem exists_written (a : MappingArgs) (calls : List Call)
    (htest : (match buildMapping a calls >>= Mapping.cbin with
      | .ok bytes => decide (bytes.length < 2 ^ 32)
      | .error _ => false) = true) :
    ∃ m bytes, buildMapping a calls = .ok m ∧ m.cbin = .ok bytes ∧
      ∀ base, Loaded ⟨⟨BitVec.ofNat 32 a.xSize, BitVec.ofNat 32 a.ySize⟩,
        ByteMemory.ofBytes base bytes, base⟩ a bytes := by
  cases hrun : buildMapping a calls >>= Mapping.cbin with
  | error e =>
    rw [hrun] at htest
    cases htest
  | ok bytes =>
    rw [hrun] at htest
    have hlt : bytes.length < 2 ^ 32 := of_decide_eq_true htest
    obtain ⟨m, hbuild, hcbin⟩ := script_bind_iff.1 hrun
    exact ⟨m, bytes, hbuild, hcbin, fun base => ⟨ByteMemory.holds_ofBytes hlt.le, hlt, rfl⟩⟩

/-- A task that names its stack as heap is consistent, and one that names no heap is not. -/
theorem references_iff_small :
    (∃ m bytes, buildMapping smallArgs (smallScript [0x73]) = .ok m ∧ m.cbin = .ok bytes ∧
      ∀ base, References smallArgs (declared smallArgs (smallScript [0x73]))
        ⟨⟨1, 1⟩, ByteMemory.ofBytes base bytes, base⟩) ∧
    ∃ m bytes, buildMapping smallArgs (smallScript []) = .ok m ∧ m.cbin = .ok bytes ∧
      ∀ base, ¬References smallArgs (declared smallArgs (smallScript []))
        ⟨⟨1, 1⟩, ByteMemory.ofBytes base bytes, base⟩ := by
  constructor
  · obtain ⟨m, bytes, hbuild, hcbin, hload⟩ :=
      exists_written smallArgs (smallScript [0x73]) (by decide +kernel)
    refine ⟨m, bytes, hbuild, hcbin, fun base => (references_iff hbuild hcbin (hload base)).2 ?_⟩
    exact ⟨⟨by decide, by decide, by decide, by decide⟩, by decide⟩
  · obtain ⟨m, bytes, hbuild, hcbin, hload⟩ :=
      exists_written smallArgs (smallScript []) (by decide +kernel)
    refine ⟨m, bytes, hbuild, hcbin, fun base href => ?_⟩
    have hcons := (references_iff hbuild hcbin (hload base)).1 href
    exact absurd hcons.heaps (by decide)

end GietVm.Genmap
