import GietVm.Genmap.Lookups

/-!
# What the kernel finds for a cluster

The kernel searches the mapping for the user heap of a cluster in a vspace, for the kernel heap of
a cluster, and for the number of processors that the clusters have in common. When the coordinates
of a script are in the mesh, the answers are about the objects that the script declared there. A
task that names no heap was written with the index zero, so that the first vseg of all is taken
for its heap.
-/

namespace GietVm.Genmap

open GietVm.Library

/-! ## Searches -/

/-- What `_sys_heap_info` stores and returns. -/
structure HeapInfo where
  vaddr : Word
  length : Word
  ret : ℤ
  deriving DecidableEq

namespace Image

variable (im : Image)

/-- The scan of the tasks of a vspace in `_sys_heap_info`, with the current `vseg_id`. -/
def scanHeaps (clusterid : Word) : List Word → Word → Word
  | [], vsegId => vsegId
  | taskId :: rest, vsegId =>
    if (im.task taskId).clusterid = clusterid then
      if (im.task taskId).heapVsegId ≠ 0xFFFFFFFF then (im.task taskId).heapVsegId
      else scanHeaps clusterid rest (im.task taskId).heapVsegId
    else scanHeaps clusterid rest vsegId

/-- The end of `_sys_heap_info`, on the `vseg_id` that was found. -/
def heapInfo (vsegId : Word) : HeapInfo :=
  if vsegId ≠ 0xFFFFFFFF then ⟨(im.vseg vsegId).vbase, (im.vseg vsegId).length, 0⟩
  else ⟨0, 0, -1⟩

/-- `_sys_heap_info`. The identifiers of the vspace and of the calling task are in its context. -/
def sysHeapInfo (vspaceId gtid x y : Word) : HeapInfo :=
  if x < im.config.xSize ∧ y < im.config.ySize then
    let min := (im.vspace vspaceId).taskOffset
    let max := min + (im.vspace vspaceId).tasks
    im.heapInfo (im.scanHeaps (x * im.config.ySize + y) (wordRange min max) 0xFFFFFFFF)
  else im.heapInfo (im.task gtid).heapVsegId

/-- `_sys_procs_number`: the three words that are stored. -/
def sysProcsNumber : Word × Word × Word :=
  let xmax := im.header.xSize
  let ymax := im.header.ySize
  let procs := (im.cluster 0).procs
  let okmin := (wordRange 0 (ymax - 1)).all fun y => (wordRange 0 xmax).all fun x =>
    (im.cluster (x * ymax + y)).procs = procs
  let okmax := (wordRange 0 xmax).all fun x => (im.cluster (x * ymax + ymax - 1)).procs = procs
  if okmin && okmax then (xmax, ymax, procs)
  else if okmin then (xmax, ymax - 1, procs)
  else (0, 0, 0)

end Image

/-! ## Clusters -/

section Mesh

variable {a : MappingArgs} {calls : List Call} {m : Mapping}

/-- The sizes that a mapping accepts. -/
theorem buildMapping_sizes (h : buildMapping a calls = .ok m) :
    a.xSize ≤ 2 ^ 4 ∧ a.ySize ≤ 2 ^ 4 := by
  rw [buildMapping, script_bind_iff] at h
  obtain ⟨_, hinit, _⟩ := h
  simp only [Mapping.init, script_bind_iff, assertThat_iff, exists_const] at hinit
  exact ⟨hinit.1, hinit.2.1⟩

/-- The index of a cluster as the kernel computes it. -/
theorem place_toNat {x y : Word} (hsizes : a.xSize ≤ 2 ^ 4 ∧ a.ySize ≤ 2 ^ 4)
    (hx : x.toNat < a.xSize) (hy : y.toNat < a.ySize) :
    (x * BitVec.ofNat 32 a.ySize + y).toNat = x.toNat * a.ySize + y.toNat := by
  have hmul : x.toNat * a.ySize ≤ 2 ^ 4 * 2 ^ 4 :=
    Nat.mul_le_mul (hx.le.trans hsizes.1) hsizes.2
  rw [BitVec.toNat_add, BitVec.toNat_mul, word_toNat (by omega), Nat.mod_eq_of_lt (by omega),
    Nat.mod_eq_of_lt (by omega)]

/-- Being a cluster and having its coordinates are the same. -/
theorem isCluster_iff {id : Word} {tx ty : ℤ} {x y : ℕ} (h : a.IsCluster id tx ty)
    (hy : y < a.ySize) : id.toNat = x * a.ySize + y ↔ tx = x ∧ ty = y := by
  obtain ⟨hdiv, hmod⟩ := place_div_mod (x := x) hy
  constructor
  · intro hid
    obtain ⟨htx, hty⟩ := h.2
    rw [hid, hdiv] at htx
    rw [hid, hmod] at hty
    exact ⟨htx, hty⟩
  · intro ⟨htx, hty⟩
    apply At.unique h.2
    rw [MappingArgs.At, hdiv, hmod]
    exact ⟨htx, hty⟩

end Mesh

/-! ## User heaps -/

/-- The numbered vseg that a task is given as heap: the one that it names in its vspace, or the
first of all if it names none. -/
def Declared.GivenHeap (d : Declared) (t : TaskDecl) (k : ℕ) (v : VsegDecl) : Prop :=
  d.vsegs[k]? = some v ∧
    if t.heapname = [] then k = 0 else v.vspace = some t.vspace ∧ v.name = t.heapname

/-- The task is one that a task searches for the coordinates: inside the mesh a task of its vspace
in the cluster, and outside itself. -/
def MappingArgs.Searched (a : MappingArgs) (self : TaskDecl) (x y : ℕ) (t : TaskDecl) : Prop :=
  t.vspace = self.vspace ∧ if x < a.xSize ∧ y < a.ySize then t.x = x ∧ t.y = y else t = self

/-- A scan of tasks that have a heap stops at the first one in the cluster. -/
theorem scanHeaps_spec {im : Image} {clusterid init : Word} {ids : List Word}
    (hheap : ∀ w ∈ ids, (im.task w).heapVsegId ≠ 0xFFFFFFFF) :
    (∃ w ∈ ids, (im.task w).clusterid = clusterid ∧
      im.scanHeaps clusterid ids init = (im.task w).heapVsegId) ∨
    (∀ w ∈ ids, (im.task w).clusterid ≠ clusterid) ∧ im.scanHeaps clusterid ids init = init := by
  induction ids with
  | nil => exact Or.inr ⟨by intro w hw; exact absurd hw List.not_mem_nil, rfl⟩
  | cons w ids ih =>
    rw [Image.scanHeaps]
    by_cases hw : (im.task w).clusterid = clusterid
    · rw [if_pos hw, if_pos (hheap w List.mem_cons_self)]
      exact Or.inl ⟨w, List.mem_cons_self, hw, rfl⟩
    · rw [if_neg hw]
      obtain ⟨w', hmem, hw', heq⟩ | ⟨hnone, heq⟩ :=
        ih (fun w' hmem => hheap w' (List.mem_cons_of_mem _ hmem))
      · exact Or.inl ⟨w', List.mem_cons_of_mem _ hmem, hw', heq⟩
      · refine Or.inr ⟨?_, heq⟩
        intro w' hmem
        obtain rfl | hmem := List.mem_cons.1 hmem
        · exact hw
        · exact hnone w' hmem

namespace Agrees

variable {a : MappingArgs} {d : Declared} {m : Mapping} {im : Image}

/-- The heap that is written for a task. -/
theorem givenHeap (h : Agrees a d m) (hw : Written im m) {w : Word} {t : TaskDecl}
    (hk : d.tasks[w.toNat]? = some t) :
    ∃ v, d.GivenHeap t (im.task w).heapVsegId.toNat v ∧ (im.task w).heapVsegId ≠ 0xFFFFFFFF := by
  have hsizes := h.sizes hw
  have hfits {id : Word} {v : VsegDecl} (hv : d.vsegs[id.toNat]? = some v) : id ≠ 0xFFFFFFFF := by
    have hlt := (List.getElem?_eq_some_iff.1 hv).1
    rintro rfl
    change 0xFFFFFFFF < _ at hlt
    omega
  by_cases hempty : t.heapname = []
  · have hzero := h.heapId_of_empty hw hk hempty
    obtain ⟨v, hv, _⟩ := h.taskStack hw hk
    have hpos : 0 < d.vsegs.length := Nat.zero_lt_of_lt (List.getElem?_eq_some_iff.1 hv).1
    rw [← word_eq_ofNat] at hzero
    rw [hzero]
    refine ⟨d.vsegs[0], ⟨List.getElem?_eq_getElem hpos, ?_⟩, by decide⟩
    rw [if_pos hempty]
    rfl
  · obtain ⟨v, hv, hprop⟩ := h.taskHeap hw hk hempty
    rw [← word_eq_ofNat] at hv
    refine ⟨v, ⟨hv, ?_⟩, hfits hv⟩
    rw [if_neg hempty]
    exact hprop

/-- The indexes of the loop over the tasks of a vspace. -/
theorem mem_taskRange (h : Agrees a d m) (hw : Written im m) {s : VspaceArgs} {i w : Word}
    (hi : d.vspaces[i.toNat]? = some s) :
    w ∈ wordRange (im.vspace i).taskOffset ((im.vspace i).taskOffset + (im.vspace i).tasks) ↔
      ∃ t, d.tasks[w.toNat]? = some t ∧ t.vspace = i.toNat := by
  have hsizes := h.sizes hw
  have hrefs := (h.vspaceRefs hw hi).tasks
  rw [← word_eq_ofNat] at hrefs
  exact hrefs.mem_wordRange (by omega)

/-- The vspace of a task was declared. -/
theorem exists_vspace_of_task (h : Agrees a d m) (hw : Written im m) {k : ℕ} {t : TaskDecl}
    (hk : d.tasks[k]? = some t) : ∃ s, d.vspaces[t.vspace]? = some s := by
  obtain ⟨s, _, _, hs, _⟩ := h.exists_task hw hk
  refine ⟨s.toVspaceArgs, ?_⟩
  rw [← h.software.args, List.getElem?_map, hs]
  rfl

/-- What is returned for the heap of a task. -/
theorem heapInfo_eq (h : Agrees a d m) (hw : Written im m) {w : Word} {t : TaskDecl}
    (hk : d.tasks[w.toNat]? = some t) :
    ∃ k v vaddr length, d.GivenHeap t k v ∧
      im.heapInfo (im.task w).heapVsegId = ⟨vaddr, length, 0⟩ ∧
      (vaddr.toNat : ℤ) = v.vbase ∧ (length.toNat : ℤ) = v.length := by
  obtain ⟨v, hgiven, hne⟩ := h.givenHeap hw hk
  have hfields := h.vsegFields hw hgiven.1
  rw [← word_eq_ofNat] at hfields
  refine ⟨_, v, _, _, hgiven, ?_, hfields.vbase, hfields.length⟩
  rw [Image.heapInfo, if_pos hne]

end Agrees

/-- `_sys_heap_info` gives the heap of a task that is searched, or fails when there is none. -/
theorem sysHeapInfo_declared {a : MappingArgs} {calls : List Call} {m : Mapping} {bytes : Text}
    {im : Image} (hbuild : buildMapping a calls = .ok m) (hcbin : m.cbin = .ok bytes)
    (hload : Loaded im a bytes) (hmeshed : Meshed a (declared a calls)) {gtid x y : Word}
    {self : TaskDecl} (hself : (declared a calls).tasks[gtid.toNat]? = some self) :
    (∃ t ∈ (declared a calls).tasks, a.Searched self x.toNat y.toNat t ∧
      ∃ k v vaddr length, (declared a calls).GivenHeap t k v ∧
        im.sysHeapInfo (BitVec.ofNat 32 self.vspace) gtid x y = ⟨vaddr, length, 0⟩ ∧
        (vaddr.toNat : ℤ) = v.vbase ∧ (length.toNat : ℤ) = v.length) ∨
    (∀ t ∈ (declared a calls).tasks, ¬a.Searched self x.toNat y.toNat t) ∧
      im.sysHeapInfo (BitVec.ofNat 32 self.vspace) gtid x y = ⟨0, 0, -1⟩ := by
  have h := buildMapping_agrees hbuild
  have hw : Written im m := cbin_written h.counted hcbin (h.args ▸ hload)
  have hmax := buildMapping_sizes hbuild
  have hsizes := h.sizes hw
  obtain ⟨s, hs⟩ := h.exists_vspace_of_task hw hself
  have hvspace : (BitVec.ofNat 32 self.vspace).toNat = self.vspace :=
    word_toNat (by have := (List.getElem?_eq_some_iff.1 hs).1; omega)
  rw [← hvspace] at hs
  have hconfig := hload.config
  have hin : x < im.config.xSize ∧ y < im.config.ySize ↔
      x.toNat < a.xSize ∧ y.toNat < a.ySize := by
    rw [hconfig, BitVec.lt_def, BitVec.lt_def, word_toNat (by omega), word_toNat (by omega)]
  rw [Image.sysHeapInfo]
  by_cases hmesh : x.toNat < a.xSize ∧ y.toNat < a.ySize
  · rw [if_pos (hin.2 hmesh)]
    dsimp only
    have hcluster {w : Word} {t : TaskDecl}
        (hk : (declared a calls).tasks[w.toNat]? = some t) :
        (im.task w).clusterid = x * im.config.ySize + y ↔ t.x = x.toNat ∧ t.y = y.toNat := by
      have hid := h.taskCluster hw hk (hmeshed.tasks t (List.mem_of_getElem? hk))
      rw [← word_eq_ofNat] at hid
      rw [← isCluster_iff hid hmesh.2, ← BitVec.toNat_inj, hconfig,
        place_toNat hmax hmesh.1 hmesh.2]
    have hheap : ∀ w ∈ wordRange (im.vspace (BitVec.ofNat 32 self.vspace)).taskOffset
        ((im.vspace (BitVec.ofNat 32 self.vspace)).taskOffset +
          (im.vspace (BitVec.ofNat 32 self.vspace)).tasks),
        (im.task w).heapVsegId ≠ 0xFFFFFFFF := by
      intro w hmem
      obtain ⟨t, ht, _⟩ := (h.mem_taskRange hw hs).1 hmem
      obtain ⟨_, _, hne⟩ := h.givenHeap hw ht
      exact hne
    obtain ⟨w, hmem, hw', heq⟩ | ⟨hnone, heq⟩ := scanHeaps_spec hheap
    · left
      obtain ⟨t, ht, howner⟩ := (h.mem_taskRange hw hs).1 hmem
      rw [heq]
      refine ⟨t, List.mem_of_getElem? ht, ⟨howner.trans hvspace, ?_⟩, h.heapInfo_eq hw ht⟩
      rw [if_pos hmesh]
      exact (hcluster ht).1 hw'
    · right
      constructor
      · intro t ht ⟨howner, hat⟩
        rw [if_pos hmesh] at hat
        obtain ⟨k, hk⟩ := List.getElem?_of_mem ht
        have hkw : (BitVec.ofNat 32 k).toNat = k :=
          word_toNat (by have := (List.getElem?_eq_some_iff.1 hk).1; omega)
        rw [← hkw] at hk
        have hmem := (h.mem_taskRange hw hs).2 ⟨t, hk, howner.trans hvspace.symm⟩
        exact hnone _ hmem ((hcluster hk).2 hat)
      · rw [heq]
        rfl
  · left
    rw [if_neg (hin.not.2 hmesh)]
    refine ⟨self, List.mem_of_getElem? hself, ⟨rfl, ?_⟩, h.heapInfo_eq hw hself⟩
    rw [if_neg hmesh]

/-- The task of the small script is given its heap. -/
theorem sysHeapInfo_declared_small :
    ∃ m bytes, buildMapping smallArgs (smallScript [0x73]) = .ok m ∧ m.cbin = .ok bytes ∧
      ∀ base, ∃ vaddr length, Image.sysHeapInfo ⟨⟨1, 1⟩, ByteMemory.ofBytes base bytes, base⟩
        0 0 0 0 = ⟨vaddr, length, 0⟩ := by
  obtain ⟨m, bytes, hbuild, hcbin, hload⟩ :=
    exists_written smallArgs (smallScript [0x73]) (by decide +kernel)
  refine ⟨m, bytes, hbuild, hcbin, ?_⟩
  intro base
  have hmeshed : Meshed smallArgs (declared smallArgs (smallScript [0x73])) :=
    ⟨by decide, by decide, by decide, by decide⟩
  have hself : (declared smallArgs (smallScript [0x73])).tasks[(0 : Word).toNat]? =
      some ⟨⟨[0x74], 0, 0, 0, 0, [0x73], [0x73], 0⟩, 0⟩ := rfl
  obtain ⟨_, _, _, _, _, vaddr, length, _, hinfo, _⟩ | ⟨hnone, _⟩ :=
    sysHeapInfo_declared hbuild hcbin (hload base) hmeshed (x := 0) (y := 0) hself
  · exact ⟨vaddr, length, hinfo⟩
  · exact absurd ⟨rfl, by decide⟩ (hnone _ List.mem_cons_self)

/-! ## Kernel heaps -/

namespace Agrees

variable {a : MappingArgs} {d : Declared} {m : Mapping} {im : Image}

end Agrees

/-- How many processors were declared at the coordinates. -/
def Declared.procsAt (d : Declared) (x y : ℕ) : ℕ := 
  d.procs.countP fun p : ProcessorArgs => p.x = x ∧ p.y = y

/-- The clusters below the two bounds have as many processors as the first cluster. -/
def Declared.SameProcs (d : Declared) (xs ys : ℕ) : Prop :=
  ∀ y < ys, ∀ x < xs, d.procsAt x y = d.procsAt 0 0

instance (d : Declared) (xs ys : ℕ) : Decidable (d.SameProcs xs ys) :=
  inferInstanceAs (Decidable (∀ y < ys, ∀ x < xs, _))

theorem all_wordRange {n : ℕ} (hn : n < 2 ^ 32) {test : Word → Bool} :
    (wordRange 0 (BitVec.ofNat 32 n)).all test = true ↔
      ∀ k < n, test (BitVec.ofNat 32 k) = true := by
  rw [List.all_eq_true]
  constructor
  · intro h k hk
    apply h
    rw [mem_wordRange, BitVec.lt_def, word_toNat (by omega), word_toNat hn]
    exact ⟨Nat.zero_le _, hk⟩
  · intro h w hw
    rw [mem_wordRange, BitVec.lt_def, word_toNat hn] at hw
    rw [word_eq_ofNat w]
    exact h w.toNat hw.2

/-- The number of processors that the kernel reads for a cluster. -/
theorem Agrees.clusterProcs {a : MappingArgs} {d : Declared} {m : Mapping} {im : Image}
    (h : Agrees a d m) (hw : Written im m) (hmeshed : Meshed a d) {x y : ℕ} (hx : x < a.xSize)
    (hy : y < a.ySize) :
    (im.cluster (BitVec.ofNat 32 (x * a.ySize + y))).procs = BitVec.ofNat 32 (d.procsAt x y) := by
  obtain ⟨hdiv, hmod⟩ := place_div_mod (x := x) hy
  have hlt : x * a.ySize + y < a.xSize * a.ySize := by
    calc x * a.ySize + y < x * a.ySize + a.ySize := by omega
      _ = (x + 1) * a.ySize := by rw [Nat.add_mul, Nat.one_mul]
      _ ≤ a.xSize * a.ySize := Nat.mul_le_mul_right _ hx
  have hrefs := (h.clusterRefs hw hmeshed hlt).procs
  have hcount : d.procsAt x y =
      (im.cluster (BitVec.ofNat 32 (x * a.ySize + y))).procs.toNat := by
    apply countP_eq_of_interval
    intro k
    rw [hrefs k]
    simp only [MappingArgs.At, hdiv, hmod, decide_eq_true_eq]
  rw [hcount, ← word_eq_ofNat]

/-- The kernel compares numbers of processors. -/
theorem Agrees.clusterProcs_eq_iff {a : MappingArgs} {d : Declared} {m : Mapping} {im : Image}
    (h : Agrees a d m) (hw : Written im m) (hmeshed : Meshed a d) {x y : ℕ} (hx : x < a.xSize)
    (hy : y < a.ySize) :
    (im.cluster (BitVec.ofNat 32 (x * a.ySize + y))).procs = (im.cluster 0).procs ↔
      d.procsAt x y = d.procsAt 0 0 := by
  have hzero := h.clusterProcs hw hmeshed (Nat.zero_lt_of_lt hx) (Nat.zero_lt_of_lt hy)
  rw [Nat.zero_mul] at hzero
  have hsizes := h.sizes hw
  have hle (x y : ℕ) : d.procsAt x y ≤ d.procs.length := List.countP_le_length
  have hle₀ := hle 0 0
  have hle₁ := hle x y
  change _ = (im.cluster (BitVec.ofNat 32 (0 + 0))).procs ↔ _
  rw [h.clusterProcs hw hmeshed hx hy, hzero, ← BitVec.toNat_inj, word_toNat (by omega),
    word_toNat (by omega)]

/-- `_sys_procs_number` gives the size of the mesh and the number of processors of every cluster
when it is the same, or else the same without the upper row, or else zeros. -/
theorem sysProcsNumber_declared {a : MappingArgs} {calls : List Call} {m : Mapping}
    {bytes : Text} {im : Image} (hbuild : buildMapping a calls = .ok m)
    (hcbin : m.cbin = .ok bytes) (hload : Loaded im a bytes)
    (hmeshed : Meshed a (declared a calls)) (hx : 0 < a.xSize) (hy : 0 < a.ySize) :
    im.sysProcsNumber =
      if (declared a calls).SameProcs a.xSize a.ySize then
        (BitVec.ofNat 32 a.xSize, BitVec.ofNat 32 a.ySize,
          BitVec.ofNat 32 ((declared a calls).procsAt 0 0))
      else if (declared a calls).SameProcs a.xSize (a.ySize - 1) then
        (BitVec.ofNat 32 a.xSize, BitVec.ofNat 32 (a.ySize - 1),
          BitVec.ofNat 32 ((declared a calls).procsAt 0 0))
      else (0, 0, 0) := by
  have h := buildMapping_agrees hbuild
  have hw : Written im m := cbin_written h.counted hcbin (h.args ▸ hload)
  have hmax := buildMapping_sizes hbuild
  have hxmax : im.header.xSize = BitVec.ofNat 32 a.xSize := by
    rw [hw.header, ← h.args]
    rfl
  have hymax : im.header.ySize = BitVec.ofNat 32 a.ySize := by
    rw [hw.header, ← h.args]
    rfl
  have hpred : BitVec.ofNat 32 a.ySize - 1 = BitVec.ofNat 32 (a.ySize - 1) := by
    rw [← BitVec.toNat_inj, BitVec.toNat_sub, word_toNat (by omega), word_toNat (by omega)]
    change (2 ^ 32 - 1 + a.ySize) % 2 ^ 32 = _
    omega
  have hprocs : (im.cluster 0).procs = BitVec.ofNat 32 ((declared a calls).procsAt 0 0) := by
    have hzero := h.clusterProcs hw hmeshed hx hy
    rwa [Nat.zero_mul] at hzero
  have hmin : ((wordRange 0 (BitVec.ofNat 32 (a.ySize - 1))).all fun y =>
      (wordRange 0 (BitVec.ofNat 32 a.xSize)).all fun x =>
        (im.cluster (x * BitVec.ofNat 32 a.ySize + y)).procs = (im.cluster 0).procs) = true ↔
      (declared a calls).SameProcs a.xSize (a.ySize - 1) := by
    rw [all_wordRange (by omega)]
    refine forall₂_congr fun y hlty => ?_
    rw [all_wordRange (by omega)]
    refine forall₂_congr fun x hltx => ?_
    rw [decide_eq_true_eq, ← BitVec.ofNat_mul, ← BitVec.ofNat_add,
      h.clusterProcs_eq_iff hw hmeshed hltx (by omega)]
  have htop : ((wordRange 0 (BitVec.ofNat 32 a.xSize)).all fun x =>
      (im.cluster (x * BitVec.ofNat 32 a.ySize + BitVec.ofNat 32 a.ySize - 1)).procs =
        (im.cluster 0).procs) = true ↔
      ∀ x < a.xSize, (declared a calls).procsAt x (a.ySize - 1) =
        (declared a calls).procsAt 0 0 := by
    rw [all_wordRange (by omega)]
    refine forall₂_congr fun x hltx => ?_
    rw [decide_eq_true_eq, add_sub_assoc, hpred, ← BitVec.ofNat_mul, ← BitVec.ofNat_add,
      h.clusterProcs_eq_iff hw hmeshed hltx (by omega)]
  have hall : (declared a calls).SameProcs a.xSize a.ySize ↔
      (declared a calls).SameProcs a.xSize (a.ySize - 1) ∧
        ∀ x < a.xSize, (declared a calls).procsAt x (a.ySize - 1) =
          (declared a calls).procsAt 0 0 := by
    constructor
    · intro hsame
      exact ⟨fun y hlt => hsame y (by omega), hsame (a.ySize - 1) (by omega)⟩
    · intro ⟨hlow, hupper⟩ y hlt
      obtain hlt | heq : y < a.ySize - 1 ∨ y = a.ySize - 1 := by omega
      · exact hlow y hlt
      · rw [heq]
        exact hupper
  rw [Image.sysProcsNumber, hxmax, hymax, hpred]
  refine ite_congr ?_ (fun _ => by rw [hprocs])
    (fun _ => ite_congr (propext hmin) (fun _ => by rw [hprocs]) (fun _ => rfl))
  rw [Bool.and_eq_true, hall]
  exact propext (and_congr hmin htop)

/-- The small script has one cluster with one processor. -/
theorem sysProcsNumber_declared_small :
    ∃ m bytes, buildMapping smallArgs (smallScript []) = .ok m ∧ m.cbin = .ok bytes ∧
      ∀ base, Image.sysProcsNumber ⟨⟨1, 1⟩, ByteMemory.ofBytes base bytes, base⟩ = (1, 1, 1) := by
  obtain ⟨m, bytes, hbuild, hcbin, hload⟩ :=
    exists_written smallArgs (smallScript []) (by decide +kernel)
  refine ⟨m, bytes, hbuild, hcbin, ?_⟩
  intro base
  have hmeshed : Meshed smallArgs (declared smallArgs (smallScript [])) :=
    ⟨by decide, by decide, by decide, by decide⟩
  exact sysProcsNumber_declared hbuild hcbin (hload base) hmeshed (by decide) (by decide)

end GietVm.Genmap
