import GietVm.Fat.FreedSlots
import GietVm.Fat.Extend

/-!
# Truncation of a file

`TruncationComplete` is what the truncation of a file should do. `_fat_open` releases the
chain but leaves the first cluster in the inode, so that the inode of a file that had
clusters designates a free one. It releases a chain even when the file has none, and counts
at least one free cluster too many. So no truncation is complete.
-/

namespace GietVm.Fat

open GietVm.Library

/-- The cells of a 64-tree: descriptors, buffers and nodes. -/
def treeCells : CacheTree → List Ptr
  | .null => []
  | .leaf desc => [desc.bufferAddress, desc.address]
  | .node address children => address :: (List.finRange 64).flatMap fun i => treeCells (children i)

/-- The clusters of a file. -/
def FatState.fileClusters (s : FatState) (inode : Inode) : List ℕ :=
  (List.range (clustersOfSize inode.size)).map fun j => s.chain j inode.cluster

/-- The file of the inode `p`, which was `inode` in `s`, is truncated in `s'`. -/
structure TruncationComplete (s s' : FatState) (p : Ptr) (inode : Inode) : Prop where
  size : ∀ inode', s'.inodes p = some inode' → inode'.size = 0
  /-- The size in the directory entry. -/
  entry : (s'.block inode.parent (inode.dentry / 0x80)).word (inode.dentry % 0x80 * 32 + 28) = 0
  /-- The root of the File-Cache stays, without children. -/
  cache : ∀ inode', s'.inodes p = some inode' → inode'.levels = getLevelsFromSize 0 ∧
    ∃ address children, inode.cache = .node address children ∧
      inode'.cache = RadixTree.emptyNode address
  released : (s'.freed).Perm ((treeCells inode.cache).tail ++ s.freed)
  clusters : ∀ c < s.slots, s'.fatEntry c =
    if c ∈ s.fileClusters inode then freeCluster else s.fatEntry c
  number : s'.freeClustersNumber = s.freeClustersNumber + (s.fileClusters inode).length
  first : ∀ inode', s'.inodes p = some inode' → inode'.cluster < s.slots →
    s'.fatEntry inode'.cluster ≠ freeCluster

/-! ## The steps of the call -/

/-- Computations that keep the FAT, if its cache is well formed. -/
abbrev KeepsFat {α : Type} (x : FatM α) : Prop := Steps (fun s s' => s.FatCacheOk → Kept s s') x

section KeepsFat

variable {α β : Type}

theorem KeepsFat.bind {x : FatM α} {f : α → FatM β} (hx : KeepsFat x) (hf : ∀ a, KeepsFat (f a)) :
    KeepsFat (x >>= f) :=
  Steps.bind (fun h h' hok => (h hok).trans (h' (h hok).ok)) hx hf

theorem KeepsFat.pure (a : α) : KeepsFat (pure a) := Steps.pure (fun _ hok => Kept.refl hok) a

theorem KeepsFat.throw (e : FatError) : KeepsFat (throw e : FatM α) := Steps.throw e

/-- Operations on a File-Cache. -/
theorem Loads.keepsFat {p : Ptr} {x : FatM α} (hx : Loads (some p) x) : KeepsFat x :=
  hx.mono fun _ _ h hok => Kept.of_loaded hok h

theorem keepsFat_modifyInode (p : Ptr) {f : Inode → Inode} (hparent : ∀ i, (f i).parent = i.parent)
    (hcluster : ∀ i, (f i).cluster = i.cluster) : KeepsFat (modifyInode p f) := by
  intro s _ s' h hok
  rw [modifyInode] at h
  split at h
  · rename_i inode hp
    injection h with _ hs
    subst hs
    refine Kept.of_fat hok rfl rfl rfl fun q inode' hq => ?_
    by_cases hqp : q = p
    · subst hqp
      rw [hp, Option.some.injEq] at hq
      subst hq
      exact ⟨f inode, Function.update_self .., hparent _, hcluster _⟩
    · exact ⟨inode', (Function.update_of_ne hqp ..).trans hq, rfl, rfl⟩
  · cases h

theorem keepsFat_getFatEntry (c : ℕ) : KeepsFat (getFatEntry c) :=
  fun _ _ _ h hok => (getFatEntry_inv hok h).1

/-- Loading a cluster of a directory. -/
theorem keepsFat_getBufferFromCache (p : Ptr) (k : ℕ) :
    KeepsFat (getBufferFromCache (some p) k) :=
  steps_getBufferFromCache (fun _ _ _ h h' hok => (h hok).trans (h' (h hok).ok))
    (fun _ _ h hok => Kept.of_loaded hok h) keepsFat_getFatEntry k

/-- Updating the entry of an inode in its directory. -/
theorem updateDirEntry_kept {s s' : FatState} {p q : Ptr} {inode : Inode}
    (hp : s.inodes p = some inode) (hparent : inode.parent = some q) {r : Bool}
    (h : updateDirEntry p s = .ok r s') (hok : s.FatCacheOk) : Kept s s' := by
  rw [updateDirEntry, exits_bind_ok (getInode_run hp), hparent] at h
  refine KeepsFat.bind (keepsFat_getBufferFromCache q (inode.dentry / 0x80)) (fun b => ?_) s r s'
    h hok
  cases b with
  | none => exact KeepsFat.pure _
  | some _ => exact (loads_modifyDesc (some q) _ _).keepsFat.bind fun _ => KeepsFat.pure _

end KeepsFat

/-! ## The outcome of the call -/

/-- A truncation that returns has released at least one cluster, the first one of the inode, and
has kept this cluster in the inode. -/
theorem truncateFile_inv {s s' : FatState} {p q : Ptr} {inode : Inode} (hok : s.FatCacheOk)
    (hlevels : s.fatCacheLevels ≤ 3) (hp : s.inodes p = some inode)
    (hparent : inode.parent = some q) {fuel : ℕ} (h : truncateFile fuel p s = .ok false s') :
    ∃ m inode', 1 ≤ m ∧ m < 0x40000000 ∧ s'.FatCacheOk ∧ s'.fatCacheLevels = s.fatCacheLevels ∧
      s'.freeClustersNumber = u32 (s.freeClustersNumber + m) ∧ s'.Cleared inode.cluster ∧
      s'.inodes p = some inode' ∧ inode'.cluster = inode.cluster := by
  obtain ⟨_, s₁, hmodify, h⟩ := exits_bind_inv h
  have hkept₁ : Kept s s₁ := by
    refine keepsFat_modifyInode p ?_ ?_ s _ s₁ hmodify hok
    · exact fun _ => rfl
    · exact fun _ => rfl
  obtain ⟨_, s₂, hrelease, h⟩ := exits_bind_inv h
  have hkept₂ := hkept₁.trans ((loads_releaseCacheMemory p).keepsFat s₁ _ s₂ hrelease hkept₁.ok)
  obtain ⟨inode₂, hp₂, hparent₂, hcluster₂⟩ := hkept₂.inodes p inode hp
  rw [exits_bind_ok (getInode_run hp₂), hcluster₂] at h
  obtain ⟨b, s₃, hclusters, h⟩ := exits_bind_inv h
  cases b with
  | true =>
    injection h with hr _
    cases hr
  | false =>
    obtain ⟨m, hpos, hm, hvisit⟩ :=
      clustersRelease_inv hkept₂.ok (by rw [hkept₂.levels]; exact hlevels) hclusters
    obtain ⟨inode₃, hp₃, hparent₃, hcluster₃⟩ := hvisit.inodes p inode₂ hp₂
    have hkept₄ : Kept s₃ s' :=
      updateDirEntry_kept hp₃ (hparent₃.trans (hparent₂.trans hparent)) h hvisit.ok
    obtain ⟨inode₄, hp₄, -, hcluster₄⟩ := hkept₄.inodes p inode₃ hp₃
    refine ⟨m, inode₄, hpos, hm, hkept₄.ok, hkept₄.levels.trans (hvisit.levels.trans hkept₂.levels),
      ?_, hkept₄.cleared _ hvisit.here, hp₄, hcluster₄.trans (hcluster₃.trans hcluster₂)⟩
    rw [hkept₄.number, hvisit.number, hkept₂.number]

/-- A cleared slot in the part of the FAT that the Fat-Cache covers is a free slot. -/
theorem FatState.Cleared.fatEntry {s : FatState} {c : ℕ} (h : s.Cleared c) (hin : s.InFat c) :
    s.fatEntry c = freeCluster := by
  obtain ⟨desc, hleaf, hzero⟩ := h
  have hslot : s.slot none (c / 0x400) = some desc := by
    rw [FatState.slot, FatState.cacheAt]
    simp only [slotOf, if_pos (show c / 0x400 < 64 ^ s.fatCacheLevels from hin)]
    exact hleaf
  rw [FatState.fatEntry, FatState.fatBlock, hslot, hzero]

/-- Opening an inode for truncation, with the state before the truncation itself. -/
theorem openInode_inv {s s' : FatState} {p : Ptr} {inode : Inode} (hok : s.FatCacheOk)
    (hp : s.inodes p = some inode) (hfile : inode.isDir = false) {fuel : ℕ} {code : ℤ}
    (hcode : 0 ≤ code) (h : openInode fuel p false true s = .ok code s') :
    ∃ s₁, Kept s s₁ ∧ truncateFile fuel p s₁ = .ok false s' := by
  rw [openInode, exits_bind_get] at h
  cases hfd : findFreeFd s.fd with
  | none =>
    simp only [hfd] at h
    injection h with hcode' _
    rw [← hcode'] at hcode
    exact absurd hcode (by decide)
  | some fdId =>
    simp only [hfd] at h
    set s₁ : FatState := { s with fd := Function.update s.fd fdId ⟨0, p, true, false⟩ } with hs₁
    set opened : Inode := { inode with count := u32 (inode.count + 1) } with hopened
    have hp₁ : s₁.inodes p = some inode := hp
    have hp₂ : (s₁.setInode p opened).inodes p = some opened := Function.update_self ..
    have hkept : Kept s (s₁.setInode p opened) := by
      refine Kept.of_fat hok rfl rfl rfl fun q inode' hq => ?_
      by_cases hqp : q = p
      · rw [hqp, hp, Option.some.injEq] at hq
        subst hq
        exact ⟨opened, by rw [hqp]; exact hp₂, rfl, rfl⟩
      · exact ⟨inode', (Function.update_of_ne hqp ..).trans hq, rfl, rfl⟩
    rw [exits_bind_modify] at h
    rw [exits_bind_ok (modifyInode_run hp₁ _), exits_bind_ok (getInode_run hp₂),
      if_pos (by simp [hopened, hfile])] at h
    obtain ⟨b, s₂, htruncate, h⟩ := exits_bind_inv h
    cases b with
    | true =>
      injection h with hcode' _
      rw [← hcode'] at hcode
      exact absurd hcode (by decide)
    | false =>
      injection h with _ hs
      subst hs
      exact ⟨_, hkept, htruncate⟩

/-- A call that found the file and returned a descriptor. -/
theorem fatOpen_found {s s₀ s' : FatState} {fuel flags : ℕ} {pathname : List UInt8} {p : Ptr}
    (hpath : getInodeFromPath fuel pathname s = .ok (.found p) s₀) {code : ℤ} (hcode : 0 ≤ code)
    (h : fatOpen fuel pathname flags s = .ok code s') :
    openInode fuel p (flags.testBit 0) (flags.testBit 4) s₀ = .ok code s' := by
  rw [fatOpen, exits_bind_get] at h
  split at h
  · injection h with hcode' _
    rw [← hcode'] at hcode
    exact absurd hcode (by decide)
  · rwa [exits_bind_ok hpath] at h

/-- No truncation by `_fat_open` is complete. -/
theorem fatOpen_not_truncationComplete {s s₀ s' : FatState} {fuel flags : ℕ}
    {pathname : List UInt8} {p q : Ptr} {inode : Inode} {code : ℤ}
    (htruncate : flags.testBit 4 = true) (hwrite : flags.testBit 0 = false)
    (hpath : getInodeFromPath fuel pathname s = .ok (.found p) s₀) (hv : s₀.Volume)
    (hp : s₀.inodes p = some inode) (hfile : inode.isDir = false) (hparent : inode.parent = some q)
    (hcluster : inode.size ≠ 0 → inode.cluster < s₀.slots)
    (hrun : fatOpen fuel pathname flags s = .ok code s') (hcode : 0 ≤ code) :
    ¬ TruncationComplete s₀ s' p inode := by
  intro hcomplete
  have hopen := fatOpen_found hpath hcode hrun
  rw [htruncate, hwrite] at hopen
  obtain ⟨s₁, hkept, htrunc⟩ := openInode_inv hv.fatOk hp hfile hcode hopen
  obtain ⟨inode₁, hp₁, hparent₁, hcluster₁⟩ := hkept.inodes p inode hp
  obtain ⟨m, inode', hpos, hm, -, hlevels, hnumber, hcleared, hp', hcluster'⟩ :=
    truncateFile_inv hkept.ok (by rw [hkept.levels]; exact hv.levels_le) hp₁
      (hparent₁.trans hparent) htrunc
  rw [hkept.number] at hnumber
  by_cases hsize : inode.size = 0
  · -- an empty file: the release of its first cluster counts as one at least
    have hcount := hcomplete.number
    have hnone : (s₀.fileClusters inode).length = 0 := by
      rw [FatState.fileClusters, List.length_map, List.length_range, hsize]
      rfl
    rw [hnone, hnumber, u32] at hcount
    omega
  · have hin : s'.InFat inode.cluster := by
      rw [FatState.InFat, hlevels, hkept.levels]
      exact hv.inFat (hcluster hsize)
    rw [hcluster₁] at hcleared hcluster'
    refine hcomplete.first inode' hp' (by rw [hcluster']; exact hcluster hsize) ?_
    rw [hcluster']
    exact hcleared.fatEntry hin

/-! ## A small tree -/

/-- The root directory of a small tree. -/
def smallRoot : Inode where
  parent := none
  next := none
  child := some 7
  cache := RadixTree.emptyNode 3
  cluster := 2
  size := 0
  count := 0
  dentry := 0
  levels := 1
  isDir := true
  name := [0x2F]

/-- The file of one cluster in that directory. -/
def smallChild : Inode := { smallFile with parent := some 6, count := 0 }

/-- A volume with a root directory and a file. -/
def smallTree : FatState :=
  { volumeOf [5, 9] smallFile with
    initialized := true
    inodeTreeRoot := 6
    inodes := fun p => if p = 6 then some smallRoot else if p = 7 then some smallChild else none }

theorem smallTree_volume : smallTree.Volume := by
  have hv := volumeOf_volume [5, 9] smallFile
  exact ⟨hv.fatLba, hv.dataSectors, hv.slots, hv.levels, hv.fatOk, hv.deviceOk, hv.coherent⟩

/-- The calls on this tree are evaluated through a test of their outcome. -/
theorem ok_of_test {α : Type} {r : EStateM.Result FatError FatState α} {P : α → FatState → Bool}
    (h : (match r with | .ok a s => P a s | .error _ _ => false) = true) :
    ∃ a s, r = .ok a s ∧ P a s = true := by
  cases r with
  | ok a s => exact ⟨a, s, rfl, h⟩
  | error e s => cases h

theorem smallTree_open : ∃ code s', fatOpen 5 [0x2F, 0x66] 0x10 smallTree = .ok code s' ∧
    decide (code = 0 ∧ s'.fatEntry 3 = 0 ∧ (s'.inodes 7).map Inode.cluster = some 3) = true :=
  ok_of_test (by decide +kernel)

/-- The truncation of a file of one cluster. -/
theorem fatOpen_not_truncationComplete_small :
    ∃ s', fatOpen 5 [0x2F, 0x66] 0x10 smallTree = .ok 0 s' ∧
      ¬ TruncationComplete smallTree s' 7 smallChild := by
  obtain ⟨code, s', hrun, htest⟩ := smallTree_open
  have hcode : code = 0 := (of_decide_eq_true htest).1
  subst hcode
  have hslots : smallTree.slots = 2048 := volumeOf_slots [5, 9] smallFile
  have hpath : getInodeFromPath 5 [0x2F, 0x66] smallTree = .ok (.found 7) smallTree := rfl
  exact ⟨s', hrun, fatOpen_not_truncationComplete (q := 6) (by decide) (by decide) hpath
    smallTree_volume rfl rfl rfl (fun _ => by rw [hslots]; decide) hrun le_rfl⟩

/-- The first cluster of the truncated file is free. -/
theorem not_truncationComplete_small :
    ∃ s', fatOpen 5 [0x2F, 0x66] 0x10 smallTree = .ok 0 s' ∧
      ¬ TruncationComplete smallTree s' 7 smallChild := by
  obtain ⟨code, s', hrun, htest⟩ := smallTree_open
  obtain ⟨rfl, hfree, hcluster⟩ := of_decide_eq_true htest
  rw [Option.map_eq_some_iff] at hcluster
  obtain ⟨inode', hp', hcluster⟩ := hcluster
  have hslots : smallTree.slots = 2048 := volumeOf_slots [5, 9] smallFile
  refine ⟨s', hrun, fun hcomplete => hcomplete.first inode' hp' ?_ ?_⟩
  · rw [hcluster, hslots]
    decide
  · rw [hcluster]
    exact hfree

end GietVm.Fat
