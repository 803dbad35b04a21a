import GietVm.Fat.FileBytes

/-!
# Closing a file

The last `_fat_close` of a file writes the dirty clusters of its File-Cache and of that of its
directory to the device, and releases the descriptors of the file. The bytes of all files stay what
they were: what a cache does not show any more is found on the device, at the place that the chain
of the file in the FAT gives.

The clusters of files and directories must not overlap each other, nor the blocks of the FAT that
their chains go through. `Laid` says so of some files and directories, together with what their
caches know of the device, and both parts of `_fat_close` keep it.
-/

namespace GietVm.Fat

open GietVm.Library

/-! ## Files that do not overlap -/

/-- The first clusters of some files and directories can be loaded, and overlap neither each other
nor the blocks of the FAT where their chains are. -/
structure FatState.Laid (s : FatState) (owners : Set Ptr) (n : Ptr → ℕ) (blocks : ℕ) : Prop where
  ready : ∀ p ∈ owners, s.DirReady p (n p)
  coherent : ∀ p ∈ owners, s.Coherent p (n p)
  apart : ∀ p ∈ owners, ∀ q ∈ owners, ∀ j < n p, ∀ k < n q, p ≠ q ∨ j ≠ k →
    Apart (s.lbaOf (some p) j) (s.lbaOf (some q) k)
  fat : ∀ p ∈ owners, ∀ j < n p, ∀ b < blocks, Apart (s.lbaOf (some p) j) (s.lbaOf none b)
  chains : ∀ p ∈ owners, ∀ inode, s.inodes p = some inode → ∀ j < n p,
    s.chain j inode.cluster / 0x400 < blocks

/-- A step that keeps the content of the files: it may write clusters to the device, mark their
descriptors as clean, and drop those of clean ones. -/
structure Stores (owners : Set Ptr) (n : Ptr → ℕ) (s s' : FatState) : Prop where
  fatCache : s'.cacheAt none = s.cacheAt none
  fatLba : s'.fatLba = s.fatLba
  dataLba : s'.dataLba = s.dataLba
  fails : s'.device.fails = s.device.fails
  cluster : ∀ p, (s'.inodes p).map Inode.cluster = (s.inodes p).map Inode.cluster
  cacheOk : ∀ p levels root, s.cacheAt (some p) = some (levels, root) → CacheOk levels root →
    ∃ root', s'.cacheAt (some p) = some (levels, root') ∧ CacheOk levels root'
  /-- A descriptor has its buffer and place from before, and a clean one agrees with the device. -/
  slots : ∀ p ∈ owners, ∀ k desc, s'.slot (some p) k = some desc →
    ∃ desc₀, s.slot (some p) k = some desc₀ ∧ desc.lba = desc₀.lba ∧
      desc.buffer = desc₀.buffer ∧ (desc₀.dirty = false → desc.dirty = false) ∧
      (desc.dirty = false → desc.buffer = s'.device.disk.load 4096 desc.lba)
  /-- What has no descriptor any more is on the device. -/
  stored : ∀ p ∈ owners, ∀ k < n p, s'.slot (some p) k = none →
    s'.device.disk.load 4096 (s.lbaOf (some p) k) = s.block (some p) k
  /-- The device changes only in the clusters of the files. -/
  apart : ∀ lba, (∀ p ∈ owners, ∀ k < n p, Apart (s.lbaOf (some p) k) lba) →
    s'.device.disk.load 4096 lba = s.device.disk.load 4096 lba

section Stores

variable {s s' : FatState} {owners : Set Ptr} {n : Ptr → ℕ} {blocks : ℕ} {p : Ptr} {k : ℕ}

theorem Stores.fatEntry (h : Stores owners n s s') (hs : s.Laid owners n blocks) {cluster : ℕ}
    (hc : cluster / 0x400 < blocks) : s'.fatEntry cluster = s.fatEntry cluster := by
  have hslot : s'.slot none (cluster / 0x400) = s.slot none (cluster / 0x400) := by
    rw [FatState.slot, FatState.slot, h.fatCache]
  rw [FatState.fatEntry, FatState.fatEntry, FatState.fatBlock, FatState.fatBlock, hslot]
  cases s.slot none (cluster / 0x400) with
  | some desc => rfl
  | none =>
    have hload := h.apart _ fun p hp k hk => hs.fat p hp k hk _ hc
    rw [FatState.lbaOf] at hload
    dsimp only
    rw [h.fatLba, hload]

theorem chain_congr {cluster : ℕ}
    (h : ∀ j < k, s'.fatEntry (s.chain j cluster) = s.fatEntry (s.chain j cluster)) :
    s'.chain k cluster = s.chain k cluster := by
  induction k generalizing cluster with
  | zero => rfl
  | succ k ih =>
    have hfirst : s'.fatEntry cluster = s.fatEntry cluster := h 0 (Nat.succ_pos k)
    rw [FatState.chain, FatState.chain, hfirst]
    apply ih
    intro j hj
    exact h (j + 1) (Nat.succ_lt_succ hj)

theorem Stores.chain (h : Stores owners n s s') (hs : s.Laid owners n blocks) (hp : p ∈ owners)
    {inode : Inode} (hinode : s.inodes p = some inode) (hk : k < n p) :
    s'.chain k inode.cluster = s.chain k inode.cluster := by
  apply chain_congr
  intro j hj
  exact h.fatEntry hs (hs.chains p hp inode hinode j (hj.trans hk))

theorem Stores.inode (h : Stores owners n s s') {inode : Inode} (hinode : s.inodes p = some inode) :
    ∃ inode', s'.inodes p = some inode' ∧ inode'.cluster = inode.cluster := by
  have hcluster := h.cluster p
  rw [hinode, Option.map_some, Option.map_eq_some_iff] at hcluster
  exact hcluster

theorem Stores.lbaOf (h : Stores owners n s s') (hs : s.Laid owners n blocks) (hp : p ∈ owners)
    (hk : k < n p) : s'.lbaOf (some p) k = s.lbaOf (some p) k := by
  obtain ⟨inode, hinode, -⟩ := (hs.ready p hp).live
  obtain ⟨inode', hinode', hcluster⟩ := h.inode hinode
  rw [FatState.lbaOf, FatState.lbaOf, hinode, hinode', h.dataLba]
  dsimp only
  rw [hcluster, h.chain hs hp hinode hk]

/-- No content changes. -/
theorem Stores.block (h : Stores owners n s s') (hs : s.Laid owners n blocks) (hp : p ∈ owners)
    (hk : k < n p) : s'.block (some p) k = s.block (some p) k := by
  rw [FatState.block]
  cases hslot : s'.slot (some p) k with
  | some desc =>
    obtain ⟨desc₀, hslot₀, -, hbuffer, -⟩ := h.slots p hp k desc hslot
    rw [FatState.block, hslot₀]
    exact hbuffer
  | none =>
    dsimp only
    rw [h.lbaOf hs hp hk]
    exact h.stored p hp k hk hslot

theorem Stores.laid (h : Stores owners n s s') (hs : s.Laid owners n blocks) :
    s'.Laid owners n blocks where
  ready := by
    intro p hp
    obtain ⟨hfat, hdev, inode, hinode, hok, hbound, hreach⟩ := hs.ready p hp
    have hcaches := h.fatCache
    rw [FatState.cacheAt, FatState.cacheAt, Option.some.injEq, Prod.mk.injEq] at hcaches
    obtain ⟨inode', hinode', hcluster⟩ := h.inode hinode
    obtain ⟨root, hroot, hok'⟩ := h.cacheOk p _ _ (cacheAt_inode hinode) hok
    rw [cacheAt_inode hinode', Option.some.injEq, Prod.mk.injEq] at hroot
    refine ⟨?_, ?_, inode', hinode', ?_, ?_, fun k hk => ⟨fun j hj => ?_, ?_⟩⟩
    · rw [FatState.FatCacheOk, hcaches.1, hcaches.2]
      exact hfat
    · intro m
      rw [h.fails]
      exact hdev m
    · rwa [hroot.1, hroot.2]
    · rwa [hroot.1]
    · rw [hcluster, h.chain hs hp hinode (hj.trans hk), FatState.InFat, hcaches.1]
      exact (hreach k hk).inFat j hj
    · rw [hcluster, h.chain hs hp hinode hk]
      exact (hreach k hk).data
  coherent := by
    intro p hp k desc hslot
    obtain ⟨desc₀, hslot₀, hlba, -, -, hclean⟩ := h.slots p hp k desc hslot
    obtain ⟨hk, hplace, -⟩ := hs.coherent p hp k desc₀ hslot₀
    refine ⟨hk, ?_, hclean⟩
    rw [hlba, hplace, h.lbaOf hs hp hk]
  apart := by
    intro p hp q hq j hj k hk hne
    rw [h.lbaOf hs hp hj, h.lbaOf hs hq hk]
    exact hs.apart p hp q hq j hj k hk hne
  fat := by
    intro p hp j hj b hb
    have hsame : s'.lbaOf none b = s.lbaOf none b := by
      rw [FatState.lbaOf, FatState.lbaOf, h.fatLba]
    rw [h.lbaOf hs hp hj, hsame]
    exact hs.fat p hp j hj b hb
  chains := by
    intro p hp inode' hinode' j hj
    obtain ⟨inode, hinode, -⟩ := (hs.ready p hp).live
    obtain ⟨inode'', hinode'', hcluster⟩ := h.inode hinode
    obtain rfl : inode'' = inode' := Option.some.inj (hinode''.symm.trans hinode')
    rw [hcluster, h.chain hs hp hinode hj]
    exact hs.chains p hp inode hinode j hj

theorem Stores.fileByte (h : Stores owners n s s') (hs : s.Laid owners n blocks) (hp : p ∈ owners)
    {i : ℕ} (hi : i < 0x1000 * n p) : s'.fileByte p i = s.fileByte p i := by
  rw [FatState.fileByte, FatState.fileByte, h.block hs hp (by omega)]

end Stores

/-- What the parts of `_fat_close` keep: all that is neither a cache nor the device nor the heap,
and of these what files and directories contain. -/
structure Closes (owners : Set Ptr) (n : Ptr → ℕ) (blocks : ℕ) (s s' : FatState) : Prop where
  laid : s'.Laid owners n blocks
  lbaOf : ∀ p ∈ owners, ∀ k < n p, s'.lbaOf (some p) k = s.lbaOf (some p) k
  fileByte : ∀ p ∈ owners, ∀ i < 0x1000 * n p, s'.fileByte p i = s.fileByte p i
  slots : ∀ p ∈ owners, ∀ k desc, s'.slot (some p) k = some desc →
    ∃ desc₀, s.slot (some p) k = some desc₀ ∧ (desc₀.dirty = false → desc.dirty = false)
  initialized : s'.initialized = s.initialized
  fd : s'.fd = s.fd
  memory : s'.memory = s.memory
  cores : ∀ p, (s'.inodes p).map Inode.core = (s.inodes p).map Inode.core

section Closes

variable {s s' s'' : FatState} {owners : Set Ptr} {n : Ptr → ℕ} {blocks : ℕ} {p : Ptr} {k : ℕ}

theorem Closes.trans (h : Closes owners n blocks s s') (h' : Closes owners n blocks s' s'') :
    Closes owners n blocks s s'' where
  laid := h'.laid
  lbaOf := fun p hp k hk => (h'.lbaOf p hp k hk).trans (h.lbaOf p hp k hk)
  fileByte := fun p hp i hi => (h'.fileByte p hp i hi).trans (h.fileByte p hp i hi)
  slots := by
    intro p hp k desc hslot
    obtain ⟨desc₁, hslot₁, hclean₁⟩ := h'.slots p hp k desc hslot
    obtain ⟨desc₀, hslot₀, hclean₀⟩ := h.slots p hp k desc₁ hslot₁
    exact ⟨desc₀, hslot₀, fun hclean => hclean₁ (hclean₀ hclean)⟩
  initialized := h'.initialized.trans h.initialized
  fd := h'.fd.trans h.fd
  memory := h'.memory.trans h.memory
  cores := fun p => (h'.cores p).trans (h.cores p)

end Closes

end GietVm.Fat
