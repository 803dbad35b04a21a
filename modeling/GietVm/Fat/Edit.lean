import GietVm.Fat.View

/-!
# Writing through a descriptor

A write through a descriptor changes the content of one index of one cache and nothing else.
`Similar s s'` is what such writes have in common with loads: the caches of `s'` may hold
more clusters and other contents, an inode may have another directory entry, and everything
else is as in `s`. In particular the FAT is the same, so a directory that can be loaded in
`s` can be loaded in `s'`.
-/

namespace GietVm.Fat

open GietVm.Library

/-- A state without its caches, the indices of the directory entries and the heap pointer. -/
def FatState.frame (s : FatState) : FatState :=
  { s.bare with inodes := fun p => (s.bare.inodes p).map fun inode => { inode with dentry := 0 } }

/-- `s'` is `s` up to the content of the File-Caches. -/
structure Similar (s s' : FatState) : Prop where
  frame : s'.frame = s.frame
  brk : s.brk ≤ s'.brk
  fatEntry : ∀ cluster, s'.fatEntry cluster = s.fatEntry cluster
  cacheOk : ∀ owner levels root, s.cacheAt owner = some (levels, root) → CacheOk levels root →
    ∃ levels' root', s'.cacheAt owner = some (levels', root') ∧ CacheOk levels' root' ∧
      levels ≤ levels'

/-- Index `k` of a cache has the descriptor `desc` in `s'`, which differs from `s` in nothing
else. -/
structure Edited (s s' : FatState) (owner : Option Ptr) (k : ℕ) (desc : Desc) : Prop where
  bare : s'.bare = s.bare
  brk : s'.brk = s.brk
  others : ∀ owner', owner' ≠ owner → s'.cacheAt owner' = s.cacheAt owner'
  cacheOk : ∀ levels root, s.cacheAt owner = some (levels, root) → CacheOk levels root →
    ∃ root', s'.cacheAt owner = some (levels, root') ∧ CacheOk levels root'
  slot : ∀ owner' k', s'.slot owner' k' =
    if owner' = owner ∧ k' = k then some desc else s.slot owner' k'

section Similar

variable {s s' s'' : FatState}

theorem Similar.refl (s : FatState) : Similar s s where
  frame := rfl
  brk := le_rfl
  fatEntry := fun _ => rfl
  cacheOk := fun _ levels root h hok => ⟨levels, root, h, hok, le_rfl⟩

theorem Similar.trans (h : Similar s s') (h' : Similar s' s'') : Similar s s'' where
  frame := h'.frame.trans h.frame
  brk := h.brk.trans h'.brk
  fatEntry := fun c => (h'.fatEntry c).trans (h.fatEntry c)
  cacheOk := by
    intro owner levels root hroot hok
    obtain ⟨levels', root', hroot', hok', hle⟩ := h.cacheOk owner levels root hroot hok
    obtain ⟨levels'', root'', hroot'', hok'', hle'⟩ := h'.cacheOk owner levels' root' hroot' hok'
    exact ⟨levels'', root'', hroot'', hok'', hle.trans hle'⟩

theorem frame_of_bare (h : s'.bare = s.bare) : s'.frame = s.frame := by
  rw [FatState.frame, FatState.frame, h]

theorem Cached.similar (h : Cached s s') : Similar s s' where
  frame := frame_of_bare h.bare
  brk := h.brk
  fatEntry := h.fatEntry
  cacheOk := h.cacheOk

theorem Similar.disk (h : Similar s s') : s'.device.disk = s.device.disk := by
  have := congrArg (fun t : FatState => t.device.disk) h.frame
  exact this

theorem Similar.deviceOk (h : Similar s s') (hdev : s.DeviceOk) : s'.DeviceOk := by
  have hfails := congrArg (fun t : FatState => t.device.fails) h.frame
  intro n
  exact (congrFun hfails n).trans (hdev n)

theorem Similar.levels (h : Similar s s') : s'.fatCacheLevels = s.fatCacheLevels := by
  have := congrArg FatState.fatCacheLevels h.frame
  exact this

theorem Similar.fatLba (h : Similar s s') : s'.fatLba = s.fatLba := by
  have := congrArg FatState.fatLba h.frame
  exact this

theorem Similar.dataLba (h : Similar s s') : s'.dataLba = s.dataLba := by
  have := congrArg FatState.dataLba h.frame
  exact this

theorem Similar.fatCacheOk (h : Similar s s') (hok : s.FatCacheOk) : s'.FatCacheOk := by
  obtain ⟨levels', root', hroot', hok', -⟩ := h.cacheOk none _ _ rfl hok
  cases hroot'
  exact hok'

theorem Similar.chain (h : Similar s s') (count current : ℕ) :
    s'.chain count current = s.chain count current := by
  induction count generalizing current with
  | zero => rfl
  | succ count ih => rw [FatState.chain, FatState.chain, h.fatEntry, ih]

theorem Similar.reaches (h : Similar s s') {cluster k : ℕ} (hr : s.Reaches cluster k) :
    s'.Reaches cluster k where
  inFat := by
    intro j hj
    rw [FatState.InFat, h.levels, h.chain]
    exact hr.inFat j hj
  data := by
    rw [h.chain]
    exact hr.data

/-- An inode up to its cache and its directory entry. -/
def Inode.bone (inode : Inode) : Inode := { inode.core with dentry := 0 }

theorem Similar.bones (h : Similar s s') (p : Ptr) :
    (s'.inodes p).map Inode.bone = (s.inodes p).map Inode.bone := by
  have := congrFun (congrArg FatState.inodes h.frame) p
  simp only [FatState.frame, FatState.bare, Option.map_map] at this
  exact this

/-- A live inode stays live with the same fields. -/
theorem Similar.inode (h : Similar s s') {p : Ptr} {inode : Inode} (hp : s.inodes p = some inode) :
    ∃ inode', s'.inodes p = some inode' ∧ inode'.bone = inode.bone := by
  have hbone := h.bones p
  rw [hp, Option.map_some, Option.map_eq_some_iff] at hbone
  exact hbone

theorem Similar.inode_none (h : Similar s s') {p : Ptr} (hp : s.inodes p = none) :
    s'.inodes p = none := by
  have hbone := h.bones p
  rwa [hp, Option.map_none, Option.map_eq_none_iff] at hbone

theorem bone_fields {inode inode' : Inode} (h : inode'.bone = inode.bone) :
    inode'.parent = inode.parent ∧ inode'.next = inode.next ∧ inode'.child = inode.child ∧
      inode'.cluster = inode.cluster ∧ inode'.size = inode.size ∧ inode'.count = inode.count ∧
      inode'.isDir = inode.isDir ∧ inode'.name = inode.name := by
  simpa [Inode.bone, Inode.core] using h

end Similar

section Edited

variable {s s' : FatState} {owner : Option Ptr} {k : ℕ} {desc : Desc}

/-- Writing through a descriptor. -/
theorem modifyDesc_run {levels : ℕ} {root : CacheTree}
    (hcache : s.cacheAt owner = some (levels, root)) (hok : CacheOk levels root)
    (hslot : s.slot owner k = some desc) (f : Desc → Desc) :
    ∃ s', modifyDesc owner k f s = .ok () s' ∧ Edited s s' owner k (f desc) := by
  rw [slot_eq hcache, slotOf] at hslot
  have hk : k < 64 ^ levels := by
    by_contra hk
    rw [if_neg hk] at hslot
    cases hslot
  rw [if_pos hk] at hslot
  have hok' := hok.modify f k
  have hcache' := cacheAt_withCache hcache (RadixTree.modify f levels root k)
  refine ⟨_, modifyCache_run hcache _, bare_withCache s owner _, ?_, ?_, ?_, ?_⟩
  · cases owner with
    | none => rfl
    | some p =>
      rw [FatState.withCache]
      split <;> rfl
  · intro owner' ho
    rw [hcache', if_neg ho]
  · intro l r hr hokr
    rw [hcache, Option.some.injEq, Prod.mk.injEq] at hr
    obtain ⟨rfl, rfl⟩ := hr
    exact ⟨_, by rw [hcache', if_pos rfl], hok'⟩
  · intro owner' k'
    rw [FatState.slot, hcache']
    by_cases ho : owner' = owner
    · subst ho
      simp only [if_true, true_and, slotOf, FatState.slot, hcache]
      by_cases hk' : k' < 64 ^ levels
      · rw [if_pos hk', if_pos hk', RadixTree.get?_modify, Nat.mod_eq_of_lt hk,
          Nat.mod_eq_of_lt hk']
        by_cases heq : k' = k
        · rw [if_pos heq, if_pos heq, heq, hslot, Option.map_some]
        · rw [if_neg heq, if_neg heq]
      · rw [if_neg hk', if_neg hk', if_neg]
        rintro rfl
        exact hk' hk
    · rw [if_neg ho, if_neg (fun h => ho h.1)]
      rfl

/-- Writing to a File-Cache leaves the FAT alone. -/
theorem Edited.similar {p : Ptr} (h : Edited s s' (some p) k desc) : Similar s s' where
  frame := frame_of_bare h.bare
  brk := h.brk.ge
  fatEntry := by
    intro cluster
    have hslot : s'.slot none (cluster / 0x400) = s.slot none (cluster / 0x400) := by
      rw [h.slot, if_neg (by simp)]
    rw [FatState.fatEntry, FatState.fatEntry, FatState.fatBlock, FatState.fatBlock, hslot,
      bare_disk h.bare, bare_fatLba h.bare]
  cacheOk := by
    intro owner' levels root hroot hok
    by_cases ho : owner' = some p
    · subst ho
      obtain ⟨root', hroot', hok'⟩ := h.cacheOk levels root hroot hok
      exact ⟨levels, root', hroot', hok', le_rfl⟩
    · exact ⟨levels, root, (h.others owner' ho).trans hroot, hok, le_rfl⟩

theorem Similar.lbaOf {s s' : FatState} (h : Similar s s') (owner : Option Ptr) (k : ℕ) :
    s'.lbaOf owner k = s.lbaOf owner k := by
  cases owner with
  | none => rw [FatState.lbaOf, FatState.lbaOf, h.fatLba]
  | some p =>
    rw [FatState.lbaOf, FatState.lbaOf, h.dataLba]
    cases hp : s.inodes p with
    | none => rw [h.inode_none hp]
    | some inode =>
      obtain ⟨inode', hp', hbone⟩ := h.inode hp
      simp only [hp', h.chain, (bone_fields hbone).2.2.2.1]

/-- The content of the written index is the written one, the others keep theirs. -/
theorem Edited.block {p : Ptr} (h : Edited s s' (some p) k desc) (owner' : Option Ptr) (k' : ℕ) :
    s'.block owner' k' = if owner' = some p ∧ k' = k then desc.buffer else s.block owner' k' := by
  rw [FatState.block, h.slot]
  by_cases hk : owner' = some p ∧ k' = k
  · rw [if_pos hk, if_pos hk]
  · rw [if_neg hk, if_neg hk, FatState.block, h.similar.lbaOf, bare_disk h.bare]

end Edited

/-! ## Directories that can be loaded -/

/-- The first `n` clusters of the chain of an inode can be loaded: its File-Cache has, or can
grow, the levels that they need. -/
structure FatState.DirReady (s : FatState) (p : Ptr) (n : ℕ) : Prop where
  fatOk : s.FatCacheOk
  deviceOk : s.DeviceOk
  live : ∃ inode, s.inodes p = some inode ∧ CacheOk inode.levels inode.cache ∧
    (n ≤ 64 ^ inode.levels ∨ n * 4096 < 0x100000000) ∧ ∀ k < n, s.Reaches inode.cluster k

/-- No cluster from index `n` on enters the File-Cache of an inode. -/
def Beyond (p : Ptr) (n : ℕ) (s s' : FatState) : Prop :=
  ∀ k, n ≤ k → s'.slot (some p) k = s.slot (some p) k

section DirReady

variable {s s' : FatState} {p : Ptr} {n : ℕ}

theorem Beyond.refl (s : FatState) : Beyond p n s s := fun _ _ => rfl

theorem Beyond.trans {s'' : FatState} (h : Beyond p n s s') (h' : Beyond p n s' s'') :
    Beyond p n s s'' := fun k hk => (h' k hk).trans (h k hk)

theorem Beyond.of_ne {k : ℕ} (hk : k < n)
    (h : ∀ k', k' ≠ k → s'.slot (some p) k' = s.slot (some p) k') : Beyond p n s s' :=
  fun k' hk' => h k' (by omega)

theorem Beyond.of_edited {k : ℕ} {desc : Desc} (hk : k < n) (h : Edited s s' (some p) k desc) :
    Beyond p n s s' := by
  apply Beyond.of_ne hk
  intro k' hk'
  rw [h.slot, if_neg (fun heq => hk' heq.2)]

theorem Similar.dirReady (h : Similar s s') (hd : s.DirReady p n) : s'.DirReady p n := by
  obtain ⟨inode, hp, hok, hbound, hreach⟩ := hd.live
  obtain ⟨inode', hp', hbone⟩ := h.inode hp
  obtain ⟨levels, root, hroot, hok', hle⟩ := h.cacheOk (some p) _ _ (cacheAt_inode hp) hok
  rw [cacheAt_inode hp', Option.some.injEq, Prod.mk.injEq] at hroot
  refine ⟨h.fatCacheOk hd.fatOk, h.deviceOk hd.deviceOk, ⟨inode', hp', ?_, ?_, ?_⟩⟩
  · rwa [hroot.1, hroot.2]
  · rw [hroot.1]
    exact hbound.imp_left fun hn => hn.trans (Nat.pow_le_pow_right (by omega) hle)
  · intro k hk
    rw [(bone_fields hbone).2.2.2.1]
    exact h.reaches (hreach k hk)

/-- Loading a cluster of a directory adds no other one to its File-Cache. -/
theorem FatState.DirReady.loadOne (hd : s.DirReady p n) {k : ℕ} (hk : k < n) :
    ∃ desc s', getBufferFromCache (some p) k s = .ok (some desc) s' ∧
      desc.buffer = s.block (some p) k ∧ s'.slot (some p) k = some desc ∧ Cached s s' ∧
      (∀ q, q ≠ p → s'.cacheAt (some q) = s.cacheAt (some q)) ∧
      ∀ k', k' ≠ k → s'.slot (some p) k' = s.slot (some p) k' := by
  obtain ⟨inode, hp, hok, hbound, hreach⟩ := hd.live
  have hcover : (k + 1) * 4096 ≤ n * 4096 := Nat.mul_le_mul_right 4096 hk
  exact getBufferFromCache_run hd.fatOk hd.deviceOk hp hok
    (hbound.imp hk.trans_le hcover.trans_lt) fun _ => hreach k hk

/-- Loading a cluster of a directory. -/
theorem FatState.DirReady.load (hd : s.DirReady p n) {k : ℕ} (hk : k < n) :
    ∃ desc s', getBufferFromCache (some p) k s = .ok (some desc) s' ∧
      desc.buffer = s.block (some p) k ∧ s'.slot (some p) k = some desc ∧ Cached s s' ∧
      ∀ q, q ≠ p → s'.cacheAt (some q) = s.cacheAt (some q) := by
  obtain ⟨desc, s', hrun, hbuffer, hslot, hc, hsame, -⟩ := hd.loadOne hk
  exact ⟨desc, s', hrun, hbuffer, hslot, hc, hsame⟩

/-- Writing through a descriptor of a directory. -/
theorem FatState.DirReady.edit (hd : s.DirReady p n) {k : ℕ} {desc : Desc}
    (hslot : s.slot (some p) k = some desc) (f : Desc → Desc) :
    ∃ s', modifyDesc (some p) k f s = .ok () s' ∧ Edited s s' (some p) k (f desc) := by
  obtain ⟨inode, hp, hok, -⟩ := hd.live
  exact modifyDesc_run (cacheAt_inode hp) hok hslot f

end DirReady

/-! ## Changes elsewhere -/

/-- The fields of an inode that tell where its clusters are. -/
def Inode.place (inode : Inode) : ℕ × CacheTree × ℕ := (inode.levels, inode.cache, inode.cluster)

/-- The FAT, the device and the place of the clusters of a file are the same in both states. -/
structure SameFile (s s' : FatState) (p : Ptr) : Prop where
  fatCache : s'.cacheAt none = s.cacheAt none
  device : s'.device = s.device
  fatLba : s'.fatLba = s.fatLba
  dataLba : s'.dataLba = s.dataLba
  place : (s'.inodes p).map Inode.place = (s.inodes p).map Inode.place

section SameFile

variable {s s' : FatState} {p : Ptr}

theorem SameFile.fatEntry (h : SameFile s s' p) (cluster : ℕ) :
    s'.fatEntry cluster = s.fatEntry cluster := by
  rw [FatState.fatEntry, FatState.fatEntry, FatState.fatBlock, FatState.fatBlock, FatState.slot,
    FatState.slot, h.fatCache, h.device, h.fatLba]

theorem SameFile.chain (h : SameFile s s' p) (count current : ℕ) :
    s'.chain count current = s.chain count current := by
  induction count generalizing current with
  | zero => rfl
  | succ count ih => rw [FatState.chain, FatState.chain, h.fatEntry, ih]

theorem SameFile.slot (h : SameFile s s' p) (k : ℕ) : s'.slot (some p) k = s.slot (some p) k := by
  have hcache : s'.cacheAt (some p) = s.cacheAt (some p) := by
    have := congrArg (Option.map fun place : ℕ × CacheTree × ℕ => (place.1, place.2.1)) h.place
    rw [Option.map_map, Option.map_map] at this
    exact this
  rw [FatState.slot, FatState.slot, hcache]

theorem SameFile.lbaOf (h : SameFile s s' p) (k : ℕ) : s'.lbaOf (some p) k = s.lbaOf (some p) k := by
  have hplace := h.place
  rw [FatState.lbaOf, FatState.lbaOf, h.dataLba]
  cases hp : s.inodes p with
  | none =>
    rw [hp, Option.map_none, Option.map_eq_none_iff] at hplace
    rw [hplace]
  | some inode =>
    rw [hp, Option.map_some, Option.map_eq_some_iff] at hplace
    obtain ⟨inode', hp', heq⟩ := hplace
    rw [Inode.place, Inode.place, Prod.mk.injEq, Prod.mk.injEq] at heq
    simp only [hp', h.chain, heq.2.2]

theorem SameFile.block (h : SameFile s s' p) : s'.block (some p) = s.block (some p) := by
  funext k
  rw [FatState.block, FatState.block, h.slot, h.lbaOf, h.device]

theorem SameFile.dirReady {n : ℕ} (h : SameFile s s' p) (hd : s.DirReady p n) :
    s'.DirReady p n := by
  obtain ⟨inode, hp, hok, hbound, hreach⟩ := hd.live
  have hplace := h.place
  have hfat := h.fatCache
  rw [FatState.cacheAt, FatState.cacheAt, Option.some.injEq, Prod.mk.injEq] at hfat
  rw [hp, Option.map_some, Option.map_eq_some_iff] at hplace
  obtain ⟨inode', hp', heq⟩ := hplace
  rw [Inode.place, Inode.place, Prod.mk.injEq, Prod.mk.injEq] at heq
  obtain ⟨hlevels, hcache, hcluster⟩ := heq
  refine ⟨?_, ?_, inode', hp', ?_, ?_, fun k hk => ⟨fun j hj => ?_, ?_⟩⟩
  · rw [FatState.FatCacheOk, hfat.1, hfat.2]
    exact hd.fatOk
  · rw [FatState.DeviceOk, h.device]
    exact hd.deviceOk
  · rwa [hlevels, hcache]
  · rwa [hlevels]
  · rw [FatState.InFat, hfat.1, h.chain, hcluster]
    exact (hreach k hk).inFat j hj
  · rw [h.chain, hcluster]
    exact (hreach k hk).data

end SameFile

end GietVm.Fat
