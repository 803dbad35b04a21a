import GietVm.Fat.Clusters
import GietVm.Fat.Edit

/-!
# The FAT of a volume

`Volume` gathers what `_fat_init` establishes and every call keeps: the geometry of the FAT
and DATA regions, a Fat-Cache that covers the FAT, and descriptors that agree with the
device unless they are dirty. On such a state the FAT is a function of the cluster index,
`fatEntry`, and the primitives read it, write it at one index, and copy it to the device.

`deviceEntry` is the same function read from the device alone.
-/

namespace GietVm.Fat

open GietVm.Library

/-- `RESERVED_CLUSTER` -/
abbrev reservedCluster : ℕ := 1

/-- `BAD_CLUSTER` -/
abbrev badCluster : ℕ := 0x0FFFFFF7

/-- The number of slots of the FAT. -/
def FatState.slots (s : FatState) : ℕ := s.dataSectors / 8

/-- The lba of the first sector of a cluster. -/
def FatState.clusterLba (s : FatState) (cluster : ℕ) : ℕ := u32 ((cluster - 2) * 8 + s.dataLba)

/-- A FAT slot on the device. -/
def FatState.deviceEntry (s : FatState) (cluster : ℕ) : ℕ :=
  (s.device.disk.load 4096 (u32 (s.fatLba + cluster / 0x400 * 8))).word (4 * (cluster % 0x400))

/-- A mounted FAT32 volume on a device that answers. -/
structure FatState.Volume (s : FatState) : Prop where
  /-- The boot sector holds the first sector of the FAT in two bytes. -/
  fatLba : s.fatLba < 0x10000
  dataSectors : s.dataSectors = s.fatSectors * 1024
  /-- A cluster index has 28 bits, and the values from `BAD_CLUSTER` on are marks. -/
  slots : s.slots ≤ badCluster
  levels : s.fatCacheLevels = getLevelsFromSize (u32 (s.fatSectors * 512))
  fatOk : s.FatCacheOk
  deviceOk : s.DeviceOk
  /-- A descriptor of the Fat-Cache knows its place, and a clean one agrees with it. -/
  coherent : ∀ k desc, s.slot none k = some desc → desc.lba = s.lbaOf none k ∧
    (desc.dirty = false → desc.buffer = s.device.disk.load 4096 desc.lba)

/-! ## Changes of the Fat-Cache -/

/-- `s'` is `s` up to the Fat-Cache. -/
structure FatOnly (s s' : FatState) : Prop where
  bare : s'.bare = s.bare
  files : ∀ p, s'.cacheAt (some p) = s.cacheAt (some p)

section FatOnly

variable {s s' s'' : FatState}

theorem bare_dataSectors (h : s'.bare = s.bare) : s'.dataSectors = s.dataSectors := by
  have := congrArg FatState.dataSectors h
  exact this

theorem bare_fatSectors (h : s'.bare = s.bare) : s'.fatSectors = s.fatSectors := by
  have := congrArg FatState.fatSectors h
  exact this

theorem bare_firstFree (h : s'.bare = s.bare) : s'.firstFreeCluster = s.firstFreeCluster := by
  have := congrArg FatState.firstFreeCluster h
  exact this

theorem bare_freeNumber (h : s'.bare = s.bare) :
    s'.freeClustersNumber = s.freeClustersNumber := by
  have := congrArg FatState.freeClustersNumber h
  exact this

theorem bare_slots (h : s'.bare = s.bare) : s'.slots = s.slots := by
  rw [FatState.slots, FatState.slots, bare_dataSectors h]

theorem FatOnly.refl (s : FatState) : FatOnly s s := ⟨rfl, fun _ => rfl⟩

theorem FatOnly.trans (h : FatOnly s s') (h' : FatOnly s' s'') : FatOnly s s'' :=
  ⟨h'.bare.trans h.bare, fun p => (h'.files p).trans (h.files p)⟩

/-- An inode is its cache and the rest. -/
theorem Inode.ext_core {inode inode' : Inode} (hcore : inode'.core = inode.core)
    (hlevels : inode'.levels = inode.levels) (hcache : inode'.cache = inode.cache) :
    inode' = inode := by
  cases inode
  cases inode'
  cases hlevels
  cases hcache
  simpa [Inode.core] using hcore

/-- The inodes are untouched. -/
theorem FatOnly.inodes (h : FatOnly s s') : s'.inodes = s.inodes := by
  funext p
  have hcore := bare_core h.bare p
  have hfile := h.files p
  rw [FatState.cacheAt, FatState.cacheAt] at hfile
  cases hp : s.inodes p with
  | none =>
    rw [hp, Option.map_none, Option.map_eq_none_iff] at hcore
    exact hcore
  | some inode =>
    rw [hp, Option.map_some, Option.map_eq_some_iff] at hcore hfile
    obtain ⟨inode', hp', hcore⟩ := hcore
    obtain ⟨inode'', hp'', hfile⟩ := hfile
    rw [hp', Option.some.injEq] at hp''
    subst hp''
    rw [Prod.mk.injEq] at hfile
    rw [hp', Inode.ext_core hcore hfile.1 hfile.2]

theorem FatOnly.slot (h : FatOnly s s') (p : Ptr) (k : ℕ) :
    s'.slot (some p) k = s.slot (some p) k := by
  rw [FatState.slot, FatState.slot, h.files]

/-- A volume stays one when only the Fat-Cache changes, coherently. -/
theorem FatState.Volume.of_bare (hv : s.Volume) (hbare : s'.bare = s.bare) (hok : s'.FatCacheOk)
    (hcoherent : ∀ k desc, s'.slot none k = some desc → desc.lba = s'.lbaOf none k ∧
      (desc.dirty = false → desc.buffer = s'.device.disk.load 4096 desc.lba)) : s'.Volume where
  fatLba := by
    rw [bare_fatLba hbare]
    exact hv.fatLba
  dataSectors := by
    rw [bare_dataSectors hbare, bare_fatSectors hbare]
    exact hv.dataSectors
  slots := by
    rw [bare_slots hbare]
    exact hv.slots
  levels := by
    rw [bare_levels hbare, bare_fatSectors hbare]
    exact hv.levels
  fatOk := hok
  deviceOk := by
    intro n
    rw [bare_fails hbare]
    exact hv.deviceOk n
  coherent := hcoherent

/-- Loading clusters keeps a volume. -/
theorem Cached.volume (h : Cached s s') (hv : s.Volume) : s'.Volume := by
  refine hv.of_bare h.bare (h.fatCacheOk hv.fatOk) ?_
  intro k desc hslot
  rw [h.lbaOf, bare_disk h.bare]
  rcases h.fresh none k desc hslot with hold | ⟨-, hlba, hbuffer⟩
  · exact hv.coherent k desc hold
  · exact ⟨hlba, fun _ => by rw [hbuffer, hlba]⟩

end FatOnly

/-! ## The slots of the FAT -/

section Slots

variable {s : FatState}

/-- The FAT has at most `2 ^ 21` sectors. -/
theorem FatState.Volume.sectors (hv : s.Volume) : s.fatSectors < 0x200000 := by
  have hslots : s.dataSectors / 8 ≤ 0x0FFFFFF7 := hv.slots
  have := hv.dataSectors
  omega

/-- The levels of a size cover it. -/
theorem size_le_levels {size : ℕ} (h : size ≤ 2 ^ 30) :
    size ≤ 4096 * 64 ^ getLevelsFromSize size := by
  rw [getLevelsFromSize, if_pos h]
  split
  · omega
  · split <;> omega

/-- The Fat-Cache covers the FAT. -/
theorem FatState.Volume.inFat (hv : s.Volume) {cluster : ℕ} (hc : cluster < s.slots) :
    s.InFat cluster := by
  have hsectors := hv.sectors
  have hsize : s.fatSectors * 512 ≤ 2 ^ 30 := by omega
  have hcover := size_le_levels hsize
  rw [FatState.slots, hv.dataSectors] at hc
  rw [FatState.InFat, hv.levels, u32, Nat.mod_eq_of_lt (by omega)]
  omega

theorem FatState.Volume.levels_le (hv : s.Volume) : s.fatCacheLevels ≤ 3 := by
  have hsectors := hv.sectors
  rw [hv.levels, u32, Nat.mod_eq_of_lt (by omega), getLevelsFromSize]
  split
  · omega
  · split
    · omega
    · rw [if_pos (by omega)]

/-- No index of the Fat-Cache has more than 18 bits. -/
theorem FatState.Volume.index_lt (hv : s.Volume) {k : ℕ} (hk : k < 64 ^ s.fatCacheLevels) :
    k < 0x40000 := by
  have hpow : (64 : ℕ) ^ s.fatCacheLevels ≤ 64 ^ 3 :=
    Nat.pow_le_pow_right (by omega) hv.levels_le
  omega

/-- An index that has a descriptor. -/
theorem FatState.Volume.index_of_slot (hv : s.Volume) {k : ℕ} {desc : Desc}
    (h : s.slot none k = some desc) : k < 0x40000 := by
  refine hv.index_lt ?_
  by_contra hk
  rw [FatState.slot, FatState.cacheAt] at h
  simp only [slotOf, if_neg hk] at h
  cases h

/-- The lbas of the Fat-Cache do not wrap around. -/
theorem FatState.Volume.lbaOf_eq (hv : s.Volume) {k : ℕ} (hk : k < 0x40000) :
    s.lbaOf none k = s.fatLba + k * 8 := by
  have := hv.fatLba
  rw [FatState.lbaOf, u32, Nat.mod_eq_of_lt (by omega)]

/-- Writing a slot changes that slot of the FAT only. -/
theorem setFatEntry_run (hv : s.Volume) {cluster value : ℕ} (hc : cluster < s.slots)
    (hvalue : value < 0x100000000) :
    ∃ s', setFatEntry cluster value s = .ok false s' ∧ FatOnly s s' ∧ s'.Volume ∧
      s'.fatEntry = Function.update s.fatEntry cluster value := by
  obtain ⟨desc, s₁, hrun, -, hslot, hcached, hfiles⟩ :=
    getFatBufferFromCache_run hv.fatOk hv.deviceOk (hv.inFat hc)
  have hv₁ := hcached.volume hv
  set f : Desc → Desc := fun desc =>
    { desc with buffer := desc.buffer.setWord (4 * (cluster % 0x400)) value, dirty := true } with hf
  obtain ⟨s', hmodify, hedit⟩ := modifyDesc_run rfl hv₁.fatOk hslot f
  have hbare : s'.bare = s.bare := hedit.bare.trans hcached.bare
  have hok : s'.FatCacheOk := by
    obtain ⟨root, hroot, hok⟩ := hedit.cacheOk _ _ rfl hv₁.fatOk
    rw [FatState.cacheAt, Option.some.injEq, Prod.mk.injEq] at hroot
    rwa [FatState.FatCacheOk, hroot.1, hroot.2]
  refine ⟨s', ?_, ⟨hbare, fun p => ?_⟩, hv.of_bare hbare hok ?_, ?_⟩
  · rw [setFatEntry, exits_bind_ok hrun]
    change (modifyDesc none (cluster / 0x400) f >>= fun _ => _) s₁ = _
    rw [exits_bind_ok hmodify]
    rfl
  · rw [hedit.others (some p) (by simp), hfiles]
  · intro k d hd
    rw [hedit.slot] at hd
    rw [bare_disk hedit.bare, FatState.lbaOf, bare_fatLba hedit.bare]
    split at hd
    · rename_i hk
      rw [Option.some.injEq] at hd
      subst hd
      rw [hk.2]
      exact ⟨(hv₁.coherent _ desc hslot).1, fun h => by cases h⟩
    · exact hv₁.coherent k d hd
  · funext c
    rw [Function.update_apply, ← hcached.fatEntry]
    have hblock : s₁.fatBlock (cluster / 0x400) = desc.buffer := by
      rw [FatState.fatBlock, hslot]
    have hbuffer (k : ℕ) : s'.fatBlock k =
        if k = cluster / 0x400 then desc.buffer.setWord (4 * (cluster % 0x400)) value
        else s₁.fatBlock k := by
      rw [FatState.fatBlock, hedit.slot]
      by_cases hk : k = cluster / 0x400
      · rw [if_pos ⟨rfl, hk⟩, if_pos hk]
      · rw [if_neg (fun h => hk h.2), if_neg hk, FatState.fatBlock, bare_disk hedit.bare,
          bare_fatLba hedit.bare]
    rw [FatState.fatEntry, FatState.fatEntry, hbuffer]
    by_cases hsame : c = cluster
    · rw [if_pos hsame, hsame, if_pos rfl, Bytes.word_setWord_same _ _ (by omega),
        Nat.mod_eq_of_lt hvalue]
    · rw [if_neg hsame]
      split
      · rename_i hk
        rw [hk, hblock, Bytes.word_setWord_apart]
        omega
      · rfl

end Slots

/-! ## Copying a cache to the device -/

/-- Two clusters of the device do not overlap. -/
def Apart (lba lba' : ℕ) : Prop := lba + 8 ≤ lba' ∨ lba' + 8 ≤ lba

section WriteBack

variable {s : FatState} {owner : Option Ptr} {levels : ℕ} {root : CacheTree}

theorem Apart.load {lba lba' : ℕ} (h : Apart lba lba') (d : Disk) (b : Block) :
    (d.store lba b).load 4096 lba' = d.load 4096 lba' := by
  refine Disk.load_store_apart d b ?_
  rcases h with h | h
  · exact Or.inr (by omega)
  · exact Or.inl (by omega)

/-- A device that answers stores a dirty cluster. -/
theorem writeBack_dirty {desc : Desc} {d : Device} (hd : ∀ n, d.fails n = false)
    (h : desc.dirty = true) : writeBack desc d =
      ({ desc with dirty := false }, false,
        { d with disk := d.disk.store desc.lba desc.buffer, accesses := d.accesses + 1 }) := by
  simp [writeBack, h, Device.write, hd]

theorem writeBack_clean {desc : Desc} {d : Device} (h : desc.dirty = false) :
    writeBack desc d = (desc, false, d) := by
  simp [writeBack, h]

/-- What a visit does to a device that answers. -/
theorem writeBack_spec (desc : Desc) {d : Device} (hd : ∀ n, d.fails n = false) :
    (writeBack desc d).1 = { desc with dirty := false } ∧ (writeBack desc d).2.1 = false ∧
      (writeBack desc d).2.2.fails = d.fails ∧
      (writeBack desc d).2.2.disk =
        if desc.dirty then d.disk.store desc.lba desc.buffer else d.disk := by
  cases h : desc.dirty with
  | true =>
    rw [writeBack_dirty hd h]
    exact ⟨rfl, rfl, rfl, rfl⟩
  | false =>
    rw [writeBack_clean h]
    refine ⟨?_, rfl, rfl, rfl⟩
    rw [← h]

/-- The call is a walk of the tree. -/
theorem updateDeviceFromCache_walk (hcache : s.cacheAt owner = some (levels, root))
    (hok : CacheOk levels root) {root' : CacheTree} {failed : Bool} {device : Device}
    (hwalk : RadixTree.walk writeBack levels root s.device = some (root', failed, device)) :
    updateDeviceFromCache owner s =
      .ok failed ({ s with device := device }.withCache owner root') := by
  have hcache' : ({ s with device := device } : FatState).cacheAt owner = some (levels, root) := by
    rw [← hcache]
    cases owner <;> rfl
  obtain ⟨n, rfl⟩ := Nat.exists_eq_succ_of_ne_zero hok.levels_pos
  obtain _ | _ | ⟨address, children⟩ := root
  · exact hok.isNode.elim
  · exact hok.isNode.elim
  · rw [updateDeviceFromCache, exits_bind_ok (getCache_run hcache)]
    simp only [exits_bind_get, hwalk, exits_bind_set, exits_bind_ok (modifyCache_run hcache' _),
      exits_pure]

/-- On a device that answers, every dirty cluster of a cache is copied to its place. The other
clusters and the rest of the device are left alone, provided that the clusters of the cache do
not overlap. -/
theorem updateDeviceFromCache_run (hcache : s.cacheAt owner = some (levels, root))
    (hok : CacheOk levels root) (hdev : s.DeviceOk)
    (hapart : ∀ k k' desc desc', s.slot owner k = some desc → s.slot owner k' = some desc' →
      k ≠ k' → Apart desc.lba desc'.lba) :
    ∃ root' device, updateDeviceFromCache owner s =
        .ok false ({ s with device := device }.withCache owner root') ∧
      CacheOk levels root' ∧ device.fails = s.device.fails ∧
      (∀ k, slotOf levels root' k =
        (s.slot owner k).map fun desc => { desc with dirty := false }) ∧
      (∀ k desc, s.slot owner k = some desc → device.disk.load 4096 desc.lba =
        if desc.dirty then desc.buffer else s.device.disk.load 4096 desc.lba) ∧
      ∀ lba, (∀ k desc, s.slot owner k = some desc → Apart desc.lba lba) →
        device.disk.load 4096 lba = s.device.disk.load 4096 lba := by
  have hleaf (k : ℕ) (desc : Desc) (h : RadixTree.get? levels root k = some desc) :
      ∃ k, s.slot owner k = some desc := by
    have hpos : 0 < 64 ^ levels := Nat.pow_pos (by omega)
    refine ⟨k % 64 ^ levels, ?_⟩
    rw [slot_eq hcache, slotOf, if_pos (Nat.mod_lt k hpos), ← h]
    exact RadixTree.get?_congr _ (by simp)
  obtain ⟨root', failed, device, hwalk, hfails, hwalked, hfine, hstable⟩ :=
    RadixTree.walk_spec (f := writeBack) (I := fun d => d.fails = s.device.fails)
      (L := fun desc => ∃ k, s.slot owner k = some desc)
      (fun desc d _ hd => (writeBack_spec desc (fun n => hd ▸ hdev n)).2.2.1.trans hd)
      hok.shaped hleaf (rfl : s.device.fails = s.device.fails)
  have hnot : failed = false :=
    hfine fun desc d _ hd => (writeBack_spec desc (fun n => hd ▸ hdev n)).2.1
  subst hnot
  have hok' : CacheOk levels root' := ⟨hok.levels_pos, hwalked.2.1 hok.isNode, hwalked.1⟩
  refine ⟨root', device, updateDeviceFromCache_walk hcache hok hwalk, hok', hfails, ?_, ?_, ?_⟩
  · intro k
    rw [slot_eq hcache, slotOf, slotOf]
    split
    · cases hget : RadixTree.get? levels root k with
      | none => rw [hwalked.none hget, Option.map_none]
      | some desc =>
        obtain ⟨d, hd, hvisit, -⟩ := hwalked.visit hget
        rw [hvisit, (writeBack_spec desc (fun n => hd ▸ hdev n)).1, Option.map_some]
    · rfl
  · intro k desc hslot
    -- the visits of the other clusters do not touch this one
    have hother (v : Block) (hv : desc.dirty = true → v = desc.buffer) (b : Desc) (d : Device)
        (hb : ∃ k', s.slot owner k' = some b) (hd : d.fails = s.device.fails)
        (h : d.disk.load 4096 desc.lba = v) :
        (writeBack b d).2.2.disk.load 4096 desc.lba = v := by
      obtain ⟨k', hb⟩ := hb
      rw [(writeBack_spec b (fun n => hd ▸ hdev n)).2.2.2]
      split
      · rename_i hdirty
        by_cases hk : k' = k
        · rw [hk, hslot, Option.some.injEq] at hb
          rw [← hb] at hdirty ⊢
          rw [Disk.load_store_same, hv hdirty]
        · rw [(hapart k' k b desc hb hslot hk).load, h]
      · exact h
    have hget : RadixTree.get? levels root k = some desc := by
      rw [slot_eq hcache, slotOf] at hslot
      split at hslot
      · exact hslot
      · cases hslot
    obtain ⟨d, hd, -, -, hvisited⟩ := hwalked.visit hget
    by_cases hdirty : desc.dirty = true
    · rw [if_pos hdirty]
      refine hvisited (fun d => d.disk.load 4096 desc.lba = desc.buffer)
        (hother desc.buffer fun _ => rfl) ?_
      simp only [(writeBack_spec desc (fun n => hd ▸ hdev n)).2.2.2, if_pos hdirty,
        Disk.load_store_same]
    · rw [if_neg hdirty]
      exact hstable (fun d => d.disk.load 4096 desc.lba = s.device.disk.load 4096 desc.lba)
        (hother _ fun h => absurd h hdirty) rfl
  · intro lba hfar
    refine hstable (fun d => d.disk.load 4096 lba = s.device.disk.load 4096 lba) ?_ rfl
    rintro b d ⟨k, hb⟩ hd h
    simp only [(writeBack_spec b (fun n => hd ▸ hdev n)).2.2.2]
    split
    · rw [(hfar k b hb).load, h]
    · exact h

/-- After the Fat-Cache is copied, the device holds the FAT that the cache shows. -/
theorem updateFat_run (hv : s.Volume) :
    ∃ root device, updateDeviceFromCache none s =
        .ok false { s with device := device, fatCacheRoot := root } ∧
      FatState.Volume { s with device := device, fatCacheRoot := root } ∧
      ∀ c < s.slots,
        FatState.fatEntry { s with device := device, fatCacheRoot := root } c = s.fatEntry c ∧
        FatState.deviceEntry { s with device := device, fatCacheRoot := root } c =
          s.fatEntry c := by
  have hlba (k : ℕ) (desc : Desc) (h : s.slot none k = some desc) :
      k < 0x40000 ∧ desc.lba = s.fatLba + k * 8 := by
    have hk := hv.index_of_slot h
    exact ⟨hk, (hv.coherent k desc h).1.trans (hv.lbaOf_eq hk)⟩
  obtain ⟨root, device, hrun, hok, hfails, hslots, hloads, hfar⟩ :=
    updateDeviceFromCache_run rfl hv.fatOk hv.deviceOk (by
      intro k k' desc desc' h h' hne
      rw [Apart, (hlba k desc h).2, (hlba k' desc' h').2]
      omega)
  set s' : FatState := { s with device := device, fatCacheRoot := root } with hs'
  have hslot (k : ℕ) : s'.slot none k =
      (s.slot none k).map fun desc => { desc with dirty := false } := hslots k
  -- a cached cluster agrees with the device afterwards, and the other ones did not change
  have hcached (k : ℕ) (desc : Desc) (h : s.slot none k = some desc) :
      device.disk.load 4096 desc.lba = desc.buffer := by
    rw [hloads k desc h]
    split
    · rfl
    · rename_i hclean
      exact ((hv.coherent k desc h).2 (by simpa using hclean)).symm
  have hblock (k : ℕ) (hk : k < 0x40000) :
      device.disk.load 4096 (s.lbaOf none k) = s.fatBlock k := by
    rw [FatState.fatBlock]
    cases h : s.slot none k with
    | some desc => rw [← (hv.coherent k desc h).1, hcached k desc h]
    | none =>
      refine hfar _ ?_
      intro k' desc' h'
      have hne : k' ≠ k := by
        rintro rfl
        rw [h] at h'
        cases h'
      rw [Apart, (hlba k' desc' h').2, hv.lbaOf_eq hk]
      omega
  have hfat (k : ℕ) (hk : k < 0x40000) : s'.fatBlock k = s.fatBlock k := by
    rw [FatState.fatBlock, hslot, ← hblock k hk]
    cases h : s.slot none k with
    | some desc => rw [Option.map_some, ← (hv.coherent k desc h).1, hcached k desc h]
    | none => rfl
  refine ⟨root, device, hrun, ?_, ?_⟩
  · refine ⟨hv.fatLba, hv.dataSectors, hv.slots, hv.levels, hok, ?_, ?_⟩
    · intro n
      change device.fails n = false
      rw [hfails]
      exact hv.deviceOk n
    · intro k desc h
      rw [hslot, Option.map_eq_some_iff] at h
      obtain ⟨old, h, rfl⟩ := h
      exact ⟨(hv.coherent k old h).1, fun _ => (hcached k old h).symm⟩
  · intro c hc
    have hk : c / 0x400 < 0x40000 := hv.index_lt (hv.inFat hc)
    refine ⟨?_, ?_⟩
    · rw [FatState.fatEntry, FatState.fatEntry, hfat _ hk]
    · rw [FatState.fatEntry, ← hblock _ hk]
      rfl

end WriteBack

end GietVm.Fat
