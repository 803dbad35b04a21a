import GietVm.Fat.Cache

/-!
# What a cache shows

A cache hides the device: the content of a cluster is the buffer of its descriptor when
there is one, and what the device holds at the lba of the cluster otherwise. `block` is this
content for an index of a cache, and `fatEntry` and `chain` read the FAT through it. Indices
that a tree of the given height does not cover have no descriptor, although the tree would
answer for another index.

`Cached s s'` says that `s'` only knows more clusters than `s`: new descriptors are clean
copies of the device, old ones are kept, and all that is neither a cache nor the heap is
unchanged. Every search of a cache is such a step, and no view depends on it.
-/

namespace GietVm.Fat

open GietVm.Library

/-! ## Caches as states see them -/

/-- The levels and the root of a cache. -/
def FatState.cacheAt (s : FatState) : Option Ptr → Option (ℕ × CacheTree)
  | none => some (s.fatCacheLevels, s.fatCacheRoot)
  | some p => (s.inodes p).map fun inode => (inode.levels, inode.cache)

/-- The state with the root of a cache replaced. -/
def FatState.withCache (s : FatState) (owner : Option Ptr) (root : CacheTree) : FatState :=
  match owner with
  | none => { s with fatCacheRoot := root }
  | some p =>
    match s.inodes p with
    | some inode => s.setInode p { inode with cache := root }
    | none => s

/-- The descriptor of an index that the tree covers. -/
def slotOf (levels : ℕ) (root : CacheTree) (k : ℕ) : Option Desc :=
  if k < 64 ^ levels then RadixTree.get? levels root k else none

/-- The descriptor of an index in a cache. -/
def FatState.slot (s : FatState) (owner : Option Ptr) (k : ℕ) : Option Desc :=
  match s.cacheAt owner with
  | some (levels, root) => slotOf levels root k
  | none => none

/-- A root of at least one level with all paths of the same length. -/
structure CacheOk (levels : ℕ) (root : CacheTree) : Prop where
  levels_pos : levels ≠ 0
  isNode : root.IsNode
  shaped : RadixTree.Shaped levels root

/-- The Fat-Cache content of an index. -/
def FatState.fatBlock (s : FatState) (k : ℕ) : Block :=
  match s.slot none k with
  | some desc => desc.buffer
  | none => s.device.disk.load 4096 (u32 (s.fatLba + k * 8))

/-- A FAT slot. -/
def FatState.fatEntry (s : FatState) (cluster : ℕ) : ℕ :=
  (s.fatBlock (cluster / 0x400)).word (4 * (cluster % 0x400))

/-- The cluster `count` links after a cluster. -/
def FatState.chain (s : FatState) : ℕ → ℕ → ℕ
  | 0, current => current
  | count + 1, current => s.chain count (s.fatEntry current)

/-- The lba of an index of a cache. -/
def FatState.lbaOf (s : FatState) (owner : Option Ptr) (k : ℕ) : ℕ :=
  match owner with
  | none => u32 (s.fatLba + k * 8)
  | some p =>
    match s.inodes p with
    | some inode => u32 ((s.chain k inode.cluster - 2) * 8 + s.dataLba)
    | none => 0

/-- The content of an index of a cache. -/
def FatState.block (s : FatState) (owner : Option Ptr) (k : ℕ) : Block :=
  match s.slot owner k with
  | some desc => desc.buffer
  | none => s.device.disk.load 4096 (s.lbaOf owner k)

/-- An inode without its cache. -/
def Inode.core (inode : Inode) : Inode := { inode with cache := .null, levels := 0 }

/-- A state without its caches, the next address of the heap and the number of accesses. -/
def FatState.bare (s : FatState) : FatState :=
  { s with
    fatCacheRoot := .null
    inodes := fun p => (s.inodes p).map Inode.core
    device := { s.device with accesses := 0 }
    brk := 0 }

/-- `s'` is `s` with more clusters cached. -/
structure Cached (s s' : FatState) : Prop where
  bare : s'.bare = s.bare
  brk : s.brk ≤ s'.brk
  cacheOk : ∀ owner levels root, s.cacheAt owner = some (levels, root) → CacheOk levels root →
    ∃ levels' root', s'.cacheAt owner = some (levels', root') ∧ CacheOk levels' root' ∧
      levels ≤ levels'
  keep : ∀ owner k desc, s.slot owner k = some desc → s'.slot owner k = some desc
  fresh : ∀ owner k desc, s'.slot owner k = some desc → s.slot owner k = some desc ∨
    (desc.dirty = false ∧ desc.lba = s.lbaOf owner k ∧
      desc.buffer = s.device.disk.load 4096 (s.lbaOf owner k))

/-- No access fails. -/
def FatState.DeviceOk (s : FatState) : Prop := ∀ n, s.device.fails n = false

/-! ## Frame facts -/

section Cached

variable {s s' s'' : FatState}

theorem bare_disk (h : s'.bare = s.bare) : s'.device.disk = s.device.disk := by
  have := congrArg (fun t : FatState => t.device.disk) h
  exact this

theorem bare_fails (h : s'.bare = s.bare) : s'.device.fails = s.device.fails := by
  have := congrArg (fun t : FatState => t.device.fails) h
  exact this

theorem bare_fatLba (h : s'.bare = s.bare) : s'.fatLba = s.fatLba := by
  have := congrArg FatState.fatLba h
  exact this

theorem bare_dataLba (h : s'.bare = s.bare) : s'.dataLba = s.dataLba := by
  have := congrArg FatState.dataLba h
  exact this

theorem bare_levels (h : s'.bare = s.bare) : s'.fatCacheLevels = s.fatCacheLevels := by
  have := congrArg FatState.fatCacheLevels h
  exact this

theorem bare_core (h : s'.bare = s.bare) (p : Ptr) :
    (s'.inodes p).map Inode.core = (s.inodes p).map Inode.core := by
  have := congrFun (congrArg FatState.inodes h) p
  exact this

/-- A live inode stays live and keeps everything but its cache. -/
theorem bare_inode (h : s'.bare = s.bare) {p : Ptr} {inode : Inode} (hp : s.inodes p = some inode) :
    ∃ inode', s'.inodes p = some inode' ∧ inode'.core = inode.core := by
  have hcore := bare_core h p
  rw [hp, Option.map_some, Option.map_eq_some_iff] at hcore
  exact hcore

theorem core_cluster {inode inode' : Inode} (h : inode'.core = inode.core) :
    inode'.cluster = inode.cluster := by
  have := congrArg Inode.cluster h
  exact this

theorem Cached.refl (s : FatState) : Cached s s where
  bare := rfl
  brk := le_rfl
  cacheOk := fun _ levels root h hok => ⟨levels, root, h, hok, le_rfl⟩
  keep := fun _ _ _ h => h
  fresh := fun _ _ _ h => Or.inl h

theorem Cached.deviceOk (h : Cached s s') (hdev : s.DeviceOk) : s'.DeviceOk := by
  intro n
  rw [bare_fails h.bare]
  exact hdev n

/-- The part of `Cached` that the views depend on, for one cache. -/
theorem Cached.load (h : Cached s s') (owner : Option Ptr) (k : ℕ) :
    (match s'.slot owner k with
      | some desc => desc.buffer
      | none => s.device.disk.load 4096 (s.lbaOf owner k)) = s.block owner k := by
  rw [FatState.block]
  cases hslot : s.slot owner k with
  | some desc => rw [h.keep owner k desc hslot]
  | none =>
    cases hslot' : s'.slot owner k with
    | none => rfl
    | some desc =>
      rcases h.fresh owner k desc hslot' with hold | ⟨-, -, hbuffer⟩
      · rw [hslot] at hold
        cases hold
      · exact hbuffer

theorem FatState.block_none (s : FatState) (k : ℕ) : s.block none k = s.fatBlock k := rfl

theorem Cached.fatBlock (h : Cached s s') (k : ℕ) : s'.fatBlock k = s.fatBlock k := by
  have := h.load none k
  rwa [FatState.block_none, FatState.lbaOf, ← bare_disk h.bare, ← bare_fatLba h.bare] at this

theorem Cached.fatEntry (h : Cached s s') (cluster : ℕ) :
    s'.fatEntry cluster = s.fatEntry cluster := by
  rw [FatState.fatEntry, FatState.fatEntry, h.fatBlock]

theorem Cached.chain (h : Cached s s') (count current : ℕ) :
    s'.chain count current = s.chain count current := by
  induction count generalizing current with
  | zero => rfl
  | succ count ih => rw [FatState.chain, FatState.chain, h.fatEntry, ih]

theorem Cached.lbaOf (h : Cached s s') (owner : Option Ptr) (k : ℕ) :
    s'.lbaOf owner k = s.lbaOf owner k := by
  cases owner with
  | none => rw [FatState.lbaOf, FatState.lbaOf, bare_fatLba h.bare]
  | some p =>
    rw [FatState.lbaOf, FatState.lbaOf, bare_dataLba h.bare]
    cases hp : s.inodes p with
    | none =>
      have hcore := bare_core h.bare p
      rw [hp, Option.map_none, Option.map_eq_none_iff] at hcore
      rw [hcore]
    | some inode =>
      obtain ⟨inode', hp', hcore⟩ := bare_inode h.bare hp
      simp only [hp', h.chain, core_cluster hcore]

/-- Caching clusters changes no content. -/
theorem Cached.block (h : Cached s s') (owner : Option Ptr) (k : ℕ) :
    s'.block owner k = s.block owner k := by
  rw [← h.load owner k, FatState.block, h.lbaOf, bare_disk h.bare]

theorem Cached.trans (h : Cached s s') (h' : Cached s' s'') : Cached s s'' where
  bare := h'.bare.trans h.bare
  brk := h.brk.trans h'.brk
  cacheOk := by
    intro owner levels root hroot hok
    obtain ⟨levels', root', hroot', hok', hle⟩ := h.cacheOk owner levels root hroot hok
    obtain ⟨levels'', root'', hroot'', hok'', hle'⟩ := h'.cacheOk owner levels' root' hroot' hok'
    exact ⟨levels'', root'', hroot'', hok'', hle.trans hle'⟩
  keep := fun owner k desc hslot => h'.keep owner k desc (h.keep owner k desc hslot)
  fresh := by
    intro owner k desc hslot
    rcases h'.fresh owner k desc hslot with hold | hnew
    · exact h.fresh owner k desc hold
    · rw [h.lbaOf, bare_disk h.bare] at hnew
      exact Or.inr hnew

end Cached

/-! ## Runs of the cache primitives -/

section Run

variable {s : FatState} {owner : Option Ptr} {levels : ℕ} {root : CacheTree}

theorem getCache_run (h : s.cacheAt owner = some (levels, root)) :
    getCache owner s = .ok (levels, root) s := by
  cases owner with
  | none =>
    cases h
    rfl
  | some p =>
    rw [FatState.cacheAt, Option.map_eq_some_iff] at h
    obtain ⟨inode, hp, heq⟩ := h
    rw [getCache, exits_bind_ok (show getInode p s = .ok inode s by rw [getInode, hp]), ← heq]
    rfl

theorem modifyCache_run (h : s.cacheAt owner = some (levels, root))
    (f : ℕ → CacheTree → CacheTree) :
    modifyCache owner f s = .ok () (s.withCache owner (f levels root)) := by
  cases owner with
  | none =>
    cases h
    rfl
  | some p =>
    rw [FatState.cacheAt, Option.map_eq_some_iff] at h
    obtain ⟨inode, hp, heq⟩ := h
    cases heq
    rw [modifyCache, modifyInode, hp, FatState.withCache, hp]

theorem cacheAt_withCache (h : s.cacheAt owner = some (levels, root)) (root' : CacheTree)
    (owner' : Option Ptr) :
    (s.withCache owner root').cacheAt owner' =
      if owner' = owner then some (levels, root') else s.cacheAt owner' := by
  cases owner with
  | none =>
    cases h
    cases owner' with
    | none => rfl
    | some q => rfl
  | some p =>
    rw [FatState.cacheAt, Option.map_eq_some_iff] at h
    obtain ⟨inode, hp, heq⟩ := h
    cases heq
    rw [FatState.withCache, hp]
    cases owner' with
    | none => rfl
    | some q =>
      by_cases hq : q = p
      · subst hq
        simp [FatState.cacheAt, FatState.setInode]
      · simp [FatState.cacheAt, FatState.setInode, hq]

theorem bare_withCache (s : FatState) (owner : Option Ptr) (root : CacheTree) :
    (s.withCache owner root).bare = s.bare := by
  cases owner with
  | none => rfl
  | some p =>
    rw [FatState.withCache]
    cases hp : s.inodes p with
    | none => rfl
    | some inode =>
      simp only [FatState.bare, FatState.setInode, FatState.mk.injEq, true_and, and_true]
      funext q
      by_cases hq : q = p
      · subst hq
        rw [Function.update_self, hp]
        rfl
      · rw [Function.update_of_ne hq]

theorem slot_eq (h : s.cacheAt owner = some (levels, root)) (k : ℕ) :
    s.slot owner k = slotOf levels root k := by
  rw [FatState.slot, h]

/-- A live inode is the owner of a File-Cache. -/
theorem cacheAt_inode {p : Ptr} {inode : Inode} (hp : s.inodes p = some inode) :
    s.cacheAt (some p) = some (inode.levels, inode.cache) := by
  rw [FatState.cacheAt, hp, Option.map_some]

/-- Only the shape of one tree differs: it has the same descriptors. -/
structure Reshaped (s s' : FatState) (owner : Option Ptr) (levels : ℕ) (root : CacheTree) :
    Prop where
  bare : s'.bare = s.bare
  brk : s.brk ≤ s'.brk
  cacheAt : s'.cacheAt owner = some (levels, root)
  ok : CacheOk levels root
  others : ∀ owner', owner' ≠ owner → s'.cacheAt owner' = s.cacheAt owner'
  slots : ∀ k, slotOf levels root k = s.slot owner k

variable {s' s'' : FatState}

theorem Reshaped.slot (h : Reshaped s s' owner levels root) (owner' : Option Ptr) (k : ℕ) :
    s'.slot owner' k = s.slot owner' k := by
  by_cases ho : owner' = owner
  · subst ho
    rw [slot_eq h.cacheAt, h.slots]
  · rw [FatState.slot, FatState.slot, h.others owner' ho]

theorem Reshaped.trans {levels' : ℕ} {root' : CacheTree} (h : Reshaped s s' owner levels root)
    (h' : Reshaped s' s'' owner levels' root') : Reshaped s s'' owner levels' root' where
  bare := h'.bare.trans h.bare
  brk := h.brk.trans h'.brk
  cacheAt := h'.cacheAt
  ok := h'.ok
  others := fun owner' ho => (h'.others owner' ho).trans (h.others owner' ho)
  slots := fun k => (h'.slots k).trans (h.slot owner k)

theorem Reshaped.cached {levels' : ℕ} {root' : CacheTree}
    (h : Reshaped s s' owner levels' root') (hcache : s.cacheAt owner = some (levels, root))
    (hle : levels ≤ levels') : Cached s s' where
  bare := h.bare
  brk := h.brk
  cacheOk := by
    intro owner' l r hr hok
    by_cases ho : owner' = owner
    · subst ho
      rw [hcache, Option.some.injEq, Prod.mk.injEq] at hr
      exact ⟨levels', root', h.cacheAt, h.ok, hr.1 ▸ hle⟩
    · exact ⟨l, r, (h.others owner' ho).trans hr, hok, le_rfl⟩
  keep := fun owner' k desc hslot => (h.slot owner' k).trans hslot
  fresh := fun owner' k desc hslot => Or.inl ((h.slot owner' k).symm.trans hslot)

/-- Opening the path of an index tells what the cache has there. -/
theorem openCache_run (h : s.cacheAt owner = some (levels, root)) (hok : CacheOk levels root)
    {k : ℕ} (hk : k < 64 ^ levels) :
    ∃ root' s', openCache owner k s =
        .ok (match s.slot owner k with | some desc => .leaf desc | none => .null) s' ∧
      Reshaped s s' owner levels root' ∧ RadixTree.PathOpen levels root' k := by
  obtain ⟨root', brk, hopen, hshaped, hnode, hpath, hle, hget⟩ :=
    RadixTree.openPath_spec hok.shaped (fun _ => hok.isNode) s.brk k
  have hok' : CacheOk levels root' := ⟨hok.levels_pos, hnode hok.levels_pos, hshaped⟩
  set t : FatState := { s with brk := brk } with ht
  have hcache : t.cacheAt owner = some (levels, root) := by
    rw [← h]
    cases owner <;> rfl
  have hslots (k' : ℕ) : slotOf levels root' k' = s.slot owner k' := by
    rw [slot_eq h, slotOf, slotOf, hget]
  refine ⟨root', t.withCache owner root', ?_, ?_, hpath⟩
  · have hfind : RadixTree.find levels root' k =
        (match s.slot owner k with | some desc => .leaf desc | none => .null) := by
      rw [RadixTree.find_eq levels root' k hshaped, ← hslots k, slotOf, if_pos hk]
      cases RadixTree.get? levels root' k <;> rfl
    obtain ⟨n, rfl⟩ := Nat.exists_eq_succ_of_ne_zero hok.levels_pos
    rw [openCache, exits_bind_ok (getCache_run h)]
    simp only [exits_bind_get, hopen, exits_bind_set, ← ht, exits_bind_ok (modifyCache_run hcache _),
      hfind, exits_pure]
  · refine ⟨bare_withCache t owner root', ?_, ?_, hok', ?_, hslots⟩
    · refine hle.trans (le_of_eq ?_)
      cases owner with
      | none => rfl
      | some p =>
        rw [FatState.withCache]
        split <;> rfl
    · rw [cacheAt_withCache hcache, if_pos rfl]
    · intro owner' ho
      rw [cacheAt_withCache hcache, if_neg ho]
      cases owner' <;> rfl

/-- Attaching a descriptor at the end of an open path. -/
theorem attach_slot {k : ℕ} (hk : k < 64 ^ levels)
    (hpath : RadixTree.PathOpen levels root k) (desc : Desc) (k' : ℕ) :
    slotOf levels (RadixTree.attach levels root k desc) k' =
      if k' = k then some desc else slotOf levels root k' := by
  rw [slotOf, slotOf]
  by_cases hk' : k' < 64 ^ levels
  · rw [if_pos hk', if_pos hk', RadixTree.get?_attach hpath, Nat.mod_eq_of_lt hk,
      Nat.mod_eq_of_lt hk']
  · rw [if_neg hk', if_neg hk', if_neg]
    rintro rfl
    exact hk' hk

theorem CacheOk.attach (hok : CacheOk levels root) (k : ℕ) (desc : Desc) :
    CacheOk levels (RadixTree.attach levels root k desc) := by
  refine ⟨hok.levels_pos, ?_, RadixTree.shaped_attach hok.shaped k desc⟩
  obtain ⟨n, rfl⟩ := Nat.exists_eq_succ_of_ne_zero hok.levels_pos
  exact RadixTree.isNode_attach hok.isNode k desc

theorem CacheOk.modify (hok : CacheOk levels root) (f : Desc → Desc) (k : ℕ) :
    CacheOk levels (RadixTree.modify f levels root k) := by
  refine ⟨hok.levels_pos, ?_, RadixTree.shaped_modify hok.shaped f k⟩
  obtain ⟨n, rfl⟩ := Nat.exists_eq_succ_of_ne_zero hok.levels_pos
  exact RadixTree.isNode_modify hok.isNode f k

/-- A search that loads a missing cluster. `P` holds of the caches that the search for the lba
leaves alone, the searched one included. -/
theorem loadBuffer_run (h : s.cacheAt owner = some (levels, root)) (hok : CacheOk levels root)
    {k : ℕ} (hk : k < 64 ^ levels) (hdev : s.DeviceOk) (findLba : FatM (Option ℕ))
    (P : Option Ptr → Prop) (hP : P owner)
    (hfind : s.slot owner k = none → ∀ s₁, Cached s s₁ → ∃ s₂,
      findLba s₁ = .ok (some (s.lbaOf owner k)) s₂ ∧ Cached s₁ s₂ ∧
      ∀ owner', P owner' → s₂.cacheAt owner' = s₁.cacheAt owner') :
    ∃ desc s', loadBuffer owner k findLba s = .ok (some desc) s' ∧
      desc.buffer = s.block owner k ∧ s'.slot owner k = some desc ∧ Cached s s' ∧
      (∀ owner', P owner' → owner' ≠ owner → s'.cacheAt owner' = s.cacheAt owner') ∧
      (∀ k', k' ≠ k → s'.slot owner k' = s.slot owner k') ∧
      (s.slot owner k = none → s.brk ≤ desc.address ∧ desc.address < s'.brk) := by
  obtain ⟨root₁, s₁, hrun, hre, hpath⟩ := openCache_run h hok hk
  have hc₁ : Cached s s₁ := hre.cached h le_rfl
  rw [loadBuffer, exits_bind_ok hrun]
  cases hslot : s.slot owner k with
  | some desc =>
    refine ⟨desc, s₁, rfl, ?_, hc₁.keep _ _ _ hslot, hc₁, fun owner' _ => hre.others owner',
      fun k' _ => hre.slot owner k', nofun⟩
    rw [FatState.block, hslot]
  | none =>
    obtain ⟨s₂, hlba, hc₂, hsame⟩ := hfind hslot s₁ hc₁
    have hcache₂ : s₂.cacheAt owner = some (levels, root₁) := (hsame owner hP).trans hre.cacheAt
    have hc : Cached s s₂ := hc₁.trans hc₂
    -- the state with the two new cells, after the access
    set s₃ : FatState := { s₂ with
      brk := s₂.brk + 1 + 1
      device := { s₂.device with accesses := s₂.device.accesses + 1 } } with hs₃
    set desc : Desc :=
      { address := s₂.brk + 1, bufferAddress := s₂.brk, lba := s.lbaOf owner k, dirty := false,
        buffer := s₂.device.disk.load 4096 (s.lbaOf owner k) } with hdesc
    have hcache₃ : s₃.cacheAt owner = some (levels, root₁) := by
      rw [← hcache₂]
      cases owner <;> rfl
    have hbare₃ : s₃.bare = s.bare := by
      rw [← hc.bare]
      rfl
    have hslots (owner' : Option Ptr) (k' : ℕ) :
        (s₃.withCache owner (RadixTree.attach levels root₁ k desc)).slot owner' k' =
          if owner' = owner ∧ k' = k then some desc else s₂.slot owner' k' := by
      rw [FatState.slot, cacheAt_withCache hcache₃]
      by_cases ho : owner' = owner
      · subst ho
        simp only [if_true, true_and, attach_slot hk hpath, slot_eq hcache₂]
      · rw [if_neg ho, if_neg (fun h => ho h.1), FatState.slot]
        cases owner' <;> rfl
    have hbrk : (s₃.withCache owner (RadixTree.attach levels root₁ k desc)).brk = s₂.brk + 1 + 1 := by
      cases owner with
      | none => rfl
      | some p =>
        rw [FatState.withCache]
        split <;> rfl
    refine ⟨desc, s₃.withCache owner (RadixTree.attach levels root₁ k desc), ?_, ?_, ?_, ?_, ?_,
      fun k' hk' => ?_, fun _ => ⟨hc.brk.trans (Nat.le_succ _), ?_⟩⟩
    · change (findLba >>= fun lba => _) s₁ = _
      rw [exits_bind_ok hlba]
      change (malloc >>= fun buf => _) s₂ = _
      rw [exits_bind_ok (show malloc s₂ = .ok s₂.brk { s₂ with brk := s₂.brk + 1 } from rfl)]
      have hread : iocRead 4096 (s.lbaOf owner k) { s₂ with brk := s₂.brk + 1 } =
          .ok (some (s₂.device.disk.load 4096 (s.lbaOf owner k))) { s₂ with
            brk := s₂.brk + 1
            device := { s₂.device with accesses := s₂.device.accesses + 1 } } := by
        rw [iocRead, Device.read, hc.deviceOk hdev]
        rfl
      rw [exits_bind_ok hread]
      change (malloc >>= fun pdesc => _) _ = _
      rw [exits_bind_ok (show malloc _ = .ok (s₂.brk + 1) s₃ from rfl),
        exits_bind_ok (modifyCache_run hcache₃ _)]
      rfl
    · rw [hdesc, FatState.block, hslot, bare_disk hc.bare]
    · rw [hslots, if_pos ⟨rfl, rfl⟩]
    · refine ⟨(bare_withCache s₃ owner _).trans hbare₃, ?_, ?_, ?_, ?_⟩
      · exact hc.brk.trans ((Nat.le_add_right s₂.brk 2).trans hbrk.ge)
      · intro owner' l r hr hokr
        by_cases ho : owner' = owner
        · subst ho
          rw [h, Option.some.injEq, Prod.mk.injEq] at hr
          refine ⟨levels, RadixTree.attach levels root₁ k desc, ?_, hre.ok.attach k desc,
            le_of_eq hr.1.symm⟩
          rw [cacheAt_withCache hcache₃, if_pos rfl]
        · obtain ⟨l', r', hr', hok', hle⟩ := hc.cacheOk owner' l r hr hokr
          refine ⟨l', r', ?_, hok', hle⟩
          rw [cacheAt_withCache hcache₃, if_neg ho, ← hr']
          cases owner' <;> rfl
      · intro owner' k' d hd
        rw [hslots, if_neg]
        · exact hc.keep owner' k' d hd
        · rintro ⟨rfl, rfl⟩
          rw [hslot] at hd
          cases hd
      · intro owner' k' d hd
        rw [hslots] at hd
        split at hd
        · rename_i heq
          obtain ⟨rfl, rfl⟩ := heq
          rw [Option.some.injEq] at hd
          rw [← hd, hdesc]
          exact Or.inr ⟨rfl, rfl, by rw [bare_disk hc.bare]⟩
        · exact hc.fresh owner' k' d hd
    · intro owner' hP' ho
      rw [cacheAt_withCache hcache₃, if_neg ho, ← hre.others owner' ho, ← hsame owner' hP']
      cases owner' <;> rfl
    · rw [hslots, if_neg (fun h => hk' h.2), ← hre.slot owner k', FatState.slot, FatState.slot,
        hsame owner hP]
    · rw [hbrk]
      exact Nat.lt_succ_self _

/-! ## The Fat-Cache -/

/-- The Fat-Cache can hold every sector of its tree. -/
abbrev FatState.FatCacheOk (s : FatState) : Prop := CacheOk s.fatCacheLevels s.fatCacheRoot

/-- The slot of a cluster is in the part of the FAT that the Fat-Cache covers. -/
def FatState.InFat (s : FatState) (cluster : ℕ) : Prop :=
  cluster / 0x400 < 64 ^ s.fatCacheLevels

theorem Cached.inFat (h : Cached s s') {cluster : ℕ} (hc : s.InFat cluster) :
    s'.InFat cluster := by
  rw [FatState.InFat, bare_levels h.bare]
  exact hc

theorem Cached.fatCacheOk (h : Cached s s') (hok : s.FatCacheOk) : s'.FatCacheOk := by
  obtain ⟨levels', root', hroot', hok', -⟩ := h.cacheOk none _ _ rfl hok
  cases hroot'
  exact hok'

theorem getFatBufferFromCache_run (hok : s.FatCacheOk) (hdev : s.DeviceOk) {k : ℕ}
    (hk : k < 64 ^ s.fatCacheLevels) :
    ∃ desc s', getFatBufferFromCache k s = .ok (some desc) s' ∧ desc.buffer = s.fatBlock k ∧
      s'.slot none k = some desc ∧ Cached s s' ∧
      ∀ p, s'.cacheAt (some p) = s.cacheAt (some p) := by
  have hcache : s.cacheAt none = some (s.fatCacheLevels, s.fatCacheRoot) := rfl
  obtain ⟨desc, s', hrun, hbuffer, hslot, hc, hsame, -⟩ :=
    loadBuffer_run hcache hok hk hdev (do let s ← get; pure (some (u32 (s.fatLba + k * 8))))
      (fun _ => True) trivial (by
        intro _ s₁ hc
        refine ⟨s₁, ?_, Cached.refl s₁, fun _ _ => rfl⟩
        rw [FatState.lbaOf, ← bare_fatLba hc.bare]
        rfl)
  exact ⟨desc, s', hrun, hbuffer, hslot, hc, fun p => hsame (some p) trivial (by simp)⟩

theorem getFatEntry_run (hok : s.FatCacheOk) (hdev : s.DeviceOk) {cluster : ℕ}
    (hin : s.InFat cluster) :
    ∃ s', getFatEntry cluster s = .ok (some (s.fatEntry cluster)) s' ∧ Cached s s' ∧
      ∀ p, s'.cacheAt (some p) = s.cacheAt (some p) := by
  obtain ⟨desc, s', hrun, hbuffer, -, hc, hsame⟩ := getFatBufferFromCache_run hok hdev hin
  refine ⟨s', ?_, hc, hsame⟩
  rw [getFatEntry, exits_bind_ok hrun, FatState.fatEntry, ← hbuffer]
  rfl

/-- The clusters before position `count` of a chain have their slots in the FAT. -/
def FatState.ChainIn (s : FatState) (count current : ℕ) : Prop :=
  ∀ j < count, s.InFat (s.chain j current)

theorem Cached.chainIn (h : Cached s s') {count current : ℕ} (hc : s.ChainIn count current) :
    s'.ChainIn count current := by
  intro j hj
  rw [h.chain]
  exact h.inFat (hc j hj)

theorem followChain_run (hok : s.FatCacheOk) (hdev : s.DeviceOk) {count current : ℕ}
    (hchain : s.ChainIn count current) :
    ∃ s', followChain count current s = .ok (some (s.chain count current)) s' ∧ Cached s s' ∧
      ∀ p, s'.cacheAt (some p) = s.cacheAt (some p) := by
  induction count generalizing s current with
  | zero => exact ⟨s, rfl, Cached.refl s, fun _ => rfl⟩
  | succ count ih =>
    have hin : s.InFat current := hchain 0 (Nat.succ_pos count)
    obtain ⟨s₁, hrun, hc₁, hsame₁⟩ := getFatEntry_run hok hdev hin
    have hchain₁ : s₁.ChainIn count (s.fatEntry current) :=
      hc₁.chainIn fun j hj => hchain (j + 1) (by omega)
    obtain ⟨s₂, hrun₂, hc₂, hsame₂⟩ := ih (hc₁.fatCacheOk hok) (hc₁.deviceOk hdev) hchain₁
    refine ⟨s₂, ?_, hc₁.trans hc₂, fun p => (hsame₂ p).trans (hsame₁ p)⟩
    rw [followChain, exits_bind_ok hrun, FatState.chain, ← hc₁.chain]
    exact hrun₂

/-! ## The File-Caches -/

theorem getInode_run {p : Ptr} {inode : Inode} (hp : s.inodes p = some inode) :
    getInode p s = .ok inode s := by
  rw [getInode, hp]

theorem modifyInode_run {p : Ptr} {inode : Inode} (hp : s.inodes p = some inode)
    (f : Inode → Inode) : modifyInode p f s = .ok () (s.setInode p (f inode)) := by
  rw [modifyInode, hp]

theorem clusterToLba_run {cluster : ℕ} (h : 2 ≤ cluster) :
    clusterToLba cluster s = .ok (u32 ((cluster - 2) * 8 + s.dataLba)) s := by
  rw [clusterToLba, if_neg (by omega)]

/-- The chain of a file reaches position `k` inside the FAT, at a DATA cluster. -/
structure FatState.Reaches (s : FatState) (cluster k : ℕ) : Prop where
  inFat : s.ChainIn k cluster
  data : 2 ≤ s.chain k cluster

theorem Cached.reaches (h : Cached s s') {cluster k : ℕ} (hr : s.Reaches cluster k) :
    s'.Reaches cluster k where
  inFat := h.chainIn hr.inFat
  data := by
    rw [h.chain]
    exact hr.data

theorem findFileLba_run (hok : s.FatCacheOk) (hdev : s.DeviceOk) {p : Ptr} {inode : Inode}
    (hp : s.inodes p = some inode) {k : ℕ} (hr : s.Reaches inode.cluster k) :
    ∃ s', findFileLba p k s = .ok (some (s.lbaOf (some p) k)) s' ∧ Cached s s' ∧
      ∀ q, s'.cacheAt (some q) = s.cacheAt (some q) := by
  obtain ⟨s', hrun, hc, hsame⟩ := followChain_run hok hdev hr.inFat
  refine ⟨s', ?_, hc, hsame⟩
  rw [findFileLba, exits_bind_ok (getInode_run hp), exits_bind_ok hrun]
  change (clusterToLba _ >>= fun lba => _) s' = _
  rw [exits_bind_ok (clusterToLba_run hr.data), FatState.lbaOf, hp, bare_dataLba hc.bare]
  rfl

theorem slotOf_addRoot (levels : ℕ) (root : CacheTree) (address k : ℕ) :
    slotOf (levels + 1) (RadixTree.addRoot address root) k = slotOf levels root k := by
  rw [slotOf, slotOf]
  by_cases hk : k < 64 ^ (levels + 1)
  · rw [if_pos hk, RadixTree.get?_addRoot _ _ hk]
  · rw [if_neg hk, if_neg]
    have : (64 : ℕ) ^ levels ≤ 64 ^ (levels + 1) := Nat.pow_le_pow_right (by omega) (by omega)
    omega

theorem allocateOneCacheNode_run (s : FatState) (t : CacheTree) :
    allocateOneCacheNode t s = .ok (RadixTree.addRoot s.brk t) { s with brk := s.brk + 1 } := rfl

theorem addLevels_run {p : Ptr} {inode : Inode} (hp : s.inodes p = some inode)
    (hok : CacheOk inode.levels inode.cache) (n : ℕ) :
    ∃ root' s', addLevels p n s = .ok () s' ∧
      Reshaped s s' (some p) (inode.levels + n) root' := by
  induction n generalizing s inode with
  | zero =>
    have hcache := cacheAt_inode hp
    exact ⟨inode.cache, s, rfl, rfl, le_rfl, hcache, hok, fun _ _ => rfl,
      fun k => (slot_eq hcache k).symm⟩
  | succ n ih =>
    set new : Inode := { inode with
      cache := RadixTree.addRoot s.brk inode.cache, levels := inode.levels + 1 } with hnew
    set s₁ : FatState := { s with brk := s.brk + 1 }.setInode p new with hs₁
    have hp₁ : s₁.inodes p = some new := Function.update_self _ _ _
    have hok₁ : CacheOk new.levels new.cache :=
      ⟨Nat.succ_ne_zero _, trivial, RadixTree.shaped_addRoot hok.shaped s.brk⟩
    have hre : Reshaped s s₁ (some p) (inode.levels + 1) new.cache := by
      refine ⟨?_, Nat.le_succ _, cacheAt_inode hp₁, hok₁, ?_, ?_⟩
      · simp only [FatState.bare, hs₁, FatState.setInode, FatState.mk.injEq, true_and, and_true]
        funext q
        by_cases hq : q = p
        · subst hq
          rw [Function.update_self, hp]
          rfl
        · rw [Function.update_of_ne hq]
      · intro owner' ho
        cases owner' with
        | none => rfl
        | some q =>
          have hq : q ≠ p := fun h => ho (congrArg some h)
          simp only [FatState.cacheAt, hs₁, FatState.setInode, Function.update_of_ne hq]
      · intro k
        rw [slot_eq (cacheAt_inode hp)]
        exact slotOf_addRoot _ _ _ k
    obtain ⟨root', s', hrun, hre'⟩ := ih hp₁ hok₁
    refine ⟨root', s', ?_, ?_⟩
    · rw [addLevels, exits_bind_ok (getInode_run hp),
        exits_bind_ok (allocateOneCacheNode_run s inode.cache),
        exits_bind_ok (modifyInode_run (s := { s with brk := s.brk + 1 }) hp _)]
      exact hrun
    · have := hre.trans hre'
      rwa [show new.levels + n = inode.levels + (n + 1) by rw [hnew]; simp only; omega] at this

/-- Growing a cache keeps its descriptors and covers the index. -/
theorem growCache_run {p : Ptr} {inode : Inode} (hp : s.inodes p = some inode)
    (hok : CacheOk inode.levels inode.cache) (k : ℕ) :
    ∃ levels root s', growCache p k s = .ok () s' ∧ Reshaped s s' (some p) levels root ∧
      inode.levels ≤ levels ∧ getLevelsFromSize (u32 ((k + 1) * 4096)) ≤ levels := by
  obtain ⟨root, s', hrun, hre⟩ :=
    addLevels_run hp hok (getLevelsFromSize (u32 ((k + 1) * 4096)) - inode.levels)
  refine ⟨_, root, s', ?_, hre, Nat.le_add_right _ _, by omega⟩
  rw [growCache, exits_bind_ok (getInode_run hp)]
  exact hrun

/-- The levels of a size cover its clusters. -/
theorem lt_pow_getLevelsFromSize {k : ℕ} (hk : (k + 1) * 4096 < 0x100000000) :
    k < 64 ^ getLevelsFromSize (u32 ((k + 1) * 4096)) := by
  rw [u32, Nat.mod_eq_of_lt hk, getLevelsFromSize]
  split
  · omega
  · split
    · omega
    · split <;> omega

/-- `_get_buffer_from_cache` for a file or a directory, with the cell of a new descriptor. -/
theorem getBufferFromCache_cell (hfat : s.FatCacheOk) (hdev : s.DeviceOk) {p : Ptr} {inode : Inode}
    (hp : s.inodes p = some inode) (hok : CacheOk inode.levels inode.cache) {k : ℕ}
    (hk : k < 64 ^ inode.levels ∨ (k + 1) * 4096 < 0x100000000)
    (hr : s.slot (some p) k = none → s.Reaches inode.cluster k) :
    ∃ desc s', getBufferFromCache (some p) k s = .ok (some desc) s' ∧
      desc.buffer = s.block (some p) k ∧ s'.slot (some p) k = some desc ∧ Cached s s' ∧
      (∀ q, q ≠ p → s'.cacheAt (some q) = s.cacheAt (some q)) ∧
      (∀ k', k' ≠ k → s'.slot (some p) k' = s.slot (some p) k') ∧
      (s.slot (some p) k = none → s.brk ≤ desc.address ∧ desc.address < s'.brk) := by
  obtain ⟨levels, root, s₁, hrun, hre, hle, hcover⟩ := growCache_run hp hok k
  have hc₁ : Cached s s₁ := hre.cached (cacheAt_inode hp) hle
  have hk' : k < 64 ^ levels := by
    rcases hk with hk | hk
    · exact hk.trans_le (Nat.pow_le_pow_right (by omega) hle)
    · exact (lt_pow_getLevelsFromSize hk).trans_le (Nat.pow_le_pow_right (by omega) hcover)
  obtain ⟨desc, s', hload, hbuffer, hslot, hc, hsame, hslots, hcell⟩ :=
    loadBuffer_run hre.cacheAt hre.ok hk' (hc₁.deviceOk hdev) (findFileLba p k)
      (fun owner => owner ≠ none) (by simp) (by
        intro hslot s₂ hc₂
        have hc : Cached s s₂ := hc₁.trans hc₂
        obtain ⟨inode₂, hp₂, hcore⟩ := bare_inode hc.bare hp
        rw [hre.slot] at hslot
        have hr₂ : s₂.Reaches inode₂.cluster k := by
          rw [core_cluster hcore]
          exact hc.reaches (hr hslot)
        obtain ⟨s₃, hrun₃, hc₃, hsame₃⟩ :=
          findFileLba_run (hc.fatCacheOk hfat) (hc.deviceOk hdev) hp₂ hr₂
        refine ⟨s₃, ?_, hc₃, ?_⟩
        · rw [hrun₃, hc₂.lbaOf]
        · intro owner' ho
          cases owner' with
          | none => exact (ho rfl).elim
          | some q => exact hsame₃ q)
  refine ⟨desc, s', ?_, hbuffer.trans (hc₁.block _ _), hslot, hc₁.trans hc, ?_,
    fun k' hk' => (hslots k' hk').trans (hre.slot (some p) k'), fun hnone => ?_⟩
  · rw [getBufferFromCache, exits_bind_ok hrun]
    exact hload
  · intro q hq
    have hq' : some q ≠ some p := fun h => hq (Option.some.inj h)
    rw [hsame (some q) (by simp) hq', hre.others _ hq']
  · rw [← hre.slot] at hnone
    exact ⟨hre.brk.trans (hcell hnone).1, (hcell hnone).2⟩

/-- `_get_buffer_from_cache` for a file or a directory. -/
theorem getBufferFromCache_run (hfat : s.FatCacheOk) (hdev : s.DeviceOk) {p : Ptr} {inode : Inode}
    (hp : s.inodes p = some inode) (hok : CacheOk inode.levels inode.cache) {k : ℕ}
    (hk : k < 64 ^ inode.levels ∨ (k + 1) * 4096 < 0x100000000)
    (hr : s.slot (some p) k = none → s.Reaches inode.cluster k) :
    ∃ desc s', getBufferFromCache (some p) k s = .ok (some desc) s' ∧
      desc.buffer = s.block (some p) k ∧ s'.slot (some p) k = some desc ∧ Cached s s' ∧
      (∀ q, q ≠ p → s'.cacheAt (some q) = s.cacheAt (some q)) ∧
      ∀ k', k' ≠ k → s'.slot (some p) k' = s.slot (some p) k' := by
  obtain ⟨desc, s', hrun, hbuffer, hslot, hc, hsame, hslots, -⟩ :=
    getBufferFromCache_cell hfat hdev hp hok hk hr
  exact ⟨desc, s', hrun, hbuffer, hslot, hc, hsame, hslots⟩

end Run

end GietVm.Fat
