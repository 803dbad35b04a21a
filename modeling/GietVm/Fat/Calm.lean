import GietVm.Fat.Create
import GietVm.Fat.FreedSlots

/-!
# What the calls leave in the caches

A call that returns has gone through many loads, whose success depends on the device and on
the chains of the FAT. What it leaves in the caches does not: a cluster that was cached still
is, with the same content unless the call writes there. `Calm S s s'` says so
for the caches that may be touched and those whose contents may be written, and that the
inodes, the descriptors and the geometry are the same. Every computation is followed
backwards from its return, so nothing is asked of the FAT or of the device.
-/

namespace GietVm.Fat

open GietVm.Library

/-- A state without its caches, its counters and the content of the device. -/
def FatState.skeleton (s : FatState) : FatState :=
  { s.frame with
    device := { s.frame.device with disk := fun _ => 0 }
    blockBuffer := fun _ => 0
    blockBufferLba := 0
    freeClustersNumber := 0
    firstFreeCluster := 0
    freed := [] }

/-- The descriptor that a search finds for an index: the Fat-Cache has a fixed number of levels,
a File-Cache grows when the index is not covered. -/
def FatState.look (s : FatState) (owner : Option Ptr) (k : ℕ) : Option Desc :=
  match owner with
  | none => s.fatLeaf k
  | some p => s.slot (some p) k

/-- All the caches are well formed. -/
def FatState.CachesOk (s : FatState) : Prop :=
  ∀ owner levels root, s.cacheAt owner = some (levels, root) → CacheOk levels root

/-- What a call may change: the caches that it loads clusters into, those whose contents it
writes, and the inodes that it gives another directory entry. -/
structure Scope where
  touched : Option Ptr → Prop
  written : Option Ptr → Prop
  placed : Ptr → Prop

/-- A scope inside another one. -/
structure Scope.Within (S S' : Scope) : Prop where
  touched : ∀ o, S.touched o → S'.touched o
  written : ∀ o, S.written o → S'.written o
  placed : ∀ p, S.placed p → S'.placed p

/-- Two descriptors of one buffer, whose content may only change in a cache that is written. -/
def Scope.Close (S : Scope) (owner : Option Ptr) (desc desc' : Desc) : Prop :=
  desc'.bufferAddress = desc.bufferAddress ∧ (¬ S.written owner → desc'.buffer = desc.buffer)

/-- The states differ inside the scope, and no cluster leaves a cache. -/
structure Calm (S : Scope) (s s' : FatState) : Prop where
  skeleton : s'.skeleton = s.skeleton
  brk : s.brk ≤ s'.brk
  dentry : ∀ p, ¬ S.placed p → (s'.inodes p).map Inode.dentry = (s.inodes p).map Inode.dentry
  others : ∀ owner, ¬ S.touched owner → s'.cacheAt owner = s.cacheAt owner
  look : ∀ owner k desc, s.look owner k = some desc →
    ∃ desc', s'.look owner k = some desc' ∧ S.Close owner desc desc'

section Calm

variable {S S' : Scope} {s s' s'' : FatState}
  {owner : Option Ptr} {levels : ℕ} {root root' : CacheTree}

theorem Scope.Close.refl (desc : Desc) : S.Close owner desc desc := ⟨rfl, fun _ => rfl⟩

theorem Scope.Close.trans {desc desc' desc'' : Desc} (h : S.Close owner desc desc')
    (h' : S.Close owner desc' desc'') : S.Close owner desc desc'' :=
  ⟨h'.1.trans h.1, fun hw => (h'.2 hw).trans (h.2 hw)⟩

theorem Calm.refl (s : FatState) : Calm S s s :=
  ⟨rfl, le_rfl, fun _ _ => rfl, fun _ _ => rfl, fun _ _ desc h => ⟨desc, h, .refl desc⟩⟩

theorem Calm.trans (h : Calm S s s') (h' : Calm S s' s'') :
    Calm S s s'' where
  skeleton := h'.skeleton.trans h.skeleton
  brk := h.brk.trans h'.brk
  dentry := fun p hp => (h'.dentry p hp).trans (h.dentry p hp)
  others := fun owner ho => (h'.others owner ho).trans (h.others owner ho)
  look := by
    intro owner k desc hlook
    obtain ⟨desc₁, hlook₁, hclose₁⟩ := h.look owner k desc hlook
    obtain ⟨desc₂, hlook₂, hclose₂⟩ := h'.look owner k desc₁ hlook₁
    exact ⟨desc₂, hlook₂, hclose₁.trans hclose₂⟩

theorem Calm.mono (h : Calm S s s') (hS : S.Within S') : Calm S' s s' where
  skeleton := h.skeleton
  brk := h.brk
  dentry := fun p hp => h.dentry p fun hpp => hp (hS.placed p hpp)
  others := fun owner ho => h.others owner fun hto => ho (hS.touched owner hto)
  look := by
    intro owner k desc hlook
    obtain ⟨desc', hlook', haddress, hbuffer⟩ := h.look owner k desc hlook
    exact ⟨desc', hlook', haddress, fun hno => hbuffer fun hwo => hno (hS.written owner hwo)⟩

theorem look_none (s : FatState) (k : ℕ) :
    s.look none k = RadixTree.get? s.fatCacheLevels s.fatCacheRoot k := rfl

theorem look_some (s : FatState) (p : Ptr) (k : ℕ) : s.look (some p) k = s.slot (some p) k := rfl

/-- A search looks at one cache. -/
theorem look_congr (h : s'.cacheAt owner = s.cacheAt owner) (k : ℕ) :
    s'.look owner k = s.look owner k := by
  cases owner with
  | none =>
    rw [FatState.cacheAt, FatState.cacheAt, Option.some.injEq, Prod.mk.injEq] at h
    rw [look_none, look_none, h.1, h.2]
  | some p => rw [look_some, look_some, FatState.slot, FatState.slot, h]

/-- What a cluster found by a search is in the tree. -/
theorem look_get? (hcache : s.cacheAt owner = some (levels, root)) {k : ℕ} {desc : Desc}
    (h : s.look owner k = some desc) : RadixTree.get? levels root k = some desc := by
  cases owner with
  | none =>
    cases hcache
    exact h
  | some p =>
    rw [look_some, slot_eq hcache, slotOf] at h
    split at h
    · exact h
    · cases h

/-- A tree of the same height shows at least the same indices. -/
theorem look_of_get? (hcache : s.cacheAt owner = some (levels, root))
    (hcache' : s'.cacheAt owner = some (levels, root')) {k : ℕ} {desc desc' : Desc}
    (h : s.look owner k = some desc) (hget : RadixTree.get? levels root' k = some desc') :
    s'.look owner k = some desc' := by
  cases owner with
  | none =>
    cases hcache'
    exact hget
  | some p =>
    rw [look_some, slot_eq hcache, slotOf] at h
    split at h
    · rename_i hk
      rw [look_some, slot_eq hcache', slotOf, if_pos hk, hget]
    · cases h

/-- Steps that leave the caches alone. -/
theorem Calm.of_cacheAt (hskeleton : s'.skeleton = s.skeleton) (hbrk : s.brk ≤ s'.brk)
    (hdentry : ∀ p, ¬ S.placed p → (s'.inodes p).map Inode.dentry = (s.inodes p).map Inode.dentry)
    (hcache : ∀ owner, s'.cacheAt owner = s.cacheAt owner) : Calm S s s' :=
  ⟨hskeleton, hbrk, hdentry, fun owner _ => hcache owner,
    fun owner k desc h => ⟨desc, (look_congr (hcache owner) k).trans h, .refl desc⟩⟩

theorem FatState.CachesOk.of_cacheAt (hok : s.CachesOk)
    (hcache : ∀ owner, s'.cacheAt owner = s.cacheAt owner) : s'.CachesOk := by
  intro owner levels root h
  rw [hcache] at h
  exact hok owner levels root h

theorem skeleton_of_bare (h : s'.bare = s.bare) : s'.skeleton = s.skeleton := by
  rw [FatState.skeleton, FatState.skeleton, frame_of_bare h]

theorem dentry_of_bare (h : s'.bare = s.bare) (p : Ptr) :
    (s'.inodes p).map Inode.dentry = (s.inodes p).map Inode.dentry := by
  have hcore := congrArg (Option.map Inode.dentry) (bare_core h p)
  rw [Option.map_map, Option.map_map] at hcore
  exact hcore

/-- A tree of the same height in place of another one. -/
theorem Calm.withCache (hcache : s.cacheAt owner = some (levels, root)) (ht : S.touched owner)
    (hkeep : ∀ k desc, RadixTree.get? levels root k = some desc →
      ∃ desc', RadixTree.get? levels root' k = some desc' ∧ S.Close owner desc desc') :
    Calm S s (s.withCache owner root') where
  skeleton := skeleton_of_bare (bare_withCache s owner root')
  dentry := fun p _ => dentry_of_bare (bare_withCache s owner root') p
  brk := by
    cases owner with
    | none => exact le_rfl
    | some p =>
      rw [FatState.withCache]
      split
      · exact le_rfl
      · exact le_rfl
  others := by
    intro owner' ho
    rw [cacheAt_withCache hcache, if_neg]
    rintro rfl
    exact ho ht
  look := by
    intro owner' k desc hlook
    have hcache' := cacheAt_withCache hcache root'
    by_cases ho : owner' = owner
    · subst ho
      obtain ⟨desc', hget, hclose⟩ := hkeep k desc (look_get? hcache hlook)
      refine ⟨desc', look_of_get? hcache ?_ hlook hget, hclose⟩
      rw [hcache', if_pos rfl]
    · refine ⟨desc, ?_, .refl desc⟩
      rw [look_congr (s := s), hlook]
      rw [hcache', if_neg ho]

theorem FatState.CachesOk.withCache (hok : s.CachesOk)
    (hcache : s.cacheAt owner = some (levels, root)) (hok' : CacheOk levels root') :
    (s.withCache owner root').CachesOk := by
  intro owner' l r h
  rw [cacheAt_withCache hcache] at h
  split at h
  · cases h
    exact hok'
  · exact hok owner' l r h

/-- A tree of another height with the same descriptors. -/
theorem Calm.of_reshaped {p : Ptr} (h : Reshaped s s' (some p) levels root)
    (ht : S.touched (some p)) : Calm S s s' where
  skeleton := skeleton_of_bare h.bare
  brk := h.brk
  dentry := fun q _ => dentry_of_bare h.bare q
  others := by
    intro owner ho
    refine h.others owner ?_
    rintro rfl
    exact ho ht
  look := by
    intro owner k desc hlook
    refine ⟨desc, ?_, .refl desc⟩
    cases owner with
    | none => exact (look_congr (h.others none (by simp)) k).trans hlook
    | some q => exact (h.slot (some q) k).trans hlook

theorem FatState.CachesOk.of_reshaped (hok : s.CachesOk) (h : Reshaped s s' owner levels root) :
    s'.CachesOk := by
  intro owner' l r hroot
  by_cases ho : owner' = owner
  · subst ho
    rw [h.cacheAt] at hroot
    cases hroot
    exact h.ok
  · rw [h.others owner' ho] at hroot
    exact hok owner' l r hroot

end Calm

/-! ## Computations -/

/-- Runs that return keep the caches well formed, and are calm. -/
abbrev Calms (S : Scope) {α : Type} (x : FatM α) : Prop :=
  Steps (fun s s' => s.CachesOk → s'.CachesOk ∧ Calm S s s') x

section Calms

variable {S S' : Scope} {α β : Type}

theorem Calms.bind {x : FatM α} {f : α → FatM β} (hx : Calms S x)
    (hf : ∀ a, Calms S (f a)) : Calms S (x >>= f) := by
  refine Steps.bind ?_ hx hf
  intro s t u h h' hok
  obtain ⟨hok₁, hcalm⟩ := h hok
  obtain ⟨hok₂, hcalm'⟩ := h' hok₁
  exact ⟨hok₂, hcalm.trans hcalm'⟩

theorem Calms.pure (a : α) : Calms S (pure a) :=
  Steps.pure (fun s hok => ⟨hok, Calm.refl s⟩) a

theorem Calms.throw (e : FatError) : Calms S (throw e : FatM α) := Steps.throw e

theorem Calms.get : Calms S (get : FatM FatState) :=
  Steps.get fun s hok => ⟨hok, Calm.refl s⟩

theorem Calms.mono {x : FatM α} (h : Calms S x) (hS : S.Within S') : Calms S' x :=
  Steps.mono (fun _ _ hstep hok => ⟨(hstep hok).1, (hstep hok).2.mono hS⟩) h

/-- A step that leaves the caches alone. -/
theorem Calms.of_step {x : FatM α} (h : ∀ s a s', x s = .ok a s' → s'.skeleton = s.skeleton ∧
    s.brk ≤ s'.brk ∧ s'.inodes = s.inodes ∧ ∀ owner, s'.cacheAt owner = s.cacheAt owner) :
    Calms S x := by
  intro s a s' hrun hok
  obtain ⟨hskeleton, hbrk, hinodes, hcache⟩ := h s a s' hrun
  exact ⟨hok.of_cacheAt hcache, Calm.of_cacheAt hskeleton hbrk (fun p _ => by rw [hinodes]) hcache⟩

theorem Calms.modify {f : FatState → FatState} (hskeleton : ∀ s, (f s).skeleton = s.skeleton)
    (hbrk : ∀ s, (f s).brk = s.brk) (hinodes : ∀ s, (f s).inodes = s.inodes)
    (hcache : ∀ s owner, (f s).cacheAt owner = s.cacheAt owner) :
    Calms S (modify f : FatM PUnit) := by
  refine Calms.of_step fun s a s' h => ?_
  injection h with _ hs
  subst hs
  exact ⟨hskeleton s, (hbrk s).ge, hinodes s, hcache s⟩

theorem calms_malloc : Calms S malloc := by
  refine Calms.of_step fun s a s' h => ?_
  injection h with _ hs
  subst hs
  exact ⟨rfl, Nat.le_succ _, rfl, fun owner => by cases owner <;> rfl⟩

theorem calms_free (p : Ptr) : Calms S (free p) :=
  Calms.modify (fun _ => rfl) (fun _ => rfl) (fun _ => rfl) fun _ owner => by cases owner <;> rfl

theorem calms_iocRead (n lba : ℕ) : Calms S (iocRead n lba) := by
  refine Calms.of_step fun s a s' h => ?_
  injection h with _ hs
  subst hs
  exact ⟨rfl, le_rfl, rfl, fun owner => by cases owner <;> rfl⟩

theorem calms_iocWrite {n : ℕ} (lba : ℕ) (b : Bytes n) : Calms S (iocWrite lba b) := by
  refine Calms.of_step fun s a s' h => ?_
  injection h with _ hs
  subst hs
  exact ⟨rfl, le_rfl, rfl, fun owner => by cases owner <;> rfl⟩

theorem getInode_inv {p : Ptr} {s s' : FatState} {inode : Inode} (h : getInode p s = .ok inode s') :
    s' = s ∧ s.inodes p = some inode := by
  rw [getInode] at h
  split at h
  · rename_i inode' hp
    injection h with hi hs
    exact ⟨hs.symm, hi ▸ hp⟩
  · cases h

theorem calms_getInode (p : Ptr) : Calms S (getInode p) := by
  refine Calms.of_step fun s a s' h => ?_
  obtain ⟨rfl, -⟩ := getInode_inv h
  exact ⟨rfl, le_rfl, rfl, fun _ => rfl⟩

/-- Storing the index of a directory entry. -/
theorem calms_setDentry {p : Ptr} (hplaced : S.placed p) (d : ℕ) :
    Calms S (modifyInode p fun inode => { inode with dentry := d }) := by
  intro s a s' h hok
  rw [modifyInode] at h
  split at h
  · rename_i inode hp
    obtain ⟨s₁, hrun, hsim, hcache, -⟩ := setDentry_run hp d
    rw [modifyInode_run hp] at hrun
    injection hrun with _ hs₁
    injection h with _ hs
    subst hs₁ hs
    refine ⟨hok.of_cacheAt hcache, Calm.of_cacheAt ?_ hsim.brk (fun q hq => ?_) hcache⟩
    · rw [FatState.skeleton, FatState.skeleton, hsim.frame]
    · have hne : q ≠ p := fun heq => hq (heq ▸ hplaced)
      exact congrArg (Option.map Inode.dentry) (Function.update_of_ne hne _ _)
  · cases h

end Calms

/-! ## The caches -/

section Caches

variable {S : Scope} {owner : Option Ptr} {p : Ptr}

theorem getCache_inv {s s' : FatState} {levels : ℕ} {root : CacheTree}
    (h : getCache owner s = .ok (levels, root) s') :
    s' = s ∧ s.cacheAt owner = some (levels, root) := by
  cases owner with
  | none =>
    injection h with hc hs
    exact ⟨hs.symm, congrArg some hc⟩
  | some p =>
    obtain ⟨inode, s₁, hget, hpure⟩ := exits_bind_inv h
    obtain ⟨rfl, hp⟩ := getInode_inv hget
    injection hpure with hc hs
    exact ⟨hs.symm, (cacheAt_inode hp).trans (congrArg some hc)⟩

/-- An edit of a cache that keeps its descriptors. -/
theorem calms_modifyCache {g : ℕ → CacheTree → CacheTree} (ht : S.touched owner)
    (hg : ∀ levels root, CacheOk levels root → CacheOk levels (g levels root) ∧
      ∀ k desc, RadixTree.get? levels root k = some desc →
        ∃ desc', RadixTree.get? levels (g levels root) k = some desc' ∧
          S.Close owner desc desc') :
    Calms S (modifyCache owner g) := by
  intro s a s' h hok
  cases hcache : s.cacheAt owner with
  | none =>
    cases owner with
    | none => cases hcache
    | some p =>
      rw [FatState.cacheAt, Option.map_eq_none_iff] at hcache
      rw [modifyCache, modifyInode, hcache] at h
      cases h
  | some cache =>
    obtain ⟨levels, root⟩ := cache
    obtain ⟨hok', hkeep⟩ := hg levels root (hok owner levels root hcache)
    rw [modifyCache_run hcache] at h
    injection h with _ hs
    subst hs
    exact ⟨hok.withCache hcache hok', Calm.withCache hcache ht hkeep⟩

/-- A write through a descriptor. -/
theorem calms_modifyDesc (ht : S.touched owner) (k : ℕ) {f : Desc → Desc}
    (ha : ∀ desc, (f desc).bufferAddress = desc.bufferAddress)
    (hf : S.written owner ∨ ∀ desc, (f desc).buffer = desc.buffer) :
    Calms S (modifyDesc owner k f) := by
  refine calms_modifyCache ht fun levels root hok => ⟨hok.modify f k, fun j desc hget => ?_⟩
  rw [RadixTree.get?_modify]
  split
  · refine ⟨f desc, by rw [hget]; rfl, ha desc, fun hw => ?_⟩
    exact hf.elim (fun h => absurd h hw) fun h => h desc
  · exact ⟨desc, hget, .refl desc⟩

theorem calms_growCache (ht : S.touched (some p)) (k : ℕ) :
    Calms S (growCache p k) := by
  intro s a s' h hok
  obtain ⟨inode, s₁, hget, -⟩ := exits_bind_inv h
  obtain ⟨-, hp⟩ := getInode_inv hget
  obtain ⟨levels, root, s₂, hrun, hre, -⟩ :=
    growCache_run hp (hok _ _ _ (cacheAt_inode hp)) k
  rw [hrun] at h
  injection h with _ hs
  subst hs
  exact ⟨hok.of_reshaped hre, Calm.of_reshaped hre ht⟩

/-- Opening a path: what it ends in, and the tree left. -/
theorem openCache_inv {s s' : FatState} {k : ℕ} {found : CacheTree} (hok : s.CachesOk)
    (h : openCache owner k s = .ok found s') :
    ∃ levels root root' brk, s.cacheAt owner = some (levels, root) ∧
      found = (match RadixTree.get? levels root k with | some desc => .leaf desc | none => .null) ∧
      s' = { s with brk := brk }.withCache owner root' ∧ s.brk ≤ brk ∧ CacheOk levels root' ∧
      RadixTree.PathOpen levels root' k ∧
      ∀ j, RadixTree.get? levels root' j = RadixTree.get? levels root j := by
  obtain ⟨⟨levels, root⟩, s₁, hget, -⟩ := exits_bind_inv h
  obtain ⟨-, hcache⟩ := getCache_inv hget
  obtain ⟨root', brk, hrun, hle, hok', hpath, hsame⟩ :=
    openCache_any hcache (hok owner levels root hcache) k
  rw [hrun] at h
  injection h with hfound hs
  exact ⟨levels, root, root', brk, hcache, hfound.symm, hs.symm, hle, hok', hpath, hsame⟩

/-- A search that returned, when the search for the lba leaves the searched cache alone. A
descriptor that it returns is in the tree. -/
theorem loadBuffer_inv (ht : S.touched owner) {k : ℕ} {findLba : FatM (Option ℕ)}
    (hfind : Calms S findLba)
    (hown : ∀ s a s', findLba s = .ok a s' → s.CachesOk → s'.cacheAt owner = s.cacheAt owner)
    {s s' : FatState} {r : Option Desc} (hok : s.CachesOk)
    (h : loadBuffer owner k findLba s = .ok r s') :
    s'.CachesOk ∧ Calm S s s' ∧ ∃ levels root root',
      s.cacheAt owner = some (levels, root) ∧ s'.cacheAt owner = some (levels, root') ∧
        ∀ desc, r = some desc → RadixTree.get? levels root' k = some desc := by
  obtain ⟨found, s₁, hopen, hrest⟩ := exits_bind_inv h
  obtain ⟨levels, root, root', brk, hcache, rfl, hs₁, hle, hok', hpath, hsame⟩ :=
    openCache_inv hok hopen
  have hcache₀ : ({ s with brk := brk } : FatState).cacheAt owner = some (levels, root) := by
    rw [← hcache]
    cases owner <;> rfl
  have hbrk : Calm S s { s with brk := brk } :=
    Calm.of_cacheAt rfl hle (fun _ _ => rfl) fun owner => by cases owner <;> rfl
  have hok₀ : ({ s with brk := brk } : FatState).CachesOk :=
    hok.of_cacheAt fun owner => by cases owner <;> rfl
  have hcalm₁ : Calm S s s₁ := by
    rw [hs₁]
    refine hbrk.trans (Calm.withCache hcache₀ ht fun j desc hget => ⟨desc, ?_, .refl desc⟩)
    rw [hsame, hget]
  have hok₁ : s₁.CachesOk := hs₁ ▸ hok₀.withCache hcache₀ hok'
  have hcache₁ : s₁.cacheAt owner = some (levels, root') := by
    rw [hs₁, cacheAt_withCache hcache₀, if_pos rfl]
  cases hget : RadixTree.get? levels root k with
  | some desc =>
    rw [hget] at hrest
    injection hrest with hr hs
    subst hs
    refine ⟨hok₁, hcalm₁, levels, root, root', hcache, hcache₁, fun d hd => ?_⟩
    rw [hsame, hget, ← hd, ← hr]
  | none =>
    rw [hget] at hrest
    obtain ⟨lba, s₂, hlba, hrest⟩ := exits_bind_inv hrest
    obtain ⟨hok₂, hcalm₂⟩ := hfind s₁ lba s₂ hlba hok₁
    have hcache₂ := (hown s₁ lba s₂ hlba hok₁).trans hcache₁
    cases lba with
    | none =>
      injection hrest with hr hs
      subst hs hr
      exact ⟨hok₂, hcalm₁.trans hcalm₂, levels, root, root', hcache, hcache₂, nofun⟩
    | some lba =>
      obtain ⟨buf, s₃, hbuf, hrest⟩ := exits_bind_inv hrest
      injection hbuf with hbuf hs₃
      obtain ⟨content, s₄, hread, hrest⟩ := exits_bind_inv hrest
      injection hread with hcontent hs₄
      have hcaches : ∀ o, s₄.cacheAt o = s₂.cacheAt o := by
        intro o
        subst hs₄ hs₃
        cases o <;> rfl
      have hcalm₄ : Calm S s₂ s₄ := by
        refine Calm.of_cacheAt ?_ ?_ ?_ hcaches
        · subst hs₄ hs₃
          rfl
        · subst hs₄ hs₃
          exact Nat.le_succ _
        · subst hs₄ hs₃
          exact fun _ _ => rfl
      have hok₄ := hok₂.of_cacheAt hcaches
      have hall := hcalm₁.trans (hcalm₂.trans hcalm₄)
      have hcache₄ := (hcaches owner).trans hcache₂
      cases content with
      | none =>
        obtain ⟨_, s₅, hfree, hrest⟩ := exits_bind_inv hrest
        obtain ⟨hok₅, hcalm₅⟩ := calms_free buf s₄ _ s₅ hfree hok₄
        injection hfree with _ hs₅
        have hcaches₅ : ∀ o, s₅.cacheAt o = s₄.cacheAt o := by
          intro o
          rw [← hs₅]
          cases o <;> rfl
        have hcache₅ := (hcaches₅ owner).trans hcache₄
        injection hrest with hr hs
        subst hs hr
        exact ⟨hok₅, hall.trans hcalm₅, levels, root, root', hcache, hcache₅, nofun⟩
      | some content =>
        obtain ⟨pdesc, s₅, hpdesc, hrest⟩ := exits_bind_inv hrest
        obtain ⟨hok₅, hcalm₅⟩ := calms_malloc s₄ _ s₅ hpdesc hok₄
        injection hpdesc with _ hs₅
        have hcaches₅ : ∀ o, s₅.cacheAt o = s₄.cacheAt o := by
          intro o
          rw [← hs₅]
          cases o <;> rfl
        have hcache₅ := (hcaches₅ owner).trans hcache₄
        obtain ⟨_, s₆, hmodify, hrest⟩ := exits_bind_inv hrest
        rw [modifyCache_run hcache₅] at hmodify
        injection hmodify with _ hs₆
        injection hrest with hr hs
        subst hs
        set desc : Desc :=
          { address := pdesc, bufferAddress := buf, lba := lba, dirty := false, buffer := content }
        have hattach := RadixTree.get?_attach hpath desc
        have hcalm₆ : Calm S s₅
            (s₅.withCache owner (RadixTree.attach levels root' k desc)) := by
          refine Calm.withCache hcache₅ ht fun j d hd => ⟨d, ?_, .refl d⟩
          rw [hattach, if_neg, hd]
          -- the index has no descriptor, so its position is not that of another one
          intro hsamePos
          rw [hsame, RadixTree.get?_congr _ hsamePos, hget] at hd
          cases hd
        rw [← hs₆]
        refine ⟨hok₅.withCache hcache₅ (hok'.attach k desc), hall.trans (hcalm₅.trans hcalm₆),
          levels, root, RadixTree.attach levels root' k desc, hcache, ?_, fun d hd => ?_⟩
        · rw [cacheAt_withCache hcache₅, if_pos rfl]
        · rw [hattach, if_pos rfl, ← hd, ← hr]

end Caches

/-! ## The FAT -/

section Fat

variable {S : Scope}

theorem getFatBuffer_inv (ht : S.touched none) {s s' : FatState} {k : ℕ} {r : Option Desc}
    (hok : s.CachesOk) (h : getFatBufferFromCache k s = .ok r s') :
    s'.CachesOk ∧ Calm S s s' ∧ ∀ desc, r = some desc → s'.fatLeaf k = some desc := by
  have hfind : Calms S
      (do let s ← get; pure (some (u32 (s.fatLba + k * 8))) : FatM (Option ℕ)) :=
    Calms.get.bind fun _ => Calms.pure _
  obtain ⟨hok', hcalm, levels, root, root', hcache, hcache', hfound⟩ :=
    loadBuffer_inv (show S.touched none from ht) hfind (by
      intro s a s' hrun _
      injection hrun with _ hs
      rw [hs]) hok h
  refine ⟨hok', hcalm, fun desc hr => ?_⟩
  cases hcache'
  exact hfound desc hr

theorem calms_getFatBuffer (ht : S.touched none) (k : ℕ) :
    Calms S (getFatBufferFromCache k) := fun _ _ _ h hok =>
  ⟨(getFatBuffer_inv ht hok h).1, (getFatBuffer_inv ht hok h).2.1⟩

theorem calms_getFatEntry (ht : S.touched none) (c : ℕ) :
    Calms S (getFatEntry c) := by
  refine (calms_getFatBuffer ht (c / 0x400)).bind fun r => ?_
  cases r with
  | none => exact Calms.pure _
  | some desc => exact Calms.pure _

theorem calms_setFatEntry (ht : S.touched none) (hw : S.written none) (c value : ℕ) :
    Calms S (setFatEntry c value) := by
  refine (calms_getFatBuffer ht (c / 0x400)).bind fun r => ?_
  cases r with
  | none => exact Calms.pure _
  | some desc =>
    refine (calms_modifyDesc ht _ ?_ (Or.inl hw)).bind fun _ => Calms.pure _
    exact fun _ => rfl

/-- A slot that has been written shows the value. -/
theorem setFatEntry_leaf {s s' : FatState} {c value : ℕ} (hok : s.CachesOk)
    (h : setFatEntry c value s = .ok false s') :
    ∃ desc, s'.fatLeaf (c / 0x400) = some desc ∧
      desc.buffer.word (4 * (c % 0x400)) = value % 0x100000000 := by
  obtain ⟨r, s₁, hload, hrest⟩ := exits_bind_inv h
  obtain ⟨hok₁, -, hfound⟩ :=
    getFatBuffer_inv (S := ⟨fun _ => True, fun _ => True, fun _ => True⟩) trivial hok hload
  cases r with
  | none =>
    injection hrest with hr _
    cases hr
  | some desc =>
    obtain ⟨_, s₂, hmodify, hrest⟩ := exits_bind_inv hrest
    injection hmodify with _ hs₂
    injection hrest with _ hs
    subst hs hs₂
    have hleaf : RadixTree.get? s₁.fatCacheLevels s₁.fatCacheRoot (c / 0x400) = some desc :=
      hfound desc rfl
    refine ⟨{ desc with
        buffer := desc.buffer.setWord (4 * (c % 0x400)) value, dirty := true }, ?_, ?_⟩
    · refine (RadixTree.get?_modify _ _ _ _ _).trans ?_
      rw [if_pos rfl, hleaf]
      rfl
    · exact Bytes.word_setWord_same _ _ (by omega)

theorem calms_followChain (ht : S.touched none) (count current : ℕ) :
    Calms S (followChain count current) := by
  induction count generalizing current with
  | zero => exact Calms.pure _
  | succ count ih =>
    refine (calms_getFatEntry ht current).bind fun r => ?_
    cases r with
    | none => exact Calms.pure _
    | some next => exact ih next

theorem calms_clusterToLba (c : ℕ) : Calms S (clusterToLba c) := by
  refine Calms.of_step fun s a s' h => ?_
  rw [clusterToLba] at h
  split at h
  · cases h
  · injection h with _ hs
    subst hs
    exact ⟨rfl, le_rfl, rfl, fun _ => rfl⟩

theorem calms_findFileLba (ht : S.touched none) (p : Ptr) (k : ℕ) :
    Calms S (findFileLba p k) := by
  refine (calms_getInode p).bind fun inode => ?_
  refine (calms_followChain ht k inode.cluster).bind fun r => ?_
  cases r with
  | none => exact Calms.pure _
  | some current => exact (calms_clusterToLba current).bind fun _ => Calms.pure _

/-- Loading a cluster of a file. A cluster that it returns stays cached at its index. -/
theorem getBuffer_inv {p : Ptr} (hn : S.touched none) (hp : S.touched (some p)) {s s' : FatState}
    {k : ℕ} {r : Option Desc} (hok : s.CachesOk) (h : getBufferFromCache (some p) k s = .ok r s') :
    s'.CachesOk ∧ Calm S s s' ∧
      ∀ desc, r = some desc → (k + 1) * 4096 < 0x100000000 → s'.slot (some p) k = some desc := by
  obtain ⟨_, s₁, hgrow, hload⟩ := exits_bind_inv h
  obtain ⟨inode, s₀, hget, -⟩ := exits_bind_inv hgrow
  obtain ⟨rfl, hinode⟩ := getInode_inv hget
  obtain ⟨levels₁, root₁, s₂, hrun, hre, -, hcover⟩ :=
    growCache_run hinode (hok _ _ _ (cacheAt_inode hinode)) k
  rw [hrun] at hgrow
  injection hgrow with _ hs
  subst hs
  have hok₁ := hok.of_reshaped hre
  obtain ⟨hok', hcalm, levels, root, root', hcache, hcache', hfound⟩ :=
    loadBuffer_inv hp (calms_findFileLba hn p k) (by
      intro s a s' hrun hok
      have hcalms := calms_findFileLba (S := ⟨(· = none), S.written, S.placed⟩) rfl p k
      exact (hcalms s a s' hrun hok).2.others (some p) (by simp)) hok₁ hload
  refine ⟨hok', (Calm.of_reshaped hre hp).trans hcalm, fun desc hr hk => ?_⟩
  rw [hre.cacheAt, Option.some.injEq, Prod.mk.injEq] at hcache
  rw [slot_eq hcache', slotOf, if_pos]
  · exact hfound desc hr
  · rw [← hcache.1]
    exact (lt_pow_getLevelsFromSize hk).trans_le (Nat.pow_le_pow_right (by omega) hcover)

theorem calms_getBuffer {p : Ptr} (hn : S.touched none) (hp : S.touched (some p)) (k : ℕ) :
    Calms S (getBufferFromCache (some p) k) := fun _ _ _ h hok =>
  ⟨(getBuffer_inv hn hp hok h).1, (getBuffer_inv hn hp hok h).2.1⟩

/-! ## The device -/

theorem writeBack_fails (desc : Desc) (d : Device) : (writeBack desc d).2.2.fails = d.fails := by
  rw [writeBack]
  split
  · rfl
  · rfl

theorem writeBack_close (desc : Desc) (d : Device) {owner : Option Ptr} :
    S.Close owner desc (writeBack desc d).1 := by
  rw [writeBack]
  split
  · exact .refl desc
  · exact .refl desc

/-- Writing the dirty clusters of a cache to the device. -/
theorem calms_updateDevice {owner : Option Ptr} (ht : S.touched owner) :
    Calms S (updateDeviceFromCache owner) := by
  intro s r s' h hok
  obtain ⟨⟨levels, root⟩, s₁, hget, -⟩ := exits_bind_inv h
  obtain ⟨-, hcache⟩ := getCache_inv hget
  have hroot := hok owner levels root hcache
  obtain ⟨root', failed, device, hwalk, hfails, hwalked, -, -⟩ :=
    RadixTree.walk_spec (f := writeBack) (I := fun d => d.fails = s.device.fails)
      (L := fun _ => True) (fun desc d _ hd => (writeBack_fails desc d).trans hd) hroot.shaped
      (fun _ _ _ => trivial) (rfl : s.device.fails = s.device.fails)
  rw [updateDeviceFromCache_walk hcache hroot hwalk] at h
  injection h with _ hs
  have hcache₁ : ({ s with device := device } : FatState).cacheAt owner = some (levels, root) := by
    rw [← hcache]
    cases owner <;> rfl
  have hcaches : ∀ o, ({ s with device := device } : FatState).cacheAt o = s.cacheAt o := by
    intro o
    cases o <;> rfl
  have hdevice : Calm S s { s with device := device } := by
    refine Calm.of_cacheAt ?_ le_rfl (fun _ _ => rfl) hcaches
    simp only [FatState.skeleton, FatState.frame, FatState.bare, hfails]
  have hok' : CacheOk levels root' := ⟨hroot.levels_pos, hwalked.2.1 hroot.isNode, hwalked.1⟩
  subst hs
  refine ⟨(hok.of_cacheAt hcaches).withCache hcache₁ hok',
    hdevice.trans (Calm.withCache hcache₁ ht fun k desc hleaf => ?_)⟩
  obtain ⟨d, hd, hvisit, -⟩ := hwalked.visit hleaf
  exact ⟨_, hvisit, writeBack_close desc d⟩

theorem calms_updateFsInfo : Calms S updateFsInfo := by
  refine Calms.get.bind fun s => ?_
  have hrest (loaded : Bool) : Calms S (do
      if loaded then do
        modify fun s => { s with
          blockBuffer := fsInfoBlock s.blockBuffer s.freeClustersNumber s.firstFreeCluster }
        let s ← get
        iocWrite s.fsInfoLba s.blockBuffer
      else pure true : FatM Bool) := by
    split
    · refine Calms.bind (Calms.modify ?_ ?_ ?_ ?_) fun _ => Calms.get.bind fun s => ?_
      · exact fun _ => rfl
      · exact fun _ => rfl
      · exact fun _ => rfl
      · exact fun _ owner => by cases owner <;> rfl
      · exact calms_iocWrite _ _
    · exact Calms.pure _
  change Calms S (if _ then _ else _)
  split
  · refine (calms_iocRead 512 _).bind fun r => ?_
    cases r with
    | none => exact (Calms.pure false).bind hrest
    | some block =>
      refine Calms.bind (Calms.modify ?_ ?_ ?_ ?_) fun _ => (Calms.pure true).bind hrest
      · exact fun _ => rfl
      · exact fun _ => rfl
      · exact fun _ => rfl
      · exact fun _ owner => by cases owner <;> rfl
  · exact (Calms.pure true).bind hrest

end Fat

end GietVm.Fat
