import GietVm.Fat.View

/-!
# What the search of a cluster leaves alone

A search that misses loads the cluster, for which it may have to load blocks of the FAT. It
adds nodes to a cache, takes memory and accesses the device, and it may fail. Whatever its
outcome, the rest of the state is the same: `Loaded` says so for the operations on one cache,
and `Settles` for those on several caches.
-/

namespace GietVm.Fat

open GietVm.Library

/-- A state without its caches, its heap and the number of accesses. -/
def FatState.settled (s : FatState) : FatState := { s.bare with freed := [] }

/-- The states differ in one cache, in the heap and in the number of accesses only. -/
structure Loaded (owner : Option Ptr) (s s' : FatState) : Prop where
  settled : s'.settled = s.settled
  others : ∀ owner', owner' ≠ owner → s'.cacheAt owner' = s.cacheAt owner'

/-- Computations that reach one cache. -/
abbrev Loads (owner : Option Ptr) {α : Type} (x : FatM α) : Prop := Steps (Loaded owner) x

/-- Computations that reach the caches. -/
abbrev Settles {α : Type} (x : FatM α) : Prop := Steps (fun s s' => s'.settled = s.settled) x

section Settled

variable {s s' s'' : FatState} {owner : Option Ptr}

theorem settled_core (h : s'.settled = s.settled) (p : Ptr) :
    (s'.inodes p).map Inode.core = (s.inodes p).map Inode.core := by
  have := congrFun (congrArg FatState.inodes h) p
  exact this

theorem settled_disk (h : s'.settled = s.settled) : s'.device.disk = s.device.disk := by
  have := congrArg (fun t : FatState => t.device.disk) h
  exact this

theorem settled_fatLba (h : s'.settled = s.settled) : s'.fatLba = s.fatLba := by
  have := congrArg FatState.fatLba h
  exact this

theorem settled_levels (h : s'.settled = s.settled) : s'.fatCacheLevels = s.fatCacheLevels := by
  have := congrArg FatState.fatCacheLevels h
  exact this

theorem settled_fd (h : s'.settled = s.settled) : s'.fd = s.fd := by
  have := congrArg FatState.fd h
  exact this

theorem settled_freeNumber (h : s'.settled = s.settled) :
    s'.freeClustersNumber = s.freeClustersNumber := by
  have := congrArg FatState.freeClustersNumber h
  exact this

theorem settled_firstFree (h : s'.settled = s.settled) :
    s'.firstFreeCluster = s.firstFreeCluster := by
  have := congrArg FatState.firstFreeCluster h
  exact this

/-- A live inode stays live and keeps everything but its cache. -/
theorem settled_inode (h : s'.settled = s.settled) {p : Ptr} {inode : Inode}
    (hp : s.inodes p = some inode) : ∃ inode', s'.inodes p = some inode' ∧
      inode'.core = inode.core := by
  have hcore := settled_core h p
  rw [hp, Option.map_some, Option.map_eq_some_iff] at hcore
  exact hcore

theorem Loaded.refl (owner : Option Ptr) (s : FatState) : Loaded owner s s := ⟨rfl, fun _ _ => rfl⟩

theorem Loaded.trans (h : Loaded owner s s') (h' : Loaded owner s' s'') : Loaded owner s s'' :=
  ⟨h'.settled.trans h.settled, fun o ho => (h'.others o ho).trans (h.others o ho)⟩

/-- Loading a cluster of a file leaves the FAT alone. -/
theorem Loaded.fatCache {p : Ptr} (h : Loaded (some p) s s') :
    s'.fatCacheLevels = s.fatCacheLevels ∧ s'.fatCacheRoot = s.fatCacheRoot := by
  have := h.others none nofun
  rw [FatState.cacheAt, FatState.cacheAt, Option.some.injEq, Prod.mk.injEq] at this
  exact this

theorem Loaded.fatEntry {p : Ptr} (h : Loaded (some p) s s') (c : ℕ) :
    s'.fatEntry c = s.fatEntry c := by
  rw [FatState.fatEntry, FatState.fatEntry, FatState.fatBlock, FatState.fatBlock, FatState.slot,
    FatState.slot, h.others none (Option.some_ne_none p).symm, settled_disk h.settled, settled_fatLba h.settled]

end Settled

/-! ## The operations on one cache -/

section Loads

variable {α β : Type} {owner : Option Ptr}

theorem Loads.bind {x : FatM α} {f : α → FatM β} (hx : Loads owner x)
    (hf : ∀ a, Loads owner (f a)) : Loads owner (x >>= f) :=
  Steps.bind (fun h h' => h.trans h') hx hf

theorem Loads.pure (a : α) : Loads owner (pure a) := Steps.pure (Loaded.refl owner) a

theorem Loads.get (owner : Option Ptr) : Loads owner (get : FatM FatState) :=
  Steps.get (Loaded.refl owner)

theorem Loads.settles {x : FatM α} (hx : Loads owner x) : Settles x :=
  hx.mono fun _ _ h => h.settled

theorem loads_getInode (owner : Option Ptr) (p : Ptr) : Loads owner (getInode p) := by
  intro s inode s' h
  rw [getInode] at h
  split at h
  · injection h with _ hs
    exact hs ▸ Loaded.refl owner s
  · cases h

/-- Writing the cache of an inode. -/
theorem loads_modifyInode (p : Ptr) {f : Inode → Inode} (hcore : ∀ i, (f i).core = i.core) :
    Loads (some p) (modifyInode p f) := by
  intro s _ s' h
  rw [modifyInode] at h
  split at h
  · rename_i inode hp
    injection h with _ hs
    subst hs
    constructor
    · simp only [FatState.settled, FatState.bare, FatState.setInode, FatState.mk.injEq, true_and,
        and_true]
      funext q
      rw [Function.update_apply]
      split
      · rename_i hq
        rw [hq, hp, Option.map_some, Option.map_some, hcore]
      · rfl
    · intro owner' ho
      cases owner' with
      | none => rfl
      | some q =>
        have hq : q ≠ p := fun h => ho (congrArg some h)
        simp only [FatState.cacheAt, FatState.setInode, Function.update_of_ne hq]
  · cases h

theorem loads_malloc : Loads owner malloc := by
  intro s _ s' h
  injection h with _ hs
  subst hs
  exact ⟨rfl, fun o _ => by cases o <;> rfl⟩

theorem loads_free (p : Ptr) : Loads owner (free p) := by
  intro s _ s' h
  injection h with _ hs
  subst hs
  exact ⟨rfl, fun o _ => by cases o <;> rfl⟩

theorem loads_iocRead (n lba : ℕ) : Loads owner (iocRead n lba) := by
  intro s _ s' h
  injection h with _ hs
  subst hs
  exact ⟨rfl, fun o _ => by cases o <;> rfl⟩

theorem loads_clusterToLba (owner : Option Ptr) (c : ℕ) : Loads owner (clusterToLba c) := by
  intro s _ s' h
  rw [clusterToLba] at h
  split at h
  · cases h
  · injection h with _ hs
    exact hs ▸ Loaded.refl owner s

theorem loads_modifyCache (owner : Option Ptr) (f : ℕ → CacheTree → CacheTree) :
    Loads owner (modifyCache owner f) := by
  cases owner with
  | none =>
    refine Steps.modify fun s => ⟨rfl, fun o ho => ?_⟩
    cases o with
    | none => exact absurd rfl ho
    | some p => rfl
  | some p => exact loads_modifyInode p fun _ => rfl

theorem loads_modifyDesc (owner : Option Ptr) (k : ℕ) (f : Desc → Desc) :
    Loads owner (modifyDesc owner k f) :=
  loads_modifyCache owner _

theorem loads_getCache (owner : Option Ptr) : Loads owner (getCache owner) := by
  cases owner with
  | none => exact (Loads.get none).bind fun _ => Loads.pure _
  | some p => exact (loads_getInode _ p).bind fun _ => Loads.pure _

theorem loads_openCache (owner : Option Ptr) (k : ℕ) : Loads owner (openCache owner k) := by
  refine (loads_getCache owner).bind fun cache => ?_
  obtain ⟨level, root⟩ := cache
  intro s t s' h
  cases level with
  | zero => cases h
  | succ n =>
    cases hopen : RadixTree.openPath (n + 1) s.brk root k with
    | none =>
      simp only [exits_bind_get, hopen] at h
      cases h
    | some opened =>
      simp only [exits_bind_get, hopen] at h
      obtain ⟨_, s₁, hset, h⟩ := exits_bind_inv h
      injection hset with _ hs₁
      subst hs₁
      obtain ⟨_, s₂, hmodify, h⟩ := exits_bind_inv h
      injection h with _ hs
      subst hs
      have hbrk : Loaded owner s { s with brk := opened.2 } := ⟨rfl, fun o _ => by cases o <;> rfl⟩
      exact hbrk.trans (loads_modifyCache owner _ _ _ _ hmodify)

theorem loads_addLevels (p : Ptr) (n : ℕ) : Loads (some p) (addLevels p n) := by
  induction n with
  | zero => exact Loads.pure _
  | succ n ih =>
    refine (loads_getInode _ p).bind fun inode => ?_
    refine (loads_malloc.bind fun _ => Loads.pure _).bind fun root => ?_
    refine Loads.bind (loads_modifyInode p ?_) fun _ => ih
    exact fun _ => rfl

theorem loads_growCache (p : Ptr) (k : ℕ) : Loads (some p) (growCache p k) :=
  (loads_getInode _ p).bind fun _ => loads_addLevels p _

theorem loads_releaseCacheMemory (p : Ptr) : Loads (some p) (releaseCacheMemory p) := by
  refine (loads_getInode _ p).bind fun inode => ?_
  split
  · refine Loads.bind ?_ fun _ => loads_modifyInode p fun _ => rfl
    exact Steps.modify fun s => ⟨rfl, fun o _ => by cases o <;> rfl⟩
  · exact Steps.throw _
  · exact Steps.throw _

end Loads

/-! ## The search of a cluster -/

section Search

variable {α β : Type} {owner : Option Ptr} {R : FatState → FatState → Prop}
  (htrans : ∀ s t u, R s t → R t u → R s u)

include htrans

theorem steps_bind {x : FatM α} {f : α → FatM β} (hx : Steps R x) (hf : ∀ a, Steps R (f a)) :
    Steps R (x >>= f) := by
  refine Steps.bind (R := R) ?_ hx hf
  exact fun h h' => htrans _ _ _ h h'

/-- Loading a cluster is the search for its lba and operations on one cache. -/
theorem steps_loadBuffer (hR : ∀ s s', Loaded owner s s' → R s s') {findLba : FatM (Option ℕ)}
    (hfind : Steps R findLba) (k : ℕ) : Steps R (loadBuffer owner k findLba) := by
  refine steps_bind htrans ((loads_openCache owner k).mono hR) fun found => ?_
  cases found with
  | leaf desc => exact (Loads.pure _).mono hR
  | node _ _ => exact Steps.throw _
  | null =>
    refine steps_bind htrans hfind fun r => ?_
    cases r with
    | none => exact (Loads.pure _).mono hR
    | some lba =>
      refine steps_bind htrans (loads_malloc.mono hR) fun buf => ?_
      refine steps_bind htrans ((loads_iocRead 4096 lba).mono hR) fun content => ?_
      refine Steps.mono hR ?_
      cases content with
      | none => exact (loads_free buf).bind fun _ => Loads.pure _
      | some content =>
        exact loads_malloc.bind fun pdesc =>
          (loads_modifyCache owner _).bind fun _ => Loads.pure _

variable {p : Ptr} (hR : ∀ s s', Loaded (some p) s s' → R s s')
  (hget : ∀ c, Steps R (getFatEntry c))

include hR hget

theorem steps_followChain (count current : ℕ) : Steps R (followChain count current) := by
  induction count generalizing current with
  | zero => exact (Loads.pure _).mono hR
  | succ count ih =>
    refine steps_bind htrans (hget current) fun r => ?_
    cases r with
    | none => exact (Loads.pure _).mono hR
    | some next => exact ih next

/-- The search of a cluster of a file reads the FAT and works on one cache. -/
theorem steps_getBufferFromCache (k : ℕ) : Steps R (getBufferFromCache (some p) k) := by
  refine steps_bind htrans ((loads_growCache p k).mono hR) fun _ => ?_
  refine steps_loadBuffer htrans hR ?_ k
  refine steps_bind htrans ((loads_getInode _ p).mono hR) fun inode => ?_
  refine steps_bind htrans (steps_followChain htrans hR hget k inode.cluster) fun r => ?_
  refine Steps.mono hR ?_
  cases r with
  | none => exact Loads.pure _
  | some current => exact (loads_clusterToLba _ current).bind fun lba => Loads.pure _

end Search

/-! ## The operations on several caches -/

section Settles

variable {α β : Type}

theorem Settles.bind {x : FatM α} {f : α → FatM β} (hx : Settles x) (hf : ∀ a, Settles (f a)) :
    Settles (x >>= f) :=
  Steps.bind (fun h h' => h'.trans h) hx hf

theorem Settles.pure (a : α) : Settles (pure a : FatM α) :=
  (Loads.pure a : Loads none _).settles

end Settles

end GietVm.Fat
