import GietVm.Fat.Loads
import GietVm.Fat.Calm
import GietVm.Fat.TransferBounds

/-!
# What a failed write leaves behind

`_fat_write` stores the new size in the inode before it looks for free clusters, and no failure
takes it back: neither a FAT without enough free clusters, nor a FAT that cannot be read, nor a
parent directory or a cluster that cannot be loaded. A write that keeps the file inside its size
only loads clusters before it fails. As long as the links that it follows are in the FAT, the
file system is then as it was. A link that is not in the FAT, from a chain that is too short for
the transfer, is searched in the slot of another block of the FAT, and loads the wrong block
there.
-/

namespace GietVm.Fat

open GietVm.Library

/-! ## The statement -/

/-- What a failed write is expected to leave alone. -/
structure Untouched (s s' : FatState) (fdId : ℕ) : Prop where
  inode : ∀ inode, s.inodes (s.fd fdId).inode = some inode →
    ∃ inode', s'.inodes (s.fd fdId).inode = some inode' ∧ inode'.size = inode.size ∧
      inode'.cluster = inode.cluster
  seek : (s'.fd fdId).seek = (s.fd fdId).seek
  chain : ∀ count cluster, s'.chain count cluster = s.chain count cluster
  freeClustersNumber : s'.freeClustersNumber = s.freeClustersNumber
  firstFreeCluster : s'.firstFreeCluster = s.firstFreeCluster

/-- The states differ by loads that show the same FAT. -/
structure Looks (s s' : FatState) : Prop where
  settled : s'.settled = s.settled
  fatOk : s.FatCacheOk → s'.FatCacheOk
  fatEntry : ∀ cluster, s'.fatEntry cluster = s.fatEntry cluster

section Looks

variable {s s' s'' : FatState} {p : Ptr} {n : ℕ}

theorem Looks.refl (s : FatState) : Looks s s := ⟨rfl, id, fun _ => rfl⟩

theorem Looks.trans (h : Looks s s') (h' : Looks s' s'') : Looks s s'' where
  settled := h'.settled.trans h.settled
  fatOk := h'.fatOk ∘ h.fatOk
  fatEntry := fun cluster => (h'.fatEntry cluster).trans (h.fatEntry cluster)

theorem Looks.chain (h : Looks s s') (count cluster : ℕ) :
    s'.chain count cluster = s.chain count cluster := by
  induction count generalizing cluster with
  | zero => rfl
  | succ count ih => rw [FatState.chain, FatState.chain, h.fatEntry, ih]

theorem Looks.chainIn (h : Looks s s') {count cluster : ℕ} (hc : s.ChainIn count cluster) :
    s'.ChainIn count cluster := by
  intro j hj
  rw [h.chain, FatState.InFat, settled_levels h.settled]
  exact hc j hj

end Looks

/-! ## The search of a link -/

section Search

variable {s s' : FatState} {p : Ptr} {n : ℕ}

/-- The Fat-Cache is sound and the first links of the chain of a file are in the FAT. -/
structure FatState.LinksOk (s : FatState) (p : Ptr) (n : ℕ) : Prop where
  fatOk : s.FatCacheOk
  chainIn : ∀ inode, s.inodes p = some inode → s.ChainIn n inode.cluster

theorem Looks.linksOk (h : Looks s s') (hlinks : s.LinksOk p n) : s'.LinksOk p n where
  fatOk := h.fatOk hlinks.fatOk
  chainIn := fun inode' hp' => by
    obtain ⟨inode, hp, hcore⟩ := settled_inode h.settled.symm hp'
    rw [← core_cluster hcore]
    exact h.chainIn (hlinks.chainIn inode hp)

/-- What the loads of the first clusters of a file do. -/
def LooksWithin (p : Ptr) (n : ℕ) (s s' : FatState) : Prop := s.LinksOk p n → Looks s s'

theorem LooksWithin.trans {s'' : FatState} (h : LooksWithin p n s s') (h' : LooksWithin p n s' s'') :
    LooksWithin p n s s'' :=
  fun hlinks => (h hlinks).trans (h' ((h hlinks).linksOk hlinks))

end Search

/-! ## The size of a file that grows -/

/-- The inode stays and keeps its size. -/
def KeepsSize (p : Ptr) (s s' : FatState) : Prop :=
  ∀ inode, s.inodes p = some inode → ∃ inode', s'.inodes p = some inode' ∧
    inode'.size = inode.size

section Size

variable {α β : Type} {s s' s'' : FatState} {p : Ptr}

theorem KeepsSize.refl (p : Ptr) (s : FatState) : KeepsSize p s s :=
  fun inode hp => ⟨inode, hp, rfl⟩

theorem KeepsSize.trans (h : KeepsSize p s s') (h' : KeepsSize p s' s'') : KeepsSize p s s'' := by
  intro inode hp
  obtain ⟨inode', hp', hsize⟩ := h inode hp
  obtain ⟨inode'', hp'', hsize'⟩ := h' inode' hp'
  exact ⟨inode'', hp'', hsize'.trans hsize⟩

end Size

/-! ## The outcome of a failed write -/

section Failure

variable {s s' : FatState} {fuel fdId buffer count : ℕ} {copy : Memcpy} {p : Ptr} {o : Outcome}

theorem Looks.untouched (h : Looks s s') (fdId : ℕ) : Untouched s s' fdId where
  inode := fun inode hp => by
    obtain ⟨inode', hp', hcore⟩ := settled_inode h.settled hp
    have hsize := congrArg Inode.size hcore
    exact ⟨inode', hp', hsize, core_cluster hcore⟩
  seek := by rw [settled_fd h.settled]
  chain := h.chain
  freeClustersNumber := settled_freeNumber h.settled
  firstFreeCluster := settled_firstFree h.settled

end Failure

end GietVm.Fat
