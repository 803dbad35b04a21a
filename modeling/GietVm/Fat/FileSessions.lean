import GietVm.Fat.FileClose
import GietVm.Fat.FileStore

/-!
# Sessions on open files

A session is a row of calls of `_fat_lseek`, `_fat_read`, `_fat_write` and `_fat_close` on the
descriptors of some files, in any order. It does to the files what the same calls do to the store
of their bytes, and when the last descriptor of a file has been closed, the device holds the bytes
of the file: nothing that was written is lost with the File-Cache, whatever other files are in use.
-/

namespace GietVm.Fat

open GietVm.Library

/-! ## The store -/

/-- A call of a session. -/
inductive FileOp
  | call (c : FileCall)
  | close (fdId : ℕ)

/-- The descriptors after one of them is closed. -/
def closeAt (fd : ℕ → FileDesc) (fdId : ℕ) : ℕ → FileDesc :=
  Function.update fd fdId { fd fdId with allocated := false }

namespace FileStore

variable (f : FileStore)

/-- A call of a session, with the number that it returns. -/
def op : FileOp → ℤ × FileStore
  | .call c => f.call c
  | .close fdId =>
    if openFilesMax ≤ fdId then (fat32InvalidFd, f)
    else if (f.fd fdId).allocated then (fat32Ok, { f with fd := closeAt f.fd fdId })
    else (fat32NotOpen, f)

/-- A session, with the numbers that its calls return. -/
def ops : FileStore → List FileOp → List ℤ × FileStore
  | f, [] => ([], f)
  | f, o :: rest =>
    let last := ops (f.op o).2 rest
    ((f.op o).1 :: last.1, last.2)

/-- A call of a session that the code serves. -/
def FitsOp (files : Set Ptr) : FileOp → Prop
  | .call c => c.fdId < openFilesMax → (f.fd c.fdId).allocated = true → f.Fits files c
  | .close fdId => fdId < openFilesMax → (f.fd fdId).allocated = true →
    (f.fd fdId).inode ∈ files

/-- The same descriptors and memory, and the same bytes of some files. -/
structure Same (files : Set Ptr) (f g : FileStore) : Prop where
  fd : f.fd = g.fd
  memory : f.memory = g.memory
  size : ∀ p ∈ files, f.size p = g.size p
  bytes : ∀ p ∈ files, ∀ i < g.size p, f.bytes p i = g.bytes p i

section Same

variable {f g : FileStore} {files : Set Ptr}

theorem Same.transfers (h : Same files f g) {fdId buffer count : ℕ}
    (hc : g.Transfers files fdId buffer count) : f.Transfers files fdId buffer count := by
  obtain ⟨hp, hpos, hend, hmoves⟩ := hc
  rw [Transfers, h.fd, h.size _ hp]
  exact ⟨hp, hpos, hend, hmoves⟩

theorem Same.fits (h : Same files f g) {c : FileCall} (hc : g.Fits files c) : f.Fits files c := by
  cases c with
  | lseek fdId seek whence => trivial
  | read fdId buffer count => exact h.transfers hc
  | write fdId buffer count =>
    intro hreadOnly
    rw [h.fd] at hreadOnly
    obtain ⟨htransfers, hin⟩ := hc hreadOnly
    refine ⟨h.transfers htransfers, ?_⟩
    rw [h.fd, h.size _ htransfers.1]
    exact hin

theorem Same.seekTo (h : Same files f g) (fdId seek : ℕ) :
    Same files { f with fd := Fat.seekTo f.fd fdId seek }
      { g with fd := Fat.seekTo g.fd fdId seek } :=
  ⟨congrArg (fun fd => Fat.seekTo fd fdId seek) h.fd, h.memory, h.size, h.bytes⟩

theorem Same.callOpen (h : Same files f g) {c : FileCall} (hc : g.Fits files c) :
    (f.callOpen c).1 = (g.callOpen c).1 ∧ Same files (f.callOpen c).2 (g.callOpen c).2 := by
  cases c with
  | lseek fdId seek whence =>
    cases whence with
    | seekSet => exact ⟨rfl, h.seekTo fdId seek⟩
    | seekCur =>
      have hsame := h.seekTo fdId (u32 ((g.fd fdId).seek + seek))
      rw [h.fd] at hsame
      rw [FileStore.callOpen, FileStore.callOpen, h.fd]
      exact ⟨rfl, hsame⟩
    | other => exact ⟨rfl, h⟩
  | read fdId buffer count =>
    obtain ⟨hp, -, -, -⟩ := hc
    by_cases hlarge : g.size (g.fd fdId).inode < (g.fd fdId).seek + count
    · have hlarge' : f.size (f.fd fdId).inode < (f.fd fdId).seek + count := by
        rw [h.fd, h.size _ hp]
        exact hlarge
      rw [f.callOpen_read_beyond buffer hlarge', g.callOpen_read_beyond buffer hlarge]
      exact ⟨rfl, h⟩
    · have hlarge' : ¬f.size (f.fd fdId).inode < (f.fd fdId).seek + count := by
        rw [h.fd, h.size _ hp]
        exact hlarge
      rw [f.callOpen_read buffer hlarge', g.callOpen_read buffer hlarge]
      have hbytes : splice f.memory buffer count (fun i =>
            f.bytes (f.fd fdId).inode ((f.fd fdId).seek + i)) =
          splice g.memory buffer count fun i =>
            g.bytes (g.fd fdId).inode ((g.fd fdId).seek + i) := by
        rw [h.fd, h.memory]
        apply splice_congr
        intro i hi
        exact h.bytes _ hp _ (by omega)
      refine ⟨rfl, ?_, hbytes, h.size, h.bytes⟩
      dsimp only
      rw [h.fd]
  | write fdId buffer count =>
    cases hreadOnly : (g.fd fdId).readOnly with
    | true =>
      rw [g.callOpen_readOnly buffer count hreadOnly,
        f.callOpen_readOnly buffer count (by rw [h.fd, hreadOnly])]
      exact ⟨rfl, h⟩
    | false =>
      rw [g.callOpen_write buffer count hreadOnly,
        f.callOpen_write buffer count (by rw [h.fd, hreadOnly])]
      refine ⟨rfl, ?_, h.memory, h.size, ?_⟩
      · dsimp only
        rw [h.fd]
      · intro p hp i hi
        dsimp only
        rw [h.fd, h.memory]
        by_cases heq : p = (g.fd fdId).inode
        · subst heq
          rw [Function.update_self, Function.update_self, splice, splice]
          split
          · rfl
          · exact h.bytes _ hp i hi
        · rw [Function.update_of_ne heq, Function.update_of_ne heq]
          exact h.bytes p hp i hi

/-- A call depends on the bytes of the files only. -/
theorem Same.op (h : Same files f g) {o : FileOp} (hc : g.FitsOp files o) :
    (f.op o).1 = (g.op o).1 ∧ Same files (f.op o).2 (g.op o).2 := by
  cases o with
  | call c =>
    change (f.call c).1 = (g.call c).1 ∧ Same files (f.call c).2 (g.call c).2
    rw [FileStore.call, FileStore.call, h.fd]
    by_cases hbound : openFilesMax ≤ c.fdId
    · rw [if_pos hbound, if_pos hbound]
      exact ⟨rfl, h⟩
    · by_cases hopen : (g.fd c.fdId).allocated = true
      · rw [if_neg hbound, if_neg hbound, if_pos hopen, if_pos hopen]
        exact h.callOpen (hc (Nat.lt_of_not_le hbound) hopen)
      · rw [if_neg hbound, if_neg hbound, if_neg hopen, if_neg hopen]
        exact ⟨rfl, h⟩
  | close fdId =>
    rw [FileStore.op, FileStore.op, h.fd]
    split
    · exact ⟨rfl, h⟩
    · split
      · exact ⟨rfl, rfl, h.memory, h.size, h.bytes⟩
      · exact ⟨rfl, h⟩

theorem Same.refl (f : FileStore) : Same files f f := ⟨rfl, rfl, fun _ _ => rfl, fun _ _ _ _ => rfl⟩

theorem Same.trans {h : FileStore} (hfg : Same files f g) (hgh : Same files g h) :
    Same files f h where
  fd := hfg.fd.trans hgh.fd
  memory := hfg.memory.trans hgh.memory
  size := fun p hp => (hfg.size p hp).trans (hgh.size p hp)
  bytes := fun p hp i hi =>
    (hfg.bytes p hp i (hgh.size p hp ▸ hi)).trans (hgh.bytes p hp i hi)

end Same

end FileStore

/-! ## The sessions of the code -/

/-- A call of the code. -/
def FileOp.code (fuel : ℕ) : FileOp → FatM ℤ
  | .call c => c.code fuel
  | .close fdId => fatClose fdId

/-- The descriptors that are open on a file. -/
def openOn (fd : ℕ → FileDesc) (p : Ptr) : Finset ℕ :=
  (Finset.range openFilesMax).filter fun i => (fd i).allocated = true ∧ (fd i).inode = p

/-- Regular files in use: they do not overlap, each one counts its descriptors, and a file without
a descriptor has nothing in its File-Cache. -/
structure FatState.InUse (s : FatState) (files owners : Set Ptr) (n : Ptr → ℕ) (blocks : ℕ) :
    Prop where
  initialized : s.initialized = true
  laid : s.Laid owners n blocks
  owned : ∀ p ∈ files, p ∈ owners
  file : ∀ p ∈ files, ∃ inode, s.inodes p = some inode ∧ inode.isDir = false ∧
    inode.size < 0x100000000 ∧ n p = clustersOfSize inode.size ∧
    inode.count = (openOn s.fd p).card ∧ ∀ q, inode.parent = some q → q ∈ owners
  closed : ∀ p ∈ files, openOn s.fd p = ∅ → ∀ k, s.slot (some p) k = none

section InUse

variable {s s' : FatState} {files owners : Set Ptr} {n : Ptr → ℕ} {blocks : ℕ} {p : Ptr}
  {fdId : ℕ}

theorem FatState.InUse.clusters (h : s.InUse files owners n blocks) (hp : p ∈ files) :
    s.clusters p = n p := by
  obtain ⟨inode, hinode, -, -, hn, -⟩ := h.file p hp
  rw [hn, FatState.clusters, size_inode hinode]

/-- Files stay apart when the FAT and the places of the files stay as they are. -/
theorem FatState.Laid.congr (h : s.Laid owners n blocks)
    (hready : ∀ p ∈ owners, s'.DirReady p (n p))
    (hcoherent : ∀ p ∈ owners, s'.Coherent p (n p)) (hlba : s'.lbaOf = s.lbaOf)
    (hchain : ∀ k cluster, s'.chain k cluster = s.chain k cluster)
    (hcluster : ∀ p, (s'.inodes p).map Inode.cluster = (s.inodes p).map Inode.cluster) :
    s'.Laid owners n blocks where
  ready := hready
  coherent := hcoherent
  apart := by
    rw [hlba]
    exact h.apart
  fat := by
    rw [hlba]
    exact h.fat
  chains := by
    intro p hp inode' hinode' j hj
    have hsame := hcluster p
    rw [hinode', Option.map_some, eq_comm, Option.map_eq_some_iff] at hsame
    obtain ⟨inode, hinode, heq⟩ := hsame
    rw [hchain, ← heq]
    exact h.chains p hp inode hinode j hj

end InUse

/-! ## Closing a descriptor -/

section Close

variable {s s' : FatState} {files owners : Set Ptr} {n : Ptr → ℕ} {blocks : ℕ} {p : Ptr}
  {fdId : ℕ}

/-- Files stay apart when no file changes its place. -/
theorem FatState.Laid.sameFile (h : s.Laid owners n blocks) (hsame : ∀ p, SameFile s s' p) :
    s'.Laid owners n blocks := by
  have hlba : s'.lbaOf = s.lbaOf := by
    funext owner k
    cases owner with
    | none => rw [FatState.lbaOf, FatState.lbaOf, (hsame 0).fatLba]
    | some p => exact (hsame p).lbaOf k
  refine h.congr ?_ ?_ hlba (hsame 0).chain ?_
  · intro p hp
    exact (hsame p).dirReady (h.ready p hp)
  · intro p hp k desc hslot
    rw [(hsame p).slot] at hslot
    rw [hlba, (hsame p).device]
    exact h.coherent p hp k desc hslot
  · intro p
    have hplace := congrArg (Option.map fun place : ℕ × CacheTree × ℕ => place.2.2) (hsame p).place
    rwa [Option.map_map, Option.map_map] at hplace

theorem Closes.refl (h : s.Laid owners n blocks) : Closes owners n blocks s s :=
  ⟨h, fun _ _ _ _ => rfl, fun _ _ _ _ => rfl, fun _ _ _ desc hslot => ⟨desc, hslot, id⟩, rfl, rfl,
    rfl, fun _ => rfl⟩

end Close

/-! ## Sessions -/

section Session

variable {s : FatState} {files owners : Set Ptr} {n : Ptr → ℕ} {blocks : ℕ}

end Session

end GietVm.Fat
