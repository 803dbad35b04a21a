import GietVm.Fat.Directory

/-!
# The calls of the file system

Each call returns a code: `GIET_FAT32_OK`, a descriptor index or a number of bytes when it
succeeds, a negative value otherwise. The calls run under the lock of the descriptor, so
each one is a single step here.

`_fat_read` and `_fat_write` move bytes with `memcpy`, which is a parameter: the kernel's own
copy follows, and a caller that trusts its contract can put another one in its place. It
is given the addresses modulo the alignment of the cluster buffers, since it looks at
nothing else of them.
-/

namespace GietVm.Fat

open GietVm.Library

/-! ## Return codes -/

/-- `GIET_FAT32_OK` -/
abbrev fat32Ok : ℤ := 0
/-- `GIET_FAT32_NOT_INITIALIZED` -/
abbrev fat32NotInitialized : ℤ := -1
/-- `GIET_FAT32_INVALID_BOOT_SECTOR` -/
abbrev fat32InvalidBootSector : ℤ := -2
/-- `GIET_FAT32_IO_ERROR` -/
abbrev fat32IoError : ℤ := -3
/-- `GIET_FAT32_FILE_NOT_FOUND` -/
abbrev fat32FileNotFound : ℤ := -4
/-- `GIET_FAT32_INVALID_FD` -/
abbrev fat32InvalidFd : ℤ := -5
/-- `GIET_FAT32_NAME_TOO_LONG` -/
abbrev fat32NameTooLong : ℤ := -6
/-- `GIET_FAT32_TOO_MANY_OPEN_FILES` -/
abbrev fat32TooManyOpenFiles : ℤ := -7
/-- `GIET_FAT32_NOT_OPEN` -/
abbrev fat32NotOpen : ℤ := -8
/-- `GIET_FAT32_IS_OPEN` -/
abbrev fat32IsOpen : ℤ := -9
/-- `GIET_FAT32_READ_ONLY` -/
abbrev fat32ReadOnly : ℤ := -10
/-- `GIET_FAT32_NO_FREE_SPACE` -/
abbrev fat32NoFreeSpace : ℤ := -11
/-- `GIET_FAT32_INVALID_ARG` -/
abbrev fat32InvalidArg : ℤ := -12
/-- `GIET_FAT32_NOT_A_DIRECTORY` -/
abbrev fat32NotADirectory : ℤ := -13
/-- `GIET_FAT32_IS_DIRECTORY` -/
abbrev fat32IsDirectory : ℤ := -14
/-- `GIET_FAT32_DIRECTORY_NOT_EMPTY` -/
abbrev fat32DirectoryNotEmpty : ℤ := -15
/-- `GIET_FAT32_MOVE_INTO_SUBDIR` -/
abbrev fat32MoveIntoSubdir : ℤ := -16
/-- `GIET_FAT32_FILE_EXISTS` -/
abbrev fat32FileExists : ℤ := -17
/-- `GIET_FAT32_NO_MORE_ENTRIES` -/
abbrev fat32NoMoreEntries : ℤ := -18

/-- A 32-bit value returned as an `int`. -/
def int32 (n : ℕ) : ℤ := if n < 0x80000000 then n else n - 0x100000000

/-! ## memcpy -/

/-- The bytes from a destination address on after a copy, from the two addresses, the size,
the bytes from the source address on and the bytes from the destination address on. -/
abbrev Memcpy := ℕ → ℕ → ℕ → (ℕ → UInt8) → (ℕ → UInt8) → ℕ → UInt8

/-- The loop on words, with the position of the next word. -/
def copyWords (src : ℕ → UInt8) : ℕ → ℕ → (ℕ → UInt8) → ℕ → UInt8
  | 0, _, dst => dst
  | words + 1, pos, dst => copyWords src words (pos + 4) fun i =>
      if pos ≤ i ∧ i < pos + 4 then src i else dst i

/-- The loop on bytes, with the position of the next byte. -/
def copyBytes (src : ℕ → UInt8) : ℕ → ℕ → (ℕ → UInt8) → ℕ → UInt8
  | 0, _, dst => dst
  | size + 1, pos, dst => copyBytes src size (pos + 1) fun i => if i = pos then src i else dst i

/-- `memcpy` of the kernel. The loop on words leaves `size % 4` bytes to copy, and the loop on
bytes starts again at the beginning of the buffers. -/
def memcpy : Memcpy := fun dest source size src dst =>
  if dest % 4 = 0 ∧ source % 4 = 0 then
    copyBytes src (size % 4) 0 (copyWords src (size / 4) 0 dst)
  else copyBytes src size 0 dst

theorem copyWords_apply (src : ℕ → UInt8) (words pos : ℕ) (dst : ℕ → UInt8) (i : ℕ) :
    copyWords src words pos dst i =
      if pos ≤ i ∧ i < pos + 4 * words then src i else dst i := by
  induction words generalizing pos dst with
  | zero => rw [copyWords, if_neg (by omega)]
  | succ words ih =>
    rw [copyWords, ih]
    by_cases hlater : pos + 4 ≤ i ∧ i < pos + 4 + 4 * words
    · rw [if_pos hlater, if_pos (by omega)]
    · rw [if_neg hlater]
      by_cases hfirst : pos ≤ i ∧ i < pos + 4
      · rw [if_pos hfirst, if_pos (by omega)]
      · rw [if_neg hfirst, if_neg (by omega)]

theorem copyBytes_apply (src : ℕ → UInt8) (size pos : ℕ) (dst : ℕ → UInt8) (i : ℕ) :
    copyBytes src size pos dst i = if pos ≤ i ∧ i < pos + size then src i else dst i := by
  induction size generalizing pos dst with
  | zero => rw [copyBytes, if_neg (by omega)]
  | succ size ih =>
    rw [copyBytes, ih]
    by_cases hlater : pos + 1 ≤ i ∧ i < pos + 1 + size
    · rw [if_pos hlater, if_pos (by omega)]
    · rw [if_neg hlater]
      by_cases hfirst : i = pos
      · rw [if_pos hfirst, if_pos (by omega)]
      · rw [if_neg hfirst, if_neg (by omega)]

/-- A copy of whole words is exact. -/
theorem memcpy_words (dest source : ℕ) {size : ℕ} (hsize : size % 4 = 0) (src dst : ℕ → UInt8)
    (i : ℕ) : memcpy dest source size src dst i = if i < size then src i else dst i := by
  rw [memcpy]
  split
  · rw [hsize, copyBytes, copyWords_apply, Nat.zero_add, Nat.mul_div_cancel' (Nat.dvd_of_mod_eq_zero hsize)]
    simp only [Nat.zero_le, true_and]
  · rw [copyBytes_apply, Nat.zero_add]
    simp only [Nat.zero_le, true_and]

/-! ## Initialisation -/

/-- The checks that `_fat_init` makes on the boot sector. -/
def validBootSector (block : Bytes 512) : Bool :=
  readEntry 11 2 (pointer block 0) true = 512 && readEntry 13 1 (pointer block 0) true = 8 &&
    readEntry 16 1 (pointer block 0) true = 1 &&
    readEntry 36 4 (pointer block 0) true % 16 = 0 && readEntry 44 4 (pointer block 0) true = 2

/-- The geometry that `_fat_init` reads from the boot sector. -/
def FatState.geometry (s : FatState) (block : Bytes 512) : FatState :=
  let fatSectors := readEntry 36 4 (pointer block 0) true
  let fatLba := readEntry 14 2 (pointer block 0) true
  { s with
    fatSectors := fatSectors
    fatLba := fatLba
    dataSectors := u32 (fatSectors * 1024)
    dataLba := u32 (fatLba + fatSectors)
    fsInfoLba := readEntry 48 2 (pointer block 0) true
    bufferFatLba := 0xFFFFFFFF
    bufferDataLba := 0xFFFFFFFF
    initialized := true }

/-- What `_fat_init` allocates in kernel mode: the root of the Inode-Tree, the descriptors
and the Fat-Cache. -/
def initKernel : FatM Unit := do
  let root ← allocateOneInode [slash] ⟨2, 0, true⟩ 0 0 true
  modify fun s => { s with
    inodeTreeRoot := root
    fd := fun i => if i < openFilesMax then { s.fd i with allocated := false } else s.fd i }
  let cache ← allocateOneCacheNode .null
  modify fun s => { s with
    fatCacheRoot := cache, fatCacheLevels := getLevelsFromSize (u32 (s.fatSectors * 512)) }

/-- `_fat_init` -/
def fatInit (kernelMode : Bool) : FatM ℤ := do
  let s ← get
  if s.initialized then pure fat32Ok
  else do
    match ← iocRead 512 0 with
    | none => pure fat32IoError
    | some block => do
      modify fun s => { s with blockBuffer := block, blockBufferLba := 0 }
      if validBootSector block then do
        modify fun s => s.geometry block
        let s ← get
        match ← iocRead 512 s.fsInfoLba with
        | none => pure fat32IoError
        | some info => do
          modify fun s => { s with
            blockBuffer := info
            blockBufferLba := s.fsInfoLba
            freeClustersNumber := readEntry 488 4 (pointer info 0) true
            firstFreeCluster := readEntry 492 4 (pointer info 0) true }
          if kernelMode then initKernel
          pure fat32Ok
      else pure fat32InvalidBootSector

/-! ## Opening and closing -/

/-- What `_fat_open` does for a name that is absent from its directory: the code of an error
or the new inode. -/
def createFile (fuel : ℕ) (pathname : List UInt8) (parent : Ptr) : FatM (Except ℤ Ptr) := do
  match getLastName pathname with
  | none => throw .undefined
  | some name => do
    let child ← allocateOneInode name ⟨endOfChainClusterMax, 0, false⟩ 0 0 true
    addInodeInTree child (some parent)
    if ← addDirEntry fuel child (some parent) then pure (.error fat32IoError)
    else if ← updateDeviceFromCache (some parent) then pure (.error fat32IoError)
    else if ← updateDeviceFromCache none then pure (.error fat32IoError)
    else if ← updateFsInfo then pure (.error fat32IoError)
    else pure (.ok child)

/-- The truncation of `_fat_open`: `true` stands for an error. -/
def truncateFile (fuel : ℕ) (child : Ptr) : FatM Bool := do
  modifyInode child fun inode => { inode with size := 0, levels := getLevelsFromSize 0 }
  releaseCacheMemory child
  let inode ← getInode child
  if ← clustersRelease fuel inode.cluster then pure true else updateDirEntry child

/-- The first free entry of the descriptor array. -/
def findFreeFd (fd : ℕ → FileDesc) : Option ℕ :=
  (List.range openFilesMax).find? fun i => !(fd i).allocated

/-- The part of `_fat_open` that follows the search of the inode. -/
def openInode (fuel : ℕ) (child : Ptr) (readOnly truncate : Bool) : FatM ℤ := do
  let s ← get
  match findFreeFd s.fd with
  | none => pure fat32TooManyOpenFiles
  | some fdId => do
    modify fun s => { s with fd := Function.update s.fd fdId ⟨0, child, true, readOnly⟩ }
    modifyInode child fun inode => { inode with count := u32 (inode.count + 1) }
    let inode ← getInode child
    if truncate ∧ ¬ readOnly ∧ ¬ inode.isDir then
      if ← truncateFile fuel child then pure fat32IoError else pure fdId
    else pure fdId

/-- `_fat_open`. The flags are `O_RDONLY` (bit 0), `O_TRUNC` (bit 4) and `O_CREATE` (bit 5). -/
def fatOpen (fuel : ℕ) (pathname : List UInt8) (flags : ℕ) : FatM ℤ := do
  let create := flags.testBit 5
  let readOnly := flags.testBit 0
  let truncate := flags.testBit 4
  let s ← get
  if !s.initialized then pure fat32NotInitialized
  else do
    match ← getInodeFromPath fuel pathname with
    | .noParent => pure fat32FileNotFound
    | .nameTooLong => pure fat32NameTooLong
    | .absent parent =>
      if create then do
        match ← createFile fuel pathname parent with
        | .error code => pure code
        | .ok child => openInode fuel child readOnly false
      else pure fat32FileNotFound
    | .found child => openInode fuel child readOnly truncate

/-- `_fat_opendir` -/
def fatOpendir (fuel : ℕ) (pathname : List UInt8) : FatM ℤ := do
  let fdId ← fatOpen fuel pathname 1
  if fdId < 0 then pure fdId
  else do
    let s ← get
    let inode ← getInode (s.fd fdId.toNat).inode
    if inode.isDir then pure fdId else pure fat32NotADirectory

/-- What `_fat_close` does when the last descriptor of an inode is closed: `true` stands for
an error. -/
def closeInode (p : Ptr) : FatM Bool := do
  if ← updateDeviceFromCache (some p) then pure true
  else do
    let inode ← getInode p
    match inode.parent with
    | none => do
      releaseCacheMemory p
      pure false
    | some parent =>
      if ← updateDeviceFromCache (some parent) then pure true
      else do
        releaseCacheMemory p
        pure false

/-- `_fat_close`, which is also `_fat_closedir`. -/
def fatClose (fdId : ℕ) : FatM ℤ := do
  let s ← get
  if !s.initialized then pure fat32NotInitialized
  else if fdId ≥ openFilesMax then pure fat32InvalidFd
  else if !(s.fd fdId).allocated then pure fat32NotOpen
  else do
    let p := (s.fd fdId).inode
    modifyInode p fun inode => { inode with count := u32 (inode.count + 0xFFFFFFFF) }
    let inode ← getInode p
    let failed ← if inode.count = 0 then closeInode p else pure false
    if failed then pure fat32IoError
    else do
      modify fun s => { s with
        fd := Function.update s.fd fdId { s.fd fdId with allocated := false } }
      pure fat32Ok

/-! ## Reading and writing -/

/-- The clusters and the bytes that a transfer covers. -/
structure Transfer where
  firstClusterId : ℕ
  firstByteToMove : ℕ
  lastClusterId : ℕ
  lastByteToMove : ℕ

/-- The transfer of `count` bytes from `seek` on. -/
def transfer (seek count : ℕ) : Transfer where
  firstClusterId := seek / 0x1000
  firstByteToMove := seek % 0x1000
  lastClusterId := u32 (seek + count + 0xFFFFFFFF) / 0x1000
  lastByteToMove := u32 (seek + count + 0xFFFFFFFF) % 0x1000

/-- The offset in a cluster and the number of bytes that are moved there. -/
def Transfer.range (t : Transfer) (clusterId : ℕ) : ℕ × ℕ :=
  if clusterId = t.firstClusterId ∧ clusterId = t.lastClusterId then
    (t.firstByteToMove, u32 (t.lastByteToMove + 0x100000000 - t.firstByteToMove + 1))
  else if clusterId = t.firstClusterId then (t.firstByteToMove, 4096 - t.firstByteToMove)
  else if clusterId = t.lastClusterId then (0, t.lastByteToMove + 1)
  else (0, 4096)

/-- Bytes of a memory from an address on, replaced by others. -/
def overlay (memory : ℕ → UInt8) (address : ℕ) (bytes : ℕ → UInt8) : ℕ → UInt8 := fun a =>
  if address ≤ a then bytes (a - address) else memory a

/-- The loop of `_fat_read`: the number of bytes moved, `none` when a cluster cannot be
loaded. -/
def readClusters (copy : Memcpy) (p : Ptr) (t : Transfer) (buffer : ℕ) :
    ℕ → ℕ → ℕ → FatM (Option ℕ)
  | 0, _, done => pure (some done)
  | more + 1, clusterId, done => do
    match ← getBufferFromCache (some p) clusterId with
    | none => pure none
    | some pdesc => do
      let (source, nbytes) := t.range clusterId
      modify fun s => { s with
        memory := overlay s.memory (buffer + done)
          (copy (buffer + done) source nbytes (pointer pdesc.buffer source)
            fun i => s.memory (buffer + done + i)) }
      readClusters copy p t buffer more (clusterId + 1) (u32 (done + nbytes))

/-- `_fat_read` -/
def fatRead (copy : Memcpy) (fdId buffer count : ℕ) : FatM ℤ := do
  let s ← get
  if !s.initialized then pure fat32NotInitialized
  else if fdId ≥ openFilesMax then pure fat32InvalidFd
  else if !(s.fd fdId).allocated then pure fat32NotOpen
  else do
    let p := (s.fd fdId).inode
    let seek := (s.fd fdId).seek
    let inode ← getInode p
    if u32 (count + seek) > inode.size ∧ ¬ inode.isDir then pure 0
    else do
      let t := transfer seek count
      match ← readClusters copy p t buffer (t.lastClusterId + 1 - t.firstClusterId)
          t.firstClusterId 0 with
      | none => pure fat32IoError
      | some done => do
        modify fun s => { s with
          fd := Function.update s.fd fdId { s.fd fdId with seek := u32 ((s.fd fdId).seek + done) } }
        pure (int32 done)

/-- The loop of `_fat_write`: the number of bytes moved, `none` when a cluster cannot be
loaded. -/
def writeClusters (copy : Memcpy) (p : Ptr) (t : Transfer) (buffer : ℕ) :
    ℕ → ℕ → ℕ → FatM (Option ℕ)
  | 0, _, done => pure (some done)
  | more + 1, clusterId, done => do
    match ← getBufferFromCache (some p) clusterId with
    | none => pure none
    | some _ => do
      let (dest, nbytes) := t.range clusterId
      let s ← get
      modifyDesc (some p) clusterId fun desc => { desc with
        dirty := true
        buffer := fun j => overlay desc.buffer.get dest
          (copy dest (buffer + done) nbytes (fun i => s.memory (buffer + done + i))
            (pointer desc.buffer dest)) j.val }
      writeClusters copy p t buffer more (clusterId + 1) (u32 (done + nbytes))

/-- The number of clusters that a size takes. -/
def clustersOfSize (size : ℕ) : ℕ := if size % 0x1000 ≠ 0 then size / 0x1000 + 1 else size / 0x1000

/-- What `_fat_write` does before it moves bytes, for a file that grows: the code of an error
if there is one. -/
def growFile (fuel : ℕ) (p : Ptr) (oldSize newSize : ℕ) : FatM (Option ℤ) := do
  modifyInode p fun inode => { inode with size := newSize }
  let oldClusters := clustersOfSize oldSize
  let newClusters := clustersOfSize newSize
  let full ← if newClusters > oldClusters then
      clustersAllocate fuel p oldClusters (newClusters - oldClusters)
    else pure false
  if full then pure (some fat32NoFreeSpace)
  else if ← updateDirEntry p then pure (some fat32IoError)
  else pure none

/-- `_fat_write` -/
def fatWrite (fuel : ℕ) (copy : Memcpy) (fdId buffer count : ℕ) : FatM ℤ := do
  let s ← get
  if !s.initialized then pure fat32NotInitialized
  else if fdId ≥ openFilesMax then pure fat32InvalidFd
  else if !(s.fd fdId).allocated then pure fat32NotOpen
  else if (s.fd fdId).readOnly then pure fat32ReadOnly
  else do
    let p := (s.fd fdId).inode
    let seek := (s.fd fdId).seek
    let inode ← getInode p
    let newSize := u32 (seek + count)
    let failure ← if newSize > inode.size then growFile fuel p inode.size newSize else pure none
    match failure with
    | some code => pure code
    | none => do
      let t := transfer seek count
      match ← writeClusters copy p t buffer (t.lastClusterId + 1 - t.firstClusterId)
          t.firstClusterId 0 with
      | none => pure fat32IoError
      | some done => do
        modify fun s => { s with
          fd := Function.update s.fd fdId { s.fd fdId with seek := u32 ((s.fd fdId).seek + done) } }
        pure (int32 done)

/-- The commands of `_fat_lseek`. -/
inductive Whence
  | seekSet
  | seekCur
  | other

/-- `_fat_lseek` -/
def fatLseek (fdId seek : ℕ) (whence : Whence) : FatM ℤ := do
  let s ← get
  if !s.initialized then pure fat32NotInitialized
  else if fdId ≥ openFilesMax then pure fat32InvalidFd
  else if !(s.fd fdId).allocated then pure fat32NotOpen
  else
    let newSeek := match whence with
      | .seekCur => some (u32 ((s.fd fdId).seek + seek))
      | .seekSet => some seek
      | .other => none
    match newSeek with
    | none => pure fat32InvalidArg
    | some newSeek => do
      modify fun s => { s with
        fd := Function.update s.fd fdId { s.fd fdId with seek := newSeek } }
      pure (int32 newSeek)

/-! ## Removing, renaming, making directories -/

/-- The checks of `_fat_remove` and `_fat_rename` on a directory that must be empty: the code
of an error if there is one. -/
def checkEmpty (fuel : ℕ) (p : Ptr) : FatM (Option ℤ) := do
  match ← getNbEntries fuel p with
  | none => pure (some fat32IoError)
  | some entries => if entries > 2 then pure (some fat32DirectoryNotEmpty) else pure none

/-- `_fat_remove` -/
def fatRemove (fuel : ℕ) (pathname : List UInt8) (shouldBeDir : Bool) : FatM ℤ := do
  let s ← get
  if !s.initialized then pure fat32NotInitialized
  else do
    match ← getInodeFromPath fuel pathname with
    | .absent _ => pure fat32FileNotFound
    | .noParent => pure fat32FileNotFound
    | .nameTooLong => pure fat32NameTooLong
    | .found p => do
      let inode ← getInode p
      if inode.isDir ∧ ¬ shouldBeDir then pure fat32IsDirectory
      else if ¬ inode.isDir ∧ shouldBeDir then pure fat32NotADirectory
      else if ¬ inode.isDir ∧ inode.count ≠ 0 then pure fat32IsOpen
      else do
        let failure ← if inode.isDir then checkEmpty fuel p else pure none
        match failure with
        | some code => pure code
        | none => if ← removeNodeFromFs fuel p then pure fat32IoError else pure fat32Ok

/-- The checks of `_fat_rename` on the node that the new name replaces: the code of an error if
there is one. -/
def checkToRemove (fuel : ℕ) : Option Ptr → FatM (Option ℤ)
  | none => pure none
  | some toRemove => do
    let inode ← getInode toRemove
    if inode.isDir then checkEmpty fuel toRemove
    else if inode.count ≠ 0 then pure (some fat32IsOpen)
    else pure none

/-- The part of `_fat_rename` that follows the checks. -/
def moveNode (fuel : ℕ) (newPath : List UInt8) (old : Ptr) (newParent toRemove : Option Ptr) :
    FatM ℤ := do
  match getLastName newPath with
  | none => throw .undefined
  | some newName => do
    let inode ← getInode old
    let new ← allocateOneInode newName ⟨inode.cluster, inode.size, inode.isDir⟩ 0 0 false
    modifyInode new fun i => { i with levels := inode.levels, cache := inode.cache }
    if ← addDirEntry fuel new newParent then pure fat32IoError
    else do
      addInodeInTree new newParent
      if ← updateDeviceFromCache newParent then pure fat32IoError
      else if ← removeDirEntry old then pure fat32IoError
      else do
        removeInodeFromTree fuel old
        freeInode old
        match inode.parent with
        | none => throw .undefined
        | some oldParent =>
          if ← updateDeviceFromCache (some oldParent) then pure fat32IoError
          else match toRemove with
            | none => pure fat32Ok
            | some p => if ← removeNodeFromFs fuel p then pure fat32IoError else pure fat32Ok

/-- The part of `_fat_rename` that follows the search of the two paths. -/
def renameNode (fuel : ℕ) (newPath : List UInt8) (old : Ptr) (newParent toRemove : Option Ptr) :
    FatM ℤ := do
  if ← isAncestor old fuel newParent then pure fat32MoveIntoSubdir
  else do
    match ← checkToRemove fuel toRemove with
    | some code => pure code
    | none => moveNode fuel newPath old newParent toRemove

/-- `_fat_rename` -/
def fatRename (fuel : ℕ) (oldPath newPath : List UInt8) : FatM ℤ := do
  let s ← get
  if !s.initialized then pure fat32NotInitialized
  else do
    match ← getInodeFromPath fuel oldPath with
    | .absent _ => pure fat32FileNotFound
    | .noParent => pure fat32FileNotFound
    | .nameTooLong => pure fat32FileNotFound
    | .found old => do
      match ← getInodeFromPath fuel newPath with
      | .noParent => pure fat32FileNotFound
      | .nameTooLong => pure fat32FileNotFound
      | .absent newParent => renameNode fuel newPath old (some newParent) none
      | .found inode =>
        if inode = old then pure fat32Ok
        else do
          let node ← getInode inode
          renameNode fuel newPath old node.parent (some inode)

/-- What `_fat_mkdir` does for a name that is absent from its directory. -/
def createDirectory (fuel : ℕ) (pathname : List UInt8) (parent : Ptr) : FatM ℤ := do
  match getLastName pathname with
  | none => throw .undefined
  | some name => do
    match ← allocateOneCluster with
    | none => pure fat32NoFreeSpace
    | some cluster => do
      let child ← allocateOneInode name ⟨cluster, 0, true⟩ 0 0 true
      addInodeInTree child (some parent)
      allocateOneBuffer child 0 cluster
      addSpecialDirectories child parent
      if ← addDirEntry fuel child (some parent) then pure fat32IoError
      else if ← updateDeviceFromCache (some parent) then pure fat32IoError
      else if ← updateDeviceFromCache none then pure fat32IoError
      else if ← updateFsInfo then pure fat32IoError
      else if ← updateDeviceFromCache (some child) then pure fat32IoError
      else pure fat32Ok

/-- `_fat_mkdir` -/
def fatMkdir (fuel : ℕ) (pathname : List UInt8) : FatM ℤ := do
  let s ← get
  if !s.initialized then pure fat32NotInitialized
  else do
    match ← getInodeFromPath fuel pathname with
    | .noParent => pure fat32FileNotFound
    | .nameTooLong => pure fat32NameTooLong
    | .found _ => pure fat32FileExists
    | .absent parent => createDirectory fuel pathname parent

/-! ## Listing a directory -/

/-- `fat_file_info_t` -/
structure FileInfo where
  size : ℕ
  offset : ℕ
  isDir : Bool

/-- `_fat_file_info`: the code of an error or the information. -/
def fatFileInfo (fdId : ℕ) : FatM (Except ℤ FileInfo) := do
  let s ← get
  if !s.initialized then pure (.error fat32NotInitialized)
  else if fdId ≥ openFilesMax then pure (.error fat32InvalidFd)
  else if !(s.fd fdId).allocated then pure (.error fat32NotOpen)
  else do
    let inode ← getInode (s.fd fdId).inode
    pure (.ok ⟨inode.size, (s.fd fdId).seek, inode.isDir⟩)

/-- `fat_dirent_t` -/
structure Dirent where
  info : EntryInfo
  name : List UInt8

/-- `_strcpy` into `entry->name`, of 36 bytes, at an offset: `none` when the array overflows. -/
def strcpyName (name : List UInt8) (offset : ℕ) (source : List UInt8) : Option (List UInt8) :=
  if offset + source.length < 36 then
    some (name.take offset ++ source ++ 0 :: name.drop (offset + source.length + 1))
  else none

/-- The string that `_fat_readdir` builds in `entry->name`, `none` when it reads an uninitialised
part or overflows the array. What the array holds before does not show: each copy ends with a
NUL, and the next one starts on it or after it. -/
def LfnScan.direntName (scan : LfnScan) (buffer : ℕ → UInt8) : Option (List UInt8) :=
  let name := List.replicate 36 0
  match scan.lfn with
  | 0 => some (getNameFromShort buffer)
  | 1 => do
    let name ← strcpyName name 0 (← scan.lfn1)
    pure (cString name)
  | 2 => do
    let name ← strcpyName name 0 (← scan.lfn1)
    let name ← strcpyName name 13 (← scan.lfn2)
    pure (cString name)
  | _ => do
    let name ← strcpyName name 0 (← scan.lfn1)
    let name ← strcpyName name 13 (← scan.lfn2)
    let name ← strcpyName name 26 (← scan.lfn3)
    pure (cString name)

/-- The loop of `_fat_readdir`. `buf` is the address of the local array of the same name. -/
def readEntries (copy : Memcpy) (fdId buf : ℕ) : ℕ → LfnScan → FatM (Except ℤ Dirent)
  | 0, _ => throw .endless
  | turns + 1, scan => do
    let nbytes ← fatRead copy fdId buf 32
    if nbytes ≠ 32 then pure (.error fat32IoError)
    else do
      let s ← get
      let entry := fun i => s.memory (buf + i)
      let attr := readEntry 11 1 entry false
      let ord := readEntry 0 1 entry false
      if ord = noMoreEntry then do
        -- seek back to this entry
        modify fun s => { s with
          fd := Function.update s.fd fdId
            { s.fd fdId with seek := u32 ((s.fd fdId).seek + (0x100000000 - 32)) } }
        pure (.error fat32NoMoreEntries)
      else if ord = freeEntry then readEntries copy fdId buf turns scan
      else if attr = attrLongNameMask then
        readEntries copy fdId buf turns (scan.record ord entry)
      else match scan.direntName entry with
        | none => throw .undefined
        | some name => pure (.ok ⟨entryInfo entry, name⟩)

/-- `_fat_readdir`: the code of an error or the entry. -/
def fatReaddir (turns : ℕ) (copy : Memcpy) (fdId buf : ℕ) : FatM (Except ℤ Dirent) := do
  match ← fatFileInfo fdId with
  | .error code => pure (.error code)
  | .ok info =>
    if info.isDir then readEntries copy fdId buf turns {} else pure (.error fat32NotADirectory)

end GietVm.Fat
