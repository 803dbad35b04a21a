import GietVm.Fat.Clusters
import GietVm.Fat.Names

/-!
# Directory entries and the Inode-Tree

A directory is scanned through its File-Cache, one cluster after the other. The inodes
loaded so far form a tree: each directory heads the list of its children, linked by `next`.
An inode is loaded when a lookup finds its entry, and leaves the tree when its entry is
removed.

Loops over clusters and over linked lists have no bound of their own, so they take fuel.
-/

namespace GietVm.Fat

open GietVm.Library

/-! ## Inodes -/

/-- `_allocate_one_inode` -/
def allocateOneInode (name : List UInt8) (info : EntryInfo) (count dentry : ℕ)
    (cacheAllocate : Bool) : FatM Ptr := do
  let newInode ← malloc
  let cache ← if cacheAllocate then allocateOneCacheNode .null else pure .null
  let inode : Inode :=
    { parent := none, next := none, child := none, cache := cache, cluster := info.cluster
      size := info.size, count := count, dentry := dentry % 0x10000
      levels := if cacheAllocate then getLevelsFromSize info.size else 0
      isDir := info.isDir, name := name }
  modify fun s => s.setInode newInode inode
  pure newInode

/-- `_add_inode_in_tree` -/
def addInodeInTree (child : Ptr) (parent : Option Ptr) : FatM Unit := do
  modifyInode child fun inode => { inode with parent := parent }
  match parent with
  | none => throw .undefined
  | some p => do
    let father ← getInode p
    modifyInode child fun inode => { inode with next := father.child }
    modifyInode p fun inode => { inode with child := some child }

/-- The loop of `_remove_inode_from_tree`, which goes on to the end of the list. -/
def unlinkInode (p : Ptr) : ℕ → Ptr → Option Ptr → FatM Unit
  | _, _, none => pure ()
  | 0, _, some _ => throw .endless
  | fuel + 1, prev, some current => do
    let inode ← getInode current
    if current = p then modifyInode prev fun i => { i with next := inode.next }
    unlinkInode p fuel current inode.next

/-- `_remove_inode_from_tree` -/
def removeInodeFromTree (fuel : ℕ) (p : Ptr) : FatM Unit := do
  let inode ← getInode p
  match inode.parent with
  | none => throw .undefined
  | some parent => do
    let father ← getInode parent
    if father.child = some p then
      modifyInode parent fun i => { i with child := inode.next }
    else match father.child with
      | none => throw .undefined
      | some prev => do
        let first ← getInode prev
        unlinkInode p fuel prev first.next

/-- `_is_ancestor` -/
def isAncestor (a : Ptr) : ℕ → Option Ptr → FatM Bool
  | _, none => pure false
  | 0, some _ => throw .endless
  | fuel + 1, some b =>
    if a = b then pure true
    else do
      let inode ← getInode b
      isAncestor a fuel inode.parent

/-! ## Scans of a directory -/

/-- The scan of `n` entries of a cluster for `NO_MORE_ENTRY`. -/
def scanNoMore (buffer : Block) : ℕ → ℕ → Option ℕ
  | 0, _ => none
  | n + 1, offset =>
    if readEntry 0 1 (pointer buffer offset) false = noMoreEntry then some offset
    else scanNoMore buffer n (offset + 32)

/-- The number of NORMAL entries in `n` entries of a cluster, and whether the scan has met
`NO_MORE_ENTRY`. -/
def countEntries (buffer : Block) : ℕ → ℕ → ℕ → ℕ × Bool
  | 0, _, count => (count, false)
  | n + 1, offset, count =>
    let attr := readEntry 11 1 (pointer buffer offset) false
    let ord := readEntry 0 1 (pointer buffer offset) false
    if ord = noMoreEntry then (count, true)
    else if ord = freeEntry then countEntries buffer n (offset + 32) count
    else if attr = attrLongNameMask then countEntries buffer n (offset + 32) count
    else countEntries buffer n (offset + 32) (count + 1)

/-- The loop of `_get_nb_entries` on clusters. -/
def countClusters (p : Ptr) : ℕ → ℕ → ℕ → FatM (Option ℕ)
  | 0, _, _ => throw .endless
  | fuel + 1, clusterId, count => do
    match ← getBufferFromCache (some p) clusterId with
    | none => pure none
    | some pdesc =>
      match countEntries pdesc.buffer 128 0 count with
      | (count, true) => pure (some count)
      | (count, false) => countClusters p fuel (clusterId + 1) count

/-- `_get_nb_entries`: `none` stands for the return code 1. -/
def getNbEntries (fuel : ℕ) (p : Ptr) : FatM (Option ℕ) := countClusters p fuel 0 0

/-! ## Entries -/

/-- `_add_special_directories` writes the entries `.` and `..` in the first cluster of a new
directory, reached through the first child of the root of its File-Cache. -/
def addSpecialDirectories (child parent : Ptr) : FatM Unit := do
  let new ← getInode child
  let father ← getInode parent
  match new.levels, new.cache with
  | 1, .node _ children =>
    match children 0 with
    | .leaf _ => modifyDesc (some child) 0 fun desc => { desc with
        buffer := (desc.buffer.write 0
            (specialEntry 1 ⟨new.cluster, new.size, true⟩)).write 32
            (specialEntry 2 ⟨father.cluster, father.size, true⟩) }
    | _ => throw .undefined
  | _, _ => throw .undefined
where
  /-- An entry named by `dots` dots. -/
  specialEntry (dots : ℕ) (info : EntryInfo) : List UInt8 :=
    (List.range 32).map fun i => if i < dots then 0x2E else normalByte info i

/-- The search of `_add_dir_entry` for `NO_MORE_ENTRY`: its cluster and its offset. -/
def findNoMore (parent : Option Ptr) : ℕ → ℕ → FatM (Option (ℕ × ℕ))
  | 0, _ => throw .endless
  | fuel + 1, clusterId => do
    match ← getBufferFromCache parent clusterId with
    | none => pure none
    | some pdesc =>
      match scanNoMore pdesc.buffer 128 0 with
      | some offset => do
        modifyDesc parent clusterId fun desc => { desc with dirty := true }
        pure (some (clusterId, offset))
      | none => findNoMore parent fuel (clusterId + 1)

/-- The FSM of `_add_dir_entry` from state `step` on. `clusterId` is the cluster where
`NO_MORE_ENTRY` was found and `current` the one of the buffer in use. -/
def writeSteps (child : Ptr) (parent : Option Ptr) (name : List UInt8) (info : EntryInfo)
    (length nbLfn clusterId : ℕ) : ℕ → ℕ → ℕ → FatM Bool
  | 0, _, _ => pure false
  | step + 1, current, offset => do
    if offset ≥ 4096 then
      -- new buffer required
      match ← getBufferFromCache parent (clusterId + 1) with
      | none => pure true
      | some _ => do
        modifyDesc parent (clusterId + 1) fun desc => { desc with dirty := true }
        writeStep step (clusterId + 1) 0
        writeSteps child parent name info length nbLfn clusterId step (clusterId + 1) 32
    else do
      writeStep step current offset
      writeSteps child parent name info length nbLfn clusterId step current (offset + 32)
where
  /-- Write one entry; the NORMAL one gives the index stored in the inode. -/
  writeStep (step current offset : ℕ) : FatM Unit := do
    modifyDesc parent current fun desc =>
      { desc with buffer := desc.buffer.write offset (stepBytes name info length nbLfn (step + 1)) }
    if step + 1 = 2 then
      modifyInode child fun inode =>
        { inode with dentry := (clusterId * 4096 + offset) / 32 % 0x10000 }

/-- `_add_dir_entry`: `true` stands for the return code 1. -/
def addDirEntry (fuel : ℕ) (child : Ptr) (parent : Option Ptr) : FatM Bool := do
  let inode ← getInode child
  let info : EntryInfo := ⟨inode.cluster, inode.size, inode.isDir⟩
  match checkNameLength inode.name with
  | none => pure true
  | some (length, nbLfn) =>
    match ← findNoMore parent fuel 0 with
    | none => pure true
    | some (clusterId, offset) =>
      writeSteps child parent inode.name info length nbLfn clusterId (nbLfn + 2) clusterId offset

/-- Free an entry if it is an LFN one, and tell whether it was. -/
def freeLfnEntry (parent : Option Ptr) (current offset : ℕ) : FatM Bool := do
  let pdesc ← readDesc parent current
  if readEntry 11 1 (pointer pdesc.buffer offset) false ≠ attrLongNameMask then pure false
  else do
    modifyDesc parent current fun desc => { desc with buffer := desc.buffer.set offset 0xE5 }
    pure true

/-- The loop of `_remove_dir_entry` on the LFN entries before an entry. `current` is the
cluster of the buffer in use. -/
def freeLfnEntries (parent : Option Ptr) (clusterId : ℕ) : ℕ → ℕ → ℕ → FatM Bool
  | 0, _, _ => pure false
  | nbLfn + 1, current, offset =>
    if offset = 0 then
      -- the entries before this one are at the end of the previous cluster
      if clusterId = 0 then pure false
      else do
        match ← getBufferFromCache parent (clusterId - 1) with
        | none => pure true
        | some _ => do
          modifyDesc parent (clusterId - 1) fun desc => { desc with dirty := true }
          if ← freeLfnEntry parent (clusterId - 1) 4064 then
            freeLfnEntries parent clusterId nbLfn (clusterId - 1) 4064
          else pure false
    else do
      if ← freeLfnEntry parent current (offset - 32) then
        freeLfnEntries parent clusterId nbLfn current (offset - 32)
      else pure false

/-- `_remove_dir_entry`: `true` stands for the return code 1. -/
def removeDirEntry (p : Ptr) : FatM Bool := do
  let inode ← getInode p
  match checkNameLength inode.name with
  | none => pure true
  | some (_, nbLfn) => do
    let clusterId := inode.dentry / 0x80
    let offset := inode.dentry % 0x80 * 32
    match ← getBufferFromCache inode.parent clusterId with
    | none => pure true
    | some _ => do
      modifyDesc inode.parent clusterId fun desc =>
        { desc with dirty := true, buffer := desc.buffer.set offset 0xE5 }
      freeLfnEntries inode.parent clusterId nbLfn clusterId offset

/-- Store the size and the first cluster in the NORMAL entry at an offset. -/
def entryFields (buffer : Block) (offset size cluster : ℕ) : Block :=
  ((buffer.setWord (offset + 28) size).write (offset + 26)
      [UInt8.ofNat cluster, UInt8.ofNat (cluster / 0x100)]).write (offset + 20)
    [UInt8.ofNat (cluster / 0x10000), UInt8.ofNat (cluster / 0x1000000)]

/-- `_update_dir_entry`: `true` stands for the return code 1. -/
def updateDirEntry (p : Ptr) : FatM Bool := do
  let inode ← getInode p
  let clusterId := inode.dentry / 0x80
  let offset := inode.dentry % 0x80 * 32
  match ← getBufferFromCache inode.parent clusterId with
  | none => pure true
  | some _ => do
    modifyDesc inode.parent clusterId fun desc =>
      { desc with dirty := true
                  buffer := entryFields desc.buffer offset inode.size inode.cluster }
    pure false

/-! ## Lookups -/

/-- The outcome of `_get_child_from_parent`, which returns 0, 1 or 2. -/
inductive ChildLookup
  | found (inode : Ptr)
  | notFound
  | ioError
  deriving DecidableEq

/-- The search of the Inode-Tree for a name among the children of a directory. -/
def findChild (name : List UInt8) : ℕ → Option Ptr → FatM (Option Ptr)
  | _, none => pure none
  | 0, some _ => throw .endless
  | fuel + 1, some current => do
    let inode ← getInode current
    if name = inode.name then pure (some current) else findChild name fuel inode.next

/-- The outcome of the scan of a directory. -/
inductive DirSearch
  | found (dentry : ℕ) (info : EntryInfo)
  | endOfDir
  | ioError

/-- The scan of a directory for a name, from one of its clusters on. -/
def searchDirectory (parent : Ptr) (name : List UInt8) : ℕ → ℕ → LfnScan → FatM DirSearch
  | 0, _, _ => throw .endless
  | fuel + 1, clusterId, scan => do
    match ← getBufferFromCache (some parent) clusterId with
    | none => pure .ioError
    | some pdesc =>
      match scanEntries name pdesc.buffer 128 0 scan with
      | .next scan => searchDirectory parent name fuel (clusterId + 1) scan
      | .noMore => pure .endOfDir
      | .found offset info _ => pure (.found ((clusterId * 4096 + offset) / 32) info)
      | .undefined => throw .undefined

/-- `_get_child_from_parent` -/
def getChildFromParent (fuel : ℕ) (parent : Ptr) (name : List UInt8) : FatM ChildLookup := do
  let father ← getInode parent
  match ← findChild name fuel father.child with
  | some current => pure (.found current)
  | none =>
    match ← searchDirectory parent name fuel 0 {} with
    | .ioError => pure .ioError
    | .endOfDir => pure .notFound
    | .found dentry info => do
      let inode ← allocateOneInode name info 0 dentry true
      addInodeInTree inode (some parent)
      pure (.found inode)

/-- The outcome of `_get_inode_from_path`, which returns 0, 1, 2 or 3. -/
inductive PathLookup
  | found (inode : Ptr)
  | absent (parent : Ptr)
  | noParent
  | nameTooLong
  deriving DecidableEq

/-- The inode that a component of a path designates in a directory. -/
def resolveName (fuel : ℕ) (parent : Ptr) (name : List UInt8) : FatM ChildLookup := do
  if name = [0x2E, 0x2E] then do
    let father ← getInode parent
    match father.parent with
    | some p => pure (.found p)
    | none => pure (.found parent)
  else if name = [0x2E] then pure (.found parent)
  else getChildFromParent fuel parent name

/-- The loop of `_get_inode_from_path`, which reads at least one character in each turn but
the last one. -/
def resolvePath (fuel : ℕ) (pathname : List UInt8) : ℕ → Ptr → ℕ → FatM PathLookup
  | 0, _, _ => throw .endless
  | turns + 1, parent, nbRead =>
    match getNameFromPath pathname nbRead with
    | none => pure .nameTooLong
    | some (name, nbRead) => do
      let last := charAt pathname nbRead = 0
      match ← resolveName fuel parent name with
      | .ioError => pure .noParent
      | .notFound => pure (if last then .absent parent else .noParent)
      | .found child =>
        if last then pure (.found child) else resolvePath fuel pathname turns child nbRead

/-- `_get_inode_from_path` -/
def getInodeFromPath (fuel : ℕ) (pathname : List UInt8) : FatM PathLookup := do
  let s ← get
  if pathname = [slash] then pure (.found s.inodeTreeRoot)
  else resolvePath fuel pathname (pathname.length + 1) s.inodeTreeRoot 0

/-- `_remove_node_from_fs`: `true` stands for the return code 1. -/
def removeNodeFromFs (fuel : ℕ) (p : Ptr) : FatM Bool := do
  let inode ← getInode p
  match inode.parent with
  | none => pure true
  | some parent =>
    if ← removeDirEntry p then pure true
    else if ← updateDeviceFromCache (some parent) then pure true
    else if ← clustersRelease fuel inode.cluster then pure true
    else do
      releaseCacheMemory p
      match (← getInode p).cache with
      | .node address _ => free address
      | _ => throw .undefined
      removeInodeFromTree fuel p
      freeInode p
      pure false

end GietVm.Fat
