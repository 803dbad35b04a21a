import GietVm.Fat.State

/-!
# The Fat-Cache and the File-Caches

Both kinds of cache are 64-trees of cluster descriptors. `_get_buffer_from_cache` returns a
pointer to a descriptor that its callers read and write; here it returns the descriptor, and
a write through the pointer is `modifyDesc` on the same cache and the same index.

A null inode pointer selects the Fat-Cache. The lba of a missing cluster of a file is found
by following its chain, whose slots are read through the Fat-Cache, so the search of the
Fat-Cache comes first and the general one after it.
-/

namespace GietVm.Fat

open GietVm.Library

/-- The levels and the root of a cache. -/
def getCache (owner : Option Ptr) : FatM (ℕ × CacheTree) :=
  match owner with
  | none => do
    let s ← get
    pure (s.fatCacheLevels, s.fatCacheRoot)
  | some p => do
    let inode ← getInode p
    pure (inode.levels, inode.cache)

/-- Edit a cache. -/
def modifyCache (owner : Option Ptr) (f : ℕ → CacheTree → CacheTree) : FatM Unit :=
  match owner with
  | none => modify fun s => { s with fatCacheRoot := f s.fatCacheLevels s.fatCacheRoot }
  | some p => modifyInode p fun inode => { inode with cache := f inode.levels inode.cache }

/-- Write through the pointer to the descriptor of an index. -/
def modifyDesc (owner : Option Ptr) (clusterId : ℕ) (f : Desc → Desc) : FatM Unit :=
  modifyCache owner fun level root => RadixTree.modify f level root clusterId

/-- Read through the pointer to the descriptor of an index. -/
def readDesc (owner : Option Ptr) (clusterId : ℕ) : FatM Desc := do
  let (level, root) ← getCache owner
  match RadixTree.get? level root clusterId with
  | some desc => pure desc
  | none => throw .undefined

/-- `_allocate_one_cache_node` -/
def allocateOneCacheNode (firstChild : CacheTree) : FatM CacheTree := do
  let cnode ← malloc
  pure (RadixTree.addRoot cnode firstChild)

/-- Add levels above the root of a File-Cache. -/
def addLevels (p : Ptr) : ℕ → FatM Unit
  | 0 => pure ()
  | n + 1 => do
    let inode ← getInode p
    let root ← allocateOneCacheNode inode.cache
    modifyInode p fun inode => { inode with cache := root, levels := inode.levels + 1 }
    addLevels p n

/-- Add the levels that a File-Cache needs to cover an index. The argument of
`_get_levels_from_size` is a 32-bit product. -/
def growCache (p : Ptr) (clusterId : ℕ) : FatM Unit := do
  let inode ← getInode p
  addLevels p (getLevelsFromSize (u32 ((clusterId + 1) * 4096)) - inode.levels)

/-- Create the missing nodes on the path of an index and return what the path ends in. -/
def openCache (owner : Option Ptr) (clusterId : ℕ) : FatM CacheTree := do
  let (level, root) ← getCache owner
  let s ← get
  match level, RadixTree.openPath level s.brk root clusterId with
  | _ + 1, some (root, brk) => do
    set { s with brk := brk }
    modifyCache owner fun _ _ => root
    pure (RadixTree.find level root clusterId)
  | _, _ => throw .undefined

/-- The search of a 64-tree: a missing cluster is loaded from the lba that `findLba` gives. -/
def loadBuffer (owner : Option Ptr) (clusterId : ℕ) (findLba : FatM (Option ℕ)) :
    FatM (Option Desc) := do
  match ← openCache owner clusterId with
  | .leaf desc => pure (some desc)
  | .node _ _ => throw .undefined
  | .null => do
    match ← findLba with
    | none => pure none
    | some lba => do
      let buf ← malloc
      match ← iocRead 4096 lba with
      | none => do
        free buf
        pure none
      | some content => do
        let pdesc ← malloc
        let desc : Desc :=
          { address := pdesc, bufferAddress := buf, lba := lba, dirty := false, buffer := content }
        modifyCache owner fun level root => RadixTree.attach level root clusterId desc
        pure (some desc)

/-- `_get_buffer_from_cache` for the Fat-Cache: `none` stands for the return code 1. -/
def getFatBufferFromCache (clusterId : ℕ) : FatM (Option Desc) :=
  loadBuffer none clusterId do
    let s ← get
    pure (some (u32 (s.fatLba + clusterId * 8)))

/-- `_get_fat_entry`: `none` stands for the return code 1. -/
def getFatEntry (cluster : ℕ) : FatM (Option ℕ) := do
  match ← getFatBufferFromCache (cluster / 0x400) with
  | none => pure none
  | some desc => pure (some (desc.buffer.word (4 * (cluster % 0x400))))

/-- `_set_fat_entry`: `true` stands for the return code 1. -/
def setFatEntry (cluster value : ℕ) : FatM Bool := do
  match ← getFatBufferFromCache (cluster / 0x400) with
  | none => pure true
  | some _ => do
    modifyDesc none (cluster / 0x400) fun desc =>
      { desc with buffer := desc.buffer.setWord (4 * (cluster % 0x400)) value, dirty := true }
    pure false

/-- Follow `count` links of a chain. -/
def followChain : ℕ → ℕ → FatM (Option ℕ)
  | 0, current => pure (some current)
  | count + 1, current => do
    match ← getFatEntry current with
    | none => pure none
    | some next => followChain count next

/-- The lba of a cluster of a file, found from its chain. -/
def findFileLba (p : Ptr) (clusterId : ℕ) : FatM (Option ℕ) := do
  let inode ← getInode p
  match ← followChain clusterId inode.cluster with
  | none => pure none
  | some current => do
    let lba ← clusterToLba current
    pure (some lba)

/-- `_get_buffer_from_cache`: `none` stands for the return code 1. -/
def getBufferFromCache (owner : Option Ptr) (clusterId : ℕ) : FatM (Option Desc) :=
  match owner with
  | none => getFatBufferFromCache clusterId
  | some p => do
    growCache p clusterId
    loadBuffer (some p) clusterId (findFileLba p clusterId)

/-- `_allocate_one_buffer`: the new buffer is not loaded. -/
def allocateOneBuffer (p : Ptr) (clusterId cluster : ℕ) : FatM Unit := do
  growCache p clusterId
  match ← openCache (some p) clusterId with
  | .leaf _ => throw .slotNotEmpty
  | .node _ _ => throw .undefined
  | .null => do
    let pdesc ← malloc
    let lba ← clusterToLba cluster
    let buf ← malloc
    let s ← get
    modifyCache (some p) fun level root => RadixTree.attach level root clusterId
      { address := pdesc, bufferAddress := buf, lba := lba, dirty := true,
        buffer := s.garbage buf }

/-- Write a dirty cluster to its place on the device. -/
def writeBack (desc : Desc) (device : Device) : Desc × Bool × Device :=
  if desc.dirty then
    let (failed, device) := device.write desc.lba desc.buffer
    ({ desc with dirty := failed }, failed, device)
  else (desc, false, device)

/-- `_update_device_from_cache`: `true` stands for the return code 1. -/
def updateDeviceFromCache (owner : Option Ptr) : FatM Bool := do
  let (levels, root) ← getCache owner
  let s ← get
  match levels, root with
  | _ + 1, .node _ _ =>
    match RadixTree.walk writeBack levels root s.device with
    | none => throw .undefined
    | some (root, failed, device) => do
      set { s with device := device }
      modifyCache owner fun _ _ => root
      pure failed
  | _, _ => throw .undefined

/-- The cells released for one child of a last-level node. A child that is in fact a node
is read as a descriptor, whose buffer pointer is then the third child of the node. -/
def releaseDesc : CacheTree → Except FatError (List Ptr)
  | .null => pure []
  | .leaf desc => pure [desc.bufferAddress, desc.address]
  | .node address children =>
    match children 2 with
    | .null => throw .illegalPointer
    | .leaf desc => pure [desc.address, address]
    | .node below _ => pure [below, address]

/-- Release the children of a node in order. -/
def releaseChildren (release : CacheTree → Except FatError (List Ptr))
    (children : Fin 64 → CacheTree) : List (Fin 64) → Except FatError (List Ptr)
  | [] => pure []
  | i :: rest => do
    let cells ← release (children i)
    let others ← releaseChildren release children rest
    pure (cells ++ others)

/-- The cells that `_release_cache_memory` releases below a node. -/
def releaseNode : ℕ → CacheTree → Except FatError (List Ptr)
  | 1, .node _ children => releaseChildren releaseDesc children (List.finRange 64)
  | n + 2, .node _ children =>
    releaseChildren
      (fun
        | .null => pure []
        | .leaf _ => throw .undefined
        | .node address below => do
          let cells ← releaseNode (n + 1) (.node address below)
          pure (cells ++ [address]))
      children (List.finRange 64)
  | 0, _ => throw .undefined
  | _ + 1, .null => throw .undefined
  | _ + 1, .leaf _ => throw .undefined

/-- `_release_cache_memory` of the File-Cache of an inode: the root stays allocated. -/
def releaseCacheMemory (p : Ptr) : FatM Unit := do
  let inode ← getInode p
  match inode.cache, releaseNode inode.levels inode.cache with
  | .node address _, .ok cells => do
    modify fun s => { s with freed := cells.reverse ++ s.freed }
    modifyInode p fun inode => { inode with cache := RadixTree.emptyNode address }
  | _, .error e => throw e
  | _, _ => throw .undefined

/-- Write the words of FS_INFO that hold the counters. -/
def fsInfoBlock (block : Bytes 512) (freeClusters firstFree : ℕ) : Bytes 512 :=
  (block.setWord 488 freeClusters).setWord 492 firstFree

/-- `_update_fs_info`: `true` stands for the return code 1. -/
def updateFsInfo : FatM Bool := do
  let s ← get
  let loaded ← if s.fsInfoLba ≠ s.blockBufferLba then do
      match ← iocRead 512 s.fsInfoLba with
      | none => pure false
      | some block => do
        modify fun s => { s with blockBuffer := block, blockBufferLba := s.fsInfoLba }
        pure true
    else pure true
  if loaded then do
    modify fun s => { s with
      blockBuffer := fsInfoBlock s.blockBuffer s.freeClustersNumber s.firstFreeCluster }
    let s ← get
    iocWrite s.fsInfoLba s.blockBuffer
  else pure true

end GietVm.Fat
