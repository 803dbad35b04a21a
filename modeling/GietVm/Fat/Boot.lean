import GietVm.Fat.Files

/-!
# The boot loader

The boot loader has no caches. It loads one cluster of the FAT region and one of the DATA
region into two static buffers, `_fat_buffer_fat` and `_fat_buffer_data`, and remembers
which clusters they hold.
-/

namespace GietVm.Fat

open GietVm.Library

/-- `_next_cluster_no_cache`: `none` stands for the return code 1. -/
def nextClusterNoCache (cluster : ℕ) : FatM (Option ℕ) := do
  let s ← get
  let lba := u32 (s.fatLba + cluster / 0x400 * 8)
  if s.bufferFatLba ≠ lba then do
    match ← iocRead 4096 lba with
    | none => pure none
    | some content => do
      modify fun s => { s with bufferFat := content, bufferFatLba := lba }
      pure (some (content.word (4 * (cluster % 0x400))))
  else pure (some (s.bufferFat.word (4 * (cluster % 0x400))))

/-- Load a cluster of a directory into `_fat_buffer_data`: `none` stands for an error. -/
def loadDataNoCache (cluster : ℕ) : FatM (Option Block) := do
  let lba ← clusterToLba cluster
  let s ← get
  if s.bufferDataLba ≠ lba then do
    match ← iocRead 4096 lba with
    | none => pure none
    | some content => do
      modify fun s => { s with bufferData := content, bufferDataLba := lba }
      pure (some content)
  else pure (some s.bufferData)

/-- How the search of a directory ends. -/
inductive NoCacheSearch
  | found (info : EntryInfo) (scan : LfnScan)
  | notFound
  | ioError

/-- The scan of a directory for a name, from one of its clusters on. The next cluster is
looked up before the result of the scan is used. -/
def searchNoCache (name : List UInt8) : ℕ → ℕ → LfnScan → FatM NoCacheSearch
  | 0, _, _ => throw .endless
  | fuel + 1, cluster, scan => do
    match ← loadDataNoCache cluster with
    | none => pure .ioError
    | some buffer =>
      match scanEntries name buffer 128 0 scan with
      | .undefined => throw .undefined
      | result => do
        match ← nextClusterNoCache cluster with
        | none => pure .ioError
        | some next =>
          match result with
          | .next scan => searchNoCache name fuel next scan
          | .found _ info scan => pure (.found info scan)
          | _ => pure .notFound

/-- The loop of `_file_info_no_cache` on the names of a path, which reads at least one
character in each turn. The variables of the scanner are declared once for all the
directories. -/
def resolveNoCache (fuel : ℕ) (pathname : List UInt8) :
    ℕ → ℕ → ℕ → ℕ × ℕ → LfnScan → FatM (Option (ℕ × ℕ))
  | 0, _, _, _, _ => throw .endless
  | turns + 1, nbRead, parentCluster, child, scan =>
    if charAt pathname nbRead = 0 then pure (some child)
    else
      match getNameFromPath pathname nbRead with
      | none => pure none
      | some (name, nbRead) => do
        match ← searchNoCache name fuel parentCluster scan with
        | .ioError => pure none
        | .notFound => pure none
        | .found info scan =>
          if (charAt pathname nbRead = 0 ∧ info.isDir) ∨
              (charAt pathname nbRead ≠ 0 ∧ ¬ info.isDir) then pure none
          else
            resolveNoCache fuel pathname turns nbRead info.cluster (info.cluster, info.size) scan

/-- `_file_info_no_cache`: the first cluster and the size of a file, `none` when it returns
1. -/
def fileInfoNoCache (fuel : ℕ) (pathname : List UInt8) : FatM (Option (ℕ × ℕ)) :=
  resolveNoCache fuel pathname (pathname.length + 1) 0 2 (0, 0) {}

/-- `GIET_FAT32_BUFFER_TOO_SMALL` -/
abbrev fat32BufferTooSmall : ℤ := -19

/-- The loop of `_fat_load_no_cache` on the clusters of a file. The next cluster is looked up
after each one, the last one included. -/
def loadClusters : ℕ → ℕ → ℕ → FatM ℤ
  | 0, _, _ => pure fat32Ok
  | nbClusters + 1, cluster, dst => do
    let lba ← clusterToLba cluster
    match ← iocRead 4096 lba with
    | none => pure fat32IoError
    | some content => do
      modify fun s => { s with
        memory := fun a => if dst ≤ a ∧ a < dst + 4096 then content.get (a - dst) else s.memory a }
      match ← nextClusterNoCache cluster with
      | none => pure fat32IoError
      | some next => loadClusters nbClusters next (dst + 4096)

/-- `_fat_load_no_cache` -/
def fatLoadNoCache (fuel : ℕ) (pathname : List UInt8) (bufferVbase bufferSize : ℕ) : FatM ℤ := do
  let s ← get
  if !s.initialized then pure fat32NotInitialized
  else do
    match ← fileInfoNoCache fuel pathname with
    | none => pure fat32FileNotFound
    | some (cluster, fileSize) =>
      if fileSize > bufferSize then pure fat32BufferTooSmall
      else loadClusters (clustersOfSize fileSize) cluster bufferVbase

end GietVm.Fat
