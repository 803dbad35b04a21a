import GietVm.Fat.Cache

/-!
# Allocation and release of clusters

The free clusters are counted in `free_clusters_number`, and `first_free_cluster` is the
cluster that the next allocation takes: it searches the following free cluster first, so
that the hint can move on. The loops over a chain have no bound of their own.
-/

namespace GietVm.Fat

open GietVm.Library

/-- The search of `_allocate_one_cluster` for the free cluster that follows `current`, up to
`max`. Returns the last cluster read and whether it is free; `none` stands for an access
that failed. `fuel` is the number of clusters between the first one read and `max`. -/
def findNextFree (max fuel current : ℕ) : FatM (Option (ℕ × Bool)) := do
  let current := u32 (current + 1)
  match ← getFatEntry current with
  | none => pure none
  | some value =>
    if value = freeCluster then pure (some (current, true))
    else match fuel with
      | 0 => pure (some (current, false))
      | fuel + 1 =>
        if current < max then findNextFree max fuel current else pure (some (current, false))

/-- `_allocate_one_cluster`: `none` stands for the return code 1. -/
def allocateOneCluster : FatM (Option ℕ) := do
  let s ← get
  let nbFree := s.freeClustersNumber
  let free := s.firstFreeCluster
  let max := s.dataSectors / 8
  match ← findNextFree max (max - u32 (free + 1)) free with
  | some (current, true) =>
    if ← setFatEntry free endOfChainClusterMax then pure none
    else do
      modify fun s => { s with
        freeClustersNumber := u32 (nbFree + 0xFFFFFFFF), firstFreeCluster := current }
      pure (some free)
  | _ => pure none

/-- The search of `_clusters_allocate` for the last cluster of a chain. -/
def findLast : ℕ → ℕ → Option ℕ → FatM (Option (Option ℕ))
  | 0, _, _ => throw .endless
  | fuel + 1, current, last =>
    if current < endOfChainClusterMin then do
      match ← getFatEntry current with
      | none => pure none
      | some next => findLast fuel next (some current)
    else pure (some last)

/-- Write the slot of the last cluster, a variable that the code may leave uninitialised. -/
def setLast (last : Option ℕ) (value : ℕ) : FatM Bool :=
  match last with
  | none => throw .undefined
  | some last => setFatEntry last value

/-- The loop of `_clusters_allocate` on the new clusters. -/
def allocateClusters (p : Ptr) : ℕ → ℕ → Option ℕ → FatM (Option (Option ℕ))
  | 0, _, last => pure (some last)
  | more + 1, clusterId, last => do
    match ← allocateOneCluster with
    | none => pure none
    | some new => do
      allocateOneBuffer p clusterId new
      let failed ← if clusterId = 0 then do
          modifyInode p fun inode => { inode with cluster := new }
          pure false
        else setLast last new
      if failed then pure none else allocateClusters p more (clusterId + 1) (some new)

/-- `_clusters_allocate`: `true` stands for the return code 1. -/
def clustersAllocate (fuel : ℕ) (p : Ptr) (nbCurrent nbRequired : ℕ) : FatM Bool := do
  let s ← get
  if nbRequired > s.freeClustersNumber then pure true
  else do
    let inode ← getInode p
    match ← if nbCurrent ≠ 0 then findLast fuel inode.cluster none else pure (some none) with
    | none => pure true
    | some last => do
      match ← allocateClusters p nbRequired nbCurrent last with
      | none => pure true
      | some last =>
        if ← setLast last endOfChainClusterMax then pure true
        else updateDeviceFromCache none

/-- The loop of `_clusters_release`. It reads and frees a slot before it looks for the end
of the chain. -/
def releaseClusters : ℕ → ℕ → FatM Bool
  | 0, _ => throw .endless
  | fuel + 1, current => do
    match ← getFatEntry current with
    | none => pure true
    | some next =>
      if ← setFatEntry current freeCluster then pure true
      else do
        modify fun s => { s with
          freeClustersNumber := u32 (s.freeClustersNumber + 1)
          firstFreeCluster := if s.firstFreeCluster > current then current
            else s.firstFreeCluster }
        if next < endOfChainClusterMin then releaseClusters fuel next else pure false

/-- `_clusters_release`: `true` stands for the return code 1. -/
def clustersRelease (fuel cluster : ℕ) : FatM Bool := do
  if ← releaseClusters fuel cluster then pure true else updateDeviceFromCache none

end GietVm.Fat
