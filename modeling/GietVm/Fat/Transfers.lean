import GietVm.Fat.Files

/-!
# The clusters and the bytes of a transfer

`_fat_read` and `_fat_write` run the same loop over the clusters that they cover. The loop is
given here once, with the action on a cluster as a parameter, and it records the indices that
it asks from the File-Cache and the bytes that it moves, which it counts without
wrap-around. The functions of this file with a trace are those of the code when the trace is
forgotten.

The last cluster is computed from `seek + count - 1` on 32 bits. For the values that reach
`2 ^ 32`, and for the empty transfer at the beginning of a file, the loop does not cover what
was asked.
-/

namespace GietVm.Fat

open GietVm.Library

/-! ## The loop with its trace -/

/-- The indices asked from a File-Cache, in order, and the number of bytes moved. -/
structure Trace where
  requests : List ℕ
  moved : ℕ

/-- The loop of a transfer, with the action on a cluster that is loaded. -/
def moveClusters (p : Ptr) (t : Transfer) (move : Desc → ℕ → ℕ → FatM Unit) :
    ℕ → ℕ → ℕ → FatM (Trace × Option ℕ)
  | 0, _, done => pure (⟨[], 0⟩, some done)
  | more + 1, clusterId, done => do
    match ← getBufferFromCache (some p) clusterId with
    | none => pure (⟨[clusterId], 0⟩, none)
    | some pdesc => do
      move pdesc clusterId done
      let (trace, result) ←
        moveClusters p t move more (clusterId + 1) (u32 (done + (t.range clusterId).2))
      pure (⟨clusterId :: trace.requests, (t.range clusterId).2 + trace.moved⟩, result)

/-- The move of `_fat_read`. -/
def readMove (copy : Memcpy) (t : Transfer) (buffer : ℕ) (pdesc : Desc) (clusterId done : ℕ) :
    FatM Unit :=
  modify fun s => { s with
    memory := overlay s.memory (buffer + done)
      (copy (buffer + done) (t.range clusterId).1 (t.range clusterId).2
        (pointer pdesc.buffer (t.range clusterId).1) fun i => s.memory (buffer + done + i)) }

/-- The move of `_fat_write`. -/
def writeMove (copy : Memcpy) (p : Ptr) (t : Transfer) (buffer : ℕ) (_ : Desc)
    (clusterId done : ℕ) : FatM Unit := do
  let s ← get
  modifyDesc (some p) clusterId fun desc => { desc with
    dirty := true
    buffer := fun j => overlay desc.buffer.get (t.range clusterId).1
      (copy (t.range clusterId).1 (buffer + done) (t.range clusterId).2
        (fun i => s.memory (buffer + done + i)) (pointer desc.buffer (t.range clusterId).1)) j.val }

/-- What a call returns and what it has done: `failed` tells a code of error from a number. -/
structure Outcome where
  trace : Trace
  failed : Bool
  code : ℤ

/-- A call that returns before its transfer. -/
abbrev Outcome.early (requests : List ℕ) (failed : Bool) (code : ℤ) : Outcome :=
  ⟨⟨requests, 0⟩, failed, code⟩

/-- The end of `_fat_read` and `_fat_write`, after a growth that has reached some indices. -/
def transferClusters (fdId : ℕ) (p : Ptr) (t : Transfer) (move : Desc → ℕ → ℕ → FatM Unit)
    (grown : List ℕ) : FatM Outcome := do
  let (trace, result) ← moveClusters p t move (t.lastClusterId + 1 - t.firstClusterId)
    t.firstClusterId 0
  match result with
  | none => pure ⟨⟨grown ++ trace.requests, trace.moved⟩, true, fat32IoError⟩
  | some done => do
    modify fun s => { s with
      fd := Function.update s.fd fdId { s.fd fdId with seek := u32 ((s.fd fdId).seek + done) } }
    pure ⟨⟨grown ++ trace.requests, trace.moved⟩, false, int32 done⟩

/-- `fatRead` with its trace. -/
def fatReadTraced (copy : Memcpy) (fdId buffer count : ℕ) : FatM Outcome := do
  let s ← get
  if !s.initialized then pure (.early [] true fat32NotInitialized)
  else if fdId ≥ openFilesMax then pure (.early [] true fat32InvalidFd)
  else if !(s.fd fdId).allocated then pure (.early [] true fat32NotOpen)
  else do
    let p := (s.fd fdId).inode
    let seek := (s.fd fdId).seek
    let inode ← getInode p
    if u32 (count + seek) > inode.size ∧ ¬ inode.isDir then pure (.early [] false 0)
    else
      transferClusters fdId p (transfer seek count) (readMove copy (transfer seek count) buffer) []

/-- `allocateClusters` with the indices that it gives a buffer to. -/
def allocateClustersTraced (p : Ptr) : ℕ → ℕ → Option ℕ → FatM (List ℕ × Option (Option ℕ))
  | 0, _, last => pure ([], some last)
  | more + 1, clusterId, last => do
    match ← allocateOneCluster with
    | none => pure ([], none)
    | some new => do
      allocateOneBuffer p clusterId new
      let failed ← if clusterId = 0 then do
          modifyInode p fun inode => { inode with cluster := new }
          pure false
        else setLast last new
      if failed then pure ([clusterId], none)
      else do
        let (ids, result) ← allocateClustersTraced p more (clusterId + 1) (some new)
        pure (clusterId :: ids, result)

/-- `clustersAllocate` with the indices that it gives a buffer to. -/
def clustersAllocateTraced (fuel : ℕ) (p : Ptr) (nbCurrent nbRequired : ℕ) :
    FatM (List ℕ × Bool) := do
  let s ← get
  if nbRequired > s.freeClustersNumber then pure ([], true)
  else do
    let inode ← getInode p
    match ← if nbCurrent ≠ 0 then findLast fuel inode.cluster none else pure (some none) with
    | none => pure ([], true)
    | some last => do
      let (ids, result) ← allocateClustersTraced p nbRequired nbCurrent last
      match result with
      | none => pure (ids, true)
      | some last =>
        if ← setLast last endOfChainClusterMax then pure (ids, true)
        else do
          let failed ← updateDeviceFromCache none
          pure (ids, failed)

/-- `growFile` with the indices that it gives a buffer to. -/
def growFileTraced (fuel : ℕ) (p : Ptr) (oldSize newSize : ℕ) : FatM (List ℕ × Option ℤ) := do
  modifyInode p fun inode => { inode with size := newSize }
  let oldClusters := clustersOfSize oldSize
  let newClusters := clustersOfSize newSize
  let (ids, full) ← if newClusters > oldClusters then
      clustersAllocateTraced fuel p oldClusters (newClusters - oldClusters)
    else pure ([], false)
  if full then pure (ids, some fat32NoFreeSpace)
  else if ← updateDirEntry p then pure (ids, some fat32IoError)
  else pure (ids, none)

/-- What `_fat_write` does after a growth that may have failed. -/
def finishWriteTraced (fdId : ℕ) (p : Ptr) (t : Transfer) (move : Desc → ℕ → ℕ → FatM Unit) :
    List ℕ × Option ℤ → FatM Outcome
  | (ids, some code) => pure (.early ids true code)
  | (ids, none) => transferClusters fdId p t move ids

/-- `fatWrite` with its trace. -/
def fatWriteTraced (fuel : ℕ) (copy : Memcpy) (fdId buffer count : ℕ) : FatM Outcome := do
  let s ← get
  if !s.initialized then pure (.early [] true fat32NotInitialized)
  else if fdId ≥ openFilesMax then pure (.early [] true fat32InvalidFd)
  else if !(s.fd fdId).allocated then pure (.early [] true fat32NotOpen)
  else if (s.fd fdId).readOnly then pure (.early [] true fat32ReadOnly)
  else do
    let p := (s.fd fdId).inode
    let seek := (s.fd fdId).seek
    let inode ← getInode p
    let newSize := u32 (seek + count)
    let grown ← if newSize > inode.size then growFileTraced fuel p inode.size newSize
      else pure ([], none)
    finishWriteTraced fdId p (transfer seek count) (writeMove copy p (transfer seek count) buffer)
      grown

/-! ## The code without the trace -/

section Erasure

variable (copy : Memcpy) (p : Ptr) (t : Transfer) (buffer : ℕ)

theorem moveClusters_read (more clusterId done : ℕ) :
    (moveClusters p t (readMove copy t buffer) more clusterId done >>= fun r => pure r.2) =
      readClusters copy p t buffer more clusterId done := by
  induction more generalizing clusterId done with
  | zero => rfl
  | succ more ih =>
    rw [moveClusters, readClusters, bind_assoc]
    refine bind_congr fun b => ?_
    cases b with
    | none => rfl
    | some pdesc =>
      change (readMove copy t buffer pdesc clusterId done >>= _) >>= _ = readMove _ _ _ _ _ _ >>= _
      rw [bind_assoc]
      refine bind_congr fun _ => ?_
      rw [bind_assoc, ← ih]
      rfl

theorem moveClusters_write (more clusterId done : ℕ) :
    (moveClusters p t (writeMove copy p t buffer) more clusterId done >>= fun r => pure r.2) =
      writeClusters copy p t buffer more clusterId done := by
  induction more generalizing clusterId done with
  | zero => rfl
  | succ more ih =>
    rw [moveClusters, writeClusters, bind_assoc]
    refine bind_congr fun b => ?_
    cases b with
    | none => rfl
    | some pdesc =>
      change (writeMove copy p t buffer pdesc clusterId done >>= _) >>= _ = _
      rw [writeMove, bind_assoc, bind_assoc]
      refine bind_congr fun s => ?_
      refine bind_congr fun _ => ?_
      rw [bind_assoc, ← ih]
      rfl

/-- The end of a call without its trace. -/
def finishTransfer (fdId : ℕ) (loop : FatM (Option ℕ)) : FatM ℤ := do
  match ← loop with
  | none => pure fat32IoError
  | some done => do
    modify fun s => { s with
      fd := Function.update s.fd fdId { s.fd fdId with seek := u32 ((s.fd fdId).seek + done) } }
    pure (int32 done)

theorem transferClusters_code (fdId : ℕ) (move : Desc → ℕ → ℕ → FatM Unit) (grown : List ℕ) :
    (transferClusters fdId p t move grown >>= fun o => pure o.code) =
      finishTransfer fdId (moveClusters p t move (t.lastClusterId + 1 - t.firstClusterId)
        t.firstClusterId 0 >>= fun r => pure r.2) := by
  rw [transferClusters, finishTransfer, bind_assoc, bind_assoc]
  refine bind_congr fun r => ?_
  obtain ⟨trace, result⟩ := r
  cases result with
  | none => rfl
  | some done => rfl

/-- Without its trace, the function is that of the code. -/
theorem fatReadTraced_code (fdId count : ℕ) :
    (fatReadTraced copy fdId buffer count >>= fun o => pure o.code) =
      fatRead copy fdId buffer count := by
  rw [fatReadTraced, fatRead, bind_assoc]
  refine bind_congr fun s => ?_
  split
  · rfl
  · split
    · rfl
    · split
      · rfl
      · rw [bind_assoc]
        refine bind_congr fun inode => ?_
        split
        · rfl
        · rw [transferClusters_code, moveClusters_read]
          rfl

theorem allocateClustersTraced_result (more clusterId : ℕ) (last : Option ℕ) :
    (allocateClustersTraced p more clusterId last >>= fun r => pure r.2) =
      allocateClusters p more clusterId last := by
  induction more generalizing clusterId last with
  | zero => rfl
  | succ more ih =>
    rw [allocateClustersTraced, allocateClusters, bind_assoc]
    refine bind_congr fun b => ?_
    cases b with
    | none => rfl
    | some new =>
      change (allocateOneBuffer p clusterId new >>= _) >>= _ = _
      rw [bind_assoc]
      refine bind_congr fun _ => ?_
      rw [← ih]
      have hrest : ∀ failed : Bool,
          ((if failed then pure ([clusterId], none) else do
            let (ids, result) ← allocateClustersTraced p more (clusterId + 1) (some new)
            pure (clusterId :: ids, result) : FatM (List ℕ × Option (Option ℕ))) >>=
              fun r => pure r.2) =
          if failed then pure none
          else allocateClustersTraced p more (clusterId + 1) (some new) >>= fun r => pure r.2 := by
        intro failed
        cases failed with
        | true => rfl
        | false =>
          simp only [Bool.false_eq_true, if_false, bind_assoc, pure_bind]
      by_cases hzero : clusterId = 0
      · simp only [hzero, if_true, bind_assoc, pure_bind] at hrest ⊢
        exact bind_congr fun _ => hrest false
      · simp only [hzero, if_false, bind_assoc]
        exact bind_congr fun failed => hrest failed

theorem clustersAllocateTraced_result (fuel nbCurrent nbRequired : ℕ) :
    (clustersAllocateTraced fuel p nbCurrent nbRequired >>= fun r => pure r.2) =
      clustersAllocate fuel p nbCurrent nbRequired := by
  rw [clustersAllocateTraced, clustersAllocate, bind_assoc]
  refine bind_congr fun s => ?_
  split
  · rfl
  · rw [bind_assoc]
    refine bind_congr fun inode => ?_
    have hrest : ∀ last : Option (Option ℕ),
        ((match last with
          | none => pure ([], true)
          | some last => do
            let (ids, result) ← allocateClustersTraced p nbRequired nbCurrent last
            match result with
            | none => pure (ids, true)
            | some last =>
              if ← setLast last endOfChainClusterMax then pure (ids, true)
              else do
                let failed ← updateDeviceFromCache none
                pure (ids, failed) : FatM (List ℕ × Bool)) >>= fun r => pure r.2) =
        (match last with
        | none => pure true
        | some last => do
          match ← allocateClusters p nbRequired nbCurrent last with
          | none => pure true
          | some last =>
            if ← setLast last endOfChainClusterMax then pure true
            else updateDeviceFromCache none : FatM Bool) := by
      intro last
      cases last with
      | none => rfl
      | some last =>
        simp only [← allocateClustersTraced_result, bind_assoc, pure_bind]
        refine bind_congr fun r => ?_
        obtain ⟨ids, result⟩ := r
        cases result with
        | none => rfl
        | some last =>
          change (setLast last endOfChainClusterMax >>= _) >>= _ = _
          rw [bind_assoc]
          refine bind_congr fun failed => ?_
          cases failed with
          | true => rfl
          | false => exact (bind_assoc _ _ _).trans (bind_pure _)
    by_cases hzero : nbCurrent ≠ 0
    · rw [if_pos hzero, if_pos hzero, bind_assoc]
      exact bind_congr hrest
    · rw [if_neg hzero, if_neg hzero]
      exact hrest (some none)

theorem growFileTraced_result (fuel oldSize newSize : ℕ) :
    (growFileTraced fuel p oldSize newSize >>= fun r => pure r.2) =
      growFile fuel p oldSize newSize := by
  rw [growFileTraced, growFile, bind_assoc]
  refine bind_congr fun _ => ?_
  have hrest : ∀ full : List ℕ × Bool,
      ((if full.2 then pure (full.1, some fat32NoFreeSpace)
        else do
          if ← updateDirEntry p then pure (full.1, some fat32IoError)
          else pure (full.1, none) : FatM (List ℕ × Option ℤ)) >>= fun r => pure r.2) =
      (if full.2 then pure (some fat32NoFreeSpace)
      else do
        if ← updateDirEntry p then pure (some fat32IoError)
        else pure none : FatM (Option ℤ)) := by
    intro full
    obtain ⟨ids, full⟩ := full
    cases full with
    | true => rfl
    | false =>
      change (updateDirEntry p >>= _) >>= _ = updateDirEntry p >>= _
      rw [bind_assoc]
      refine bind_congr fun failed => ?_
      cases failed with
      | true => rfl
      | false => rfl
  by_cases hmore : clustersOfSize newSize > clustersOfSize oldSize
  · simp only [if_pos hmore, ← clustersAllocateTraced_result, bind_assoc, pure_bind]
    exact bind_congr hrest
  · simp only [if_neg hmore]
    exact hrest ([], false)

theorem finishWriteTraced_code (fdId : ℕ) (r : List ℕ × Option ℤ) :
    (finishWriteTraced fdId p t (writeMove copy p t buffer) r >>= fun o => pure o.code) =
      match r.2 with
      | some code => pure code
      | none => finishTransfer fdId (writeClusters copy p t buffer
          (t.lastClusterId + 1 - t.firstClusterId) t.firstClusterId 0) := by
  obtain ⟨ids, failure⟩ := r
  cases failure with
  | some code => rfl
  | none =>
    change transferClusters _ _ _ _ _ >>= _ = finishTransfer _ _
    rw [transferClusters_code, moveClusters_write]

/-- Without its trace, the function is that of the code. -/
theorem fatWriteTraced_code (fuel fdId count : ℕ) :
    (fatWriteTraced fuel copy fdId buffer count >>= fun o => pure o.code) =
      fatWrite fuel copy fdId buffer count := by
  rw [fatWriteTraced, fatWrite, bind_assoc]
  refine bind_congr fun s => ?_
  split
  · rfl
  · split
    · rfl
    · split
      · rfl
      · split
        · rfl
        · rw [bind_assoc]
          refine bind_congr fun inode => ?_
          by_cases hgrow : u32 ((s.fd fdId).seek + count) > inode.size
          · simp only [if_pos hgrow, ← growFileTraced_result, bind_assoc, pure_bind,
              finishWriteTraced_code]
            rfl
          · simp only [if_neg hgrow, pure_bind, finishWriteTraced_code]
            rfl

end Erasure

end GietVm.Fat
