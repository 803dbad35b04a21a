import GietVm.Fat.AddedEntry
import GietVm.Fat.Listing

/-!
# Reading a directory entry by entry

A call of `_fat_readdir` reads entries through `_fat_read`, 32 bytes at a time, and leaves the seek
of the descriptor after the NORMAL entry that it returns, or on `NO_MORE_ENTRY`. The next call
starts with its LFN variables afresh: nothing is lost, since no run of LFN entries is under way
there. So the calls return the listing in order.
-/

namespace GietVm.Fat

open GietVm.Library

/-! ## The descriptor of a directory -/

/-- A state that differs in the descriptors and in the memory of the caller only. -/
def FatState.withIo (s : FatState) (fd : ℕ → FileDesc) (memory : ℕ → UInt8) : FatState :=
  { s with fd := fd, memory := memory }

section WithIo

variable (s : FatState) (fd : ℕ → FileDesc) (memory : ℕ → UInt8)

theorem withIo_sameFile (p : Ptr) : SameFile s (s.withIo fd memory) p := ⟨rfl, rfl, rfl, rfl, rfl⟩

theorem withIo_entries (p : Ptr) : (s.withIo fd memory).entries p = s.entries p :=
  (withIo_sameFile s fd memory p).entries

variable {s fd memory}

theorem withIo_dirReady {p : Ptr} {n : ℕ} (hd : s.DirReady p n) :
    (s.withIo fd memory).DirReady p n :=
  (withIo_sameFile s fd memory p).dirReady hd

end WithIo

/-- The descriptor is open on a directory whose first `n` clusters can be loaded. -/
structure FatState.OpenDir (s : FatState) (fdId : ℕ) (p : Ptr) (n : ℕ) : Prop where
  initialized : s.initialized = true
  bound : fdId < openFilesMax
  allocated : (s.fd fdId).allocated = true
  inode : (s.fd fdId).inode = p
  isDir : ∃ inode, s.inodes p = some inode ∧ inode.isDir = true
  ready : s.DirReady p n

section OpenDir

variable {s : FatState} {fdId : ℕ} {p : Ptr} {n i : ℕ}

/-- Caching clusters leaves the descriptor open. -/
theorem FatState.OpenDir.cached {s' : FatState} (h : s.OpenDir fdId p n) (hc : Cached s s') :
    s'.OpenDir fdId p n ∧ s'.fd fdId = s.fd fdId := by
  obtain ⟨inode, hp, hdir⟩ := h.isDir
  obtain ⟨inode', hp', hcore⟩ := bare_inode hc.bare hp
  have hfd : s'.fd = s.fd := by
    have := congrArg FatState.fd hc.bare
    exact this
  have hinit : s'.initialized = s.initialized := by
    have := congrArg FatState.initialized hc.bare
    exact this
  have hdir' : inode'.isDir = inode.isDir := by
    have := congrArg Inode.isDir hcore
    exact this
  refine ⟨⟨hinit.trans h.initialized, h.bound, ?_, ?_, ⟨inode', hp', hdir'.trans hdir⟩,
    hc.similar.dirReady h.ready⟩, by rw [hfd]⟩
  · rw [hfd]
    exact h.allocated
  · rw [hfd]
    exact h.inode

/-- Moving the seek leaves the descriptor open. -/
theorem FatState.OpenDir.seek (h : s.OpenDir fdId p n) (seek : ℕ) (memory : ℕ → UInt8) :
    (s.withIo (Function.update s.fd fdId { s.fd fdId with seek := seek }) memory).OpenDir fdId p n := by
  refine ⟨h.initialized, h.bound, ?_, ?_, h.isDir, withIo_dirReady h.ready⟩
  · change (Function.update s.fd fdId _ fdId).allocated = true
    rw [Function.update_self]
    exact h.allocated
  · change (Function.update s.fd fdId _ fdId).inode = p
    rw [Function.update_self]
    exact h.inode

/-- The transfer of an entry. -/
theorem transfer_entry (hi : 32 * i < 0x100000000) :
    transfer (32 * i) 32 = ⟨i / 128, i % 128 * 32, i / 128, i % 128 * 32 + 31⟩ := by
  have hlast : u32 (32 * i + 32 + 0xFFFFFFFF) = 32 * i + 31 := by
    rw [u32]
    omega
  rw [transfer, hlast, Transfer.mk.injEq]
  omega

/-- `_fat_read` reads one entry. -/
theorem FatState.OpenDir.read (h : s.OpenDir fdId p n) (hseek : (s.fd fdId).seek = 32 * i)
    (hi : i < 128 * n) (hoffset : 32 * i < 0x100000000) (buf : ℕ) :
    ∃ s', fatRead memcpy fdId buf 32 s = .ok 32 s' ∧ s'.OpenDir fdId p n ∧
      s'.entries p = s.entries p ∧ (s'.fd fdId).seek = u32 (32 * i + 32) ∧
      SameEntry (fun b => s'.memory (buf + b)) (s.entries p i) := by
  obtain ⟨inode, hp, hdir⟩ := h.isDir
  obtain ⟨desc, s₁, hload, hbuffer, -, hc, -⟩ := h.ready.load (show i / 128 < n by omega)
  obtain ⟨hopen, hfd⟩ := h.cached hc
  set memory := overlay s₁.memory buf (memcpy buf (i % 128 * 32) 32
    (pointer desc.buffer (i % 128 * 32)) fun b => s₁.memory (buf + b)) with hmemory
  set fd := Function.update s₁.fd fdId { s₁.fd fdId with seek := u32 ((s₁.fd fdId).seek + 32) }
    with hupdate
  refine ⟨s₁.withIo fd memory, ?_, hopen.seek _ _, ?_, ?_, ?_⟩
  · have hrange : (transfer (32 * i) 32).range (i / 128) = (i % 128 * 32, 32) := by
      rw [transfer_entry hoffset, Transfer.range, if_pos ⟨rfl, rfl⟩]
      have : u32 (i % 128 * 32 + 31 + 0x100000000 - i % 128 * 32 + 1) = 32 := by
        rw [u32]
        omega
      rw [this]
    have hmore : (transfer (32 * i) 32).lastClusterId + 1 - (transfer (32 * i) 32).firstClusterId =
        1 := by
      rw [transfer_entry hoffset]
      exact Nat.add_sub_cancel_left _ 1
    have hfirst : (transfer (32 * i) 32).firstClusterId = i / 128 := by
      rw [transfer_entry hoffset]
    have hmove : readClusters memcpy p (transfer (32 * i) 32) buf 1 (i / 128) 0 s =
        .ok (some 32) { s₁ with memory := memory } := by
      rw [readClusters, exits_bind_ok hload]
      simp only [hrange]
      rfl
    rw [fatRead, exits_bind_get]
    simp only [h.initialized, h.allocated, h.inode, hseek, Bool.not_true, Bool.false_eq_true,
      if_false, if_neg (Nat.not_le.mpr h.bound)]
    rw [exits_bind_ok (getInode_run hp), if_neg (by simp [hdir]), hmore, hfirst,
      exits_bind_ok hmove]
    change EStateM.Result.ok (int32 32) _ = _
    rfl
  · rw [withIo_entries, hc.entries]
  · change (fd fdId).seek = _
    rw [hupdate, Function.update_self, hfd, hseek]
  · intro b hb
    change memory (buf + b) = _
    rw [hmemory, overlay, if_pos (Nat.le_add_right _ _), memcpy_words _ _ (by decide),
      Nat.add_sub_cancel_left, if_pos hb, hbuffer]
    rfl

end OpenDir

/-! ## The calls -/

section Calls

variable {s : FatState} {fdId : ℕ} {p : Ptr} {n pos : ℕ}

theorem SameEntry.direntName {e e' : ℕ → UInt8} (h : SameEntry e e') (scan : LfnScan) :
    scan.direntName e = scan.direntName e' := by
  rw [LfnScan.direntName, LfnScan.direntName, h.getNameFromShort]

/-- The code or the entry that a call returns, when the NORMAL entries left are the given ones. -/
def readResult (entry : ℕ → ℕ → UInt8) : List ℕ → Except ℤ Dirent
  | [] => .error fat32NoMoreEntries
  | j :: _ => .ok (direntOf entry j)

/-- The entry on which a call leaves the seek. -/
def readPosition (pos : ℕ) : List ℕ → ℕ
  | [] => pos
  | j :: _ => j + 1

/-- The loop of `_fat_readdir` from entry `i` on, with the LFN entries before it in hand. -/
theorem FatState.OpenDir.readEntries (h : s.OpenDir fdId p n) (hwf : WellNamed (s.entries p) pos)
    (hpos : pos < 128 * n) (hoffset : 32 * pos < 0x100000000) {i m turns : ℕ} (hi : i + m = pos)
    (hturns : m < turns) (hseek : (s.fd fdId).seek = 32 * i) {scan : LfnScan} (hscan : scan.lfn = 0)
    (buf : ℕ) :
    ∃ s', Fat.readEntries memcpy fdId buf turns
        (runScan (s.entries p) (runLength (s.entries p) i) i scan) s =
          .ok (readResult (s.entries p) (normals (s.entries p) m i)) s' ∧
      s'.OpenDir fdId p n ∧ s'.entries p = s.entries p ∧
      (s'.fd fdId).seek = 32 * readPosition pos (normals (s.entries p) m i) := by
  induction turns generalizing s i m scan with
  | zero => omega
  | succ turns ih =>
    obtain ⟨s₁, hread, hopen, hentries, hseek₁, hsame⟩ :=
      h.read hseek (show i < 128 * n by omega) (by omega) buf
    have hord := hsame.readEntry (show 0 + 1 ≤ 32 by omega) false
    have hattr := hsame.readEntry (show 11 + 1 ≤ 32 by omega) false
    rw [Fat.readEntries, exits_bind_ok hread, if_neg (fun hne => hne rfl), exits_bind_get]
    simp only [hord, hattr]
    cases m with
    | zero =>
      obtain rfl : i = pos := by omega
      rw [if_pos hwf.stop]
      refine ⟨_, rfl, hopen.seek _ s₁.memory, ?_, ?_⟩
      · exact (withIo_entries s₁ _ s₁.memory p).trans hentries
      · change (Function.update s₁.fd fdId _ fdId).seek = 32 * i
        rw [Function.update_self]
        change u32 ((s₁.fd fdId).seek + (0x100000000 - 32)) = 32 * i
        rw [hseek₁, u32, u32]
        omega
    | succ m =>
      have hno := hwf.live i (by omega)
      have hnext : (s₁.fd fdId).seek = 32 * (i + 1) := by
        rw [hseek₁, u32]
        omega
      have hrest {scan : LfnScan} (hscan : scan.lfn = 0) := ih (s := s₁) (i := i + 1) (m := m)
        hopen (by rw [hentries]; exact hwf) (by omega) (by omega) hnext hscan
      rw [hentries] at hrest
      rw [if_neg hno]
      by_cases hfree : readEntry 0 1 (s.entries p i) false = freeEntry
      · have hrun := hwf.runLength_zero (i := i) (by omega) fun _ => hfree
        have hskip := runLength_next fun hlong : IsLong (s.entries p i) => hlong.2.1 hfree
        rw [if_pos hfree, normals_skip m fun hn => hn.2.1 hfree, hrun]
        have := hrest hscan
        rwa [hskip] at this
      · rw [if_neg hfree]
        by_cases hlong : readEntry 11 1 (s.entries p i) false = attrLongNameMask
        · rw [if_pos hlong, hsame.record, normals_skip m fun hn => hn.2.2 hlong,
            runScan_next ⟨hno, hfree, hlong⟩]
          exact hrest hscan
        · have hnormal : IsNormal (s.entries p i) := ⟨hno, hfree, hlong⟩
          rw [if_neg hlong, hsame.direntName, (hwf.names (by omega) hnormal hscan).2,
            normals_take m hnormal, hsame.entryInfo]
          exact ⟨s₁, rfl, hopen, hentries, hnext⟩

/-- `k` calls of `_fat_readdir`. -/
def readdirs (turns : ℕ) (copy : Memcpy) (fdId buf : ℕ) : ℕ → FatM (List (Except ℤ Dirent))
  | 0 => pure []
  | k + 1 => do
    let result ← fatReaddir turns copy fdId buf
    let others ← readdirs turns copy fdId buf k
    pure (result :: others)

/-- The answers to `k` calls on a listing: its entries in order, then the end of the directory. -/
def answers : List Dirent → ℕ → List (Except ℤ Dirent)
  | _, 0 => []
  | [], k + 1 => .error fat32NoMoreEntries :: answers [] k
  | d :: l, k + 1 => .ok d :: answers l k

/-- What is left after the first NORMAL entry. -/
theorem normals_tail {entry : ℕ → ℕ → UInt8} {m i j : ℕ} {rest : List ℕ}
    (h : normals entry m i = j :: rest) :
    i ≤ j ∧ j < i + m ∧ IsNormal (entry j) ∧ normals entry (i + m - (j + 1)) (j + 1) = rest := by
  induction m generalizing i with
  | zero => cases h
  | succ m ih =>
    by_cases hi : IsNormal (entry i)
    · rw [normals_take m hi] at h
      injection h with hij hrest
      subst hij
      rw [show i + (m + 1) - (i + 1) = m by omega]
      exact ⟨le_rfl, by omega, hi, hrest⟩
    · rw [normals_skip m hi] at h
      obtain ⟨hle, hlt, hnormal, hrest⟩ := ih h
      rw [show i + 1 + m = i + (m + 1) by omega] at hlt hrest
      exact ⟨by omega, hlt, hnormal, hrest⟩

/-- A call of `_fat_readdir` between two runs of LFN entries. -/
theorem FatState.OpenDir.readdir (h : s.OpenDir fdId p n) (hwf : WellNamed (s.entries p) pos)
    (hpos : pos < 128 * n) (hoffset : 32 * pos < 0x100000000) {i m turns : ℕ} (hi : i + m = pos)
    (hturns : m < turns) (hseek : (s.fd fdId).seek = 32 * i)
    (hrun : runLength (s.entries p) i = 0) (buf : ℕ) :
    ∃ s', fatReaddir turns memcpy fdId buf s =
        .ok (readResult (s.entries p) (normals (s.entries p) m i)) s' ∧
      s'.OpenDir fdId p n ∧ s'.entries p = s.entries p ∧
      (s'.fd fdId).seek = 32 * readPosition pos (normals (s.entries p) m i) := by
  obtain ⟨inode, hp, hdir⟩ := h.isDir
  have hinfo : fatFileInfo fdId s = .ok (.ok ⟨inode.size, (s.fd fdId).seek, true⟩) s := by
    rw [fatFileInfo, exits_bind_get]
    simp only [h.initialized, h.allocated, h.inode, Bool.not_true, Bool.false_eq_true, if_false,
      if_neg (Nat.not_le.mpr h.bound)]
    rw [exits_bind_ok (getInode_run hp), hdir]
    rfl
  have hloop := h.readEntries hwf hpos hoffset hi hturns hseek (rfl : ({} : LfnScan).lfn = 0) buf
  rw [hrun] at hloop
  rw [fatReaddir, exits_bind_ok hinfo]
  exact hloop

/-- Successive calls return what is left of the listing, then the end of the directory. -/
theorem FatState.OpenDir.readdirs (h : s.OpenDir fdId p n) (hwf : WellNamed (s.entries p) pos)
    (hpos : pos < 128 * n) (hoffset : 32 * pos < 0x100000000) {i m turns : ℕ} (hi : i + m = pos)
    (hturns : m < turns) (hseek : (s.fd fdId).seek = 32 * i)
    (hrun : runLength (s.entries p) i = 0) (buf k : ℕ) :
    ∃ s', Fat.readdirs turns memcpy fdId buf k s =
        .ok (answers ((normals (s.entries p) m i).map (direntOf (s.entries p))) k) s' := by
  induction k generalizing s i m with
  | zero =>
    rw [answers]
    exact ⟨s, rfl⟩
  | succ k ih =>
    obtain ⟨s₁, hcall, hopen, hentries, hseek₁⟩ :=
      h.readdir hwf hpos hoffset hi hturns hseek hrun buf
    have hwf₁ : WellNamed (s₁.entries p) pos := by
      rw [hentries]
      exact hwf
    cases hleft : normals (s.entries p) m i with
    | nil =>
      rw [hleft] at hcall hseek₁
      have hend := hwf.runLength_zero (i := pos) le_rfl fun hlt => absurd hlt (lt_irrefl pos)
      obtain ⟨s₂, hrest⟩ := ih hopen hwf₁ (i := pos) (m := 0) rfl (by omega) hseek₁
        (by rw [hentries]; exact hend)
      refine ⟨s₂, ?_⟩
      rw [Fat.readdirs, exits_bind_ok hcall, exits_bind_ok hrest]
      rfl
    | cons j rest =>
      rw [hleft] at hcall hseek₁
      obtain ⟨hij, hjm, hnormal, htail⟩ := normals_tail hleft
      have hnext := runLength_next fun hlong : IsLong (s.entries p j) => hnormal.2.2 hlong.2.2
      obtain ⟨s₂, hrest⟩ := ih hopen hwf₁ (i := j + 1) (m := i + m - (j + 1)) (by omega) (by omega)
        hseek₁ (by rw [hentries]; exact hnext)
      refine ⟨s₂, ?_⟩
      rw [hentries, htail] at hrest
      rw [Fat.readdirs, exits_bind_ok hcall, exits_bind_ok hrest]
      rfl

end Calls

/-! ## The three scanners -/

section Agree

variable {s : FatState} {fdId : ℕ} {p : Ptr} {n pos : ℕ}

/-- On a directory whose LFN entries are well formed and whose `NO_MORE_ENTRY` is inside its chain,
at an offset that the seek can hold: the calls of `_fat_readdir` from offset 0 on return the
listing and then the end of the directory, `_get_nb_entries` returns its length, and
`_get_child_from_parent` finds the first occurrence of each name that no inode in the tree has. -/
theorem readdir_count_lookup_agree (h : s.OpenDir fdId p n) (hseek : (s.fd fdId).seek = 0)
    (hwf : WellNamed (s.entries p) pos) (hpos : pos < 128 * n) (hoffset : 32 * pos < 0x100000000)
    (hheap : s.HeapOk) {father : Inode} (hp : s.inodes p = some father) {l : List Ptr}
    (hl : s.Children father.child l) {fuel turns : ℕ} (hfuel : n ≤ fuel) (hlen : l.length ≤ fuel)
    (hturns : pos < turns) :
    (∀ buf k, ∃ s', readdirs turns memcpy fdId buf k s =
      .ok (answers (listing (s.entries p) pos) k) s') ∧
    (∃ s', getNbEntries fuel p s = .ok (some (listing (s.entries p) pos).length) s') ∧
    ∀ name, (∀ q ∈ l, ∀ inode, s.inodes q = some inode → name ≠ inode.name) →
      lookupAnswer fuel p name s =
        some (((listing (s.entries p) pos).find? fun d => decide (name = d.name)).map
          fun d => (d.name, d.info)) := by
  refine ⟨fun buf k => ?_, ?_, fun name hname => ?_⟩
  · exact h.readdirs hwf hpos hoffset (Nat.zero_add pos) hturns hseek rfl buf k
  · obtain ⟨s', hrun, -⟩ := getNbEntries_run h.ready hpos hwf.toWellFormed hfuel
    exact ⟨s', hrun⟩
  · have hscan := hwf.scan_listing name hpos
    rw [← hscan]
    apply lookupAnswer_entries h.ready hheap hp hl hname hlen hfuel
    intro scan hnext
    rw [hnext] at hscan
    cases hscan

end Agree

/-! ## A directory with entries -/

/-- The first sectors of a volume whose root has the entries `.` and `..`, a file with a long name
and a free entry. -/
def listedBytes : List UInt8 :=
  addSpecialDirectories.specialEntry 1 ⟨2, 0, true⟩ ++
    addSpecialDirectories.specialEntry 2 ⟨2, 0, true⟩ ++
    stepBytes listedName ⟨7, 512, false⟩ 15 2 4 ++ stepBytes listedName ⟨7, 512, false⟩ 15 2 3 ++
    stepBytes listedName ⟨7, 512, false⟩ 15 2 2 ++ 0xE5 :: List.replicate 31 0
where
  /-- A name of 15 characters. -/
  listedName : List UInt8 := (List.range 15).map fun i => UInt8.ofNat (0x61 + i)

/-- The root of that volume is open on descriptor 0. -/
def listedDir : FatState :=
  { freshDir [0x61] with
    initialized := true
    fd := fun _ => ⟨0, 0, true, true⟩
    device := ⟨fun a => listedBytes.getD a 0, fun _ => false, 0⟩ }

theorem listedDir_openDir : listedDir.OpenDir 0 0 1 where
  initialized := rfl
  bound := by decide
  allocated := rfl
  inode := rfl
  isDir := ⟨_, rfl, rfl⟩
  ready := by
    refine ⟨cacheOk_emptyNode 2, fun _ => rfl, _, rfl, cacheOk_emptyNode 3, Or.inr (by decide), ?_⟩
    intro k hk
    obtain rfl : k = 0 := by omega
    exact ⟨fun j hj => absurd hj (Nat.not_lt_zero j), le_rfl⟩

theorem listedDir_wellNamed : WellNamed (listedDir.entries 0) 6 where
  live := by decide +kernel
  stop := by decide +kernel
  runs := by decide +kernel
  numbers := by decide +kernel
  bounded := by decide +kernel

theorem listedDir_agree :
    (∀ buf k, ∃ s', readdirs 7 memcpy 0 buf k listedDir =
      .ok (answers (listing (listedDir.entries 0) 6) k) s') ∧
    (∃ s', getNbEntries 1 0 listedDir =
      .ok (some (listing (listedDir.entries 0) 6).length) s') ∧
    ∀ name, (∀ q ∈ ([] : List Ptr), ∀ inode, listedDir.inodes q = some inode → name ≠ inode.name) →
      lookupAnswer 1 0 name listedDir =
        some (((listing (listedDir.entries 0) 6).find? fun d => decide (name = d.name)).map
          fun d => (d.name, d.info)) :=
  readdir_count_lookup_agree (l := []) listedDir_openDir rfl listedDir_wellNamed (by decide)
    (by decide) (freshDir_heapOk [0x61]) rfl ⟨rfl, fun q hq => absurd hq List.not_mem_nil⟩
    (by decide) (by decide) (by decide)

example : (listing (listedDir.entries 0) 6).map Dirent.name =
    [[0x2E], [0x2E, 0x2E], listedBytes.listedName] := by
  decide +kernel

end GietVm.Fat
