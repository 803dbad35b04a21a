import GietVm.Fat.ChainEnd
import GietVm.Fat.Readdir

/-!
# Removing a directory entry

`_remove_dir_entry` frees the NORMAL entry at the index of the inode, then walks back over the LFN
entries before it and frees at most as many as a name of this length takes. A well-formed run can
be longer than that: the decoding of a name stops at a character whose low byte is 0x00 or 0xFF, so
an inode can have a shorter name than its entries hold. The LFN entries left over stay live, and
count for the next file. The index has 16 bits, so an entry from 65536 on is not the one that is
freed.
-/

namespace GietVm.Fat

open GietVm.Library

/-! ## Contents with a run freed -/

/-- The contents after the LFN entries before entry `i`, at most `nbLfn` of them, are freed. -/
def freeRun (blocks : ℕ → Block) : ℕ → ℕ → ℕ → Block
  | 0, _ => blocks
  | _ + 1, 0 => blocks
  | nbLfn + 1, i + 1 =>
    if readEntry 11 1 (entryAt blocks i) false = attrLongNameMask then
      freeRun (writeAt blocks i [0xE5]) nbLfn i
    else blocks

theorem set_eq_write {n : ℕ} (b : Bytes n) (i : ℕ) (v : UInt8) : b.set i v = b.write i [v] := by
  funext j
  rw [Bytes.set, Bytes.write]
  by_cases hj : j.val = i
  · rw [if_pos hj, if_pos (by rw [List.length_singleton]; omega), hj, Nat.sub_self]
    rfl
  · rw [if_neg hj, if_neg (by rw [List.length_singleton]; omega)]

/-! ## What an edit marks -/

/-- A cluster that the next update of the device will write. -/
def FatState.Dirty (s : FatState) (p : Ptr) (k : ℕ) : Prop :=
  ∃ desc, s.slot (some p) k = some desc ∧ desc.dirty = true

/-- The clusters of a directory that have changed are marked dirty, and no mark has gone. -/
structure Marked (p : Ptr) (s s' : FatState) : Prop where
  keep : ∀ k, s.Dirty p k → s'.Dirty p k
  changed : ∀ k, s'.block (some p) k ≠ s.block (some p) k → s'.Dirty p k

section Marked

variable {s s' s'' : FatState} {p : Ptr}

theorem Marked.refl (s : FatState) : Marked p s s := ⟨fun _ h => h, fun _ h => absurd rfl h⟩

theorem Marked.trans (h : Marked p s s') (h' : Marked p s' s'') : Marked p s s'' where
  keep := fun k hk => h'.keep k (h.keep k hk)
  changed := by
    intro k hk
    by_cases hsame : s''.block (some p) k = s'.block (some p) k
    · rw [hsame] at hk
      exact h'.keep k (h.changed k hk)
    · exact h'.changed k hsame

theorem Cached.marked (h : Cached s s') : Marked p s s' where
  keep := fun _ ⟨desc, hslot, hdirty⟩ => ⟨desc, h.keep _ _ _ hslot, hdirty⟩
  changed := fun k hk => absurd (h.block (some p) k) hk

theorem Edited.marked {k : ℕ} {desc : Desc} (h : Edited s s' (some p) k desc)
    (hdirty : desc.dirty = true) : Marked p s s' where
  keep := by
    intro j hj
    by_cases hjk : j = k
    · exact ⟨desc, by rw [h.slot, if_pos ⟨rfl, hjk⟩], hdirty⟩
    · obtain ⟨d, hslot, hd⟩ := hj
      exact ⟨d, by rw [h.slot, if_neg (fun heq => hjk heq.2), hslot], hd⟩
  changed := by
    intro j hj
    by_cases hjk : j = k
    · exact ⟨desc, by rw [h.slot, if_pos ⟨rfl, hjk⟩], hdirty⟩
    · rw [h.block, if_neg (fun heq => hjk heq.2)] at hj
      exact absurd rfl hj

end Marked

/-! ## The runs -/

section Run

variable {s : FatState} {p : Ptr} {n : ℕ}

/-- Freeing an entry of a cluster that is marked. -/
theorem free_run (hd : s.DirReady p n) {i : ℕ} {desc : Desc}
    (hslot : s.slot (some p) (i / 128) = some desc) (f : Desc → Desc)
    (hf : f desc = { desc with dirty := true, buffer := desc.buffer.set (i % 128 * 32) 0xE5 }) :
    ∃ s', modifyDesc (some p) (i / 128) f s = .ok () s' ∧ s'.bare = s.bare ∧ Similar s s' ∧
      Marked p s s' ∧ s'.Dirty p (i / 128) ∧
      s'.block (some p) = writeAt (s.block (some p)) i [0xE5] := by
  obtain ⟨s', hrun, hedit⟩ := hd.edit hslot f
  have hdirty : (f desc).dirty = true := by rw [hf]
  refine ⟨s', hrun, hedit.bare, hedit.similar, hedit.marked hdirty, ⟨f desc, ?_, hdirty⟩, ?_⟩
  · rw [hedit.slot, if_pos ⟨rfl, rfl⟩]
  · funext k
    rw [hedit.block, writeAt]
    by_cases hk : k = i / 128
    · rw [if_pos ⟨rfl, hk⟩, if_pos hk, hf, hk, FatState.block, hslot, set_eq_write]
    · rw [if_neg (fun heq => hk heq.2), if_neg hk]

/-- Freeing entry `i` if it is an LFN one. -/
theorem freeLfnEntry_run (hd : s.DirReady p n) {i : ℕ} (hdirty : s.Dirty p (i / 128)) :
    ∃ s', freeLfnEntry (some p) (i / 128) (i % 128 * 32) s =
        .ok (decide (readEntry 11 1 (s.entries p i) false = attrLongNameMask)) s' ∧
      s'.bare = s.bare ∧ Similar s s' ∧ Marked p s s' ∧ s'.Dirty p (i / 128) ∧
      s'.block (some p) = if readEntry 11 1 (s.entries p i) false = attrLongNameMask then
        writeAt (s.block (some p)) i [0xE5] else s.block (some p) := by
  obtain ⟨desc, hslot, hmark⟩ := hdirty
  obtain ⟨inode, hp, hok, -⟩ := hd.live
  have hcache := cacheAt_inode hp
  have hget : RadixTree.get? inode.levels inode.cache (i / 128) = some desc := by
    rw [slot_eq hcache, slotOf] at hslot
    split at hslot
    · exact hslot
    · cases hslot
  have hread : readDesc (some p) (i / 128) s = .ok desc s := by
    rw [readDesc, exits_bind_ok (getCache_run hcache)]
    simp only [hget]
    rfl
  have hentry : pointer desc.buffer (i % 128 * 32) = s.entries p i := by
    rw [FatState.entries, entryAt, FatState.block, hslot]
  rw [freeLfnEntry, exits_bind_ok hread, hentry]
  by_cases hlong : readEntry 11 1 (s.entries p i) false = attrLongNameMask
  · obtain ⟨s', hrun, hbare, hsim, hmarked, hdirty', hblock⟩ :=
      free_run hd hslot (fun desc => { desc with buffer := desc.buffer.set (i % 128 * 32) 0xE5 })
        (by rw [← hmark])
    refine ⟨s', ?_, hbare, hsim, hmarked, hdirty', by rw [if_pos hlong, hblock]⟩
    rw [if_neg (fun h => h hlong), exits_bind_ok hrun, decide_eq_true hlong]
    rfl
  · refine ⟨s, ?_, rfl, Similar.refl s, Marked.refl s, ⟨desc, hslot, hmark⟩, by rw [if_neg hlong]⟩
    rw [if_pos hlong, decide_eq_false hlong]
    rfl

/-- The walk back from entry `i`, whose cluster is loaded and marked. -/
theorem freeLfnEntries_run (hd : s.DirReady p n) {clusterId nbLfn current i : ℕ}
    (hi : i < 128 * n) (hnb : nbLfn ≤ 128) (hcurrent : current = i / 128)
    (hcluster : current = clusterId ∨ nbLfn ≤ i % 128) (hdirty : s.Dirty p current) :
    ∃ s', freeLfnEntries (some p) clusterId nbLfn current (i % 128 * 32) s = .ok false s' ∧
      s'.bare = s.bare ∧ Similar s s' ∧ Marked p s s' ∧
      s'.block (some p) = freeRun (s.block (some p)) nbLfn i := by
  induction nbLfn generalizing s current i with
  | zero => exact ⟨s, rfl, rfl, Similar.refl s, Marked.refl s, rfl⟩
  | succ nbLfn ih =>
    -- one turn on entry `j`, and the others
    have hturn {t : FatState} (hdt : t.DirReady p n) {j : ℕ} (hj : j + 1 = i)
        (hdirty : t.Dirty p (j / 128)) (hnext : j / 128 = clusterId ∨ nbLfn ≤ j % 128) :
        ∃ s', (do
            if ← freeLfnEntry (some p) (j / 128) (j % 128 * 32) then
              freeLfnEntries (some p) clusterId nbLfn (j / 128) (j % 128 * 32)
            else pure false : FatM Bool) t = .ok false s' ∧ s'.bare = t.bare ∧ Similar t s' ∧
          Marked p t s' ∧ s'.block (some p) = freeRun (t.block (some p)) (nbLfn + 1) i := by
      obtain ⟨t₁, hrun, hbare, hsim, hmarked, hdirty₁, hblock⟩ := freeLfnEntry_run hdt hdirty
      rw [exits_bind_ok hrun, ← hj, freeRun]
      by_cases hlong : readEntry 11 1 (t.entries p j) false = attrLongNameMask
      · obtain ⟨t₂, hrun₂, hbare₂, hsim₂, hmarked₂, hblock₂⟩ :=
          ih (hsim.dirReady hdt) (i := j) (by omega) (by omega) rfl hnext hdirty₁
        refine ⟨t₂, ?_, hbare₂.trans hbare, hsim.trans hsim₂, hmarked.trans hmarked₂, ?_⟩
        · rw [decide_eq_true hlong, if_pos rfl]
          exact hrun₂
        · rw [if_pos hlong] at hblock ⊢
          rw [hblock₂, hblock]
      · refine ⟨t₁, ?_, hbare, hsim, hmarked, ?_⟩
        · rw [decide_eq_false hlong, if_neg Bool.false_ne_true]
          rfl
        · rw [if_neg hlong] at hblock ⊢
          exact hblock
    rw [freeLfnEntries]
    by_cases hzero : i % 128 = 0
    · have hsame : current = clusterId := by omega
      rw [if_pos (by omega)]
      by_cases hfirst : clusterId = 0
      · obtain rfl : i = 0 := by omega
        rw [if_pos hfirst]
        exact ⟨s, rfl, rfl, Similar.refl s, Marked.refl s, rfl⟩
      · rw [if_neg hfirst]
        obtain ⟨desc, s₁, hload, -, hslot, hc, -⟩ := hd.load (show clusterId - 1 < n by omega)
        obtain ⟨s₂, hmark, hedit⟩ :=
          (hc.similar.dirReady hd).edit hslot fun desc => { desc with dirty := true }
        have hsim := hc.similar.trans hedit.similar
        have hprev : (i - 1) / 128 = clusterId - 1 := by omega
        have hoffset : (i - 1) % 128 * 32 = 4064 := by omega
        have hslot₂ := hedit.slot (some p) (clusterId - 1)
        rw [if_pos ⟨rfl, rfl⟩] at hslot₂
        have hblock₂ : s₂.block (some p) = s.block (some p) := by
          funext k
          rw [hedit.block, ← hc.block]
          by_cases hk : k = clusterId - 1
          · rw [if_pos ⟨rfl, hk⟩, hk, FatState.block, hslot]
          · rw [if_neg (fun heq => hk heq.2)]
        obtain ⟨s', hrun, hbare, hsim', hmarked, hblock⟩ :=
          hturn (hsim.dirReady hd) (j := i - 1) (by omega) ⟨_, by rw [hprev]; exact hslot₂, rfl⟩
            (Or.inr (by omega))
        rw [hprev, hoffset] at hrun
        refine ⟨s', ?_, hbare.trans (hedit.bare.trans hc.bare), hsim.trans hsim',
          (hc.marked.trans (hedit.marked rfl)).trans hmarked, by rw [hblock, hblock₂]⟩
        rw [exits_bind_ok hload]
        change (modifyDesc _ _ _ >>= fun _ => _) s₁ = _
        rw [exits_bind_ok hmark]
        exact hrun
    · rw [if_neg (by omega)]
      have hprev : (i - 1) / 128 = current := by omega
      have hoffset : (i - 1) % 128 * 32 = i % 128 * 32 - 32 := by omega
      obtain ⟨s', hrun, hbare, hsim, hmarked, hblock⟩ :=
        hturn hd (j := i - 1) (by omega) (by rw [hprev]; exact hdirty) (by omega)
      rw [hprev, hoffset] at hrun
      exact ⟨s', hrun, hbare, hsim, hmarked, hblock⟩

/-- `_remove_dir_entry` frees the entry at the index of the inode and LFN entries before it. -/
theorem removeDirEntry_run (hd : s.DirReady p n) {q : Ptr} {inode : Inode}
    (hq : s.inodes q = some inode) (hparent : inode.parent = some p) {length nbLfn : ℕ}
    (hname : checkNameLength inode.name = some (length, nbLfn)) (hindex : inode.dentry < 128 * n) :
    ∃ s', removeDirEntry q s = .ok false s' ∧ s'.bare = s.bare ∧ Similar s s' ∧ Marked p s s' ∧
      s'.block (some p) =
        freeRun (writeAt (s.block (some p)) inode.dentry [0xE5]) nbLfn inode.dentry := by
  have hnb := (checkNameLength_eq hname).2
  obtain ⟨desc, s₁, hload, -, hslot, hc, -⟩ := hd.load (show inode.dentry / 128 < n by omega)
  have hd₁ := hc.similar.dirReady hd
  obtain ⟨s₂, hmark, hbare₂, hsim₂, hmarked₂, hdirty₂, hblock₂⟩ := free_run hd₁ hslot
    (fun desc => { desc with
      dirty := true, buffer := desc.buffer.set (inode.dentry % 0x80 * 32) 0xE5 }) rfl
  obtain ⟨s₃, hrun, hbare₃, hsim₃, hmarked₃, hblock₃⟩ := freeLfnEntries_run
    (hsim₂.dirReady hd₁) hindex (by omega : nbLfn ≤ 128) rfl
    (Or.inl (rfl : inode.dentry / 128 = inode.dentry / 128)) hdirty₂
  have hblocks : s₁.block (some p) = s.block (some p) := funext fun k => hc.block (some p) k
  refine ⟨s₃, ?_, hbare₃.trans (hbare₂.trans hc.bare), hc.similar.trans (hsim₂.trans hsim₃),
    hc.marked.trans (hmarked₂.trans hmarked₃), by rw [hblock₃, hblock₂, hblocks]⟩
  rw [removeDirEntry, exits_bind_ok (getInode_run hq)]
  simp only [hname, hparent]
  rw [exits_bind_ok hload]
  change (modifyDesc _ _ _ >>= fun _ => _) s₁ = _
  rw [exits_bind_ok hmark]
  exact hrun

end Run

/-! ## The entries that are freed -/

/-- The number of entries just before an entry that have the attribute of an LFN one. -/
def attrRun (entry : ℕ → ℕ → UInt8) : ℕ → ℕ
  | 0 => 0
  | i + 1 => if readEntry 11 1 (entry i) false = attrLongNameMask then attrRun entry i + 1 else 0

/-- `entry'` is `entry` with entry `i` and the `m` entries before it freed. -/
def Freed (entry entry' : ℕ → ℕ → UInt8) (i m : ℕ) : Prop :=
  ∀ j b, b < 32 → entry' j b = if i ≤ j + m ∧ j ≤ i ∧ b = 0 then 0xE5 else entry j b

section Freed

variable {entry entry' : ℕ → ℕ → UInt8} {pos i m : ℕ}

/-- Freeing an entry keeps the attributes. -/
theorem attr_writeAt (blocks : ℕ → Block) (i j : ℕ) :
    readEntry 11 1 (entryAt (writeAt blocks i [0xE5]) j) false =
      readEntry 11 1 (entryAt blocks j) false := by
  rw [readEntry_one, readEntry_one, entryAt_writeAt i (by decide) j (by decide), if_neg]
  rintro ⟨-, hb⟩
  exact absurd hb (by decide)

theorem attrRun_congr (h : ∀ j < i, readEntry 11 1 (entry j) false = readEntry 11 1 (entry' j) false) :
    attrRun entry i = attrRun entry' i := by
  induction i with
  | zero => rfl
  | succ i ih =>
    rw [attrRun, attrRun, h i (Nat.lt_succ_self i), ih fun j hj => h j (by omega)]

/-- The walk back frees entries as long as they have the attribute of an LFN one. -/
theorem freeRun_entry (blocks : ℕ → Block) (nbLfn i j : ℕ) {b : ℕ} (hb : b < 32) :
    entryAt (freeRun blocks nbLfn i) j b =
      if i ≤ j + min nbLfn (attrRun (entryAt blocks) i) ∧ j < i ∧ b = 0 then 0xE5
      else entryAt blocks j b := by
  induction nbLfn generalizing blocks i with
  | zero => rw [freeRun, Nat.zero_min, if_neg (by omega)]
  | succ nbLfn ih =>
    cases i with
    | zero => rw [freeRun, if_neg (by omega)]
    | succ i =>
      rw [freeRun, attrRun]
      by_cases hattr : readEntry 11 1 (entryAt blocks i) false = attrLongNameMask
      · have hsame : attrRun (entryAt (writeAt blocks i [0xE5])) i = attrRun (entryAt blocks) i :=
          attrRun_congr fun j _ => attr_writeAt blocks i j
        rw [if_pos hattr, if_pos hattr, ih, hsame, entryAt_writeAt i (by decide) j hb,
          Nat.succ_min_succ, List.length_singleton]
        by_cases hji : j = i ∧ b = 0
        · obtain ⟨rfl, rfl⟩ := hji
          rw [if_neg (by omega), if_pos (by omega), if_pos (by omega)]
          rfl
        · rw [if_neg (show ¬ (j = i ∧ b < 1) by omega)]
          by_cases hin : i ≤ j + min nbLfn (attrRun (entryAt blocks) i) ∧ j < i ∧ b = 0
          · rw [if_pos hin, if_pos (by omega)]
          · rw [if_neg hin, if_neg (by omega)]
      · rw [if_neg hattr, if_neg hattr, Nat.min_zero, if_neg (by omega)]

/-- In a well-formed directory the walk meets live LFN entries, then entries that are free. -/
theorem WellFormed.free_before (h : WellFormed entry pos) (hi : i ≤ pos) {j : ℕ}
    (hattr : i ≤ j + attrRun entry i) (hrun : j + runLength entry i < i) :
    readEntry 0 1 (entry j) false = freeEntry := by
  induction i with
  | zero => omega
  | succ i ih =>
    rw [attrRun] at hattr
    rw [runLength] at hrun
    split at hattr
    · rename_i hmask
      by_cases hlong : IsLong (entry i)
      · rw [if_pos hlong] at hrun
        exact ih (by omega) (by omega) (by omega)
      · rw [if_neg hlong] at hrun
        have hfree : readEntry 0 1 (entry i) false = freeEntry := by
          by_contra hfree
          exact hlong ⟨h.live i (by omega), hfree, hmask⟩
        by_cases hj : j = i
        · rw [hj]
          exact hfree
        · have hzero := h.runLength_zero (i := i) (by omega) fun _ => hfree
          exact ih (by omega) (by omega) (by omega)
    · omega

theorem runLength_le_attrRun (i : ℕ) : runLength entry i ≤ attrRun entry i := by
  induction i with
  | zero => exact le_rfl
  | succ i ih =>
    rw [runLength, attrRun]
    by_cases hlong : IsLong (entry i)
    · rw [if_pos hlong, if_pos hlong.2.2]
      exact Nat.succ_le_succ ih
    · rw [if_neg hlong]
      exact Nat.zero_le _

/-- The entries that `_remove_dir_entry` frees in a well-formed directory. -/
theorem WellFormed.freed {blocks : ℕ → Block} (h : WellFormed (entryAt blocks) pos) (hi : i ≤ pos)
    (nbLfn : ℕ) :
    Freed (entryAt blocks) (entryAt (freeRun (writeAt blocks i [0xE5]) nbLfn i)) i
      (min nbLfn (runLength (entryAt blocks) i)) := by
  intro j b hb
  have hsame : attrRun (entryAt (writeAt blocks i [0xE5])) i = attrRun (entryAt blocks) i :=
    attrRun_congr fun j _ => attr_writeAt blocks i j
  have hle : runLength (entryAt blocks) i ≤ attrRun (entryAt blocks) i := runLength_le_attrRun i
  rw [freeRun_entry _ _ _ _ hb, hsame, entryAt_writeAt i (by decide) j hb, List.length_singleton]
  by_cases hji : j = i ∧ b < 1
  · obtain ⟨rfl, hzero⟩ := hji
    rw [if_neg (by omega), if_pos ⟨rfl, hzero⟩, if_pos (by omega)]
    obtain rfl : b = 0 := by omega
    rfl
  · rw [if_neg hji]
    by_cases hlive : i ≤ j + min nbLfn (runLength (entryAt blocks) i) ∧ j ≤ i ∧ b = 0
    · rw [if_pos hlive, if_pos (by omega)]
    · rw [if_neg hlive]
      by_cases hwalk : i ≤ j + min nbLfn (attrRun (entryAt blocks) i) ∧ j < i ∧ b = 0
      · -- the entry was free before
        rw [if_pos hwalk]
        obtain ⟨hreach, hlt, rfl⟩ := hwalk
        have hfree := h.free_before hi (j := j) (by omega) (by omega)
        rw [readEntry_one] at hfree
        exact (UInt8.toNat_inj.mp (hfree.trans rfl)).symm
      · rw [if_neg hwalk]

/-- The first byte of an entry that is freed, and all the others. -/
theorem Freed.free (h : Freed entry entry' i m) {j : ℕ} (hle : i ≤ j + m) (hj : j ≤ i) :
    readEntry 0 1 (entry' j) false = freeEntry := by
  rw [readEntry_one, h j 0 (by omega), if_pos ⟨hle, hj, rfl⟩]
  rfl

theorem Freed.same (h : Freed entry entry' i m) {j : ℕ} (hj : ¬ (i ≤ j + m ∧ j ≤ i)) :
    SameEntry (entry' j) (entry j) := by
  intro b hb
  rw [h j b hb, if_neg (fun hin => hj ⟨hin.1, hin.2.1⟩)]

end Freed

/-! ## What is left in the listing -/

section Left

variable {entry entry' : ℕ → ℕ → UInt8} {pos i : ℕ}

theorem SameEntry.isLong_iff {e e' : ℕ → UInt8} (h : SameEntry e e') : IsLong e ↔ IsLong e' := by
  rw [IsLong, IsLong, h.readEntry (by omega), h.readEntry (by omega)]

theorem SameEntry.isNormal_iff {e e' : ℕ → UInt8} (h : SameEntry e e') :
    IsNormal e ↔ IsNormal e' := by
  rw [IsNormal, IsNormal, h.readEntry (by omega), h.readEntry (by omega)]

theorem runLength_le (j : ℕ) : runLength entry j ≤ j := by
  induction j with
  | zero => exact le_rfl
  | succ j ih =>
    rw [runLength]
    split
    · exact Nat.succ_le_succ ih
    · exact Nat.zero_le _

/-- The entries of a run are LFN ones, and the one before it is not. -/
theorem runLength_long {j k : ℕ} (hle : j ≤ k + runLength entry j) (hk : k < j) :
    IsLong (entry k) := by
  induction j with
  | zero => omega
  | succ j ih =>
    rw [runLength] at hle
    split at hle
    · rename_i hlong
      by_cases hkj : k = j
      · rw [hkj]
        exact hlong
      · exact ih (by omega) (by omega)
    · omega

theorem runLength_before {j k : ℕ} (hk : k + runLength entry j + 1 = j) : ¬ IsLong (entry k) := by
  induction j with
  | zero => omega
  | succ j ih =>
    rw [runLength] at hk
    split at hk
    · exact ih (by omega)
    · rename_i hlong
      obtain rfl : k = j := by omega
      exact hlong

theorem runLength_congr {j₀ j : ℕ} (hj : j₀ ≤ j) (hzero : runLength entry j₀ = runLength entry' j₀)
    (h : ∀ k, j₀ ≤ k → k < j → (IsLong (entry k) ↔ IsLong (entry' k))) :
    runLength entry j = runLength entry' j := by
  induction j with
  | zero =>
    obtain rfl : j₀ = 0 := by omega
    exact hzero
  | succ j ih =>
    by_cases hlast : j₀ = j + 1
    · rw [← hlast]
      exact hzero
    · have hprev := ih (by omega) fun k hk hkj => h k hk (by omega)
      rw [runLength, runLength, hprev]
      simp only [h j (by omega) (Nat.lt_succ_self j)]

theorem mem_normals {n k j : ℕ} :
    j ∈ normals entry n k ↔ k ≤ j ∧ j < k + n ∧ IsNormal (entry j) := by
  induction n generalizing k with
  | zero =>
    rw [normals, List.mem_nil_iff, false_iff]
    omega
  | succ n ih =>
    rw [normals]
    split
    · rename_i hnormal
      rw [List.mem_cons, ih]
      constructor
      · rintro (rfl | ⟨hle, hlt, hj⟩)
        · exact ⟨le_rfl, by omega, hnormal⟩
        · exact ⟨by omega, by omega, hj⟩
      · rintro ⟨hle, hlt, hj⟩
        by_cases hjk : j = k
        · exact Or.inl hjk
        · exact Or.inr ⟨by omega, by omega, hj⟩
    · rename_i hnormal
      rw [ih]
      constructor
      · rintro ⟨hle, hlt, hj⟩
        exact ⟨by omega, by omega, hj⟩
      · rintro ⟨hle, hlt, hj⟩
        have hjk : j ≠ k := by
          rintro rfl
          exact hnormal hj
        exact ⟨by omega, by omega, hj⟩

theorem normals_nodup (n k : ℕ) : (normals entry n k).Nodup := by
  induction n generalizing k with
  | zero => exact List.nodup_nil
  | succ n ih =>
    rw [normals]
    split
    · rw [List.nodup_cons]
      refine ⟨fun hmem => ?_, ih (k + 1)⟩
      have := (mem_normals.mp hmem).1
      omega
    · exact ih (k + 1)

theorem normals_congr {n k : ℕ}
    (h : ∀ j, k ≤ j → j < k + n → (IsNormal (entry j) ↔ IsNormal (entry' j))) :
    normals entry n k = normals entry' n k := by
  induction n generalizing k with
  | zero => rfl
  | succ n ih =>
    rw [normals, normals, ih fun j hj hjn => h j (by omega) (by omega)]
    simp only [h k le_rfl (by omega)]

/-- The NORMAL entries when one of them is no longer one. -/
theorem normals_erase {n k : ℕ}
    (h : ∀ j, k ≤ j → j < k + n → (IsNormal (entry' j) ↔ IsNormal (entry j) ∧ j ≠ i)) :
    normals entry' n k = (normals entry n k).erase i := by
  induction n generalizing k with
  | zero => rfl
  | succ n ih =>
    have hrest := ih (k := k + 1) fun j hj hjn => h j (by omega) (by omega)
    by_cases hnormal : IsNormal (entry k)
    · rw [normals_take n hnormal]
      by_cases hik : k = i
      · subst hik
        rw [List.erase_cons_head, normals_skip n fun hk => ((h k le_rfl (by omega)).mp hk).2 rfl]
        apply normals_congr
        intro j hj hjn
        rw [h j (by omega) (by omega)]
        exact and_iff_left (by omega)
      · rw [List.erase_cons_tail (by simpa using hik), ← hrest,
          normals_take n ((h k le_rfl (by omega)).mpr ⟨hnormal, hik⟩)]
    · rw [normals_skip n hnormal, ← hrest,
        normals_skip n fun hk => hnormal ((h k le_rfl (by omega)).mp hk).1]

/-- `entry'` lists what `entry` does without entry `i`, of whose name no LFN entry is left. -/
structure RemovesOnly (entry entry' : ℕ → ℕ → UInt8) (pos i : ℕ) : Prop where
  normals : normals entry' pos 0 = (normals entry pos 0).erase i
  dirents : ∀ j ∈ Fat.normals entry' pos 0, direntOf entry' j = direntOf entry j
  noOrphan : ∀ j < i, i ≤ j + runLength entry i → ¬ IsLong (entry' j)

/-- The name of entry `j` is in the same bytes of both. -/
structure SameName (entry entry' : ℕ → ℕ → UInt8) (j : ℕ) : Prop where
  run : runLength entry' j = runLength entry j
  parts : ∀ t < runLength entry j, SameEntry (entry' (j - (t + 1))) (entry (j - (t + 1)))
  short : getNameFromShort (entry' j) = getNameFromShort (entry j)

theorem SameName.nameOf {j : ℕ} (h : SameName entry entry' j) :
    nameOf entry' j = nameOf entry j := by
  have hparts : ((List.range (runLength entry j)).map fun t => getNameFromLong (entry' (j - (t + 1)))) =
      (List.range (runLength entry j)).map fun t => getNameFromLong (entry (j - (t + 1))) := by
    apply List.map_congr_left
    intro t ht
    exact (h.parts t (List.mem_range.mp ht)).getNameFromLong
  rw [Fat.nameOf, Fat.nameOf, h.run, h.short, hparts]

/-- A name that does not change stays numbered. -/
theorem SameName.numbers {j : ℕ} (h : SameName entry entry' j)
    (hold : ∀ t < runLength entry j, readEntry 0 1 (entry (j - (t + 1))) false % 0x20 = t + 1) :
    ∀ t < runLength entry' j, readEntry 0 1 (entry' (j - (t + 1))) false % 0x20 = t + 1 := by
  intro t ht
  rw [h.run] at ht
  rw [(h.parts t ht).readEntry (by omega)]
  exact hold t ht

/-- A name that does not change stays bounded. -/
theorem SameName.bounded {j : ℕ} (h : SameName entry entry' j)
    (hold : 13 * (runLength entry j - 1) +
      (getNameFromLong (entry (j - runLength entry j))).length ≤ 31) :
    13 * (runLength entry' j - 1) +
      (getNameFromLong (entry' (j - runLength entry' j))).length ≤ 31 := by
  rw [h.run]
  by_cases hzero : runLength entry j = 0
  · rw [hzero]
    exact Nat.le_trans (Nat.add_le_add_left (getNameFromLong_length_le _) _) (by decide)
  · have hpart := h.parts (runLength entry j - 1) (by omega)
    rw [Nat.sub_add_cancel (by omega)] at hpart
    rwa [hpart.getNameFromLong]

/-- A directory whose names do not change stays well named. -/
theorem WellFormed.wellNamed (h' : WellFormed entry' pos) (h : WellNamed entry pos)
    (hsame : ∀ j, IsNormal (entry' j) → IsNormal (entry j) ∧ SameName entry entry' j) :
    WellNamed entry' pos where
  toWellFormed := h'
  numbers := fun j hj hn => (hsame j hn).2.numbers (h.numbers j hj (hsame j hn).1)
  bounded := fun j hj hn => (hsame j hn).2.bounded (h.bounded j hj (hsame j hn).1)

section FreedRun

variable (hnormal : IsNormal (entry i)) (hfreed : Freed entry entry' i (runLength entry i))

include hfreed

/-- Freeing a NORMAL entry with its whole run frees no other NORMAL entry. -/
theorem Freed.isNormal_iff (j : ℕ) : IsNormal (entry' j) ↔ IsNormal (entry j) ∧ j ≠ i := by
  by_cases hj : i ≤ j + runLength entry i ∧ j ≤ i
  · constructor
    · intro hn
      exact absurd (hfreed.free hj.1 hj.2) hn.2.1
    · rintro ⟨hn, hne⟩
      exact absurd (runLength_long hj.1 (by omega)).2.2 hn.2.2
  · rw [(hfreed.same hj).isNormal_iff]
    exact (and_iff_left (by omega)).symm

theorem Freed.isLong {j : ℕ} (hlong : IsLong (entry' j)) :
    ¬ (i ≤ j + runLength entry i ∧ j ≤ i) ∧ IsLong (entry j) := by
  have hout : ¬ (i ≤ j + runLength entry i ∧ j ≤ i) :=
    fun hj => hlong.2.1 (hfreed.free hj.1 hj.2)
  exact ⟨hout, (hfreed.same hout).isLong_iff.mp hlong⟩

include hnormal

/-- The entries that are left have the names that they had. -/
theorem Freed.sameName {j : ℕ} (hj : IsNormal (entry' j)) :
    SameEntry (entry' j) (entry j) ∧ SameName entry entry' j := by
  obtain ⟨hn, hne⟩ := (hfreed.isNormal_iff j).mp hj
  have hsame : SameEntry (entry' j) (entry j) :=
    hfreed.same fun hr => hj.2.1 (hfreed.free hr.1 hr.2)
  have hlong {k : ℕ} (hk : ¬ (i ≤ k + runLength entry i ∧ k ≤ i)) :
      IsLong (entry k) ↔ IsLong (entry' k) := (hfreed.same hk).isLong_iff.symm
  have hrun : runLength entry' j = runLength entry j := by
    symm
    by_cases hlt : i < j
    · -- entry `i` is no LFN one, before and after
      refine runLength_congr (show i + 1 ≤ j from hlt) ?_ fun k hk _ => hlong (by omega)
      rw [runLength_next fun hl => hnormal.2.2 hl.2.2,
        runLength_next fun hl => (hfreed.isLong hl).1 ⟨Nat.le_add_right _ _, le_rfl⟩]
    · have hbefore : j + runLength entry i < i := by
        by_contra hge
        have hlong : IsLong (entry j) := runLength_long (j := i) (by omega) (by omega)
        exact hn.2.2 hlong.2.2
      exact runLength_congr (Nat.zero_le j) rfl fun k _ hk => hlong (by omega)
  refine ⟨hsame, hrun, fun t ht => ?_, hsame.getNameFromShort⟩
  have hle : runLength entry j ≤ j := runLength_le j
  have hpart : IsLong (entry' (j - (t + 1))) :=
    runLength_long (j := j) (by rw [hrun]; omega) (by omega)
  exact hfreed.same (hfreed.isLong hpart).1

theorem Freed.removesOnly : RemovesOnly entry entry' pos i where
  normals := normals_erase fun j _ _ => hfreed.isNormal_iff j
  dirents := by
    intro j hj
    obtain ⟨-, -, hn⟩ := mem_normals.mp hj
    obtain ⟨hsame, hname⟩ := hfreed.sameName hnormal hn
    rw [direntOf, direntOf, hsame.entryInfo, hname.nameOf]
  noOrphan := fun _ hj hle hl => (hfreed.isLong hl).1 ⟨hle, hj.le⟩

/-- Freeing a NORMAL entry with its whole run keeps the directory well formed. -/
theorem WellNamed.freed (h : WellNamed entry pos) (hi : i < pos) : WellNamed entry' pos := by
  have hwf : WellFormed entry' pos := by
    refine ⟨fun j hj => ?_, ?_, fun j hj hl => ?_⟩
    · by_cases hr : i ≤ j + runLength entry i ∧ j ≤ i
      · rw [hfreed.free hr.1 hr.2]
        decide
      · rw [(hfreed.same hr).readEntry (by omega)]
        exact h.live j hj
    · rw [(hfreed.same (by omega)).readEntry (by omega)]
      exact h.stop
    · obtain ⟨hout, hl'⟩ := hfreed.isLong hl
      obtain ⟨hlt, hne⟩ := h.runs j hj hl'
      refine ⟨hlt, ?_⟩
      rw [(hfreed.same ?_).readEntry (by omega)]
      · exact hne
      · rintro ⟨hle, hle'⟩
        have hstart : j + runLength entry i + 1 = i := by omega
        exact runLength_before hstart hl'
  exact hwf.wellNamed h fun j hj =>
    ⟨((hfreed.isNormal_iff j).mp hj).1, (hfreed.sameName hnormal hj).2⟩

end FreedRun

end Left

/-! ## Removing the entry of a child -/

section Remove

variable {blocks : ℕ → Block} {entry : ℕ → ℕ → UInt8} {pos i : ℕ}

theorem joinParts_length (parts : List (List UInt8)) (h : ∀ part ∈ parts, part.length ≤ 13) :
    (joinParts parts).length ≤
      13 * (parts.length - 1) + ((parts.getLast?.map List.length).getD 0) := by
  induction parts with
  | nil => exact Nat.zero_le _
  | cons part rest ih =>
    have hrest := ih fun part hp => h part (List.mem_cons_of_mem _ hp)
    have hpart := h part List.mem_cons_self
    cases rest with
    | nil =>
      rw [joinParts, joinParts, List.append_nil, ite_self]
      exact Nat.le_add_left _ _
    | cons part' rest =>
      rw [List.getLast?_cons_cons]
      simp only [List.length_cons] at hrest ⊢
      rw [joinParts]
      split
      · rw [List.length_append]
        omega
      · omega

theorem shortPart_length (buffer : ℕ → UInt8) (n offset : ℕ) :
    (shortPart buffer n offset).length ≤ n := by
  induction n generalizing offset with
  | zero => exact le_rfl
  | succ n ih =>
    rw [shortPart]
    split
    · exact Nat.zero_le _
    · exact Nat.succ_le_succ (ih (offset + 1))

theorem getNameFromShort_length (buffer : ℕ → UInt8) : (getNameFromShort buffer).length ≤ 12 := by
  have hname := shortPart_length buffer 8 0
  have hext := shortPart_length buffer 3 8
  rw [getNameFromShort, cString]
  refine (List.takeWhile_prefix _).length_le.trans ?_
  rw [List.length_append]
  split
  · rw [List.length_nil]
    omega
  · rw [List.length_cons]
    omega

/-- The names in a directory are not too long for `_check_name_length`. -/
theorem WellNamed.nameOf_length (h : WellNamed entry pos) (hi : i < pos)
    (hnormal : IsNormal (entry i)) : (nameOf entry i).length ≤ 31 := by
  have hbound := h.bounded i hi hnormal
  rw [nameOf]
  split
  · have := getNameFromShort_length (entry i)
    omega
  · rename_i hrun
    obtain ⟨r, hr⟩ := Nat.exists_eq_succ_of_ne_zero hrun
    refine (joinParts_length _ ?_).trans ?_
    · intro part hpart
      obtain ⟨j, -, rfl⟩ := List.mem_map.mp hpart
      exact getNameFromLong_length_le _
    · rw [hr] at hbound ⊢
      rw [List.range_succ, List.map_append, List.map_singleton, List.getLast?_concat,
        List.length_append, List.length_map, List.length_range, List.length_singleton]
      exact hbound

/-- The removal leaves the other entries, and no LFN entry of the name, exactly when the LFN
entries are no more than a name of this length takes, and the index fits in 16 bits. -/
theorem WellNamed.removesOnly_iff (h : WellNamed (entryAt blocks) pos) (hi : i < pos)
    (hnormal : IsNormal (entryAt blocks i)) (nbLfn : ℕ) :
    RemovesOnly (entryAt blocks)
        (entryAt (freeRun (writeAt blocks (i % 0x10000) [0xE5]) nbLfn (i % 0x10000))) pos i ↔
      runLength (entryAt blocks) i ≤ nbLfn ∧ i < 0x10000 := by
  have hle := Nat.mod_le i 0x10000
  have hfreed := h.toWellFormed.freed (i := i % 0x10000) (hle.trans hi.le) nbLfn
  constructor
  · intro hremoves
    have hindex : i < 0x10000 := by
      -- otherwise entry `i` stays
      by_contra hlarge
      have hsame := hfreed.same (j := i) (by omega)
      have hmem : i ∈ (normals (entryAt blocks) pos 0).erase i := by
        rw [← hremoves.normals, mem_normals, hsame.isNormal_iff]
        exact ⟨Nat.zero_le i, by omega, hnormal⟩
      exact (normals_nodup pos 0).not_mem_erase hmem
    refine ⟨?_, hindex⟩
    by_contra hlong
    rw [Nat.mod_eq_of_lt hindex] at hfreed hremoves
    have hrun : runLength (entryAt blocks) i ≤ i := runLength_le i
    have hlast : IsLong (entryAt blocks (i - (nbLfn + 1))) :=
      runLength_long (j := i) (by omega) (by omega)
    apply hremoves.noOrphan (i - (nbLfn + 1)) (by omega) (by omega)
    rwa [(hfreed.same (by omega)).isLong_iff]
  · rintro ⟨hrun, hindex⟩
    rw [Nat.mod_eq_of_lt hindex] at hfreed ⊢
    rw [Nat.min_eq_right hrun] at hfreed
    exact hfreed.removesOnly hnormal

/-- The inode has the name of the NORMAL entry `i`, and its index as far as 16 bits hold it. -/
structure Designates (entry : ℕ → ℕ → UInt8) (pos i : ℕ) (p : Ptr) (inode : Inode) : Prop where
  inside : i < pos
  normal : IsNormal (entry i)
  parent : inode.parent = some p
  name : inode.name = nameOf entry i
  dentry : inode.dentry = i % 0x10000

/-- The children of a directory in the Inode-Tree are inodes of its entries. -/
def FatState.ChildrenOk (s : FatState) (p : Ptr) (pos : ℕ) (l : List Ptr) : Prop :=
  ∀ q ∈ l, ∃ inode i, s.inodes q = some inode ∧ Designates (s.entries p) pos i p inode

variable {s s₁ : FatState} {p q : Ptr} {n fuel : ℕ} {name : List UInt8}

/-- `_get_child_from_parent` finds an inode of an entry that has the name. -/
theorem getChildFromParent_designates (hd : s.DirReady p n) (hwf : WellNamed (s.entries p) pos)
    (hpos : pos < 128 * n) (hheap : s.HeapOk) {father : Inode} (hp : s.inodes p = some father)
    {l : List Ptr} (hl : s.Children father.child l) (hchildren : s.ChildrenOk p pos l)
    (hlen : l.length ≤ fuel) (hfuel : n ≤ fuel)
    (hfound : getChildFromParent fuel p name s = .ok (.found q) s₁) :
    s₁.DirReady p n ∧ s₁.entries p = s.entries p ∧ ∃ inode i, s₁.inodes q = some inode ∧
      inode.name = name ∧ Designates (s.entries p) pos i p inode := by
  have hfind : findChild name _ _ _ = _ := findChild_run hl hlen
  rw [getChildFromParent, exits_bind_ok (getInode_run hp), exits_bind_ok hfind] at hfound
  cases htree : l.find? fun q => (s.inodes q).any fun inode => decide (name = inode.name) with
  | some q' =>
    rw [htree] at hfound
    injection hfound with hq hs
    injection hq with hq
    subst hq hs
    obtain ⟨inode, i, hqi, hdes⟩ := hchildren q' (List.mem_of_find?_eq_some htree)
    have hname := List.find?_some htree
    rw [hqi, Option.any_some, decide_eq_true_eq] at hname
    exact ⟨hd, rfl, inode, i, hqi, hname.symm, hdes⟩
  | none =>
    rw [htree] at hfound
    simp only at hfound
    have hscan := hwf.scanFrom_find name (Nat.zero_add pos) hpos (rfl : ({} : LfnScan).lfn = 0)
    have hsearch := searchDirectory_run hd name (Nat.zero_add n) hfuel {}
    rw [Nat.mul_zero] at hsearch
    cases hlisted : (normals (s.entries p) pos 0).find? fun j =>
        decide (name = nameOf (s.entries p) j) with
    | none =>
      rw [hlisted] at hscan
      change scanFrom name (s.entries p) (128 * n) 0 {} = .noMore at hscan
      obtain ⟨s', hrun, -⟩ := hsearch.1 .endOfDir (by rw [hscan]; rfl)
      rw [exits_bind_ok hrun] at hfound
      cases hfound
    | some i =>
      rw [hlisted] at hscan
      obtain ⟨scan', hscan⟩ := hscan
      change scanFrom name (s.entries p) (128 * n) 0 {} = _ at hscan
      obtain ⟨s', hrun, hc, -⟩ :=
        hsearch.1 (.found (i * 32 / 32) (entryInfo (s.entries p i))) (by rw [hscan]; rfl)
      obtain ⟨father', hp', -⟩ := bare_inode hc.bare hp
      obtain ⟨s'', hload, hborn⟩ := loadInode_run (hc.heapOk hheap) hp' name
        (entryInfo (s.entries p i)) (i * 32 / 32)
      rw [exits_bind_ok hrun] at hfound
      simp only [hload] at hfound
      injection hfound with hq hs
      injection hq with hq
      subst hq hs
      have hsame := hborn.sameFile hp'
      have hname := of_decide_eq_true (List.find?_some hlisted :)
      obtain ⟨-, hlt, hnormal⟩ := mem_normals.mp (List.mem_of_find?_eq_some hlisted)
      refine ⟨hsame.dirReady (hc.similar.dirReady hd), hsame.entries.trans (hc.entries p), _, i,
        hborn.child, rfl, by omega, hnormal, rfl, hname, ?_⟩
      change i * 32 / 32 % 0x10000 = i % 0x10000
      rw [Nat.mul_div_cancel i (by decide)]

/-- Removing the entry of a child that a lookup has found. -/
theorem removeFound_run (hd : s.DirReady p n) (hwf : WellNamed (s.entries p) pos)
    (hpos : pos < 128 * n) (hheap : s.HeapOk) {father : Inode} (hp : s.inodes p = some father)
    {l : List Ptr} (hl : s.Children father.child l) (hchildren : s.ChildrenOk p pos l)
    (hlen : l.length ≤ fuel) (hfuel : n ≤ fuel)
    (hfound : getChildFromParent fuel p name s = .ok (.found q) s₁) :
    ∃ inode i length nbLfn s₂, s₁.inodes q = some inode ∧ inode.name = name ∧
      Designates (s.entries p) pos i p inode ∧
      checkNameLength name = some (length, nbLfn) ∧ removeDirEntry q s₁ = .ok false s₂ ∧
      Marked p s₁ s₂ ∧ (RemovesOnly (s.entries p) (s₂.entries p) pos i ↔
        runLength (s.entries p) i ≤ nbLfn ∧ i < 0x10000) := by
  obtain ⟨hd₁, hentries, inode, i, hq, rfl, hdes⟩ :=
    getChildFromParent_designates hd hwf hpos hheap hp hl hchildren hlen hfuel hfound
  have hlen := hwf.nameOf_length hdes.inside hdes.normal
  rw [← hdes.name] at hlen
  obtain ⟨length, nbLfn, hname⟩ : ∃ length nbLfn,
      checkNameLength inode.name = some (length, nbLfn) := by
    rw [checkNameLength]
    split
    · exact ⟨_, _, rfl⟩
    · split
      · exact ⟨_, _, rfl⟩
      · exact ⟨_, _, rfl⟩
  have hinside := hdes.inside
  have hindex : inode.dentry < 128 * n := by
    have := Nat.mod_le i 0x10000
    rw [hdes.dentry]
    omega
  obtain ⟨s₂, hrun, -, -, hmarked, hblock⟩ := removeDirEntry_run hd₁ hq hdes.parent hname hindex
  refine ⟨inode, i, length, nbLfn, s₂, hq, rfl, hdes, hname, hrun, hmarked, ?_⟩
  change entryAt (s₁.block (some p)) = entryAt (s.block (some p)) at hentries
  have hwf₁ : WellNamed (entryAt (s₁.block (some p))) pos := by rwa [hentries]
  have hnormal₁ : IsNormal (entryAt (s₁.block (some p)) i) := by
    rw [hentries]
    exact hdes.normal
  have hiff := hwf₁.removesOnly_iff hinside hnormal₁ nbLfn
  rwa [← hdes.dentry, ← hblock, hentries] at hiff

/-- `_remove_dir_entry` on an inode found by `_get_child_from_parent` removes its entry from the
listing, with all LFN entries of its name, and nothing else, with every changed cluster marked
dirty: exactly when the LFN entries before the NORMAL one are no more than `_check_name_length`
gives for the decoded name, and the index of the NORMAL one is below 65536. -/
theorem removeDirEntry_only_iff (hd : s.DirReady p n) (hwf : WellNamed (s.entries p) pos)
    (hpos : pos < 128 * n) (hheap : s.HeapOk) {father : Inode} (hp : s.inodes p = some father)
    {l : List Ptr} (hl : s.Children father.child l) (hchildren : s.ChildrenOk p pos l)
    (hlen : l.length ≤ fuel) (hfuel : n ≤ fuel)
    (hfound : getChildFromParent fuel p name s = .ok (.found q) s₁) :
    ∃ inode i length nbLfn s₂, s₁.inodes q = some inode ∧ inode.name = name ∧
      Designates (s.entries p) pos i p inode ∧
      checkNameLength name = some (length, nbLfn) ∧ removeDirEntry q s₁ = .ok false s₂ ∧
      ((RemovesOnly (s.entries p) (s₂.entries p) pos i ∧ Marked p s₁ s₂) ↔
        runLength (s.entries p) i ≤ nbLfn ∧ i < 0x10000) := by
  obtain ⟨inode, i, length, nbLfn, s₂, hq, hname, hdes, hlength, hrun, hmarked, hiff⟩ :=
    removeFound_run hd hwf hpos hheap hp hl hchildren hlen hfuel hfound
  refine ⟨inode, i, length, nbLfn, s₂, hq, hname, hdes, hlength, hrun, ?_⟩
  rw [and_iff_left hmarked]
  exact hiff

end Remove

/-! ## A name that ends early -/

/-- The lookup finds an inode. -/
def lookupFinds (fuel : ℕ) (p : Ptr) (name : List UInt8) (s : FatState) : Bool :=
  match getChildFromParent fuel p name s with
  | .ok (.found _) _ => true
  | _ => false

theorem exists_of_lookupFinds {fuel : ℕ} {p : Ptr} {name : List UInt8} {s : FatState}
    (h : lookupFinds fuel p name s = true) :
    ∃ q s₁, getChildFromParent fuel p name s = .ok (.found q) s₁ := by
  rw [lookupFinds] at h
  split at h
  · exact ⟨_, _, by assumption⟩
  · cases h

theorem listedDir_removed :
    ∃ q s₁, getChildFromParent 1 0 listedBytes.listedName listedDir = .ok (.found q) s₁ ∧
      ∃ inode i length nbLfn s₂, s₁.inodes q = some inode ∧ inode.name = listedBytes.listedName ∧
        Designates (listedDir.entries 0) 6 i 0 inode ∧
        checkNameLength listedBytes.listedName = some (length, nbLfn) ∧
        removeDirEntry q s₁ = .ok false s₂ ∧
        ((RemovesOnly (listedDir.entries 0) (s₂.entries 0) 6 i ∧ Marked 0 s₁ s₂) ↔
          runLength (listedDir.entries 0) i ≤ nbLfn ∧ i < 0x10000) := by
  obtain ⟨q, s₁, hfound⟩ := exists_of_lookupFinds
    (show lookupFinds 1 0 listedBytes.listedName listedDir = true by decide +kernel)
  exact ⟨q, s₁, hfound, removeDirEntry_only_iff (l := []) listedDir_openDir.ready
    listedDir_wellNamed (by decide) (freshDir_heapOk [0x61]) rfl
    ⟨rfl, fun q hq => absurd hq List.not_mem_nil⟩ (fun q hq => absurd hq List.not_mem_nil)
    (by decide) le_rfl hfound⟩

/-- The first sectors of a volume whose root has one file. Its name has 14 characters, and the
third one is 0x0100: the decoded name ends before it. -/
def oddBytes : List UInt8 :=
  stepBytes oddName ⟨7, 512, false⟩ 14 2 4 ++ (stepBytes oddName ⟨7, 512, false⟩ 14 2 3).set 6 1 ++
    stepBytes [0x61, 0x62] ⟨7, 512, false⟩ 2 1 2
where
  /-- The low bytes of the name. -/
  oddName : List UInt8 := 0x61 :: 0x62 :: 0x00 :: List.replicate 11 0x63

/-- The root of that volume. -/
def oddDir : FatState :=
  { freshDir [0x61] with device := ⟨fun a => oddBytes.getD a 0, fun _ => false, 0⟩ }

theorem oddDir_dirReady : oddDir.DirReady 0 1 := by
  refine ⟨cacheOk_emptyNode 2, fun _ => rfl, _, rfl, cacheOk_emptyNode 3, Or.inr (by decide), ?_⟩
  intro k hk
  obtain rfl : k = 0 := by omega
  exact ⟨fun j hj => absurd hj (Nat.not_lt_zero j), le_rfl⟩

theorem oddDir_wellNamed : WellNamed (oddDir.entries 0) 3 where
  live := by decide +kernel
  stop := by decide +kernel
  runs := by decide +kernel
  numbers := by decide +kernel
  bounded := by decide +kernel

/-- The file is removed with one of its two LFN entries. -/
theorem oddDir_orphan :
    WellNamed (oddDir.entries 0) 3 ∧ ∃ q s₁, getChildFromParent 1 0 [0x61, 0x62] oddDir =
      .ok (.found q) s₁ ∧ ∃ inode i s₂, s₁.inodes q = some inode ∧
        Designates (oddDir.entries 0) 3 i 0 inode ∧ removeDirEntry q s₁ = .ok false s₂ ∧
        ¬ RemovesOnly (oddDir.entries 0) (s₂.entries 0) 3 i := by
  obtain ⟨q, s₁, hfound⟩ := exists_of_lookupFinds
    (show lookupFinds 1 0 [0x61, 0x62] oddDir = true by decide +kernel)
  obtain ⟨inode, i, length, nbLfn, s₂, hq, hname, hdes, hlength, hrun, -, hiff⟩ :=
    removeFound_run (l := []) oddDir_dirReady oddDir_wellNamed (by decide)
      (freshDir_heapOk [0x61]) rfl ⟨rfl, fun q hq => absurd hq List.not_mem_nil⟩
      (fun q hq => absurd hq List.not_mem_nil) (by decide) le_rfl hfound
  refine ⟨oddDir_wellNamed, q, s₁, hfound, inode, i, s₂, hq, hdes, hrun, fun hremoves => ?_⟩
  have hshort := (hiff.mp hremoves).1
  have hlong : ∀ j < 3, IsNormal (oddDir.entries 0 j) → runLength (oddDir.entries 0) j = 2 := by
    decide +kernel
  rw [hlong i hdes.inside hdes.normal] at hshort
  cases hlength
  exact absurd hshort (by decide)

end GietVm.Fat
