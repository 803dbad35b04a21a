import GietVm.Fat.Lookup

/-!
# Adding a directory entry

`_add_dir_entry` writes the entries of a name one after the other from the position of
`NO_MORE_ENTRY` on, going to the next cluster of the directory when one is full. The content
of the directory afterwards is the old one with these entries in place, so the scan of the
new entries tells what a lookup answers.

The NORMAL entry begins with the upper-cased first character of the name. A name that begins
with 0xE5 makes it look free, and a name with a byte 0xFF is decoded up to that byte: these
are the two cases where the entry added is not found under its name.
-/

namespace GietVm.Fat

open GietVm.Library

/-! ## Contents with entries written -/

/-- The contents after bytes are written at entry `i`. -/
def writeAt (blocks : ℕ → Block) (i : ℕ) (bytes : List UInt8) : ℕ → Block := fun k =>
  if k = i / 128 then (blocks k).write (i % 128 * 32) bytes else blocks k

/-- The contents after consecutive entries are written from entry `i` on. -/
def writeEntries : (ℕ → Block) → ℕ → List (List UInt8) → ℕ → Block
  | blocks, _, [] => blocks
  | blocks, i, bytes :: rest => writeEntries (writeAt blocks i bytes) (i + 1) rest

section Write

variable {blocks : ℕ → Block}

theorem entryAt_writeAt (i : ℕ) {bytes : List UInt8} (hlen : bytes.length ≤ 32) (j : ℕ) {b : ℕ}
    (hb : b < 32) :
    entryAt (writeAt blocks i bytes) j b =
      if j = i ∧ b < bytes.length then bytes.getD b 0 else entryAt blocks j b := by
  rw [entryAt, entryAt, pointer, pointer, writeAt]
  by_cases hcluster : j / 128 = i / 128
  · rw [if_pos hcluster, Bytes.get_write _ _ _ _ (by omega)]
    by_cases hj : j = i ∧ b < bytes.length
    · obtain ⟨rfl, hb'⟩ := hj
      rw [if_pos (by omega), if_pos ⟨rfl, hb'⟩, Nat.add_sub_cancel_left]
    · rw [if_neg (by omega), if_neg hj]
  · rw [if_neg hcluster, if_neg]
    rintro ⟨rfl, -⟩
    exact hcluster rfl

theorem entryAt_writeEntries_before {ls : List (List UInt8)} (hls : ∀ l ∈ ls, l.length ≤ 32)
    {i j : ℕ} (hj : j < i) : SameEntry (entryAt (writeEntries blocks i ls) j) (entryAt blocks j) := by
  induction ls generalizing blocks i with
  | nil => exact fun _ _ => rfl
  | cons l ls ih =>
    intro b hb
    rw [writeEntries, ih (fun l hl => hls l (List.mem_cons_of_mem _ hl)) (by omega) b hb,
      entryAt_writeAt i (hls l List.mem_cons_self) j hb, if_neg (by omega)]

theorem entryAt_writeEntries {ls : List (List UInt8)} (hls : ∀ l ∈ ls, l.length ≤ 32) {i m : ℕ}
    {l : List UInt8} (hm : ls[m]? = some l) {b : ℕ} (hb : b < l.length) :
    entryAt (writeEntries blocks i ls) (i + m) b = l.getD b 0 := by
  induction ls generalizing blocks i m with
  | nil => simp at hm
  | cons l₀ ls ih =>
    have hls' : ∀ l ∈ ls, l.length ≤ 32 := fun l hl => hls l (List.mem_cons_of_mem _ hl)
    cases m with
    | zero =>
      obtain rfl : l₀ = l := by simpa using hm
      have hlen := hls l₀ List.mem_cons_self
      change entryAt (writeEntries (writeAt blocks i l₀) (i + 1) ls) i b = l₀.getD b 0
      rw [entryAt_writeEntries_before hls' (Nat.lt_succ_self i) b (by omega),
        entryAt_writeAt i hlen i (by omega), if_pos ⟨rfl, hb⟩]
    | succ m =>
      rw [writeEntries, show i + (m + 1) = i + 1 + m by omega]
      exact ih hls' (by simpa using hm)

end Write

/-- The entries that the FSM writes from a state on. -/
def stepList (name : List UInt8) (info : EntryInfo) (length nbLfn : ℕ) : ℕ → List (List UInt8)
  | 0 => []
  | step + 1 => stepBytes name info length nbLfn (step + 1) :: stepList name info length nbLfn step

theorem stepBytes_length (name : List UInt8) (info : EntryInfo) (length nbLfn step : ℕ) :
    (stepBytes name info length nbLfn step).length ≤ 32 := by
  unfold stepBytes
  split <;> simp [longEntryBytes_length, normalEntryBytes_length]

theorem stepList_length_le (name : List UInt8) (info : EntryInfo) (length nbLfn step : ℕ) :
    ∀ l ∈ stepList name info length nbLfn step, l.length ≤ 32 := by
  induction step with
  | zero => simp [stepList]
  | succ step ih =>
    intro l hl
    rcases List.mem_cons.mp hl with rfl | hl
    · exact stepBytes_length name info length nbLfn (step + 1)
    · exact ih l hl

/-! ## The run of `_add_dir_entry` -/

/-- No cluster from index `n` on enters the File-Cache of `p`, and the other inodes than `c` keep
everything but their caches. -/
structure Confined (p c : Ptr) (n : ℕ) (s s' : FatState) : Prop where
  beyond : Beyond p n s s'
  others : ∀ q, q ≠ c → (s'.inodes q).map Inode.core = (s.inodes q).map Inode.core

section Run

variable {s : FatState} {p c : Ptr} {n : ℕ}

theorem Confined.refl (s : FatState) : Confined p c n s s := ⟨Beyond.refl s, fun _ _ => rfl⟩

theorem Confined.trans {s' s'' : FatState} (h : Confined p c n s s') (h' : Confined p c n s' s'') :
    Confined p c n s s'' :=
  ⟨h.beyond.trans h'.beyond, fun q hq => (h'.others q hq).trans (h.others q hq)⟩

theorem Confined.of_bare {s' : FatState} (hbeyond : Beyond p n s s') (hbare : s'.bare = s.bare) :
    Confined p c n s s' := ⟨hbeyond, fun q _ => bare_core hbare q⟩

/-- Storing a directory index in an inode. -/
theorem setDentry_run {child : Inode} (hc : s.inodes c = some child) (d : ℕ) :
    ∃ s', modifyInode c (fun inode => { inode with dentry := d }) s = .ok () s' ∧ Similar s s' ∧
      (∀ owner, s'.cacheAt owner = s.cacheAt owner) ∧
      (∀ owner k, s'.block owner k = s.block owner k) ∧
      s'.inodes c = some { child with dentry := d } ∧ ∀ q, q ≠ c → s'.inodes q = s.inodes q := by
  have hcache (owner : Option Ptr) :
      (s.setInode c { child with dentry := d }).cacheAt owner = s.cacheAt owner := by
    cases owner with
    | none => rfl
    | some q =>
      by_cases hq : q = c
      · subst hq
        simp [FatState.cacheAt, FatState.setInode, hc]
      · simp [FatState.cacheAt, FatState.setInode, hq]
  have hsim : Similar s (s.setInode c { child with dentry := d }) := by
    refine ⟨?_, le_rfl, fun _ => rfl, ?_⟩
    · simp only [FatState.frame, FatState.bare, FatState.setInode, FatState.mk.injEq, true_and,
        and_true]
      funext q
      by_cases hq : q = c
      · subst hq
        simp [hc, Inode.core]
      · simp [hq]
    · intro owner levels root h hok
      exact ⟨levels, root, (hcache owner).trans h, hok, le_rfl⟩
  refine ⟨_, modifyInode_run hc _, hsim, hcache, ?_, Function.update_self _ _ _,
    fun q hq => Function.update_of_ne hq _ _⟩
  intro owner k
  rw [FatState.block, FatState.block, FatState.slot, FatState.slot, hcache, hsim.lbaOf]
  rfl

/-- One state of the FSM, once the buffer is there. -/
theorem writeStep_run (hd : s.DirReady p n) {child : Inode} (hc : s.inodes c = some child)
    (name : List UInt8) (info : EntryInfo) (length nbLfn clusterId step : ℕ) {current i : ℕ}
    (hslot : ∃ desc, s.slot (some p) (i / 128) = some desc) (hcur : current = i / 128)
    (hi : i < 128 * n) :
    ∃ s', writeSteps.writeStep c (some p) name info length nbLfn clusterId step current
        (i % 128 * 32) s = .ok () s' ∧ Similar s s' ∧
      (∃ desc, s'.slot (some p) (i / 128) = some desc) ∧
      (∃ child', s'.inodes c = some child' ∧ child'.dentry =
        if step + 1 = 2 then (clusterId * 4096 + i % 128 * 32) / 32 % 0x10000 else child.dentry) ∧
      s'.block (some p) =
        writeAt (s.block (some p)) i (stepBytes name info length nbLfn (step + 1)) ∧
      Confined p c n s s' := by
  subst hcur
  obtain ⟨desc, hslot⟩ := hslot
  obtain ⟨s₁, hrun, hedit⟩ := hd.edit hslot fun desc =>
    { desc with buffer := desc.buffer.write (i % 128 * 32) (stepBytes name info length nbLfn (step + 1)) }
  have hsim := hedit.similar
  obtain ⟨child₁, hc₁, hcore⟩ := bare_inode hedit.bare hc
  have hdentry : child₁.dentry = child.dentry := by
    have := congrArg Inode.dentry hcore
    exact this
  have hconfined : Confined p c n s s₁ :=
    .of_bare (Beyond.of_edited (show i / 128 < n by omega) hedit) hedit.bare
  have hbuffer : s.block (some p) (i / 128) = desc.buffer := by rw [FatState.block, hslot]
  have hblock : s₁.block (some p) =
      writeAt (s.block (some p)) i (stepBytes name info length nbLfn (step + 1)) := by
    funext k
    rw [hedit.block, writeAt]
    by_cases hk : k = i / 128
    · rw [if_pos ⟨rfl, hk⟩, if_pos hk, hk, hbuffer]
    · rw [if_neg (fun h => hk h.2), if_neg hk]
  have hslot₁ := hedit.slot (some p) (i / 128)
  rw [if_pos ⟨rfl, rfl⟩] at hslot₁
  rw [writeSteps.writeStep, exits_bind_ok hrun]
  by_cases hstep : step + 1 = 2
  · obtain ⟨s₂, hrun₂, hsim₂, hcache₂, hblock₂, hc₂, hothers⟩ :=
      setDentry_run hc₁ ((clusterId * 4096 + i % 128 * 32) / 32 % 0x10000)
    refine ⟨s₂, ?_, hsim.trans hsim₂, ?_, ⟨_, hc₂, by rw [if_pos hstep]⟩, ?_,
      hconfined.trans ⟨?_, fun q hq => by rw [hothers q hq]⟩⟩
    · rw [if_pos hstep]
      exact hrun₂
    · exact ⟨_, by rw [FatState.slot, hcache₂]; exact hslot₁⟩
    · funext k
      rw [hblock₂, hblock]
    · intro k _
      rw [FatState.slot, FatState.slot, hcache₂]
  · exact ⟨s₁, by rw [if_neg hstep]; rfl, hsim, ⟨_, hslot₁⟩,
      ⟨child₁, hc₁, by rw [if_neg hstep, hdentry]⟩, hblock, hconfined⟩

/-- The FSM writes its entries in order, over at most two clusters. `i` is the next entry. The
index stored in the inode is counted from the cluster where `NO_MORE_ENTRY` was. -/
theorem writeSteps_run (hd : s.DirReady p n) {child : Inode} (hc : s.inodes c = some child)
    (name : List UInt8) (info : EntryInfo) (length nbLfn : ℕ)
    {clusterId step current offset i : ℕ}
    (hpos : (current = i / 128 ∧ offset = i % 128 * 32 ∧
        (∃ desc, s.slot (some p) (i / 128) = some desc) ∧
        (current = clusterId ∨ i % 128 + step ≤ 128)) ∨
      (offset = 4096 ∧ i = (clusterId + 1) * 128))
    (hstep : step ≤ 5) (hroom : i + step ≤ 128 * n) :
    ∃ s', writeSteps c (some p) name info length nbLfn clusterId step current offset s =
        .ok false s' ∧ Similar s s' ∧
      s'.block (some p) = writeEntries (s.block (some p)) i (stepList name info length nbLfn step) ∧
      Confined p c n s s' ∧
      ∃ child', s'.inodes c = some child' ∧ child'.dentry =
        if 2 ≤ step then (clusterId * 128 + (i + step - 2) % 128) % 0x10000 else child.dentry := by
  have hindex (j : ℕ) : (clusterId * 4096 + j % 128 * 32) / 32 = clusterId * 128 + j % 128 := by
    omega
  -- the index after one state, and after the others
  have nextDentry {step i old new : ℕ}
      (h : new = if step + 1 = 2 then (clusterId * 4096 + i % 128 * 32) / 32 % 0x10000 else old) :
      (if 2 ≤ step then (clusterId * 128 + (i + 1 + step - 2) % 128) % 0x10000 else new) =
        if 2 ≤ step + 1 then (clusterId * 128 + (i + (step + 1) - 2) % 128) % 0x10000 else old := by
    by_cases htwo : step = 1
    · subst htwo
      rw [h, if_neg (by omega), if_pos rfl, if_pos le_rfl, hindex]
      rfl
    · by_cases hle : 2 ≤ step
      · rw [if_pos hle, if_pos (by omega), show i + 1 + step = i + (step + 1) by omega]
      · rw [if_neg hle, if_neg (by omega), h, if_neg (by omega)]
  induction step generalizing s current offset i child with
  | zero => exact ⟨s, rfl, Similar.refl s, rfl, Confined.refl s, child, hc, rfl⟩
  | succ step ih =>
    rcases hpos with ⟨hcur, hoff, hslot, hlast⟩ | ⟨hoff, hi⟩
    · obtain ⟨s₁, hrun, hsim, hslot₁, ⟨child₁, hc₁, hdentry₁⟩, hblock, hbeyond⟩ :=
        writeStep_run hd hc name info length nbLfn clusterId step hslot hcur (by omega)
      have hnext : ((current = (i + 1) / 128 ∧ offset + 32 = (i + 1) % 128 * 32 ∧
            (∃ desc, s₁.slot (some p) ((i + 1) / 128) = some desc) ∧
            (current = clusterId ∨ (i + 1) % 128 + step ≤ 128)) ∨
          (offset + 32 = 4096 ∧ i + 1 = (clusterId + 1) * 128)) ∨ step = 0 := by
        by_cases hfull : i % 128 = 127
        · rcases hlast with hlast | hlast
          · exact Or.inl (Or.inr (by omega))
          · exact Or.inr (by omega)
        · have hdiv : (i + 1) / 128 = i / 128 := by omega
          refine Or.inl (Or.inl ⟨by omega, by omega, ?_, by omega⟩)
          rwa [hdiv]
      have hne : ¬ offset ≥ 4096 := by omega
      rcases hnext with hnext | rfl
      · obtain ⟨s₂, hrun₂, hsim₂, hblock₂, hbeyond₂, child₂, hc₂, hdentry₂⟩ :=
          ih (hsim.dirReady hd) hc₁ hnext (by omega) (by omega)
        refine ⟨s₂, ?_, hsim.trans hsim₂, ?_, hbeyond.trans hbeyond₂, child₂, hc₂,
          hdentry₂.trans (nextDentry hdentry₁)⟩
        · rw [writeSteps, if_neg hne, hoff, exits_bind_ok hrun, ← hoff]
          exact hrun₂
        · rw [hblock₂, hblock]
          rfl
      · refine ⟨s₁, ?_, hsim, hblock, hbeyond, child₁, hc₁, hdentry₁⟩
        rw [writeSteps, if_neg hne, hoff, exits_bind_ok hrun]
        rfl
    · -- the cluster is full: load the next one and write its first entry
      have hdiv : i / 128 = clusterId + 1 := by omega
      have hmod : i % 128 = 0 := by omega
      obtain ⟨desc, s₁, hload, hbuffer, hslot, hcached, -, hothers⟩ :=
        hd.loadOne (show clusterId + 1 < n by omega)
      have hd₁ := hcached.similar.dirReady hd
      obtain ⟨s₂, hdirty, hedit⟩ := hd₁.edit hslot fun desc => { desc with dirty := true }
      have hsim₂ := hcached.similar.trans hedit.similar
      obtain ⟨child₂, hc₂, hcore⟩ := bare_inode (hedit.bare.trans hcached.bare) hc
      have hdentry₂ : child₂.dentry = child.dentry := by
        have := congrArg Inode.dentry hcore
        exact this
      have hbeyond₂ : Confined p c n s s₂ :=
        .of_bare ((Beyond.of_ne (by omega) hothers).trans (Beyond.of_edited (by omega) hedit))
          (hedit.bare.trans hcached.bare)
      have hblock₂ : s₂.block (some p) = s.block (some p) := by
        funext k
        rw [hedit.block, hcached.block]
        by_cases hk : k = clusterId + 1
        · rw [if_pos ⟨rfl, hk⟩, hk, ← hbuffer]
        · rw [if_neg (fun h => hk h.2)]
      have hslot₂ := hedit.slot (some p) (clusterId + 1)
      rw [if_pos ⟨rfl, rfl⟩] at hslot₂
      obtain ⟨s₃, hrun, hsim₃, hslot₃, ⟨child₃, hc₃, hdentry₃⟩, hblock₃, hbeyond₃⟩ :=
        writeStep_run (hsim₂.dirReady hd) hc₂ name info length nbLfn clusterId step
          ⟨_, by rw [hdiv]; exact hslot₂⟩ hdiv.symm (by omega)
      rw [hdentry₂] at hdentry₃
      have hdiv' : (i + 1) / 128 = i / 128 := by omega
      have hcur : clusterId + 1 = (i + 1) / 128 := by omega
      have hoffset : 32 = (i + 1) % 128 * 32 := by omega
      obtain ⟨s₄, hrun₄, hsim₄, hblock₄, hbeyond₄, child₄, hc₄, hdentry₄⟩ :=
        ih ((hsim₂.trans hsim₃).dirReady hd) hc₃
          (Or.inl ⟨hcur, hoffset, by rw [hdiv']; exact hslot₃, Or.inr (by omega)⟩)
          (by omega) (by omega)
      refine ⟨s₄, ?_, hsim₂.trans (hsim₃.trans hsim₄), ?_,
        hbeyond₂.trans (hbeyond₃.trans hbeyond₄), child₄, hc₄,
        hdentry₄.trans (nextDentry hdentry₃)⟩
      · rw [hmod, Nat.zero_mul] at hrun
        rw [writeSteps, if_pos (by omega), exits_bind_ok hload]
        change (modifyDesc _ _ _ >>= fun _ => _) s₁ = _
        rw [exits_bind_ok hdirty, exits_bind_ok hrun]
        exact hrun₄
      · rw [hblock₄, hblock₃, hblock₂]
        rfl

/-- Entries that end no scan are passed by the search for `NO_MORE_ENTRY`. -/
theorem scanNoMore_add (buffer : Block) (m r j : ℕ)
    (h : ∀ i, j ≤ i → i < j + m → readEntry 0 1 (pointer buffer (i * 32)) false ≠ noMoreEntry) :
    scanNoMore buffer (m + r) (j * 32) = scanNoMore buffer r ((j + m) * 32) := by
  induction m generalizing j with
  | zero => rw [Nat.zero_add, Nat.add_zero]
  | succ m ih =>
    rw [Nat.add_right_comm, scanNoMore, if_neg (h j le_rfl (by omega)),
      show j * 32 + 32 = (j + 1) * 32 by omega, ih (j + 1) fun i hi him => h i (by omega) (by omega),
      show j + (m + 1) = j + 1 + m by omega]

/-- The search for `NO_MORE_ENTRY` finds the first one. -/
theorem findNoMore_run (hd : s.DirReady p n) {pos : ℕ} (hpos : pos < 128 * n)
    (hlive : ∀ i < pos, readEntry 0 1 (s.entries p i) false ≠ noMoreEntry)
    (hstop : readEntry 0 1 (s.entries p pos) false = noMoreEntry) {fuel k : ℕ}
    (hk : k ≤ pos / 128) (hfuel : n ≤ k + fuel) :
    ∃ s', findNoMore (some p) fuel k s = .ok (some (pos / 128, pos % 128 * 32)) s' ∧ Similar s s' ∧
      s'.block (some p) = s.block (some p) ∧ (∃ desc, s'.slot (some p) (pos / 128) = some desc) ∧
      Beyond p n s s' ∧ s'.bare = s.bare := by
  induction fuel generalizing s k with
  | zero => omega
  | succ fuel ih =>
    obtain ⟨desc, s₁, hload, hbuffer, hslot, hcached, -, hothers⟩ :=
      hd.loadOne (show k < n by omega)
    have hbeyond : Beyond p n s s₁ := Beyond.of_ne (by omega) hothers
    have hbyte (i : ℕ) (hi : i < 128) : readEntry 0 1 (pointer desc.buffer (i * 32)) false =
        readEntry 0 1 (s.entries p (128 * k + i)) false := by
      rw [hbuffer, FatState.entries, entryAt_cluster _ k hi]
    rw [findNoMore, exits_bind_ok hload]
    by_cases hlast : k = pos / 128
    · have hscan : scanNoMore desc.buffer 128 0 = some (pos % 128 * 32) := by
        have hadd := scanNoMore_add desc.buffer (pos % 128) (128 - pos % 128) 0 (by
          intro i _ hi
          rw [hbyte i (by omega)]
          exact hlive _ (by omega))
        rw [show pos % 128 + (128 - pos % 128) = 128 by omega, Nat.zero_mul, Nat.zero_add] at hadd
        rw [hadd, show 128 - pos % 128 = (127 - pos % 128) + 1 by omega, scanNoMore, if_pos]
        rw [hbyte _ (by omega), show 128 * k + pos % 128 = pos by omega]
        exact hstop
      obtain ⟨s₂, hdirty, hedit⟩ :=
        (hcached.similar.dirReady hd).edit hslot fun desc => { desc with dirty := true }
      have hslot₂ := hedit.slot (some p) k
      rw [if_pos ⟨rfl, rfl⟩] at hslot₂
      refine ⟨s₂, ?_, hcached.similar.trans hedit.similar, ?_, ⟨_, hlast ▸ hslot₂⟩,
        hbeyond.trans (Beyond.of_edited (by omega) hedit), hedit.bare.trans hcached.bare⟩
      · simp only [hscan, ← hlast]
        rw [exits_bind_ok hdirty]
        rfl
      · funext k'
        rw [hedit.block, hcached.block]
        by_cases hk' : k' = k
        · rw [if_pos ⟨rfl, hk'⟩, hk', ← hbuffer]
        · rw [if_neg (fun h => hk' h.2)]
    · have hscan : scanNoMore desc.buffer 128 0 = none := by
        have hadd := scanNoMore_add desc.buffer 128 0 0 (by
          intro i _ hi
          rw [hbyte i (by omega)]
          exact hlive _ (by omega))
        rw [Nat.zero_mul] at hadd
        rw [hadd]
        rfl
      have hentries := hcached.entries p
      obtain ⟨s₂, hrun, hsim, hblock, hslot₂, hbeyond₂, hbare₂⟩ :=
        ih (hcached.similar.dirReady hd) (by rw [hentries]; exact hlive)
          (by rw [hentries]; exact hstop) (k := k + 1) (by omega) (by omega)
      refine ⟨s₂, ?_, hcached.similar.trans hsim, ?_, hslot₂, hbeyond.trans hbeyond₂,
        hbare₂.trans hcached.bare⟩
      · simp only [hscan]
        exact hrun
      · rw [hblock]
        exact funext fun k' => hcached.block (some p) k'

/-- The index that `_add_dir_entry` stores in the inode, when `NO_MORE_ENTRY` is at `pos`. -/
def storedIndex (pos nbLfn : ℕ) : ℕ := (pos / 128 * 128 + (pos + nbLfn) % 128) % 0x10000

/-- `_add_dir_entry` writes the entries of the name at the end of the directory. -/
theorem addDirEntry_run (hd : s.DirReady p n) {child : Inode} (hc : s.inodes c = some child)
    {length nbLfn pos fuel : ℕ} (hname : checkNameLength child.name = some (length, nbLfn))
    (hlive : ∀ i < pos, readEntry 0 1 (s.entries p i) false ≠ noMoreEntry)
    (hstop : readEntry 0 1 (s.entries p pos) false = noMoreEntry)
    (hroom : pos + nbLfn + 2 ≤ 128 * n) (hfuel : n ≤ fuel) :
    ∃ s', addDirEntry fuel c (some p) s = .ok false s' ∧ Similar s s' ∧
      s'.block (some p) = writeEntries (s.block (some p)) pos
        (stepList child.name ⟨child.cluster, child.size, child.isDir⟩ length nbLfn (nbLfn + 2)) ∧
      Confined p c n s s' ∧
      ∃ child', s'.inodes c = some child' ∧ child'.dentry = storedIndex pos nbLfn := by
  have hnb : nbLfn ≤ 3 := by
    rw [checkNameLength] at hname
    split at hname
    · cases hname
      omega
    · split at hname
      · cases hname
        omega
      · split at hname
        · cases hname
          omega
        · cases hname
  obtain ⟨s₁, hrun, hsim, hblock, hslot, hbeyond, hbare⟩ :=
    findNoMore_run hd (show pos < 128 * n by omega) hlive hstop (Nat.zero_le _)
      (show n ≤ 0 + fuel by omega)
  obtain ⟨child₁, hc₁, -⟩ := hsim.inode hc
  obtain ⟨s₂, hrun₂, hsim₂, hblock₂, hbeyond₂, child₂, hc₂, hdentry⟩ :=
    writeSteps_run (hsim.dirReady hd) hc₁ child.name ⟨child.cluster, child.size, child.isDir⟩
      length nbLfn (Or.inl ⟨rfl, rfl, hslot, Or.inl rfl⟩) (show nbLfn + 2 ≤ 5 by omega)
      (by omega)
  rw [if_pos (Nat.le_add_left 2 nbLfn)] at hdentry
  refine ⟨s₂, ?_, hsim.trans hsim₂, by rw [hblock₂, hblock],
    (Confined.of_bare hbeyond hbare).trans hbeyond₂, child₂, hc₂, hdentry⟩
  rw [addDirEntry, exits_bind_ok (getInode_run hc)]
  simp only [hname]
  rw [exits_bind_ok hrun]
  exact hrun₂

end Run

/-! ## Well-formed directories -/

/-- A live LFN entry. -/
def IsLong (entry : ℕ → UInt8) : Prop :=
  readEntry 0 1 entry false ≠ noMoreEntry ∧ readEntry 0 1 entry false ≠ freeEntry ∧
    readEntry 11 1 entry false = attrLongNameMask

/-- The entries before `pos` are in use or free, `NO_MORE_ENTRY` is at `pos`, and an LFN entry is
followed by another one or by its NORMAL entry. -/
structure WellFormed (entry : ℕ → ℕ → UInt8) (pos : ℕ) : Prop where
  live : ∀ i < pos, readEntry 0 1 (entry i) false ≠ noMoreEntry
  stop : readEntry 0 1 (entry pos) false = noMoreEntry
  runs : ∀ i < pos, IsLong (entry i) →
    i + 1 < pos ∧ readEntry 0 1 (entry (i + 1)) false ≠ freeEntry

section WellFormed

variable {entry : ℕ → ℕ → UInt8} {pos : ℕ} {name : List UInt8}

/-- A scanner has LFN entries in hand only right after one. -/
theorem WellFormed.lfn_or_long (h : WellFormed entry pos) {n : ℕ} (hn : n ≤ pos) {scan : LfnScan}
    (hscan : scanFrom name entry n 0 {} = .next scan) :
    scan.lfn = 0 ∨ ∃ i, n = i + 1 ∧ IsLong (entry i) := by
  induction n generalizing scan with
  | zero =>
    cases hscan
    exact Or.inl rfl
  | succ n ih =>
    rw [scanFrom_add] at hscan
    cases hprev : scanFrom name entry n 0 {} with
    | noMore => simp [hprev] at hscan
    | found offset info scan' => simp [hprev] at hscan
    | undefined => simp [hprev] at hscan
    | next scan' =>
      rw [hprev] at hscan
      simp only [Nat.zero_add, scanFrom, if_neg (h.live n (by omega))] at hscan
      by_cases hfree : readEntry 0 1 (entry n) false = freeEntry
      · rw [if_pos hfree] at hscan
        cases hscan
        rcases ih (by omega) hprev with hzero | ⟨i, rfl, hlong⟩
        · exact Or.inl hzero
        · exact absurd hfree (h.runs i (by omega) hlong).2
      · rw [if_neg hfree] at hscan
        by_cases hlong : readEntry 11 1 (entry n) false = attrLongNameMask
        · exact Or.inr ⟨n, rfl, h.live n (by omega), hfree, hlong⟩
        · rw [if_neg hlong] at hscan
          cases hc : scan'.cname (entry n) with
          | none => simp [hc] at hscan
          | some cname =>
            rw [hc] at hscan
            simp only at hscan
            split at hscan
            · cases hscan
            · cases hscan
              exact Or.inl rfl

/-- At the end of a well-formed directory no LFN entry is in hand. -/
theorem WellFormed.lfn_zero (h : WellFormed entry pos) {scan : LfnScan}
    (hscan : scanFrom name entry pos 0 {} = .next scan) : scan.lfn = 0 := by
  rcases h.lfn_or_long le_rfl hscan with hzero | ⟨i, hi, hlong⟩
  · exact hzero
  · have := (h.runs i (by omega) hlong).1
    omega

end WellFormed

/-! ## The scan of new entries -/

section New

variable {entry : ℕ → ℕ → UInt8} {name other : List UInt8} {info : EntryInfo} {scan : LfnScan}

theorem scanFrom_long {i n c : ℕ} {ord : UInt8} (h : SameEntry (entry i) (longEntry name ord c))
    (hno : ord.toNat ≠ 0) (hfree : ord.toNat ≠ 0xE5) :
    scanFrom other entry (n + 1) i scan =
      scanFrom other entry n (i + 1) (scan.record ord.toNat (longEntry name ord c)) := by
  have hord : readEntry 0 1 (entry i) false = ord.toNat := by
    rw [h.readEntry (by omega), readEntry_one, longEntry_ord]
  have hattr : readEntry 11 1 (entry i) false = attrLongNameMask := by
    rw [h.readEntry (by omega), readEntry_one, longEntry_attr]
    rfl
  rw [scanFrom, hord, if_neg hno, if_neg hfree, if_pos hattr, h.record]

/-- Whether the NORMAL entry of a name does not look free. -/
def Visible (name : List UInt8) : Prop := charAt name 0 ≠ 0xE5

instance (name : List UInt8) : Decidable (Visible name) := inferInstanceAs (Decidable (_ ≠ _))

theorem toUpper_eq_iff (c : UInt8) : toUpper c = 0xE5 ↔ c = 0xE5 := by
  rw [toUpper]
  constructor
  · intro h
    split at h
    · rename_i hc
      exfalso
      have hand : (c &&& 0xDF).toNat ≤ c.toNat := by
        rw [UInt8.toNat_and]
        exact Nat.and_le_left
      have hlast : c.toNat ≤ 0x7A := UInt8.le_iff_toNat_le.mp hc.2
      rw [h] at hand
      exact absurd (hand.trans hlast) (by decide)
    · exact h
  · rintro rfl
    rfl

theorem toUpper_ne_zero {c : UInt8} (hc : c ≠ 0) : toUpper c ≠ 0 := by
  rw [toUpper]
  split
  · rename_i hletter
    -- the bit of weight 64 is kept
    have hbit : c.toNat / 64 % 2 = 1 := by
      have hfirst : 0x61 ≤ c.toNat := UInt8.le_iff_toNat_le.mp hletter.1
      have hlast : c.toNat ≤ 0x7A := UInt8.le_iff_toNat_le.mp hletter.2
      omega
    intro hzero
    have hand : c.toNat &&& 0xDF = 0 := by
      rw [← show (0xDF : UInt8).toNat = 0xDF from rfl, ← UInt8.toNat_and, hzero]
      rfl
    have htest := congrArg (fun m => m.testBit 6) hand
    simp only [Nat.testBit_and, Nat.zero_testBit] at htest
    have hc6 : c.toNat.testBit 6 = true := by
      rw [Nat.testBit_eq_decide_div_mod_eq]
      exact decide_eq_true hbit
    rw [hc6] at htest
    exact absurd htest (by decide)
  · exact hc

/-- The scan of a NORMAL entry followed by `NO_MORE_ENTRY`. -/
theorem scanFrom_normal {i n length nbLfn : ℕ} (hscan : scan.holds name nbLfn)
    (hlen : checkNameLength name = some (length, nbLfn)) (hpos : 0 < name.length)
    (hzero : ∀ c ∈ name, c ≠ 0) (hcluster : info.cluster < 0x100000000)
    (hsize : info.size < 0x100000000) (h : SameEntry (entry i) (normalEntry name info))
    (hnext : entry (i + 1) 0 = 0) :
    scanFrom other entry (n + 2) i scan =
      if Visible name ∧ other = name.takeWhile isKept then
        .found (i * 32) info { scan with lfn := 0 } else .noMore := by
  have hfirst : charAt name 0 ∈ name := by
    rw [charAt, List.getD_eq_getElem?_getD, List.getElem?_eq_getElem hpos, Option.getD_some]
    exact List.getElem_mem hpos
  have hord : readEntry 0 1 (entry i) false = (toUpper (charAt name 0)).toNat := by
    rw [h.readEntry (by omega), readEntry_one, normalEntry_first hpos]
  have hno : (toUpper (charAt name 0)).toNat ≠ 0 := fun hz =>
    toUpper_ne_zero (hzero _ hfirst) (UInt8.toNat_inj.mp hz)
  have hattr : readEntry 11 1 (entry i) false ≠ attrLongNameMask := by
    rw [h.readEntry (by omega), normalEntry_attr]
    split <;> decide
  have hend (scan' : LfnScan) : scanFrom other entry (n + 1) (i + 1) scan' = .noMore := by
    rw [scanFrom, if_pos]
    rw [readEntry_one, hnext]
    rfl
  rw [show n + 2 = n + 1 + 1 by omega, scanFrom, hord, if_neg hno]
  by_cases hvis : Visible name
  · have hfree : (toUpper (charAt name 0)).toNat ≠ freeEntry := fun hf =>
      hvis ((toUpper_eq_iff _).mp (UInt8.toNat_inj.mp (hf.trans rfl)))
    rw [if_neg hfree, if_neg hattr, hscan.cname hlen hzero]
    by_cases hother : other = name.takeWhile isKept
    · rw [if_pos ⟨hvis, hother⟩]
      simp only [if_pos hother]
      rw [h.entryInfo, entryInfo_normalEntry hcluster hsize]
    · rw [if_neg (fun h => hother h.2)]
      simp only [if_neg hother]
      exact hend _
  · have hfree : (toUpper (charAt name 0)).toNat = freeEntry := by
      rw [Visible, not_not] at hvis
      rw [hvis]
      rfl
    rw [if_pos hfree, if_neg (fun h => hvis h.1)]
    exact hend _

theorem stepList_getElem? (length nbLfn : ℕ) {step m : ℕ} (hm : m < step) :
    (stepList name info length nbLfn step)[m]? =
      some (stepBytes name info length nbLfn (step - m)) := by
  induction step generalizing m with
  | zero => omega
  | succ step ih =>
    cases m with
    | zero => rfl
    | succ m =>
      rw [stepList, List.getElem?_cons_succ, ih (by omega), Nat.add_sub_add_right]

theorem checkNameLength_eq {length nbLfn : ℕ} (h : checkNameLength name = some (length, nbLfn)) :
    length = name.length ∧ (nbLfn = 1 ∨ nbLfn = 2 ∨ nbLfn = 3) := by
  rw [checkNameLength] at h
  split at h
  · cases h
    exact ⟨rfl, Or.inl rfl⟩
  · split at h
    · cases h
      exact ⟨rfl, Or.inr (Or.inl rfl)⟩
    · split at h
      · cases h
        exact ⟨rfl, Or.inr (Or.inr rfl)⟩
      · cases h

/-- The scan of the entries written for a name, by a scanner that has nothing in hand. -/
theorem scanFrom_new {blocks : ℕ → Block} {pos length nbLfn : ℕ} (hscan : scan.lfn = 0)
    (hlen : checkNameLength name = some (length, nbLfn)) (hpos : 0 < name.length)
    (hzero : ∀ c ∈ name, c ≠ 0) (hcluster : info.cluster < 0x100000000)
    (hsize : info.size < 0x100000000) (n : ℕ) :
    (scanFrom other (entryAt (writeEntries blocks pos
        (stepList name info length nbLfn (nbLfn + 2)))) (nbLfn + (n + 2)) pos scan).answer other =
      if Visible name ∧ other = name.takeWhile isKept then some (some (other, info))
      else some none := by
  set entry := entryAt (writeEntries blocks pos (stepList name info length nbLfn (nbLfn + 2)))
    with hentry
  have hbyte (m : ℕ) (hm : m < nbLfn + 2) {b : ℕ}
      (hb : b < (stepBytes name info length nbLfn (nbLfn + 2 - m)).length) :
      entry (pos + m) b = (stepBytes name info length nbLfn (nbLfn + 2 - m)).getD b 0 :=
    entryAt_writeEntries (stepList_length_le _ _ _ _ _) (stepList_getElem? length nbLfn hm) hb
  obtain ⟨rfl, hnb⟩ := checkNameLength_eq hlen
  have hnormal : SameEntry (entry (pos + nbLfn)) (normalEntry name info) := by
    intro b hb
    have hstep : nbLfn + 2 - nbLfn = 2 := by omega
    have := hbyte nbLfn (by omega) (b := b)
    rw [hstep] at this
    exact this (by simpa [stepBytes, normalEntryBytes_length] using hb)
  have hlast : entry (pos + nbLfn + 1) 0 = 0 := by
    have hstep : nbLfn + 2 - (nbLfn + 1) = 1 := by omega
    have := hbyte (nbLfn + 1) (by omega) (b := 0)
    rw [hstep] at this
    exact this (by simp [stepBytes])
  have hlong (m c : ℕ) (ord : UInt8) (hm : m < nbLfn)
      (hstep : stepBytes name info name.length nbLfn (nbLfn + 2 - m) =
        longEntryBytes name name.length ord (List.range 32) c) :
      SameEntry (entry (pos + m)) (longEntry name ord c) := by
    intro b hb
    have := hbyte m (by omega) (b := b)
    rw [hstep] at this
    exact this (by simpa [longEntryBytes_length] using hb)
  suffices h : ∃ scan', scan'.holds name nbLfn ∧
      scanFrom other entry (nbLfn + (n + 2)) pos scan =
        scanFrom other entry (n + 2) (pos + nbLfn) scan' by
    obtain ⟨scan', hholds, heq⟩ := h
    rw [heq, scanFrom_normal hholds hlen hpos hzero hcluster hsize hnormal hlast]
    split <;> rfl
  have hdecode := getNameFromLong_longEntry hzero
  rcases hnb with rfl | rfl | rfl
  · refine ⟨scan.record (0x41 : UInt8).toNat (longEntry name 0x41 0),
      ⟨?_, ?_, by omega, by omega⟩, ?_⟩
    · simp [LfnScan.record, hscan]
    · simp [LfnScan.record, hdecode]
    · rw [show 1 + (n + 2) = (n + 2) + 1 by omega]
      exact scanFrom_long (hlong 0 0 0x41 (by omega) rfl) (by decide) (by decide)
  · refine ⟨(scan.record (0x42 : UInt8).toNat (longEntry name 0x42 13)).record
      (0x01 : UInt8).toNat (longEntry name 0x01 0), ⟨?_, ?_, fun _ => ?_, by omega⟩, ?_⟩
    · simp [LfnScan.record, hscan]
    · simp [LfnScan.record, hdecode]
    · simp [LfnScan.record, hdecode]
    · rw [show 2 + (n + 2) = (n + 2) + 1 + 1 by omega]
      have h₀ : SameEntry (entry pos) (longEntry name 0x42 13) := hlong 0 13 _ (by omega) rfl
      have h₁ : SameEntry (entry (pos + 1)) (longEntry name 0x01 0) :=
        hlong 1 0 _ (by omega) rfl
      rw [scanFrom_long h₀ (by decide) (by decide), scanFrom_long h₁ (by decide) (by decide)]
  · refine ⟨((scan.record (0x43 : UInt8).toNat (longEntry name 0x43 26)).record
      (0x02 : UInt8).toNat (longEntry name 0x02 13)).record (0x01 : UInt8).toNat
        (longEntry name 0x01 0), ⟨?_, ?_, fun _ => ?_, fun _ => ?_⟩, ?_⟩
    · simp [LfnScan.record, hscan]
    · simp [LfnScan.record, hdecode]
    · simp [LfnScan.record, hdecode]
    · simp [LfnScan.record, hdecode]
    · rw [show 3 + (n + 2) = (n + 2) + 1 + 1 + 1 by omega]
      have h₀ : SameEntry (entry pos) (longEntry name 0x43 26) := hlong 0 26 _ (by omega) rfl
      have h₁ : SameEntry (entry (pos + 1)) (longEntry name 0x02 13) :=
        hlong 1 13 _ (by omega) rfl
      have h₂ : SameEntry (entry (pos + 1 + 1)) (longEntry name 0x01 0) :=
        hlong 2 0 _ (by omega) rfl
      rw [scanFrom_long h₀ (by decide) (by decide), scanFrom_long h₁ (by decide) (by decide),
        scanFrom_long h₂ (by decide) (by decide)]

end New

end GietVm.Fat
