import GietVm.Fat.Calm
import GietVm.Fat.Extend

/-!
# What `_fat_mkdir` leaves behind

The call searches the parent directory, so when it returns the clusters of the parent up to
the new entry are cached, and the inode of the new directory points to one of them. The slot
of its cluster ends a chain, and its only cluster holds the entries `.` and `..` over
whatever the heap has handed out.
-/

namespace GietVm.Fat

open GietVm.Library

variable {S : Scope} {p c : Ptr} {s s' : FatState}

/-! ## The entry in the parent directory -/

theorem scanNoMore_lt {buffer : Block} {n offset r : ℕ} (h : scanNoMore buffer n offset = some r) :
    r < offset + 32 * n := by
  induction n generalizing offset with
  | zero => cases h
  | succ n ih =>
    rw [scanNoMore] at h
    split at h
    · injection h with h
      omega
    · have := ih h
      omega

/-- The search for `NO_MORE_ENTRY` leaves the clusters that it has gone through in the cache. Only
the first ones matter, since the index of an entry has 16 bits. -/
theorem findNoMore_inv (hn : S.touched none) (hp : S.touched (some p)) {fuel k : ℕ}
    {r : Option (ℕ × ℕ)} (hok : s.CachesOk) (h : findNoMore (some p) fuel k s = .ok r s') :
    s'.CachesOk ∧ Calm S s s' ∧ ∀ clusterId offset, r = some (clusterId, offset) →
      k ≤ clusterId ∧ offset < 4096 ∧ ∀ j, k ≤ j → j ≤ clusterId → j < 512 →
        ∃ desc, s'.slot (some p) j = some desc := by
  induction fuel generalizing s k with
  | zero => cases h
  | succ fuel ih =>
    obtain ⟨b, s₁, hload, hrest⟩ := exits_bind_inv h
    obtain ⟨hok₁, hcalm₁, hslot⟩ := getBuffer_inv hn hp hok hload
    cases b with
    | none =>
      injection hrest with hr hs
      subst hs hr
      exact ⟨hok₁, hcalm₁, nofun⟩
    | some pdesc =>
      simp only at hrest
      cases hscan : scanNoMore pdesc.buffer 128 0 with
      | some offset =>
        rw [hscan] at hrest
        obtain ⟨_, s₂, hmodify, hrest⟩ := exits_bind_inv hrest
        have hdirty : Calms S (modifyDesc (some p) k fun desc => { desc with dirty := true }) :=
          calms_modifyDesc hp k (fun _ => rfl) (Or.inr fun _ => rfl)
        obtain ⟨hok₂, hcalm₂⟩ := hdirty s₁ _ s₂ hmodify hok₁
        injection hrest with hr hs
        subst hs
        refine ⟨hok₂, hcalm₁.trans hcalm₂, fun clusterId offset' heq => ?_⟩
        rw [← hr, Option.some.injEq, Prod.mk.injEq] at heq
        obtain ⟨rfl, rfl⟩ := heq
        refine ⟨le_rfl, by simpa using scanNoMore_lt hscan, fun j hj hj' hlt => ?_⟩
        obtain rfl : j = k := by omega
        obtain ⟨desc, hdesc, -⟩ := hcalm₂.look (some p) j pdesc (hslot pdesc rfl (by omega))
        exact ⟨desc, hdesc⟩
      | none =>
        rw [hscan] at hrest
        obtain ⟨hok', hcalm', hfound⟩ := ih hok₁ hrest
        refine ⟨hok', hcalm₁.trans hcalm', fun clusterId offset heq => ?_⟩
        obtain ⟨hle, hlt, hslots⟩ := hfound clusterId offset heq
        refine ⟨by omega, hlt, fun j hj hj' hsmall => ?_⟩
        by_cases hjk : j = k
        · subst hjk
          obtain ⟨desc, hdesc, -⟩ := hcalm'.look (some p) j pdesc (hslot pdesc rfl (by omega))
          exact ⟨desc, hdesc⟩
        · exact hslots j (by omega) hj' hsmall

theorem calms_writeStep (hp : S.touched (some p)) (hw : S.written (some p)) (name : List UInt8)
    (info : EntryInfo) (length nbLfn clusterId : ℕ) {step : ℕ} (hc : S.placed c ∨ step ≠ 1)
    (current offset : ℕ) :
    Calms S (writeSteps.writeStep c (some p) name info length nbLfn clusterId step current
      offset) := by
  refine (calms_modifyDesc hp current ?_ (Or.inl hw)).bind fun _ => ?_
  · exact fun _ => rfl
  · split
    · exact calms_setDentry (hc.resolve_right fun h => h (by omega)) _
    · exact Calms.pure _

/-- The FSM writes in the parent directory, and gives the new inode its entry in its last state
but one. -/
theorem calms_writeSteps (hn : S.touched none) (hp : S.touched (some p)) (hw : S.written (some p))
    (name : List UInt8) (info : EntryInfo) (length nbLfn clusterId : ℕ) {step : ℕ}
    (hc : S.placed c ∨ step ≤ 1) (current offset : ℕ) :
    Calms S (writeSteps c (some p) name info length nbLfn clusterId step current offset) := by
  induction step generalizing current offset with
  | zero => exact Calms.pure _
  | succ step ih =>
    have hc₁ : S.placed c ∨ step ≠ 1 := hc.imp_right fun h => by omega
    have hc₂ : S.placed c ∨ step ≤ 1 := hc.imp_right fun h => by omega
    rw [writeSteps]
    split
    · refine (calms_getBuffer hn hp (clusterId + 1)).bind fun r => ?_
      cases r with
      | none => exact Calms.pure _
      | some desc =>
        refine (calms_modifyDesc hp _ ?_ (Or.inl hw)).bind fun _ => ?_
        · exact fun _ => rfl
        · exact (calms_writeStep hp hw name info length nbLfn clusterId hc₁ _ _).bind fun _ =>
            ih hc₂ _ _
    · exact (calms_writeStep hp hw name info length nbLfn clusterId hc₁ _ _).bind fun _ =>
        ih hc₂ _ _

theorem writeStep_dentry {name : List UInt8} {info : EntryInfo}
    {length nbLfn clusterId current offset : ℕ}
    (h : writeSteps.writeStep c (some p) name info length nbLfn clusterId 1 current offset s =
      .ok () s') (hoffset : offset < 4096) :
    ∃ inode, s'.inodes c = some inode ∧ inode.dentry / 0x80 = clusterId % 512 := by
  obtain ⟨_, s₁, -, hset⟩ := exits_bind_inv h
  rw [if_pos rfl, modifyInode] at hset
  split at hset
  · rename_i inode hc
    injection hset with _ hs
    subst hs
    refine ⟨_, Function.update_self _ _ _, ?_⟩
    change (clusterId * 4096 + offset) / 32 % 0x10000 / 0x80 = clusterId % 512
    omega
  · cases hset

/-- One state of the FSM, with the next cluster loaded when the current one is full. -/
theorem writeSteps_turn (hn : S.touched none) (hp : S.touched (some p)) (hw : S.written (some p))
    {name : List UInt8} {info : EntryInfo} {length nbLfn clusterId step current offset : ℕ}
    (hok : s.CachesOk)
    (h : writeSteps c (some p) name info length nbLfn clusterId (step + 1) current offset s =
      .ok false s') :
    ∃ s₁ s₂ current' offset', s₁.CachesOk ∧ (offset' = offset ∧ offset < 4096 ∨ offset' = 0) ∧
      writeSteps.writeStep c (some p) name info length nbLfn clusterId step current' offset' s₁ =
        .ok () s₂ ∧
      writeSteps c (some p) name info length nbLfn clusterId step current' (offset' + 32) s₂ =
        .ok false s' := by
  rw [writeSteps] at h
  split at h
  · obtain ⟨r, s₀, hload, hrest⟩ := exits_bind_inv h
    have hok₀ := (calms_getBuffer hn hp (clusterId + 1) s r s₀ hload hok).1
    cases r with
    | none =>
      injection hrest with hr _
      cases hr
    | some desc =>
      obtain ⟨_, s₁, hmodify, hrest⟩ := exits_bind_inv hrest
      have hdirty : Calms S (modifyDesc (some p) (clusterId + 1) fun desc =>
          { desc with dirty := true }) :=
        calms_modifyDesc hp _ (fun _ => rfl) (Or.inl hw)
      have hok₁ := (hdirty s₀ _ s₁ hmodify hok₀).1
      obtain ⟨_, s₂, hwrite, hrest⟩ := exits_bind_inv hrest
      exact ⟨s₁, s₂, clusterId + 1, 0, hok₁, Or.inr rfl, hwrite, hrest⟩
  · rename_i hlt
    obtain ⟨_, s₂, hwrite, hrest⟩ := exits_bind_inv h
    exact ⟨s, s₂, current, offset, hok, Or.inl ⟨rfl, not_le.mp hlt⟩, hwrite, hrest⟩

/-- The new inode points into the cluster where `NO_MORE_ENTRY` was found, even when its NORMAL
entry is in the next one. -/
theorem writeSteps_dentry (hn : S.touched none) (hp : S.touched (some p))
    (hw : S.written (some p)) (hc : S.placed c) {name : List UInt8} {info : EntryInfo}
    {length nbLfn clusterId step current offset : ℕ} (hok : s.CachesOk) (hstep : 2 ≤ step)
    (h : writeSteps c (some p) name info length nbLfn clusterId step current offset s =
      .ok false s') :
    ∃ inode, s'.inodes c = some inode ∧ inode.dentry / 0x80 = clusterId % 512 := by
  induction step generalizing s current offset with
  | zero => omega
  | succ step ih =>
    obtain ⟨s₁, s₂, current', offset', hok₁, hoffset, hwrite, hrest⟩ :=
      writeSteps_turn hn hp hw hok h
    have hok₂ := (calms_writeStep hp hw name info length nbLfn clusterId (Or.inl hc) current'
      offset' s₁ _ s₂ hwrite hok₁).1
    by_cases hlast : step = 1
    · -- the states after the one that sets the index keep it
      subst hlast
      obtain ⟨inode, hinode, hdentry⟩ := writeStep_dentry hwrite (by omega)
      have hcalms : Calms ⟨S.touched, S.written, fun _ => False⟩
          (writeSteps c (some p) name info length nbLfn clusterId 1 current' (offset' + 32)) :=
        calms_writeSteps (S := ⟨S.touched, S.written, fun _ => False⟩) hn hp hw name info length
          nbLfn clusterId (Or.inr le_rfl) _ _
      have hsame := (hcalms s₂ _ s' hrest hok₂).2.dentry c not_false
      rw [hinode, Option.map_some, Option.map_eq_some_iff] at hsame
      obtain ⟨inode', hinode', hsame⟩ := hsame
      exact ⟨inode', hinode', by rw [hsame, hdentry]⟩
    · exact ih hok₂ (by omega) hrest

/-- The entry has been added: the name has an acceptable length, and the clusters of the parent up
to the one that the inode points into are cached. -/
theorem addDirEntry_inv (hn : S.touched none) (hp : S.touched (some p)) (hw : S.written (some p))
    (hc : S.placed c) {fuel : ℕ} (hok : s.CachesOk)
    (h : addDirEntry fuel c (some p) s = .ok false s') :
    s'.CachesOk ∧ Calm S s s' ∧ ∃ inode inode', s.inodes c = some inode ∧
      s'.inodes c = some inode' ∧ checkNameLength inode.name ≠ none ∧
      ∀ j ≤ inode'.dentry / 0x80, ∃ desc, s'.slot (some p) j = some desc := by
  obtain ⟨inode, s₀, hget, hrest⟩ := exits_bind_inv h
  obtain ⟨rfl, hinode⟩ := getInode_inv hget
  cases hname : checkNameLength inode.name with
  | none =>
    simp only [hname] at hrest
    injection hrest with hr _
    cases hr
  | some lengths =>
    obtain ⟨length, nbLfn⟩ := lengths
    simp only [hname] at hrest
    obtain ⟨r, s₁, hfind, hrest⟩ := exits_bind_inv hrest
    obtain ⟨hok₁, hcalm₁, hslots⟩ := findNoMore_inv hn hp hok hfind
    cases r with
    | none =>
      injection hrest with hr _
      cases hr
    | some found =>
      obtain ⟨clusterId, offset⟩ := found
      obtain ⟨-, -, hslots⟩ := hslots clusterId offset rfl
      obtain ⟨hok', hcalm'⟩ := calms_writeSteps hn hp hw inode.name _ length nbLfn clusterId
        (Or.inl hc) clusterId offset s₁ _ s' hrest hok₁
      obtain ⟨inode', hinode', hdentry⟩ :=
        writeSteps_dentry hn hp hw hc hok₁ (by omega) hrest
      refine ⟨hok', hcalm₁.trans hcalm', inode, inode', hinode, hinode', by simp [hname],
        fun j hj => ?_⟩
      obtain ⟨desc, hdesc⟩ := hslots j (Nat.zero_le j) (by omega) (by omega)
      obtain ⟨desc', hdesc', -⟩ := hcalm'.look (some p) j desc hdesc
      exact ⟨desc', hdesc'⟩

/-! ## The cluster -/

theorem calms_findNextFree (hn : S.touched none) (max fuel current : ℕ) :
    Calms S (findNextFree max fuel current) := by
  induction fuel generalizing current with
  | zero =>
    rw [findNextFree]
    refine (calms_getFatEntry hn _).bind fun r => ?_
    cases r with
    | none => exact Calms.pure _
    | some value =>
      dsimp only
      split
      · exact Calms.pure _
      · exact Calms.pure _
  | succ fuel ih =>
    rw [findNextFree]
    refine (calms_getFatEntry hn _).bind fun r => ?_
    cases r with
    | none => exact Calms.pure _
    | some value =>
      dsimp only
      split
      · exact Calms.pure _
      · split
        · exact ih _
        · exact Calms.pure _

/-- The Fat-Cache holds the slot of a cluster, which ends a chain. -/
def FatState.Ends (s : FatState) (c : ℕ) : Prop :=
  ∃ desc, s.fatLeaf (c / 0x400) = some desc ∧
    desc.buffer.word (4 * (c % 0x400)) = endOfChainClusterMax

theorem Calm.ends (h : Calm S s s') (hw : ¬ S.written none) {k : ℕ} (hends : s.Ends k) :
    s'.Ends k := by
  obtain ⟨desc, hleaf, hword⟩ := hends
  obtain ⟨desc', hleaf', -, hbuffer⟩ := h.look none _ desc hleaf
  exact ⟨desc', hleaf', by rw [hbuffer hw, hword]⟩

/-- A cluster that has been allocated ends a chain. -/
theorem allocateOneCluster_inv (hn : S.touched none) (hw : S.written none) {r : Option ℕ}
    (hok : s.CachesOk) (h : allocateOneCluster s = .ok r s') :
    s'.CachesOk ∧ Calm S s s' ∧ ∀ cluster, r = some cluster → s'.Ends cluster := by
  rw [allocateOneCluster, exits_bind_get] at h
  obtain ⟨found, s₁, hfind, hrest⟩ := exits_bind_inv h
  obtain ⟨hok₁, hcalm₁⟩ := calms_findNextFree hn _ _ _ s _ s₁ hfind hok
  split at hrest
  · obtain ⟨failed, s₂, hset, hrest⟩ := exits_bind_inv hrest
    obtain ⟨hok₂, hcalm₂⟩ := calms_setFatEntry hn hw _ _ s₁ _ s₂ hset hok₁
    cases failed with
    | true =>
      injection hrest with hr hs
      subst hr hs
      exact ⟨hok₂, hcalm₁.trans hcalm₂, fun _ heq => by cases heq⟩
    | false =>
      obtain ⟨desc, hleaf, hword⟩ := setFatEntry_leaf hok₁ hset
      obtain ⟨_, s₃, hcount, hrest⟩ := exits_bind_inv hrest
      injection hcount with _ hs₃
      injection hrest with hr hs
      subst hs hs₃
      have hcaches : ∀ owner, FatState.cacheAt _ owner = s₂.cacheAt owner := fun owner => by
        cases owner <;> rfl
      refine ⟨hok₂.of_cacheAt hcaches, (hcalm₁.trans hcalm₂).trans
        (Calm.of_cacheAt rfl le_rfl (fun _ _ => rfl) hcaches), fun cluster heq => ?_⟩
      rw [← hr, Option.some.injEq] at heq
      exact ⟨desc, heq ▸ hleaf, heq ▸ hword⟩
  · injection hrest with hr hs
    subst hr hs
    exact ⟨hok₁, hcalm₁, fun _ heq => by cases heq⟩

/-! ## The special entries -/

/-- The first cluster of a new directory, over what the heap has handed out. -/
def newBlock (cluster : ℕ) (father : EntryInfo) (garbage : Block) : Block :=
  (garbage.write 0 (addSpecialDirectories.specialEntry 1 ⟨cluster, 0, true⟩)).write 32
    (addSpecialDirectories.specialEntry 2 father)

/-- A buffer is only allocated for a data cluster. -/
theorem allocateOneBuffer_cluster {k cluster : ℕ}
    (h : allocateOneBuffer c k cluster s = .ok () s') : 2 ≤ cluster := by
  by_contra hlt
  obtain ⟨_, s₁, -, hrest⟩ := exits_bind_inv h
  obtain ⟨found, s₂, -, hrest⟩ := exits_bind_inv hrest
  cases found with
  | leaf desc => cases hrest
  | node address children => cases hrest
  | null =>
    obtain ⟨pdesc, s₃, -, hrest⟩ := exits_bind_inv hrest
    obtain ⟨lba, s₄, hlba, -⟩ := exits_bind_inv hrest
    rw [clusterToLba, if_pos (not_le.mp hlt)] at hlba
    cases hlba

/-- The descriptor of the first cluster, with the special entries. -/
def withSpecial (new father : Inode) (desc : Desc) : Desc :=
  { desc with buffer := newBlock new.cluster ⟨father.cluster, father.size, true⟩ desc.buffer }

/-- Writing the special entries is writing through the descriptor of the first cluster. -/
theorem addSpecialDirectories_modifyDesc {new father : Inode} (hc : s.inodes c = some new)
    (hp : s.inodes p = some father) (hsize : new.size = 0)
    (h : addSpecialDirectories c p s = .ok () s') :
    modifyDesc (some c) 0 (withSpecial new father) s = .ok () s' := by
  rw [addSpecialDirectories, exits_bind_ok (getInode_run hc), exits_bind_ok (getInode_run hp),
    hsize] at h
  generalize new.cache = root at h
  cases hlevels : new.levels with
  | zero =>
    rw [hlevels] at h
    cases h
  | succ n =>
    rw [hlevels] at h
    cases n with
    | succ n => cases h
    | zero =>
      cases root with
      | null => cases h
      | leaf desc => cases h
      | node address children =>
        simp only at h
        cases hfirst : children 0 with
        | null =>
          rw [hfirst] at h
          cases h
        | node address children =>
          rw [hfirst] at h
          cases h
        | leaf desc =>
          rw [hfirst] at h
          exact h

/-- The first cluster of the new directory `c`, whose buffer has come from the heap. -/
theorem specialEntries_inv {father : Inode} {name : List UInt8} {cluster dentry : ℕ}
    (hc : s.inodes c = some (childInode c name ⟨cluster, 0, true⟩ dentry p father))
    {father' : Inode} (hp : s.inodes p = some father') (hok : s.CachesOk)
    {s₁ : FatState} (halloc : allocateOneBuffer c 0 cluster s = .ok () s₁)
    (hspecial : addSpecialDirectories c p s₁ = .ok () s') :
    s'.CachesOk ∧ s'.bare = s.bare ∧ s.brk ≤ s'.brk ∧
      (∀ owner, owner ≠ some c → s'.cacheAt owner = s.cacheAt owner) ∧
      ∃ desc, s'.slot (some c) 0 = some desc ∧ s.brk ≤ desc.bufferAddress ∧
        desc.buffer = newBlock cluster ⟨father'.cluster, father'.size, true⟩
          (s.garbage desc.bufferAddress) := by
  have hcok := hok _ _ _ (cacheAt_inode hc)
  have hempty : s.slot (some c) 0 = none := by
    rw [slot_eq (cacheAt_inode hc)]
    exact slotOf_addRoot 0 .null _ 0
  obtain ⟨s₂, desc, hrun, hatt, -, -, hbuffer, hfresh, hbrk, -⟩ :=
    allocateOneBuffer_run hc hcok (Or.inr (by decide)) hempty (allocateOneBuffer_cluster halloc)
  rw [hrun] at halloc
  injection halloc with _ hs₂
  subst hs₂
  obtain ⟨new₁, hc₁, hcore, hcok₁, -⟩ := hatt.cacheOk _ hc
  obtain ⟨father₁, hp₁, hcore'⟩ := bare_inode hatt.bare hp
  have hok₁ : s₂.CachesOk := by
    intro owner levels root hcache
    by_cases ho : owner = some c
    · subst ho
      rw [cacheAt_inode hc₁, Option.some.injEq, Prod.mk.injEq] at hcache
      rw [← hcache.1, ← hcache.2]
      exact hcok₁
    · rw [hatt.others owner ho] at hcache
      exact hok owner levels root hcache
  have hslot : s₂.slot (some c) 0 = some desc := by rw [hatt.slot, if_pos rfl]
  have hsize : new₁.size = 0 := by
    have := congrArg Inode.size hcore
    exact this
  have hmodify := addSpecialDirectories_modifyDesc hc₁ hp₁ hsize hspecial
  have hcalms : Calms ⟨fun _ => True, fun _ => True, fun _ => True⟩
      (modifyDesc (some c) 0 (withSpecial new₁ father₁)) :=
    calms_modifyDesc trivial 0 (fun _ => rfl) (Or.inl trivial)
  obtain ⟨s₃, hwrite, hedit⟩ := modifyDesc_run (cacheAt_inode hc₁)
    (hok₁ _ _ _ (cacheAt_inode hc₁)) hslot (withSpecial new₁ father₁)
  have hok' := (hcalms s₂ _ s' hmodify hok₁).1
  rw [hwrite] at hmodify
  injection hmodify with _ hs₃
  subst hs₃
  refine ⟨hok', hedit.bare.trans hatt.bare, hedit.brk.ge.trans' hbrk, fun owner ho => ?_,
    withSpecial new₁ father₁ desc, ?_, hfresh, ?_⟩
  · rw [hedit.others owner ho, hatt.others owner ho]
  · rw [hedit.slot, if_pos ⟨rfl, rfl⟩]
  · have hcluster : new₁.cluster = cluster := core_cluster hcore
    have hfather : father₁.cluster = father'.cluster := core_cluster hcore'
    have hfsize : father₁.size = father'.size := by
      have := congrArg Inode.size hcore'
      exact this
    change newBlock new₁.cluster ⟨father₁.cluster, father₁.size, true⟩ desc.buffer = _
    rw [hcluster, hfather, hfsize, hbuffer]
    rfl

end GietVm.Fat
