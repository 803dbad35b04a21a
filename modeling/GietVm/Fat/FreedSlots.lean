import GietVm.Fat.Volume
import GietVm.Fat.Loads
import GietVm.Fat.Files
import Mathlib.Data.Finset.Card
import Mathlib.Order.Interval.Finset.Nat

/-!
# The slots that a release frees

`_clusters_release` reads the slot of a cluster, frees it, and goes on to the value that it
has read. It trusts the cluster that it is given: the index may lie outside the FAT, and
then the tree of the Fat-Cache takes it for another one. What remains true is said by
`Cleared`: the descriptor that the tree finds for an index shows a free slot. A slot that
has been freed stays so until the end of the call, a second visit of it reads zero and goes
on to slot 0, and a second visit of slot 0 never ends. So a call that returns has visited
less than `2 ^ 30` slots, and has counted every visit as one more free cluster.
-/

namespace GietVm.Fat

open GietVm.Library

/-- The descriptor that the Fat-Cache finds for an index. -/
def FatState.fatLeaf (s : FatState) (k : ℕ) : Option Desc :=
  RadixTree.get? s.fatCacheLevels s.fatCacheRoot k

/-- The Fat-Cache holds the slot of a cluster, and it is free. -/
def FatState.Cleared (s : FatState) (c : ℕ) : Prop :=
  ∃ desc, s.fatLeaf (c / 0x400) = some desc ∧ desc.buffer.word (4 * (c % 0x400)) = freeCluster

/-- What a step of a release or of a truncation keeps. -/
structure Kept (s s' : FatState) : Prop where
  levels : s'.fatCacheLevels = s.fatCacheLevels
  ok : s'.FatCacheOk
  number : s'.freeClustersNumber = s.freeClustersNumber
  cleared : ∀ c, s.Cleared c → s'.Cleared c
  /-- Live inodes keep their place and their first cluster. -/
  inodes : ∀ q inode, s.inodes q = some inode → ∃ inode', s'.inodes q = some inode' ∧
    inode'.parent = inode.parent ∧ inode'.cluster = inode.cluster

section Kept

variable {s s' s'' : FatState} {c k : ℕ}

theorem Kept.refl (hok : s.FatCacheOk) : Kept s s :=
  ⟨rfl, hok, rfl, fun _ h => h, fun _ inode h => ⟨inode, h, rfl, rfl⟩⟩

theorem Kept.trans (h : Kept s s') (h' : Kept s' s'') : Kept s s'' where
  levels := h'.levels.trans h.levels
  ok := h'.ok
  number := h'.number.trans h.number
  cleared := fun c hc => h'.cleared c (h.cleared c hc)
  inodes := by
    intro q inode hq
    obtain ⟨inode₁, hq₁, hp₁, hc₁⟩ := h.inodes q inode hq
    obtain ⟨inode₂, hq₂, hp₂, hc₂⟩ := h'.inodes q inode₁ hq₁
    exact ⟨inode₂, hq₂, hp₂.trans hp₁, hc₂.trans hc₁⟩

/-- Steps that leave the Fat-Cache alone. -/
theorem Kept.of_fat (hok : s.FatCacheOk) (hlevels : s'.fatCacheLevels = s.fatCacheLevels)
    (hroot : s'.fatCacheRoot = s.fatCacheRoot)
    (hnumber : s'.freeClustersNumber = s.freeClustersNumber)
    (hinodes : ∀ q inode, s.inodes q = some inode → ∃ inode', s'.inodes q = some inode' ∧
      inode'.parent = inode.parent ∧ inode'.cluster = inode.cluster) : Kept s s' where
  levels := hlevels
  ok := by
    rw [FatState.FatCacheOk, hlevels, hroot]
    exact hok
  number := hnumber
  cleared := by
    rintro c ⟨desc, hleaf, hzero⟩
    refine ⟨desc, ?_, hzero⟩
    rw [FatState.fatLeaf, hlevels, hroot]
    exact hleaf
  inodes := hinodes

/-- Operations on a File-Cache. -/
theorem Kept.of_loaded {p : Ptr} (hok : s.FatCacheOk) (h : Loaded (some p) s s') : Kept s s' := by
  refine Kept.of_fat hok h.fatCache.1 h.fatCache.2 (settled_freeNumber h.settled) ?_
  intro q inode hq
  obtain ⟨inode', hq', hcore⟩ := settled_inode h.settled hq
  have hparent := congrArg Inode.parent hcore
  exact ⟨inode', hq', hparent, core_cluster hcore⟩

/-- Steps that change descriptors of the Fat-Cache without their contents. -/
theorem Kept.of_leaves (hlevels : s'.fatCacheLevels = s.fatCacheLevels) (hok : s'.FatCacheOk)
    (hnumber : s'.freeClustersNumber = s.freeClustersNumber) (hinodes : s'.inodes = s.inodes)
    (hleaf : ∀ k desc, s.fatLeaf k = some desc →
      ∃ desc', s'.fatLeaf k = some desc' ∧ desc'.buffer = desc.buffer) : Kept s s' where
  levels := hlevels
  ok := hok
  number := hnumber
  cleared := by
    rintro c ⟨desc, hslot, hzero⟩
    obtain ⟨desc', hslot', hbuffer⟩ := hleaf _ desc hslot
    exact ⟨desc', hslot', by rw [hbuffer, hzero]⟩
  inodes := by
    intro q inode hq
    exact ⟨inode, by rw [hinodes]; exact hq, rfl, rfl⟩

/-- Opening the path of any index, covered by the tree or not. -/
theorem openCache_any {owner : Option Ptr} {levels : ℕ} {root : CacheTree}
    (h : s.cacheAt owner = some (levels, root)) (hok : CacheOk levels root) (k : ℕ) :
    ∃ root' brk, openCache owner k s =
        .ok (match RadixTree.get? levels root k with | some desc => .leaf desc | none => .null)
          ({ s with brk := brk }.withCache owner root') ∧
      s.brk ≤ brk ∧ CacheOk levels root' ∧ RadixTree.PathOpen levels root' k ∧
      ∀ k', RadixTree.get? levels root' k' = RadixTree.get? levels root k' := by
  obtain ⟨root', brk, hopen, hshaped, hnode, hpath, hle, hget⟩ :=
    RadixTree.openPath_spec hok.shaped (fun _ => hok.isNode) s.brk k
  refine ⟨root', brk, ?_, hle, ⟨hok.levels_pos, hnode hok.levels_pos, hshaped⟩, hpath, hget⟩
  have hfind : RadixTree.find levels root' k =
      (match RadixTree.get? levels root k with | some desc => .leaf desc | none => .null) := by
    rw [RadixTree.find_eq levels root' k hshaped, hget]
    cases RadixTree.get? levels root k <;> rfl
  have hcache : ({ s with brk := brk } : FatState).cacheAt owner = some (levels, root) := by
    rw [← h]
    cases owner <;> rfl
  obtain ⟨n, rfl⟩ := Nat.exists_eq_succ_of_ne_zero hok.levels_pos
  rw [openCache, exits_bind_ok (getCache_run h)]
  simp only [exits_bind_get, hopen, exits_bind_set, exits_bind_ok (modifyCache_run hcache _),
    hfind, exits_pure]

/-- A block that the Fat-Cache has is returned, and a block that is returned is there. -/
theorem getFatBufferFromCache_inv (hok : s.FatCacheOk) {r : Option Desc}
    (h : getFatBufferFromCache k s = .ok r s') :
    Kept s s' ∧ (∀ desc, s.fatLeaf k = some desc → r = some desc) ∧
      ∀ desc, r = some desc → s'.fatLeaf k = some desc := by
  have hcache : s.cacheAt none = some (s.fatCacheLevels, s.fatCacheRoot) := rfl
  obtain ⟨root, brk, hopen, -, hok₁, hpath, hget⟩ := openCache_any hcache hok k
  rw [getFatBufferFromCache, loadBuffer, exits_bind_ok hopen] at h
  have hfold : RadixTree.get? s.fatCacheLevels s.fatCacheRoot k = s.fatLeaf k := rfl
  rw [hfold] at h
  cases hleaf : s.fatLeaf k with
  | some desc =>
    rw [hleaf] at h
    injection h with hr hs
    subst hr hs
    refine ⟨Kept.of_leaves rfl hok₁ rfl rfl fun k' d hd => ⟨d, (hget k').trans hd, rfl⟩,
      fun d hd => hd, fun d hd => ?_⟩
    rw [← hd, ← hleaf]
    exact hget k
  | none =>
    rw [hleaf] at h
    obtain ⟨lba, s₁, hlba, h⟩ := exits_bind_inv h
    injection hlba with hlba hs₁
    subst hlba hs₁
    obtain ⟨buf, s₁, hbuf, h⟩ := exits_bind_inv h
    injection hbuf with hbuf hs₁
    subst hbuf hs₁
    obtain ⟨content, s₁, hread, h⟩ := exits_bind_inv h
    injection hread with hcontent hs₁
    subst hs₁
    cases content with
    | none =>
      obtain ⟨_, s₁, hfree, h⟩ := exits_bind_inv h
      injection hfree with _ hs₁
      injection h with hr hs
      subst hs₁ hr hs
      refine ⟨Kept.of_leaves rfl hok₁ rfl rfl fun k' d hd => ⟨d, (hget k').trans hd, rfl⟩,
        fun d hd => ?_, fun d hd => ?_⟩
      · cases hd
      · cases hd
    | some content =>
      obtain ⟨pdesc, s₁, hpdesc, h⟩ := exits_bind_inv h
      injection hpdesc with hpdesc hs₁
      subst hpdesc hs₁
      obtain ⟨_, s₁, hmodify, h⟩ := exits_bind_inv h
      injection hmodify with _ hs₁
      injection h with hr hs
      subst hs₁ hr hs
      have hattach := RadixTree.get?_attach hpath
      refine ⟨Kept.of_leaves rfl (hok₁.attach k _) rfl rfl fun k' d hd => ⟨d, ?_, rfl⟩,
        fun d hd => ?_, fun d hd => ?_⟩
      · refine (hattach _ k').trans ?_
        rw [if_neg, hget]
        · exact hd
        · intro hsame
          rw [FatState.fatLeaf, RadixTree.get?_congr _ hsame] at hd
          rw [FatState.fatLeaf, hd] at hleaf
          cases hleaf
      · cases hd
      · rw [← hd]
        exact (hattach _ k).trans (if_pos rfl)

/-! ## The accesses of a release -/

/-- Reading a slot. A free slot reads as zero. -/
theorem getFatEntry_inv (hok : s.FatCacheOk) {r : Option ℕ} (h : getFatEntry c s = .ok r s') :
    Kept s s' ∧ (s.Cleared c → ∀ v, r = some v → v = freeCluster) := by
  obtain ⟨b, s₁, hload, h⟩ := exits_bind_inv h
  obtain ⟨hkept, hfound, -⟩ := getFatBufferFromCache_inv hok hload
  cases b with
  | none =>
    injection h with hr hs
    subst hr hs
    exact ⟨hkept, fun _ => nofun⟩
  | some desc =>
    injection h with hr hs
    subst hr hs
    refine ⟨hkept, ?_⟩
    rintro ⟨desc', hleaf, hzero⟩ v hv
    have hsame := hfound desc' hleaf
    rw [Option.some.injEq] at hsame hv
    rw [← hv, hsame, hzero]

/-- Freeing a slot. -/
theorem setFatEntry_inv (hok : s.FatCacheOk) (h : setFatEntry c freeCluster s = .ok false s') :
    Kept s s' ∧ s'.Cleared c := by
  obtain ⟨b, s₁, hload, h⟩ := exits_bind_inv h
  obtain ⟨hkept, -, hfound⟩ := getFatBufferFromCache_inv hok hload
  cases b with
  | none =>
    injection h with hr hs
    cases hr
  | some desc =>
    obtain ⟨_, s₂, hmodify, h⟩ := exits_bind_inv h
    injection hmodify with _ hs₂
    injection h with _ hs
    subst hs₂ hs
    have hleaf := hfound desc rfl
    set f : Desc → Desc := fun desc =>
      { desc with buffer := desc.buffer.setWord (4 * (c % 0x400)) freeCluster, dirty := true }
    have hget := RadixTree.get?_modify s₁.fatCacheLevels s₁.fatCacheRoot f (c / 0x400)
    have hok' := hkept.ok.modify f (c / 0x400)
    refine ⟨hkept.trans ⟨rfl, hok', rfl, ?_, fun q inode hq => ⟨inode, hq, rfl, rfl⟩⟩, f desc, ?_, ?_⟩
    · rintro c' ⟨d, hd, hzero⟩
      by_cases hsame : c' / 0x400 % 64 ^ s₁.fatCacheLevels = c / 0x400 % 64 ^ s₁.fatCacheLevels
      · refine ⟨f d, ?_, ?_⟩
        · refine (hget _).trans ?_
          rw [if_pos hsame]
          exact congrArg (Option.map f) hd
        · by_cases hentry : c' % 0x400 = c % 0x400
          · rw [hentry]
            exact Bytes.word_setWord_same _ _ (by omega)
          · rw [← hzero]
            exact Bytes.word_setWord_apart _ _ (by omega)
      · refine ⟨d, ?_, hzero⟩
        refine (hget _).trans ?_
        rw [if_neg hsame]
        exact hd
    · refine (hget _).trans ?_
      rw [if_pos rfl]
      exact congrArg (Option.map f) hleaf
    · exact Bytes.word_setWord_same _ _ (by omega)

/-! ## The loop of a release -/

/-- The index that stands for all those the Fat-Cache takes for one another. -/
def FatState.position (s : FatState) (c : ℕ) : ℕ :=
  c / 0x400 % 64 ^ s.fatCacheLevels * 0x400 + c % 0x400

theorem cleared_position : s.Cleared (s.position c) ↔ s.Cleared c := by
  have hdiv : s.position c / 0x400 = c / 0x400 % 64 ^ s.fatCacheLevels := by
    rw [FatState.position]
    omega
  have hmod : s.position c % 0x400 = c % 0x400 := by
    rw [FatState.position]
    omega
  rw [FatState.Cleared, FatState.Cleared, hdiv, hmod, FatState.fatLeaf, FatState.fatLeaf,
    RadixTree.get?_congr _ (Nat.mod_mod _ _)]

theorem position_lt (s : FatState) (c : ℕ) : s.position c < 64 ^ s.fatCacheLevels * 0x400 := by
  have hpos : 0 < 64 ^ s.fatCacheLevels := Nat.pow_pos (by omega)
  have := Nat.mod_lt (c / 0x400) hpos
  rw [FatState.position]
  omega

/-- What `m` turns of the loop do, the first one at the cluster `c`. -/
structure Visited (s s' : FatState) (c m : ℕ) : Prop where
  levels : s'.fatCacheLevels = s.fatCacheLevels
  ok : s'.FatCacheOk
  number : s'.freeClustersNumber = u32 (s.freeClustersNumber + m)
  here : s'.Cleared c
  cleared : ∀ c, s.Cleared c → s'.Cleared c
  inodes : ∀ q inode, s.inodes q = some inode → ∃ inode', s'.inodes q = some inode' ∧
    inode'.parent = inode.parent ∧ inode'.cluster = inode.cluster

theorem Visited.trans {c' m : ℕ} (h : Visited s s' c 1) (h' : Visited s' s'' c' m) :
    Visited s s'' c (m + 1) where
  levels := h'.levels.trans h.levels
  ok := h'.ok
  number := by
    rw [h'.number, h.number, u32, u32, u32, Nat.mod_add_mod]
    congr 1
    omega
  here := h'.cleared c h.here
  cleared := fun c hc => h'.cleared c (h.cleared c hc)
  inodes := by
    intro q inode hq
    obtain ⟨inode₁, hq₁, hp₁, hc₁⟩ := h.inodes q inode hq
    obtain ⟨inode₂, hq₂, hp₂, hc₂⟩ := h'.inodes q inode₁ hq₁
    exact ⟨inode₂, hq₂, hp₂.trans hp₁, hc₂.trans hc₁⟩

/-- One turn of the loop. -/
theorem releaseClusters_turn (hok : s.FatCacheOk) {fuel : ℕ}
    (h : releaseClusters (fuel + 1) c s = .ok false s') :
    ∃ next s₁, (s.Cleared c → next = freeCluster) ∧ Visited s s₁ c 1 ∧
      if next < endOfChainClusterMin then releaseClusters fuel next s₁ = .ok false s' else s' = s₁ := by
  obtain ⟨r, s₁, hget, h⟩ := exits_bind_inv h
  obtain ⟨hkept, hzero⟩ := getFatEntry_inv hok hget
  cases r with
  | none =>
    injection h with hr _
    cases hr
  | some next =>
    obtain ⟨b, s₂, hset, h⟩ := exits_bind_inv h
    cases b with
    | true =>
      injection h with hr _
      cases hr
    | false =>
      obtain ⟨hkept₂, hcleared⟩ := setFatEntry_inv hkept.ok hset
      have hall := hkept.trans hkept₂
      obtain ⟨_, s₃, hcount, h⟩ := exits_bind_inv h
      injection hcount with _ hs₃
      subst hs₃
      refine ⟨next, { s₂ with
          freeClustersNumber := u32 (s₂.freeClustersNumber + 1)
          firstFreeCluster := if s₂.firstFreeCluster > c then c else s₂.firstFreeCluster },
        fun hc => hzero hc next rfl,
        ⟨hall.levels, hall.ok, ?_, hcleared, hall.cleared, hall.inodes⟩, ?_⟩
      · simp only [hall.number]
      · split
        · rename_i hlt
          rwa [if_pos hlt] at h
        · rename_i hlt
          rw [if_neg hlt] at h
          injection h with _ hs
          exact hs.symm

/-- The loop does not leave slot 0 once it is free. -/
theorem releaseClusters_stuck (hok : s.FatCacheOk) (h0 : s.Cleared 0) (fuel : ℕ) :
    releaseClusters fuel 0 s ≠ .ok false s' := by
  induction fuel generalizing s with
  | zero => nofun
  | succ fuel ih =>
    intro h
    obtain ⟨next, s₁, hzero, hvisit, hrest⟩ := releaseClusters_turn hok h
    have hnext : next = 0 := hzero h0
    rw [hnext, if_pos (by decide)] at hrest
    exact ih hvisit.ok hvisit.here hrest

/-- A loop that returns has visited each position of the Fat-Cache at most twice. `seen` are the
positions visited so far. -/
theorem releaseClusters_inv {fuel : ℕ} (hok : s.FatCacheOk)
    (h : releaseClusters fuel c s = .ok false s') (seen : Finset ℕ)
    (hseen : ∀ q ∈ seen, q < 64 ^ s.fatCacheLevels * 0x400 ∧ s.Cleared q) :
    ∃ m, 1 ≤ m ∧ Visited s s' c m ∧
      m ≤ 2 * (64 ^ s.fatCacheLevels * 0x400 - seen.card) +
        if s.position c ∈ seen then 1 else 0 := by
  induction fuel generalizing s c seen with
  | zero => cases h
  | succ fuel ih =>
    obtain ⟨next, s₁, hzero, hvisit, hrest⟩ := releaseClusters_turn hok h
    have hposition (c : ℕ) : s₁.position c = s.position c := by
      rw [FatState.position, FatState.position, hvisit.levels]
    have hseen₁ : ∀ q ∈ seen, q < 64 ^ s₁.fatCacheLevels * 0x400 ∧ s₁.Cleared q := by
      intro q hq
      rw [hvisit.levels]
      exact ⟨(hseen q hq).1, hvisit.cleared q (hseen q hq).2⟩
    by_cases hold : s.position c ∈ seen
    · -- the second visit of a position goes on to slot 0, which is visited for the first time
      rw [if_pos hold]
      have hnext : next = 0 := hzero (cleared_position.mp (hseen _ hold).2)
      rw [hnext, if_pos (by decide)] at hrest
      obtain ⟨m, -, hvisit', hm⟩ := ih hvisit.ok hrest seen hseen₁
      refine ⟨m + 1, by omega, hvisit.trans hvisit', ?_⟩
      rw [if_neg, hvisit.levels] at hm
      · omega
      · intro h0
        exact releaseClusters_stuck hvisit.ok (cleared_position.mp (hseen₁ _ h0).2) fuel hrest
    · rw [if_neg hold, Nat.add_zero]
      have hinsert : ∀ q ∈ insert (s.position c) seen,
          q < 64 ^ s₁.fatCacheLevels * 0x400 ∧ s₁.Cleared q := by
        intro q hq
        rcases Finset.mem_insert.mp hq with rfl | hq
        · rw [← hposition]
          exact ⟨position_lt s₁ c, cleared_position.mpr hvisit.here⟩
        · exact hseen₁ q hq
      have hcard : seen.card + 1 ≤ 64 ^ s.fatCacheLevels * 0x400 := by
        have hsub : insert (s.position c) seen ⊆ Finset.range (64 ^ s₁.fatCacheLevels * 0x400) :=
          fun q hq => Finset.mem_range.mpr (hinsert q hq).1
        have hle := Finset.card_le_card hsub
        rwa [Finset.card_insert_of_notMem hold, Finset.card_range, hvisit.levels] at hle
      by_cases hlt : next < endOfChainClusterMin
      · rw [if_pos hlt] at hrest
        obtain ⟨m, -, hvisit', hm⟩ := ih hvisit.ok hrest _ hinsert
        refine ⟨m + 1, by omega, hvisit.trans hvisit', ?_⟩
        rw [Finset.card_insert_of_notMem hold, hvisit.levels] at hm
        split at hm <;> omega
      · rw [if_neg hlt] at hrest
        subst hrest
        exact ⟨1, le_rfl, hvisit, by omega⟩

/-- Copying the FAT to the device. -/
theorem updateFat_inv (hok : s.FatCacheOk) {r : Bool}
    (h : updateDeviceFromCache none s = .ok r s') : Kept s s' := by
  obtain ⟨root, failed, device, hwalk, -, hwalked, -, -⟩ :=
    RadixTree.walk_spec (f := writeBack) (I := fun _ : Device => True) (L := fun _ => True)
      (fun _ _ _ _ => trivial) hok.shaped (fun _ _ _ => trivial) (s := s.device) trivial
  rw [updateDeviceFromCache_walk rfl hok hwalk] at h
  injection h with _ hs
  subst hs
  refine Kept.of_leaves rfl ⟨hok.levels_pos, hwalked.2.1 hok.isNode, hwalked.1⟩ rfl rfl ?_
  intro k desc hleaf
  obtain ⟨d, -, hvisit, -⟩ := hwalked.visit hleaf
  refine ⟨_, hvisit, ?_⟩
  rw [writeBack]
  split <;> rfl

/-- A release that returns has freed the slot of the cluster it was given, and counted at least
one free cluster more and less than `2 ^ 30`. -/
theorem clustersRelease_inv (hok : s.FatCacheOk) (hlevels : s.fatCacheLevels ≤ 3) {fuel : ℕ}
    (h : clustersRelease fuel c s = .ok false s') :
    ∃ m, 1 ≤ m ∧ m < 0x40000000 ∧ Visited s s' c m := by
  obtain ⟨b, s₁, hloop, h⟩ := exits_bind_inv h
  cases b with
  | true =>
    injection h with hr _
    cases hr
  | false =>
    obtain ⟨m, hpos, hvisit, hm⟩ := releaseClusters_inv hok hloop ∅ (by simp)
    have hkept : Kept s₁ s' := updateFat_inv hvisit.ok h
    have hpow : (64 : ℕ) ^ s.fatCacheLevels ≤ 64 ^ 3 := Nat.pow_le_pow_right (by omega) hlevels
    refine ⟨m, hpos, ?_, ?_⟩
    · rw [if_neg (by simp), Finset.card_empty] at hm
      omega
    · refine ⟨hkept.levels.trans hvisit.levels, hkept.ok, hkept.number.trans hvisit.number,
        hkept.cleared c hvisit.here, fun c hc => hkept.cleared c (hvisit.cleared c hc), ?_⟩
      intro q inode hq
      obtain ⟨inode₁, hq₁, hp₁, hc₁⟩ := hvisit.inodes q inode hq
      obtain ⟨inode₂, hq₂, hp₂, hc₂⟩ := hkept.inodes q inode₁ hq₁
      exact ⟨inode₂, hq₂, hp₂.trans hp₁, hc₂.trans hc₁⟩

end Kept

end GietVm.Fat
