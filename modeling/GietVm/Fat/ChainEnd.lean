import GietVm.Fat.AddedEntry
import GietVm.Fat.InodeTree
import GietVm.Fat.Listing
import GietVm.Fat.MakeDirectory

/-!
# Scans and the end of the chain

Three functions scan the clusters of a directory until an entry stops them, and none of them
looks for the end of the chain. A request for a cluster leaves it in the File-Cache, so the
clusters that a run requested show in the state that it returns. `n` is the length of the chain:
the slot of its last cluster holds an end mark, which the search of a buffer takes for the next
cluster.

`_get_nb_entries` stays in the chain if and only if `NO_MORE_ENTRY` is there,
`_get_child_from_parent` if and only if the name is in the tree or the entries of the chain stop
the scan, and `_add_dir_entry` if and only if there is room in the chain, from `NO_MORE_ENTRY` on,
for all the entries of the name: it never extends the chain.
-/

namespace GietVm.Fat

open GietVm.Library

/-- The File-Cache of an inode holds the first `n` clusters at most. -/
def FatState.Inside (s : FatState) (p : Ptr) (n : ℕ) : Prop :=
  ∀ k desc, s.slot (some p) k = some desc → k < n

/-- With enough fuel the run returns, and it has requested the first `n` clusters at most. -/
def StaysInside {α : Type} (run : ℕ → FatM α) (s : FatState) (p : Ptr) (n : ℕ) : Prop :=
  ∃ fuel r s', run fuel s = .ok r s' ∧ s'.Inside p n

/-- The chain of a directory has `n` clusters, and the File-Cache no other one. -/
structure FatState.ChainOf (s : FatState) (p : Ptr) (n : ℕ) : Prop where
  ready : s.DirReady p (n + 1)
  inner : ∀ inode, s.inodes p = some inode → ∀ k < n, s.chain k inode.cluster < endOfChainClusterMin
  ends : ∀ inode, s.inodes p = some inode → endOfChainClusterMin ≤ s.chain n inode.cluster
  cachesOk : s.CachesOk
  inside : s.Inside p n

section Past

variable {s s' : FatState} {p : Ptr} {n : ℕ}

theorem Beyond.inside (h : Beyond p n s s') (hin : s.Inside p n) : s'.Inside p n := by
  intro k desc hslot
  by_contra hk
  rw [h k (not_lt.mp hk)] at hslot
  exact hk (hin k desc hslot)

/-- A directory whose first `n` clusters can be loaded. -/
theorem FatState.DirReady.mono {m : ℕ} (hd : s.DirReady p n) (hm : m ≤ n) : s.DirReady p m := by
  obtain ⟨inode, hp, hok, hbound, hreach⟩ := hd.live
  refine ⟨hd.fatOk, hd.deviceOk, inode, hp, hok, ?_, fun k hk => hreach k (by omega)⟩
  have hle : m * 4096 ≤ n * 4096 := Nat.mul_le_mul_right 4096 hm
  exact hbound.imp hm.trans hle.trans_lt

/-- What a run that loads from a directory may change. -/
def loads (p : Ptr) : Scope :=
  ⟨fun owner => owner = none ∨ owner = some p, fun owner => owner = some p, fun _ => True⟩

/-- A cluster that is loaded stays. -/
theorem Calms.slot {α : Type} {x : FatM α} (hx : Calms (loads p) x) (hok : s.CachesOk) {r : α}
    (h : x s = .ok r s') {k : ℕ} (hslot : ∃ desc, s.slot (some p) k = some desc) :
    ∃ desc, s'.slot (some p) k = some desc := by
  obtain ⟨desc, hdesc⟩ := hslot
  obtain ⟨desc', hdesc', -⟩ := (hx s r s' h hok).2.look (some p) k desc hdesc
  exact ⟨desc', hdesc'⟩

/-! ## The count -/

theorem calms_countClusters (fuel k count : ℕ) : Calms (loads p) (countClusters p fuel k count) := by
  induction fuel generalizing k count with
  | zero => exact Calms.throw _
  | succ fuel ih =>
    refine (calms_getBuffer (Or.inl rfl) (Or.inr rfl) k).bind fun r => ?_
    cases r with
    | none => exact Calms.pure _
    | some pdesc =>
      dsimp only
      split
      · exact Calms.pure _
      · exact ih _ _

/-- Loading a cluster of a directory keeps what the scans need. -/
theorem FatState.DirReady.loadNext (hd : s.DirReady p n) (hok : s.CachesOk) {k : ℕ} (hk : k < n) :
    ∃ desc s₁, getBufferFromCache (some p) k s = .ok (some desc) s₁ ∧
      desc.buffer = s.block (some p) k ∧ s₁.slot (some p) k = some desc ∧ s₁.DirReady p n ∧
      s₁.CachesOk ∧ s₁.entries p = s.entries p := by
  obtain ⟨desc, s₁, hload, hbuffer, hslot, hc, -⟩ := hd.load hk
  have hok₁ := (calms_getBuffer (S := loads p) (Or.inl rfl) (Or.inr rfl) k s _ s₁ hload hok).1
  exact ⟨desc, s₁, hload, hbuffer, hslot, hc.similar.dirReady hd, hok₁, hc.entries p⟩

/-- A count that meets no `NO_MORE_ENTRY` in the chain requests the cluster after it. -/
theorem countClusters_past (hd : s.DirReady p (n + 1)) (hok : s.CachesOk)
    (hlive : ∀ i < 128 * n, readEntry 0 1 (s.entries p i) false ≠ noMoreEntry) {fuel k count : ℕ}
    (hk : k ≤ n) {r : Option ℕ} (h : countClusters p fuel k count s = .ok r s') :
    ∃ desc, s'.slot (some p) n = some desc := by
  induction fuel generalizing s k count with
  | zero => cases h
  | succ fuel ih =>
    obtain ⟨desc, s₁, hload, hbuffer, hslot, hd₁, hok₁, hentries⟩ :=
      hd.loadNext hok (show k < n + 1 by omega)
    rw [countClusters, exits_bind_ok hload] at h
    by_cases hlast : k = n
    · subst hlast
      simp only at h
      refine Calms.slot ?_ hok₁ h ⟨desc, hslot⟩
      split
      · exact Calms.pure _
      · exact calms_countClusters _ _ _
    · have hcount := countEntries_eq (k := k) (n := 128) (j := 0) (by omega) hlive
        (fun hlt => by omega) (by omega) count
      rw [Nat.zero_mul, Nat.add_zero, if_neg (by omega)] at hcount
      simp only [hbuffer, hcount] at h
      exact ih hd₁ hok₁ (by rw [hentries]; exact hlive) (by omega) h

/-- `_get_nb_entries` stays in the chain if and only if `NO_MORE_ENTRY` is there. -/
theorem getNbEntries_inside_iff (hc : s.ChainOf p n) :
    StaysInside (fun fuel => getNbEntries fuel p) s p n ↔
      ∃ pos < 128 * n, readEntry 0 1 (s.entries p pos) false = noMoreEntry := by
  constructor
  · rintro ⟨fuel, r, s', hrun, hin⟩
    by_contra hnone
    have hlive : ∀ i < 128 * n, readEntry 0 1 (s.entries p i) false ≠ noMoreEntry :=
      fun i hi hno => hnone ⟨i, hi, hno⟩
    obtain ⟨desc, hslot⟩ := countClusters_past hc.ready hc.cachesOk hlive (Nat.zero_le n) hrun
    exact lt_irrefl n (hin n desc hslot)
  · intro hex
    obtain ⟨hpos, hstop⟩ := Nat.find_spec hex
    have hlive (i : ℕ) (hi : i < Nat.find hex) :
        readEntry 0 1 (s.entries p i) false ≠ noMoreEntry :=
      fun hno => Nat.find_min hex hi ⟨hi.trans hpos, hno⟩
    obtain ⟨s', hrun, -, hbeyond⟩ := countClusters_run (hc.ready.mono (Nat.le_succ n)) hpos hlive
      hstop (k := 0) (Nat.zero_le _) (by omega : n ≤ 0 + n) 0
    exact ⟨n, _, s', hrun, hbeyond.inside hc.inside⟩

/-! ## The search -/

/-- More fuel does not change what a scan returns. -/
theorem searchDirectory_mono {name : List UInt8} {fuel k : ℕ} {scan : LfnScan} {r : DirSearch}
    (h : searchDirectory p name fuel k scan s = .ok r s') (more : ℕ) :
    searchDirectory p name (fuel + more) k scan s = .ok r s' := by
  induction fuel generalizing s k scan with
  | zero => cases h
  | succ fuel ih =>
    rw [Nat.add_right_comm]
    obtain ⟨loaded, s₁, hload, hrest⟩ := exits_bind_inv h
    rw [searchDirectory, exits_bind_ok hload]
    cases loaded with
    | none => exact hrest
    | some pdesc =>
      dsimp only at hrest ⊢
      cases hscan : scanEntries name pdesc.buffer 128 0 scan with
      | next scan' =>
        simp only [hscan] at hrest ⊢
        exact ih hrest
      | noMore =>
        simp only [hscan] at hrest ⊢
        exact hrest
      | found offset info scan' =>
        simp only [hscan] at hrest ⊢
        exact hrest
      | undefined =>
        simp only [hscan] at hrest ⊢
        exact hrest

/-- A scan that nothing stops in the chain requests the cluster after it. -/
theorem searchDirectory_past (hd : s.DirReady p (n + 1)) (hok : s.CachesOk) {name : List UInt8}
    {m fuel k : ℕ} (hk : k + m = n) {scan scan' : LfnScan}
    (hnext : scanFrom name (s.entries p) (128 * m) (128 * k) scan = .next scan') {r : DirSearch}
    (h : searchDirectory p name fuel k scan s = .ok r s') :
    ∃ desc, s'.slot (some p) n = some desc := by
  induction fuel generalizing s m k scan with
  | zero => cases h
  | succ fuel ih =>
    obtain ⟨desc, s₁, hload, hbuffer, hslot, hd₁, hok₁, hentries⟩ :=
      hd.loadNext hok (show k < n + 1 by omega)
    rw [searchDirectory, exits_bind_ok hload] at h
    cases m with
    | zero =>
      obtain rfl : k = n := by omega
      simp only at h
      refine Calms.slot ?_ hok₁ h ⟨desc, hslot⟩
      split
      · exact calms_searchDirectory (Or.inl rfl) (Or.inr rfl) name _ _ _
      · exact Calms.pure _
      · exact Calms.pure _
      · exact Calms.throw _
    | succ m =>
      have hscan := scanEntries_eq name scan (s.block (some p)) k 128 0 (by omega)
      rw [Nat.zero_mul, Nat.add_zero] at hscan
      rw [show 128 * (m + 1) = 128 + 128 * m by omega, scanFrom_add, ← hscan] at hnext
      simp only [hbuffer] at h
      cases hres : scanEntries name (s.block (some p) k) 128 0 scan with
      | next scan₁ =>
        rw [hres] at hnext h
        simp only [ScanResult.shift, show 128 * k + 128 = 128 * (k + 1) by omega] at hnext
        exact ih (m := m) (k := k + 1) hd₁ hok₁ (by omega) (by rw [hentries]; exact hnext) h
      | noMore => simp [hres, ScanResult.shift] at hnext
      | found offset info scan₁ => simp [hres, ScanResult.shift] at hnext
      | undefined => simp [hres, ScanResult.shift] at hnext

/-- The scan of a directory stays in the chain if and only if an entry there stops it. -/
theorem searchDirectory_inside_iff (hc : s.ChainOf p n) (name : List UInt8) :
    StaysInside (fun fuel => searchDirectory p name fuel 0 {}) s p n ↔
      (scanFrom name (s.entries p) (128 * n) 0 {}).outcome ≠ none := by
  have hd := hc.ready.mono (Nat.le_succ n)
  constructor
  · rintro ⟨fuel, r, s', hrun, hin⟩ hnone
    cases hres : scanFrom name (s.entries p) (128 * n) 0 {} with
    | next scan =>
      obtain ⟨desc, hslot⟩ := searchDirectory_past hc.ready hc.cachesOk (Nat.zero_add n)
        (by rw [Nat.mul_zero]; exact hres) hrun
      exact lt_irrefl n (hin n desc hslot)
    | noMore => simp [hres, ScanResult.outcome] at hnone
    | found offset info scan => simp [hres, ScanResult.outcome] at hnone
    | undefined =>
      obtain ⟨s₁, hrun₁⟩ := (searchDirectory_run hd name (Nat.zero_add n)
        (Nat.le_add_left n fuel) {}).2 (by rw [Nat.mul_zero]; exact hres)
      have hmore := searchDirectory_mono hrun n
      rw [hrun₁] at hmore
      cases hmore
  · intro hsome
    obtain ⟨result, hresult⟩ := Option.ne_none_iff_exists'.mp hsome
    obtain ⟨s', hrun, -, hbeyond⟩ := (searchDirectory_run hd name (Nat.zero_add n) le_rfl {}).1
      result (by rw [Nat.mul_zero]; exact hresult)
    exact ⟨n, result, s', hrun, hbeyond.inside hc.inside⟩

/-- The allocation of an inode after the scan leaves the File-Cache alone. -/
theorem Born.slot {father : Inode} {name : List UInt8} {info : EntryInfo} {dentry : ℕ}
    (h : Born s s' p father (childInode s.brk name info dentry p father)) (hheap : s.HeapOk)
    (hp : s.inodes p = some father) (k : ℕ) : s'.slot (some p) k = s.slot (some p) k := by
  have hne : some p ≠ some s.brk := by
    intro heq
    rw [Option.some.inj heq, hheap _ le_rfl] at hp
    cases hp
  rw [FatState.slot, FatState.slot, h.cacheAt hp hne]

/-- A call whose name is not in the tree goes on with what the scan of the directory finds. -/
theorem getChildFromParent_missed {father : Inode} (hp : s.inodes p = some father)
    {name : List UInt8} {fuel : ℕ} (hfind : findChild name fuel father.child s = .ok none s)
    {search : DirSearch} {s₁ : FatState} {r : ChildLookup}
    (hrest : (match search with
      | .ioError => pure .ioError
      | .endOfDir => pure .notFound
      | .found dentry info => do
        let inode ← allocateOneInode name info 0 dentry true
        addInodeInTree inode (some p)
        pure (.found inode) : FatM ChildLookup) s₁ = .ok r s')
    (hsearch : searchDirectory p name fuel 0 {} s = .ok search s₁) :
    getChildFromParent fuel p name s = .ok r s' := by
  rw [getChildFromParent, exits_bind_ok (getInode_run hp), exits_bind_ok hfind]
  simp only
  rw [exits_bind_ok hsearch]
  exact hrest

/-- `_get_child_from_parent` stays in the chain if and only if the name is in the tree or the
entries of the chain stop the scan. -/
theorem getChildFromParent_inside_iff (hc : s.ChainOf p n) (hheap : s.HeapOk) {father : Inode}
    (hp : s.inodes p = some father) {l : List Ptr} (hl : s.Children father.child l)
    (name : List UInt8) :
    StaysInside (fun fuel => getChildFromParent fuel p name) s p n ↔
      (∃ q ∈ l, ∃ inode, s.inodes q = some inode ∧ name = inode.name) ∨
        (scanFrom name (s.entries p) (128 * n) 0 {}).outcome ≠ none := by
  rw [← searchDirectory_inside_iff hc name]
  constructor
  · rintro ⟨fuel, r, s', hrun, hin⟩
    obtain ⟨father', s₁, hget, hrest⟩ := exits_bind_inv hrun
    obtain ⟨rfl, hp'⟩ := getInode_inv hget
    obtain rfl : father = father' := Option.some.inj (hp.symm.trans hp')
    obtain ⟨found, s₂, hfind, hrest⟩ := exits_bind_inv hrest
    obtain rfl := findChild_state hfind
    cases found with
    | some current =>
      have hlist := findChild_unique hfind (findChild_run hl le_rfl)
      obtain ⟨inode, hq⟩ := hl.2 current (List.mem_of_find?_eq_some hlist.symm)
      have hname := List.find?_some hlist.symm
      rw [hq] at hname
      exact Or.inl ⟨current, List.mem_of_find?_eq_some hlist.symm, inode, hq,
        of_decide_eq_true hname⟩
    | none =>
      obtain ⟨search, s₃, hsearch, hrest⟩ := exits_bind_inv hrest
      have hcalms : Calms (loads p) (searchDirectory p name fuel 0 {}) :=
        calms_searchDirectory (Or.inl rfl) (Or.inr rfl) name fuel 0 {}
      obtain ⟨-, hcalm⟩ := hcalms _ _ _ hsearch hc.cachesOk
      refine Or.inr ⟨fuel, search, s₃, hsearch, ?_⟩
      cases search with
      | ioError =>
        injection hrest with _ hs
        exact hs ▸ hin
      | endOfDir =>
        injection hrest with _ hs
        exact hs ▸ hin
      | found dentry info =>
        obtain ⟨father₃, hp₃, -⟩ := skeleton_inode hcalm.skeleton hp
        have hheap₃ := hcalm.heapOk hheap
        obtain ⟨s₄, hload, hborn⟩ := loadInode_run hheap₃ hp₃ name info dentry
        change (do
          let inode ← allocateOneInode name info 0 dentry true
          addInodeInTree inode (some p)
          pure (ChildLookup.found inode) : FatM ChildLookup) s₃ = _ at hrest
        rw [hload] at hrest
        injection hrest with _ hs
        subst hs
        intro k desc hslot
        exact hin k desc ((hborn.slot hheap₃ hp₃ k).trans hslot)
  · intro hor
    cases hfound : l.find? fun q => (s.inodes q).any fun inode => decide (name = inode.name) with
    | some current =>
      have hfind : findChild name _ _ _ = _ := findChild_run hl le_rfl
      rw [hfound] at hfind
      refine ⟨l.length, .found current, s, ?_, hc.inside⟩
      dsimp only
      rw [getChildFromParent, exits_bind_ok (getInode_run hp), exits_bind_ok hfind]
      rfl
    | none =>
      have hstays : StaysInside (fun fuel => searchDirectory p name fuel 0 {}) s p n := by
        rcases hor with ⟨q, hmem, inode, hq, hname⟩ | hstays
        · have hnot := List.find?_eq_none.mp hfound q hmem
          rw [hq] at hnot
          exact absurd (decide_eq_true hname) hnot
        · exact hstays
      obtain ⟨fuel, search, s₁, hsearch, hin⟩ := hstays
      have hfind : findChild name _ _ _ = _ := findChild_run hl (Nat.le_add_left l.length fuel)
      rw [hfound] at hfind
      have hcalms : Calms (loads p) (searchDirectory p name fuel 0 {}) :=
        calms_searchDirectory (Or.inl rfl) (Or.inr rfl) name fuel 0 {}
      obtain ⟨-, hcalm⟩ := hcalms _ _ _ hsearch hc.cachesOk
      have hsearch' := searchDirectory_mono hsearch l.length
      cases search with
      | ioError =>
        exact ⟨fuel + l.length, .ioError, s₁, getChildFromParent_missed hp hfind rfl hsearch', hin⟩
      | endOfDir =>
        exact ⟨fuel + l.length, .notFound, s₁, getChildFromParent_missed hp hfind rfl hsearch', hin⟩
      | found dentry info =>
        obtain ⟨father₁, hp₁, -⟩ := skeleton_inode hcalm.skeleton hp
        have hheap₁ := hcalm.heapOk hheap
        obtain ⟨s₂, hload, hborn⟩ := loadInode_run hheap₁ hp₁ name info dentry
        refine ⟨fuel + l.length, .found s₁.brk, s₂,
          getChildFromParent_missed hp hfind ?_ hsearch', fun k desc hslot => ?_⟩
        · exact hload
        exact hin k desc ((hborn.slot hheap₁ hp₁ k).symm.trans hslot)

/-! ## The addition -/

/-- More fuel does not change where `NO_MORE_ENTRY` is found. -/
theorem findNoMore_mono {fuel k : ℕ} {r : Option (ℕ × ℕ)}
    (h : findNoMore (some p) fuel k s = .ok r s') (more : ℕ) :
    findNoMore (some p) (fuel + more) k s = .ok r s' := by
  induction fuel generalizing s k with
  | zero => cases h
  | succ fuel ih =>
    rw [Nat.add_right_comm]
    obtain ⟨loaded, s₁, hload, hrest⟩ := exits_bind_inv h
    rw [findNoMore, exits_bind_ok hload]
    cases loaded with
    | none => exact hrest
    | some pdesc =>
      dsimp only at hrest ⊢
      cases hscan : scanNoMore pdesc.buffer 128 0 with
      | some offset =>
        simp only [hscan] at hrest ⊢
        exact hrest
      | none =>
        simp only [hscan] at hrest ⊢
        exact ih hrest

/-- A cluster without `NO_MORE_ENTRY`. -/
theorem scanNoMore_none {blocks : ℕ → Block} {k : ℕ}
    (hlive : ∀ j < 128, readEntry 0 1 (entryAt blocks (128 * k + j)) false ≠ noMoreEntry) :
    scanNoMore (blocks k) 128 0 = none := by
  have hadd := scanNoMore_add (blocks k) 128 0 0 (by
    intro j _ hj
    rw [← entryAt_cluster blocks k (by omega)]
    exact hlive j (by omega))
  rw [Nat.zero_mul] at hadd
  rw [hadd]
  rfl

/-- A search that meets no `NO_MORE_ENTRY` in the chain requests the cluster after it. -/
theorem findNoMore_past (hd : s.DirReady p (n + 1)) (hok : s.CachesOk)
    (hlive : ∀ i < 128 * n, readEntry 0 1 (s.entries p i) false ≠ noMoreEntry) {fuel k : ℕ}
    (hk : k ≤ n) {r : Option (ℕ × ℕ)} (h : findNoMore (some p) fuel k s = .ok r s') :
    ∃ desc, s'.slot (some p) n = some desc := by
  induction fuel generalizing s k with
  | zero => cases h
  | succ fuel ih =>
    obtain ⟨desc, s₁, hload, hbuffer, hslot, hd₁, hok₁, hentries⟩ :=
      hd.loadNext hok (show k < n + 1 by omega)
    rw [findNoMore, exits_bind_ok hload] at h
    by_cases hlast : k = n
    · subst hlast
      simp only at h
      refine Calms.slot ?_ hok₁ h ⟨desc, hslot⟩
      split
      · refine (calms_modifyDesc (Or.inr rfl) _ ?_ (Or.inl rfl)).bind fun _ => Calms.pure _
        exact fun _ => rfl
      · intro s r s' h hok
        obtain ⟨hok', hcalm, -⟩ := findNoMore_inv (S := loads p) (Or.inl rfl) (Or.inr rfl) hok h
        exact ⟨hok', hcalm⟩
    · have hnone : scanNoMore desc.buffer 128 0 = none := by
        rw [hbuffer]
        exact scanNoMore_none fun j hj => hlive _ (by omega)
      simp only [hnone] at h
      exact ih hd₁ hok₁ (by rw [hentries]; exact hlive) (by omega) h

/-- The FSM requests the cluster after the last one when its entries go past the end. The next one
is entry `j` of cluster `clusterId`. -/
theorem writeSteps_past {c : Ptr} (hd : s.DirReady p (n + 1)) (hok : s.CachesOk) {child : Inode}
    (hc : s.inodes c = some child) (name : List UInt8) (info : EntryInfo) (length nbLfn : ℕ)
    {clusterId step j : ℕ} (hlast : clusterId + 1 = n) (hj : j ≤ 128) (hover : 128 < j + step)
    (hslot : j < 128 → ∃ desc, s.slot (some p) clusterId = some desc) {r : Bool}
    (h : writeSteps c (some p) name info length nbLfn clusterId step clusterId (32 * j) s =
      .ok r s') :
    ∃ desc, s'.slot (some p) n = some desc := by
  induction step generalizing s j child with
  | zero => omega
  | succ step ih =>
    rw [writeSteps] at h
    by_cases hfull : j = 128
    · rw [if_pos (by omega)] at h
      obtain ⟨desc, s₁, hload, -, hslot₁, -, hok₁, -⟩ :=
        hd.loadNext hok (show clusterId + 1 < n + 1 by omega)
      rw [exits_bind_ok hload] at h
      have hrest : Calms (loads p) (do
          modifyDesc (some p) (clusterId + 1) fun desc => { desc with dirty := true }
          writeSteps.writeStep c (some p) name info length nbLfn clusterId step (clusterId + 1) 0
          writeSteps c (some p) name info length nbLfn clusterId step (clusterId + 1) 32 :
            FatM Bool) := by
        refine (calms_modifyDesc (Or.inr rfl) _ ?_ (Or.inl rfl)).bind fun _ => ?_
        · exact fun _ => rfl
        · refine (calms_writeStep (Or.inr rfl) rfl _ _ _ _ _ (Or.inl trivial) _ _).bind fun _ => ?_
          exact calms_writeSteps (Or.inl rfl) (Or.inr rfl) rfl _ _ _ _ _ (Or.inl trivial) _ _
      exact hrest.slot hok₁ h ⟨desc, hlast ▸ hslot₁⟩
    · rw [if_neg (by omega)] at h
      have hcluster : (128 * clusterId + j) / 128 = clusterId := by omega
      have hoffset : (128 * clusterId + j) % 128 * 32 = 32 * j := by omega
      obtain ⟨s₁, hrun, hsim, hslot₁, ⟨child₁, hc₁, -⟩, -, -⟩ :=
        writeStep_run hd hc name info length nbLfn clusterId step (i := 128 * clusterId + j)
          (by rw [hcluster]; exact hslot (by omega)) hcluster.symm (by omega)
      rw [hoffset] at hrun
      rw [hcluster] at hslot₁
      have hok₁ := (calms_writeStep (S := loads p) (c := c) (Or.inr rfl) rfl name info length nbLfn
        clusterId (Or.inl trivial) _ _ s _ s₁ hrun hok).1
      rw [exits_bind_ok hrun, show 32 * j + 32 = 32 * (j + 1) by omega] at h
      exact ih (hsim.dirReady hd) hok₁ hc₁ (by omega) (by omega) (fun _ => hslot₁) h

/-- There is room in the chain for the entries of a name, from `NO_MORE_ENTRY` on. -/
def HasRoom (entry : ℕ → ℕ → UInt8) (n : ℕ) (name : List UInt8) : Prop :=
  ∀ length nbLfn, checkNameLength name = some (length, nbLfn) →
    ∃ pos, (∀ i < pos, readEntry 0 1 (entry i) false ≠ noMoreEntry) ∧
      readEntry 0 1 (entry pos) false = noMoreEntry ∧ pos + nbLfn + 2 ≤ 128 * n

/-- `_add_dir_entry` stays in the chain if and only if there is room. -/
theorem addDirEntry_inside_iff (hc : s.ChainOf p n) {c : Ptr} {child : Inode}
    (hchild : s.inodes c = some child) :
    StaysInside (fun fuel => addDirEntry fuel c (some p)) s p n ↔
      HasRoom (s.entries p) n child.name := by
  have hd := hc.ready.mono (Nat.le_succ n)
  constructor
  · rintro ⟨fuel, r, s', hrun, hin⟩ length nbLfn hname
    obtain ⟨inode, s₀, hget, hrest⟩ := exits_bind_inv hrun
    obtain ⟨rfl, hinode⟩ := getInode_inv hget
    obtain rfl : child = inode := Option.some.inj (hchild.symm.trans hinode)
    simp only [hname] at hrest
    obtain ⟨found, s₁, hfind, hrest⟩ := exits_bind_inv hrest
    obtain ⟨hok₁, hcalm₁, -⟩ :=
      findNoMore_inv (S := loads p) (Or.inl rfl) (Or.inr rfl) hc.cachesOk hfind
    by_cases hex : ∃ pos < 128 * n, readEntry 0 1 (s₀.entries p pos) false = noMoreEntry
    · obtain ⟨hpos, hstop⟩ := Nat.find_spec hex
      have hlive (i : ℕ) (hi : i < Nat.find hex) :
          readEntry 0 1 (s₀.entries p i) false ≠ noMoreEntry :=
        fun hno => Nat.find_min hex hi ⟨hi.trans hpos, hno⟩
      refine ⟨Nat.find hex, hlive, hstop, ?_⟩
      generalize Nat.find hex = pos at hpos hstop hlive
      by_contra hover
      have hnb := (checkNameLength_eq hname).2
      obtain ⟨s₂, hrun₂, hsim, -, hslot, -⟩ := findNoMore_run hd hpos hlive hstop (Nat.zero_le _)
        (show n ≤ 0 + (fuel + n) by omega)
      rw [findNoMore_mono hfind n] at hrun₂
      injection hrun₂ with hfound hs
      subst hs hfound
      obtain ⟨child₁, hc₁, -⟩ := hsim.inode hchild
      have hstep : writeSteps c (some p) child.name ⟨child.cluster, child.size, child.isDir⟩ length
          nbLfn (pos / 128) (nbLfn + 2) (pos / 128) (32 * (pos % 128)) s₁ = .ok r s' := by
        rw [Nat.mul_comm 32]
        exact hrest
      obtain ⟨desc, hdesc⟩ := writeSteps_past (hsim.dirReady hc.ready) hok₁ hc₁ child.name _ length
        nbLfn (by omega) (by omega) (by omega) (fun _ => hslot) hstep
      exact lt_irrefl n (hin n desc hdesc)
    · have hlive (i : ℕ) (hi : i < 128 * n) :
          readEntry 0 1 (s₀.entries p i) false ≠ noMoreEntry := fun hno => hex ⟨i, hi, hno⟩
      have hslot := findNoMore_past hc.ready hc.cachesOk hlive (Nat.zero_le n) hfind
      exfalso
      cases found with
      | none =>
        injection hrest with _ hs
        subst hs
        obtain ⟨desc, hdesc⟩ := hslot
        exact lt_irrefl n (hin n desc hdesc)
      | some place =>
        obtain ⟨clusterId, offset⟩ := place
        have hcalms : Calms (loads p) (writeSteps c (some p) child.name
            ⟨child.cluster, child.size, child.isDir⟩ length nbLfn clusterId (nbLfn + 2) clusterId
            offset) :=
          calms_writeSteps (Or.inl rfl) (Or.inr rfl) rfl _ _ _ _ _ (Or.inl trivial) _ _
        obtain ⟨desc, hdesc⟩ := hcalms.slot hok₁ hrest hslot
        exact lt_irrefl n (hin n desc hdesc)
  · intro hroom
    cases hname : checkNameLength child.name with
    | none =>
      refine ⟨0, true, s, ?_, hc.inside⟩
      dsimp only
      rw [addDirEntry, exits_bind_ok (getInode_run hchild)]
      simp only [hname]
      rfl
    | some lengths =>
      obtain ⟨length, nbLfn⟩ := lengths
      obtain ⟨pos, hlive, hstop, hfits⟩ := hroom length nbLfn hname
      obtain ⟨s', hrun, -, -, hbeyond, -⟩ := addDirEntry_run hd hchild hname hlive hstop hfits le_rfl
      exact ⟨n, false, s', hrun, hbeyond.beyond.inside hc.inside⟩

end Past

/-! ## The three functions -/

/-- When each scan returns with requests for clusters of the chain only. `_add_dir_entry` adds the
entries of the inode `c`. -/
theorem scans_inside_iff {s : FatState} {p c : Ptr} {n : ℕ} (hc : s.ChainOf p n)
    (hheap : s.HeapOk) {father child : Inode} (hp : s.inodes p = some father) {l : List Ptr}
    (hl : s.Children father.child l) (hchild : s.inodes c = some child) (name : List UInt8) :
    (StaysInside (fun fuel => getNbEntries fuel p) s p n ↔
      ∃ pos < 128 * n, readEntry 0 1 (s.entries p pos) false = noMoreEntry) ∧
    (StaysInside (fun fuel => getChildFromParent fuel p name) s p n ↔
      (∃ q ∈ l, ∃ inode, s.inodes q = some inode ∧ name = inode.name) ∨
        (scanFrom name (s.entries p) (128 * n) 0 {}).outcome ≠ none) ∧
    (StaysInside (fun fuel => addDirEntry fuel c (some p)) s p n ↔
      HasRoom (s.entries p) n child.name) :=
  ⟨getNbEntries_inside_iff hc, getChildFromParent_inside_iff hc hheap hp hl name,
    addDirEntry_inside_iff hc hchild⟩

/-! ## A full directory -/

/-- A directory of one cluster, all of whose entries are in use. The FAT comes first and holds the
end mark of the directory, and every byte of the data is a letter. -/
def fullDir : FatState :=
  { freshDir [0x62] with
    dataLba := 8
    device := ⟨fun a => if a < 4096 then
        if 8 ≤ a ∧ a < 11 then 0xFF else if a = 11 then 0x0F else 0 else 0x41,
      fun _ => false, 0⟩ }

theorem fullDir_inode {p : Ptr} {inode : Inode} (hp : fullDir.inodes p = some inode) :
    (inode.levels = 1 ∧ ∃ address, inode.cache = RadixTree.emptyNode address) ∧
      (p = 0 → inode.cluster = 2) := by
  change (if p = 0 then _ else if p = 1 then _ else none) = some inode at hp
  split at hp
  · cases hp
    exact ⟨⟨rfl, _, rfl⟩, fun _ => rfl⟩
  · rename_i hne
    split at hp
    · cases hp
      exact ⟨⟨rfl, _, rfl⟩, fun h => absurd h hne⟩
    · cases hp

theorem fullDir_chainOf : fullDir.ChainOf 0 1 where
  ready := by
    refine ⟨cacheOk_emptyNode 2, fun _ => rfl, _, rfl, cacheOk_emptyNode 3, Or.inr (by decide), ?_⟩
    intro k hk
    obtain rfl | rfl : k = 0 ∨ k = 1 := by omega
    · exact ⟨fun j hj => absurd hj (Nat.not_lt_zero j), le_rfl⟩
    · refine ⟨fun j hj => ?_, ?_⟩
      · obtain rfl : j = 0 := by omega
        rw [FatState.InFat]
        decide +kernel
      · decide +kernel
  inner := by
    intro inode hp k hk
    obtain rfl : k = 0 := by omega
    rw [(fullDir_inode hp).2 rfl]
    decide
  ends := by
    intro inode hp
    rw [(fullDir_inode hp).2 rfl]
    decide +kernel
  cachesOk := by
    intro owner levels root h
    cases owner with
    | none =>
      cases h
      exact cacheOk_emptyNode 2
    | some p =>
      rw [FatState.cacheAt, Option.map_eq_some_iff] at h
      obtain ⟨inode, hp, heq⟩ := h
      cases heq
      obtain ⟨hlevels, address, hcache⟩ := (fullDir_inode hp).1
      rw [hlevels, hcache]
      exact cacheOk_emptyNode address
  inside := by
    intro k desc h
    rw [slot_eq (show fullDir.cacheAt (some 0) = some (1, RadixTree.emptyNode 3) from rfl), slotOf,
      RadixTree.get?_emptyNode, ite_self] at h
    cases h

theorem fullDir_entries : (∀ pos < 128, readEntry 0 1 (fullDir.entries 0 pos) false ≠ noMoreEntry) ∧
    (scanFrom [0x62] (fullDir.entries 0) 128 0 {}).outcome.isNone = true := by
  decide +kernel

/-- Every scan of the full directory leaves the chain or never returns. -/
theorem fullDir_leaves_chain :
    ¬ StaysInside (fun fuel => getNbEntries fuel 0) fullDir 0 1 ∧
      ¬ StaysInside (fun fuel => getChildFromParent fuel 0 [0x62]) fullDir 0 1 ∧
      ¬ StaysInside (fun fuel => addDirEntry fuel 1 (some 0)) fullDir 0 1 := by
  have hlive := fullDir_entries.1
  refine ⟨fun hstays => ?_, fun hstays => ?_, fun hstays => ?_⟩
  · obtain ⟨pos, hpos, hstop⟩ := (getNbEntries_inside_iff fullDir_chainOf).mp hstays
    exact hlive pos hpos hstop
  · have hl : fullDir.Children none [] := ⟨rfl, fun q hq => absurd hq List.not_mem_nil⟩
    rcases (getChildFromParent_inside_iff fullDir_chainOf (freshDir_heapOk [0x62]) rfl hl
      [0x62]).mp hstays with ⟨q, hq, -⟩ | hsome
    · exact absurd hq List.not_mem_nil
    · exact hsome (Option.isNone_iff_eq_none.mp fullDir_entries.2)
  · obtain ⟨pos, -, hstop, hroom⟩ :=
      (addDirEntry_inside_iff fullDir_chainOf (c := 1) rfl).mp hstays 1 1 rfl
    exact hlive pos (by omega) hstop

theorem fullDir_scans :
    (StaysInside (fun fuel => getNbEntries fuel 0) fullDir 0 1 ↔
      ∃ pos < 128 * 1, readEntry 0 1 (fullDir.entries 0 pos) false = noMoreEntry) ∧
    (StaysInside (fun fuel => getChildFromParent fuel 0 [0x62]) fullDir 0 1 ↔
      (∃ q ∈ ([] : List Ptr), ∃ inode, fullDir.inodes q = some inode ∧ [0x62] = inode.name) ∨
        (scanFrom [0x62] (fullDir.entries 0) (128 * 1) 0 {}).outcome ≠ none) ∧
    (StaysInside (fun fuel => addDirEntry fuel 1 (some 0)) fullDir 0 1 ↔
      HasRoom (fullDir.entries 0) 1 [0x62]) :=
  scans_inside_iff (c := 1) (l := []) fullDir_chainOf (freshDir_heapOk [0x62]) rfl
    ⟨rfl, fun q hq => absurd hq List.not_mem_nil⟩ rfl [0x62]

end GietVm.Fat
