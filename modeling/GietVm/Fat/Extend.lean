import GietVm.Fat.Allocator

/-!
# Extension of a file

`_clusters_allocate` extends the chain of an inode by new clusters and its File-Cache by one
descriptor for each of them. `Holds s p chain` says that the chain of the inode `p` is
`chain` and that its File-Cache has nothing beyond it. One turn of the loop appends the
first free cluster to the chain; `clustersAllocate_extends` follows by induction on the
number of turns.

A file has at most `2 ^ 20` clusters, since its size is a 32-bit number of bytes.
-/

namespace GietVm.Fat

open GietVm.Library

/-! ## One buffer -/

/-- `s'` is `s` with the descriptor `desc` added to the File-Cache of `p` at index `k`. -/
structure Attached (s s' : FatState) (p : Ptr) (k : ℕ) (desc : Desc) : Prop where
  bare : s'.bare = s.bare
  others : ∀ owner, owner ≠ some p → s'.cacheAt owner = s.cacheAt owner
  cacheOk : ∀ inode, s.inodes p = some inode → ∃ inode', s'.inodes p = some inode' ∧
    inode'.core = inode.core ∧ CacheOk inode'.levels inode'.cache ∧ k < 64 ^ inode'.levels
  slot : ∀ j, s'.slot (some p) j = if j = k then some desc else s.slot (some p) j

section Buffer

variable {s s' : FatState} {p : Ptr}

theorem allocateOneBuffer_run {inode : Inode} (hp : s.inodes p = some inode)
    (hok : CacheOk inode.levels inode.cache) {k cluster : ℕ}
    (hk : k < 64 ^ inode.levels ∨ (k + 1) * 4096 < 0x100000000)
    (hempty : s.slot (some p) k = none) (hcluster : 2 ≤ cluster) :
    ∃ s' desc, allocateOneBuffer p k cluster s = .ok () s' ∧ Attached s s' p k desc ∧
      desc.dirty = true ∧ desc.lba = s.clusterLba cluster ∧
      desc.buffer = s.garbage desc.bufferAddress ∧ s.brk ≤ desc.bufferAddress ∧
      s.brk ≤ s'.brk ∧ s.brk ≤ desc.address ∧ desc.address < s'.brk ∧
      ∀ inode', s'.inodes p = some inode' → inode.levels ≤ inode'.levels := by
  obtain ⟨levels, root, s₁, hgrow, hre, hle, hcover⟩ := growCache_run hp hok k
  have hk' : k < 64 ^ levels := by
    rcases hk with hk | hk
    · exact hk.trans_le (Nat.pow_le_pow_right (by omega) hle)
    · exact (lt_pow_getLevelsFromSize hk).trans_le (Nat.pow_le_pow_right (by omega) hcover)
  obtain ⟨root₂, s₂, hopen, hre₂, hpath⟩ := openCache_run hre.cacheAt hre.ok hk'
  rw [hre.slot, hempty] at hopen
  have hall : Reshaped s s₂ (some p) levels root₂ := hre.trans hre₂
  set desc : Desc :=
    { address := s₂.brk, bufferAddress := s₂.brk + 1, lba := s.clusterLba cluster, dirty := true,
      buffer := s.garbage (s₂.brk + 1) } with hdesc
  set s₃ : FatState := { s₂ with brk := s₂.brk + 1 + 1 } with hs₃
  have hcache₃ : s₃.cacheAt (some p) = some (levels, root₂) := hre₂.cacheAt
  have hbare₃ : s₃.bare = s.bare := by
    rw [← hall.bare]
    rfl
  have hcache := cacheAt_withCache hcache₃ (RadixTree.attach levels root₂ k desc)
  have hbrk : (s₃.withCache (some p) (RadixTree.attach levels root₂ k desc)).brk =
      s₂.brk + 1 + 1 := by
    rw [FatState.withCache]
    split <;> rfl
  refine ⟨s₃.withCache (some p) (RadixTree.attach levels root₂ k desc), desc, ?_,
    ⟨(bare_withCache s₃ _ _).trans hbare₃, ?_, ?_, ?_⟩, rfl, rfl, rfl,
    hall.brk.trans (Nat.le_succ _), ?_, hall.brk, ?_, fun inode' hp' => ?_⟩
  · rw [allocateOneBuffer, exits_bind_ok hgrow, exits_bind_ok hopen]
    change (malloc >>= fun pdesc => _) s₂ = _
    rw [exits_bind_ok (show malloc s₂ = .ok s₂.brk { s₂ with brk := s₂.brk + 1 } from rfl),
      exits_bind_ok (clusterToLba_run hcluster),
      exits_bind_ok (show malloc _ = .ok (s₂.brk + 1) s₃ from rfl), exits_bind_get,
      modifyCache_run hcache₃]
    have hdata : s₂.dataLba = s.dataLba := bare_dataLba hall.bare
    have hgarbage : s₂.garbage = s.garbage := by
      have := congrArg FatState.garbage hall.bare
      exact this
    simp only [hdesc, FatState.clusterLba, hs₃, hdata, hgarbage]
  · intro owner ho
    rw [hcache, if_neg ho, ← hall.others owner ho]
    cases owner <;> rfl
  · intro inode' hp'
    obtain ⟨inode₄, hp₄, hcore⟩ := bare_inode ((bare_withCache s₃ _ _).trans hbare₃) hp'
    have hroot := hcache (some p)
    rw [if_pos rfl, cacheAt_inode hp₄, Option.some.injEq, Prod.mk.injEq] at hroot
    refine ⟨inode₄, hp₄, hcore, ?_, ?_⟩
    · rw [hroot.1, hroot.2]
      exact hre₂.ok.attach k desc
    · rwa [hroot.1]
  · intro j
    rw [FatState.slot, hcache, if_pos rfl]
    simp only [attach_slot hk' hpath, hall.slots]
  · exact hall.brk.trans ((Nat.le_add_right _ 2).trans hbrk.ge)
  · rw [hbrk]
    exact Nat.lt_succ_of_lt (Nat.lt_succ_self _)
  · have hroot := hcache (some p)
    rw [if_pos rfl, cacheAt_inode hp', Option.some.injEq, Prod.mk.injEq] at hroot
    rw [hroot.1]
    exact hle

theorem Attached.fatSlot {k : ℕ} {desc : Desc} (h : Attached s s' p k desc) (j : ℕ) :
    s'.slot none j = s.slot none j := by
  rw [FatState.slot, FatState.slot, h.others none (by simp)]

theorem Attached.fatEntry {k : ℕ} {desc : Desc} (h : Attached s s' p k desc) :
    s'.fatEntry = s.fatEntry := by
  funext c
  rw [FatState.fatEntry, FatState.fatEntry, FatState.fatBlock, FatState.fatBlock, h.fatSlot,
    bare_disk h.bare, bare_fatLba h.bare]

theorem Attached.volume {k : ℕ} {desc : Desc} (h : Attached s s' p k desc) (hv : s.Volume) :
    s'.Volume := by
  have hfat := h.others none (by simp)
  rw [FatState.cacheAt, FatState.cacheAt, Option.some.injEq, Prod.mk.injEq] at hfat
  refine hv.of_bare h.bare ?_ ?_
  · rw [FatState.FatCacheOk, hfat.1, hfat.2]
    exact hv.fatOk
  · intro j d hd
    rw [h.fatSlot] at hd
    rw [FatState.lbaOf, bare_fatLba h.bare, bare_disk h.bare]
    exact hv.coherent j d hd

end Buffer

/-! ## The chain of a file -/

/-- The chain of the inode `p` is `chain`, and its File-Cache has no descriptor beyond it. The
first cluster of an empty file is not looked at. -/
structure FatState.Holds (s : FatState) (p : Ptr) (chain : List ℕ) : Prop where
  live : ∃ inode, s.inodes p = some inode ∧ CacheOk inode.levels inode.cache ∧
    chain.length ≤ 64 ^ inode.levels ∧ (chain ≠ [] → s.Allocated inode.cluster ∧
      Linked EndOfChain s.fatEntry inode.cluster chain)
  beyond : ∀ k, chain.length ≤ k → s.slot (some p) k = none

/-- From `s` to `s'`, the inode `p` with the chain `chain` has got the first free clusters, those
of `new`. -/
structure Extended (s s' : FatState) (p : Ptr) (chain new : List ℕ) : Prop where
  slots : s'.slots = s.slots
  dataLba : s'.dataLba = s.dataLba
  volume : s'.Volume
  ok : s'.AllocatorOk
  free : s.freeClusters = new ++ s'.freeClusters
  holds : s'.Holds p (chain ++ new)
  /-- The slots of the new clusters and of the last old one are the ones that change. -/
  entry : ∀ c < s.slots, c ∉ new → new = [] ∨ chain.getLast? ≠ some c →
    s'.fatEntry c = s.fatEntry c
  last : ∀ c, new.getLast? = some c → s'.fatEntry c = endOfChainClusterMax
  kept : ∀ k < chain.length, s'.slot (some p) k = s.slot (some p) k
  cached : ∀ j c, new[j]? = some c → ∃ desc, s'.slot (some p) (chain.length + j) = some desc ∧
    desc.dirty = true ∧ desc.lba = s.clusterLba c

section Chain

variable {s s' s'' : FatState} {p : Ptr} {chain new : List ℕ} {a b : ℕ} {rest : List ℕ}

theorem Extended.refl (hv : s.Volume) (ha : s.AllocatorOk) (hp : s.Holds p chain) :
    Extended s s p chain [] where
  slots := rfl
  dataLba := rfl
  volume := hv
  ok := ha
  free := rfl
  holds := by
    rw [List.append_nil]
    exact hp
  entry := fun _ _ _ _ => rfl
  last := by simp
  kept := fun _ _ => rfl
  cached := by simp

/-- Appending one cluster and then others. -/
theorem Extended.trans (h : Extended s s' p chain [a]) (h' : Extended s' s'' p (chain ++ [a]) new) :
    Extended s s'' p chain (a :: new) where
  slots := h'.slots.trans h.slots
  dataLba := h'.dataLba.trans h.dataLba
  volume := h'.volume
  ok := h'.ok
  free := by rw [h.free, h'.free, List.singleton_append, List.cons_append]
  holds := by
    have := h'.holds
    rwa [List.append_assoc, List.singleton_append] at this
  entry := by
    intro c hslot hc hlast
    rw [List.mem_cons, not_or] at hc
    have hlast' : chain.getLast? ≠ some c := hlast.resolve_left (by simp)
    rw [h'.entry c (h.slots ▸ hslot) hc.2 (Or.inr (by simpa using Ne.symm hc.1)),
      h.entry c hslot (by simpa using hc.1) (Or.inr hlast')]
  last := by
    intro c hc
    cases new with
    | nil =>
      have hca : a = c := Option.some.inj hc
      have hslot : a < s.slots := (mem_freeClusters.mp (by simp [h.free])).1
      rw [← hca, h'.entry a (h.slots ▸ hslot) (by simp) (Or.inl rfl)]
      exact h.last a rfl
    | cons d new =>
      rw [List.getLast?_cons_cons] at hc
      exact h'.last c hc
  kept := by
    intro k hk
    rw [h'.kept k (by rw [List.length_append]; omega), h.kept k hk]
  cached := by
    intro j c hj
    cases j with
    | zero =>
      obtain ⟨desc, hslot, hdesc⟩ := h.cached 0 c hj
      refine ⟨desc, ?_, hdesc⟩
      rw [h'.kept _ (by simp), hslot]
    | succ j =>
      obtain ⟨desc, hslot, hdirty, hlba⟩ := h'.cached j c hj
      refine ⟨desc, ?_, hdirty, ?_⟩
      · rw [← hslot, List.length_append, List.length_singleton]
        congr 1
        omega
      · rw [hlba, FatState.clusterLba, FatState.clusterLba, h.dataLba]

/-- The levels that an index needs when the indices before it are covered. -/
theorem covered_or_small {k levels : ℕ} (hlevels : levels ≠ 0) (hk : k ≤ 64 ^ levels)
    (hsize : k < 0x100000) : k < 64 ^ levels ∨ (k + 1) * 4096 < 0x100000000 := by
  obtain ⟨n, rfl⟩ := Nat.exists_eq_succ_of_ne_zero hlevels
  rw [Nat.pow_succ] at hk ⊢
  omega

/-- The clusters of a chain have slots that are allocated. -/
theorem FatState.Holds.allocated (hp : s.Holds p chain) (ha : s.AllocatorOk) :
    ∀ c ∈ chain, s.Allocated c := by
  obtain ⟨inode, -, -, -, hchain⟩ := hp.live
  intro c hc
  have hne : chain ≠ [] := List.ne_nil_of_mem hc
  exact ha.chains.live_of_mem (hchain hne).1 (hchain hne).2 c hc

/-- The slot of the last cluster ends the chain. -/
theorem FatState.Holds.last_ends (hp : s.Holds p chain) {l : ℕ} (hl : chain.getLast? = some l) :
    EndOfChain (s.fatEntry l) := by
  obtain ⟨inode, -, -, -, hchain⟩ := hp.live
  have hne : chain ≠ [] := by
    rintro rfl
    cases hl
  exact (hchain hne).2.last hl

/-- What one turn of the loop does before it writes the link to the new cluster: the cluster `a`
is allocated and ends at once, and the File-Cache has its descriptor. -/
structure Prepared (s s' : FatState) (p : Ptr) (n a : ℕ) : Prop where
  slots : s'.slots = s.slots
  dataLba : s'.dataLba = s.dataLba
  volume : s'.Volume
  ok : s'.AllocatorOk
  free : s.freeClusters = a :: s'.freeClusters
  entry : s'.fatEntry = Function.update s.fatEntry a endOfChainClusterMax
  first : ∀ c, s'.Allocated c → s'.fatEntry c ≠ a
  live : ∀ inode, s.inodes p = some inode → ∃ inode', s'.inodes p = some inode' ∧
    inode'.cluster = inode.cluster ∧ CacheOk inode'.levels inode'.cache ∧ n < 64 ^ inode'.levels
  slot : ∃ desc, desc.dirty = true ∧ desc.lba = s.clusterLba a ∧
    ∀ j, s'.slot (some p) j = if j = n then some desc else s.slot (some p) j

/-- The allocations of a cluster and of a buffer. -/
theorem prepare_run (hv : s.Volume) (ha : s.AllocatorOk) (hp : s.Holds p chain)
    (hfree : s.freeClusters = a :: b :: rest) (hsize : chain.length < 0x100000) :
    ∃ s₁ s₂, (∀ get set, Agrees s.slots get set →
        allocateOneClusterVia get set s = .ok (some a) s₁) ∧
      allocateOneBuffer p chain.length a s₁ = .ok () s₂ ∧
      Prepared s s₂ p chain.length a := by
  obtain ⟨s₁, hrun, htook⟩ := allocateOneClusterVia_run hv ha hfree
  obtain ⟨inode, hinode, hok, hlevels, -⟩ := hp.live
  have hslot (j : ℕ) : s₁.slot (some p) j = s.slot (some p) j := by
    rw [FatState.slot, FatState.slot, FatState.cacheAt, FatState.cacheAt, htook.inodes]
  have hempty : s₁.slot (some p) chain.length = none := by
    rw [hslot]
    exact hp.beyond _ le_rfl
  obtain ⟨s₂, desc, hbuffer, hatt, hdirty, hlba, -⟩ :=
    allocateOneBuffer_run (s := s₁) (by rw [htook.inodes]; exact hinode) hok
      (covered_or_small hok.levels_pos hlevels hsize) hempty
      (ha.reserved a (by simp [hfree]))
  refine ⟨s₁, s₂, hrun, hbuffer, ?_⟩
  refine ⟨(bare_slots hatt.bare).trans htook.slots, (bare_dataLba hatt.bare).trans htook.dataLba,
    hatt.volume htook.volume, ?_, ?_, hatt.fatEntry.trans htook.entry, ?_, ?_,
    ⟨desc, hdirty, ?_, ?_⟩⟩
  · exact htook.ok.congr (bare_slots hatt.bare) (fun c _ => by rw [hatt.fatEntry])
      (bare_freeNumber hatt.bare) (bare_firstFree hatt.bare)
  · rw [freeClusters_congr (bare_slots hatt.bare) fun c _ => by rw [hatt.fatEntry]]
    exact htook.free
  · rw [allocated_congr (bare_slots hatt.bare) fun c _ => by rw [hatt.fatEntry], hatt.fatEntry]
    exact htook.first
  · intro inode' hinode'
    obtain ⟨inode₂, hp₂, hcore, hok₂, hlt⟩ :=
      hatt.cacheOk inode' (by rw [htook.inodes]; exact hinode')
    exact ⟨inode₂, hp₂, core_cluster hcore, hok₂, hlt⟩
  · rw [hlba, FatState.clusterLba, FatState.clusterLba, htook.dataLba]
  · intro j
    rw [hatt.slot, hslot]

/-- The new cluster is allocated and ends at once. -/
theorem Prepared.allocated {n : ℕ} (h : Prepared s s' p n a) (ha : s.AllocatorOk) :
    s'.Allocated a ∧ s'.fatEntry a = endOfChainClusterMax := by
  have hmem : a ∈ s.freeClusters := by simp [h.free]
  have hend : s'.fatEntry a = endOfChainClusterMax := by rw [h.entry, Function.update_self]
  refine ⟨⟨ha.reserved a hmem, ?_, ?_, ?_, ?_⟩, hend⟩
  · rw [h.slots]
    exact (mem_freeClusters.mp hmem).1
  · rw [hend]
    decide
  · rw [hend]
    decide
  · rw [hend]
    decide

/-- The first cluster of an empty file. -/
theorem Prepared.begin (h : Prepared s s' p 0 a) (ha : s.AllocatorOk) (hp : s.Holds p []) :
    ∃ s'', modifyInode p (fun inode => { inode with cluster := a }) s' = .ok () s'' ∧
      Extended s s'' p [] [a] := by
  obtain ⟨inode, hinode, -⟩ := hp.live
  obtain ⟨inode', hinode', -, hok', hlt⟩ := h.live inode hinode
  obtain ⟨desc, hdirty, hlba, hslot⟩ := h.slot
  obtain ⟨hnew, hend⟩ := h.allocated ha
  set inode₂ : Inode := { inode' with cluster := a } with hinode₂
  have hfile : (s'.setInode p inode₂).cacheAt (some p) = s'.cacheAt (some p) := by
    rw [cacheAt_inode hinode', cacheAt_inode (Function.update_self ..)]
  have hslot' (j : ℕ) : (s'.setInode p inode₂).slot (some p) j =
      if j = 0 then some desc else s.slot (some p) j := by
    rw [FatState.slot, hfile, ← hslot]
    rfl
  have hv := h.volume
  refine ⟨s'.setInode p inode₂, modifyInode_run hinode' _, h.slots, h.dataLba, ?_, ?_, h.free,
    ⟨⟨inode₂, Function.update_self .., hok', ?_, fun _ => ⟨hnew, rfl, ?_, ?_⟩⟩, ?_⟩, ?_, ?_, ?_, ?_⟩
  · exact ⟨hv.fatLba, hv.dataSectors, hv.slots, hv.levels, hv.fatOk, hv.deviceOk, hv.coherent⟩
  · exact h.ok.congr rfl (fun _ _ => rfl) rfl rfl
  · exact hlt
  · exact hv.not_end hnew.2.1
  · change EndOfChain (s'.fatEntry a)
    rw [hend]
    exact (by decide : endOfChainClusterMin ≤ endOfChainClusterMax)
  · intro k hk
    change 1 ≤ k at hk
    rw [hslot', if_neg (by omega)]
    exact hp.beyond k (Nat.zero_le k)
  · intro c _ hc _
    change s'.fatEntry c = _
    rw [h.entry, Function.update_of_ne (by simpa using hc)]
  · intro c hc
    have hca : a = c := Option.some.inj hc
    exact hca ▸ hend
  · intro k hk
    cases hk
  · intro j c hj
    have hj' : j = 0 ∧ a = c := by
      cases j with
      | zero => exact ⟨rfl, Option.some.inj hj⟩
      | succ j => simp at hj
    refine ⟨desc, ?_, hdirty, ?_⟩
    · rw [hslot', hj'.1]
      rfl
    · rw [hlba, hj'.2]

/-- A cluster linked behind the last one of the file. -/
theorem Prepared.next (h : Prepared s s' p chain.length a) (ha : s.AllocatorOk)
    (hp : s.Holds p chain) {l : ℕ} (hl : chain.getLast? = some l) :
    ∃ s'', setFatEntry l a s' = .ok false s'' ∧ Extended s s'' p chain [a] := by
  obtain ⟨inode, hinode, -, -, hchain⟩ := hp.live
  obtain ⟨inode', hinode', hcluster, hok', hlt⟩ := h.live inode hinode
  obtain ⟨desc, hdirty, hlba, hslot⟩ := h.slot
  obtain ⟨hnew, hend⟩ := h.allocated ha
  have hzero : s.fatEntry a = freeCluster := (mem_freeClusters.mp (by simp [h.free])).2
  have hother (c : ℕ) (hc : c ≠ a) : s'.fatEntry c = s.fatEntry c := by
    rw [h.entry, Function.update_of_ne hc]
  have hmem : l ∈ chain := List.mem_of_getLast? hl
  have hne : chain ≠ [] := List.ne_nil_of_mem hmem
  have hnotin : a ∉ chain := fun hin => (hp.allocated ha a hin).2.2.1 hzero
  have hla : a ≠ l := fun heq => hnotin (heq ▸ hmem)
  have hbound : s'.slots ≤ 0x0FFFFFF7 := h.volume.slots
  have hold (c : ℕ) (hc : c ∈ chain) : s'.Allocated c := by
    have hca : c ≠ a := fun heq => hnotin (heq ▸ hc)
    rw [FatState.Allocated, hother c hca, h.slots]
    exact hp.allocated ha c hc
  have hlink : Linked EndOfChain s'.fatEntry inode.cluster chain :=
    (hchain hne).2.frame fun c hc => hother c fun heq => hnotin (heq ▸ hc)
  obtain ⟨s'', hrun, honly, hv, hentry⟩ := setFatEntry_run h.volume (hold l hmem).2.1
    (by have := hnew.2.1; omega : a < 0x100000000)
  have hslots : s''.slots = s'.slots := bare_slots honly.bare
  have hself : EndOfChain (s'.fatEntry a) := by
    rw [hend]
    exact (by decide : endOfChainClusterMin ≤ endOfChainClusterMax)
  have hok : s''.AllocatorOk :=
    h.ok.link h.volume (hold l hmem) hnew hla hself h.first hslots hentry
      (bare_freeNumber honly.bare) (bare_firstFree honly.bare)
  have hchain' : Linked EndOfChain s''.fatEntry inode.cluster (chain ++ [a]) := by
    rw [hentry]
    exact hlink.snoc hl (h.volume.not_end hnew.2.1) hself hnotin
  have hslot' (j : ℕ) : s''.slot (some p) j =
      if j = chain.length then some desc else s.slot (some p) j := by
    rw [honly.slot, hslot]
  refine ⟨s'', hrun, hslots.trans h.slots, (bare_dataLba honly.bare).trans h.dataLba, hv, hok, ?_,
    ⟨⟨inode', ?_, hok', ?_, fun _ => ⟨?_, ?_⟩⟩, ?_⟩, ?_, ?_, ?_, ?_⟩
  · rw [freeClusters_keep hslots ?_ hentry (hold l hmem).2.2.1]
    · exact h.free
    · have h2 := hnew.1
      change a ≠ 0
      omega
  · rw [honly.inodes]
    exact hinode'
  · rw [List.length_append]
    exact hlt
  · rw [hcluster, allocated_keep hslots (h.volume.not_mark hnew.1 hnew.2.1) hentry (hold l hmem)]
    refine hold _ ?_
    cases chain with
    | nil => exact (hne rfl).elim
    | cons c rest => exact (hchain hne).2.1 ▸ List.mem_cons_self
  · rw [hcluster]
    exact hchain'
  · intro k hk
    rw [List.length_append, List.length_singleton] at hk
    rw [hslot', if_neg (by omega)]
    exact hp.beyond k (by omega)
  · intro c _ hc hlast
    have hcl : c ≠ l := by
      rintro rfl
      exact hlast.resolve_left (by simp) hl
    rw [hentry, Function.update_of_ne hcl, hother c (by simpa using hc)]
  · intro c hc
    have hca : a = c := Option.some.inj hc
    rw [← hca, hentry, Function.update_of_ne hla, hend]
  · intro k hk
    rw [hslot', if_neg (by omega)]
  · intro j c hj
    have hj' : j = 0 ∧ a = c := by
      cases j with
      | zero => exact ⟨rfl, Option.some.inj hj⟩
      | succ j => simp at hj
    refine ⟨desc, ?_, hdirty, ?_⟩
    · rw [hslot', hj'.1, Nat.add_zero, if_pos rfl]
    · rw [hlba, hj'.2]

/-! ## The loop -/

/-- One turn of the loop. -/
theorem allocateClustersVia_turn (hv : s.Volume) (ha : s.AllocatorOk) (hp : s.Holds p chain)
    (hfree : s.freeClusters = a :: b :: rest) (hsize : chain.length < 0x100000) :
    ∃ s', (∀ get set, Agrees s.slots get set → ∀ more,
        allocateClustersVia get set p (more + 1) chain.length chain.getLast? s =
          allocateClustersVia get set p more (chain ++ [a]).length (chain ++ [a]).getLast? s') ∧
      Extended s s' p chain [a] := by
  obtain ⟨s₁, s₂, hone, hbuffer, hprepared⟩ := prepare_run hv ha hp hfree hsize
  cases hl : chain.getLast? with
  | none =>
    obtain rfl := List.getLast?_eq_none_iff.mp hl
    obtain ⟨s', hmodify, hext⟩ := hprepared.begin ha hp
    refine ⟨s', fun get set hagree more => ?_, hext⟩
    rw [allocateClustersVia, exits_bind_ok (hone get set hagree)]
    simp only [List.length_nil] at hbuffer ⊢
    rw [exits_bind_ok hbuffer]
    simp only [if_true]
    change (modifyInode p _ >>= fun _ => _) s₂ = _
    rw [exits_bind_ok hmodify]
    rfl
  | some l =>
    obtain ⟨s', hset, hext⟩ := hprepared.next ha hp hl
    refine ⟨s', fun get set hagree more => ?_, hext⟩
    have hmem : l ∈ chain := List.mem_of_getLast? hl
    have hne : chain.length ≠ 0 := by
      intro h
      rw [List.length_eq_zero_iff] at h
      rw [h] at hmem
      cases hmem
    rw [allocateClustersVia, exits_bind_ok (hone get set hagree)]
    simp only
    rw [exits_bind_ok hbuffer, if_neg hne, setLastVia, hagree.set l (hp.allocated ha l hmem).2.1,
      exits_bind_ok hset]
    simp

theorem two_of_length {l : List ℕ} (h : 1 < l.length) : ∃ a b rest, l = a :: b :: rest := by
  match l with
  | [] => cases h
  | [a] => exact absurd h (lt_irrefl 1)
  | a :: b :: rest => exact ⟨a, b, rest, rfl⟩

/-- The loop appends the first free clusters, as long as one more is free. -/
theorem allocateClustersVia_run (k : ℕ) (hv : s.Volume) (ha : s.AllocatorOk)
    (hp : s.Holds p chain) (hk : k < s.freeClusters.length)
    (hsize : chain.length + k ≤ 0x100000) :
    ∃ s', (∀ get set, Agrees s.slots get set →
        allocateClustersVia get set p k chain.length chain.getLast? s =
          .ok (some (chain ++ s.freeClusters.take k).getLast?) s') ∧
      Extended s s' p chain (s.freeClusters.take k) := by
  induction k generalizing s chain with
  | zero =>
    refine ⟨s, fun get set _ => ?_, ?_⟩
    · rw [allocateClustersVia, List.take_zero, List.append_nil]
      rfl
    · rw [List.take_zero]
      exact Extended.refl hv ha hp
  | succ k ih =>
    obtain ⟨a, b, rest, hfree⟩ := two_of_length (by omega : 1 < s.freeClusters.length)
    obtain ⟨s₁, hturn, hext⟩ := allocateClustersVia_turn hv ha hp hfree (by omega)
    have hfree₁ : s.freeClusters = a :: s₁.freeClusters := hext.free
    rw [hfree₁, List.length_cons] at hk
    obtain ⟨s', hrun, hext'⟩ := ih hext.volume hext.ok hext.holds (by omega)
      (by rw [List.length_append, List.length_singleton]; omega)
    rw [hfree₁, List.take_succ_cons]
    refine ⟨s', fun get set hagree => ?_, hext.trans hext'⟩
    rw [hturn get set hagree k, hrun get set (hext.slots ▸ hagree), List.append_assoc,
      List.singleton_append]

/-- The search of the last cluster of a chain. -/
theorem findLastVia_run (hv : s.Volume) {current : ℕ}
    (hl : Linked EndOfChain s.fatEntry current chain) (hin : ∀ c ∈ chain, c < s.slots)
    {fuel : ℕ} (hfuel : chain.length < fuel) (last : Option ℕ) :
    ∃ s', (∀ get, (∀ c < s.slots, get c = getFatEntry c) →
        findLastVia get fuel current last s = .ok (some (chain.getLast?.or last)) s') ∧
      Cached s s' ∧ ∀ q, s'.cacheAt (some q) = s.cacheAt (some q) := by
  induction chain generalizing s current fuel last with
  | nil =>
    obtain ⟨fuel, rfl⟩ := Nat.exists_eq_succ_of_ne_zero (by omega : fuel ≠ 0)
    refine ⟨s, fun get _ => ?_, Cached.refl s, fun _ => rfl⟩
    have hend : ¬ current < endOfChainClusterMin := not_lt.mpr hl
    rw [findLastVia, if_neg hend]
    rfl
  | cons c chain ih =>
    obtain ⟨fuel, rfl⟩ := Nat.exists_eq_succ_of_ne_zero (by omega : fuel ≠ 0)
    obtain ⟨rfl, hgo, htail⟩ := hl
    have hc : current < s.slots := hin current List.mem_cons_self
    obtain ⟨s₁, hget, hcached, hfiles⟩ := getFatEntry_run hv.fatOk hv.deviceOk (hv.inFat hc)
    have hslots : s₁.slots = s.slots := bare_slots hcached.bare
    have hfat : s₁.fatEntry = s.fatEntry := funext hcached.fatEntry
    rw [List.length_cons] at hfuel
    have hfuel' : chain.length < fuel := by omega
    obtain ⟨s', hrun, hcached', hfiles'⟩ := ih (s := s₁)
      (hcached.volume hv) (by rw [hfat]; exact htail)
      (fun d hd => hslots ▸ hin d (List.mem_cons_of_mem _ hd)) hfuel'
      (some current)
    refine ⟨s', fun get hagree => ?_, hcached.trans hcached',
      fun q => (hfiles' q).trans (hfiles q)⟩
    have hlt : current < endOfChainClusterMin := not_le.mp hgo
    rw [findLastVia, if_pos hlt, hagree current hc, exits_bind_ok hget]
    simp only
    rw [hrun get fun d hd => hagree d (hslots ▸ hd)]
    cases chain with
    | nil => rfl
    | cons d chain =>
      rw [List.getLast?_cons_cons]
      cases hlast : (d :: chain).getLast? with
      | none => simp at hlast
      | some l => rfl

/-! ## The call -/

/-- `s'` has the files, the FAT and the counters of `s`. -/
structure Same (s s' : FatState) : Prop where
  inodes : s'.inodes = s.inodes
  slots : s'.slots = s.slots
  dataLba : s'.dataLba = s.dataLba
  entry : ∀ c < s.slots, s'.fatEntry c = s.fatEntry c
  number : s'.freeClustersNumber = s.freeClustersNumber
  first : s'.firstFreeCluster = s.firstFreeCluster

theorem FatOnly.same (h : FatOnly s s') (hentry : s'.fatEntry = s.fatEntry) : Same s s' where
  inodes := h.inodes
  slots := bare_slots h.bare
  dataLba := bare_dataLba h.bare
  entry := fun c _ => congrFun hentry c
  number := bare_freeNumber h.bare
  first := bare_firstFree h.bare

theorem Same.slot (h : Same s s') (q : Ptr) (k : ℕ) : s'.slot (some q) k = s.slot (some q) k := by
  rw [FatState.slot, FatState.slot, FatState.cacheAt, FatState.cacheAt, h.inodes]

theorem Same.allocatorOk (h : Same s s') (ha : s.AllocatorOk) : s'.AllocatorOk :=
  ha.congr h.slots h.entry h.number h.first

theorem Same.holds (h : Same s s') (ha : s.AllocatorOk) (hp : s.Holds p chain) :
    s'.Holds p chain where
  live := by
    obtain ⟨inode, hinode, hok, hlevels, hchain⟩ := hp.live
    refine ⟨inode, by rw [h.inodes]; exact hinode, hok, hlevels, fun hne => ⟨?_, ?_⟩⟩
    · rw [allocated_congr h.slots h.entry]
      exact (hchain hne).1
    · exact (hchain hne).2.frame fun c hc => h.entry c (hp.allocated ha c hc).2.1
  beyond := by
    intro k hk
    rw [h.slot]
    exact hp.beyond k hk

theorem Extended.of_same (h : Same s s') (hext : Extended s' s'' p chain new) :
    Extended s s'' p chain new where
  slots := hext.slots.trans h.slots
  dataLba := hext.dataLba.trans h.dataLba
  volume := hext.volume
  ok := hext.ok
  free := by
    rw [← freeClusters_congr h.slots h.entry]
    exact hext.free
  holds := hext.holds
  entry := fun c hc hnew hlast =>
    (hext.entry c (h.slots ▸ hc) hnew hlast).trans (h.entry c hc)
  last := hext.last
  kept := fun k hk => (hext.kept k hk).trans (h.slot p k)
  cached := by
    intro j c hj
    obtain ⟨desc, hslot, hdirty, hlba⟩ := hext.cached j c hj
    refine ⟨desc, hslot, hdirty, ?_⟩
    rw [hlba, FatState.clusterLba, FatState.clusterLba, h.dataLba]

theorem Extended.same (hext : Extended s s' p chain new) (h : Same s' s'') (hv : s''.Volume) :
    Extended s s'' p chain new where
  slots := h.slots.trans hext.slots
  dataLba := h.dataLba.trans hext.dataLba
  volume := hv
  ok := h.allocatorOk hext.ok
  free := by
    rw [freeClusters_congr h.slots h.entry]
    exact hext.free
  holds := h.holds hext.ok hext.holds
  entry := fun c hc hnew hlast =>
    (h.entry c (hext.slots ▸ hc)).trans (hext.entry c hc hnew hlast)
  last := by
    intro c hc
    have hmem : c ∈ s.freeClusters := by
      rw [hext.free]
      exact List.mem_append_left _ (List.mem_of_getLast? hc)
    rw [h.entry c (hext.slots ▸ (mem_freeClusters.mp hmem).1)]
    exact hext.last c hc
  kept := fun k hk => (h.slot p k).trans (hext.kept k hk)
  cached := by
    intro j c hj
    obtain ⟨desc, hslot, hdesc⟩ := hext.cached j c hj
    exact ⟨desc, (h.slot p _).trans hslot, hdesc⟩

/-- Marking the end of the chain again changes nothing. -/
theorem Extended.close (hext : Extended s s' p chain new) {l : ℕ} (hl : new.getLast? = some l) :
    ∃ s'', setFatEntry l endOfChainClusterMax s' = .ok false s'' ∧
      Extended s s'' p chain new := by
  have hmem : l ∈ s.freeClusters := by
    rw [hext.free]
    exact List.mem_append_left _ (List.mem_of_getLast? hl)
  obtain ⟨s'', hrun, honly, hv, hentry⟩ := setFatEntry_run hext.volume
    (hext.slots ▸ (mem_freeClusters.mp hmem).1) (by decide : endOfChainClusterMax < _)
  refine ⟨s'', hrun, hext.same (honly.same ?_) hv⟩
  rw [hentry, ← hext.last l hl, Function.update_eq_self]

/-- Copying the FAT to the device changes nothing else. -/
theorem Extended.copy (hext : Extended s s' p chain new) :
    ∃ s'', updateDeviceFromCache none s' = .ok false s'' ∧ Extended s s'' p chain new ∧
      ∀ c < s.slots, s''.deviceEntry c = s''.fatEntry c := by
  obtain ⟨root, device, hrun, hv, hentry⟩ := updateFat_run hext.volume
  refine ⟨_, hrun, hext.same ⟨rfl, rfl, rfl, fun c hc => (hentry c hc).1, rfl, rfl⟩ hv, ?_⟩
  intro c hc
  rw [(hentry c (hext.slots ▸ hc)).1, (hentry c (hext.slots ▸ hc)).2]

/-- The search of the last cluster, which an empty file does not need, and what follows it. -/
theorem searchLast_run (hv : s.Volume) (ha : s.AllocatorOk) (hp : s.Holds p chain)
    {inode : Inode} (hinode : s.inodes p = some inode) {fuel : ℕ} (hfuel : chain.length < fuel) :
    ∃ s', (∀ get, (∀ c < s.slots, get c = getFatEntry c) →
        ∀ rest : Option (Option ℕ) → FatM Bool,
          (if chain.length ≠ 0 then findLastVia get fuel inode.cluster none >>= rest
            else pure (some none) >>= rest) s = rest (some chain.getLast?) s') ∧
      Same s s' ∧ s'.Volume := by
  cases chain with
  | nil => exact ⟨s, fun get _ _ => rfl, (FatOnly.refl s).same rfl, hv⟩
  | cons c chain =>
    obtain ⟨inode', hinode', -, -, hchain⟩ := hp.live
    rw [hinode, Option.some.injEq] at hinode'
    subst hinode'
    obtain ⟨s', hrun, hcached, hfiles⟩ := findLastVia_run hv (hchain (by simp)).2
      (fun c hc => (hp.allocated ha c hc).2.1) hfuel none
    refine ⟨s', fun get hget rest => ?_,
      FatOnly.same ⟨hcached.bare, hfiles⟩ (funext hcached.fatEntry), hcached.volume hv⟩
    rw [if_pos (by simp), exits_bind_ok (hrun get hget), Option.or_none]

/-- `_clusters_allocate` when one more cluster is free than it needs: every way to access the
FAT that is right on its slots gives the same run. -/
theorem clustersAllocateVia_run (hv : s.Volume) (ha : s.AllocatorOk) (hp : s.Holds p chain)
    {k fuel : ℕ} (hpos : 1 ≤ k) (hk : k < s.freeClustersNumber)
    (hsize : chain.length + k ≤ 0x100000) (hfuel : chain.length < fuel) :
    ∃ s', (∀ get set, Agrees s.slots get set →
        clustersAllocateVia get set fuel p chain.length k s = .ok false s') ∧
      Extended s s' p chain (s.freeClusters.take k) ∧
      ∀ c < s.slots, s'.deviceEntry c = s'.fatEntry c := by
  obtain ⟨inode, hinode, -⟩ := hp.live
  obtain ⟨s₁, hsearch, hsame, hv₁⟩ := searchLast_run hv ha hp hinode hfuel
  have hlength : k < s₁.freeClusters.length := by
    rw [freeClusters_congr hsame.slots hsame.entry, ← ha.number]
    exact hk
  obtain ⟨s₂, hloop, hext⟩ := allocateClustersVia_run k hv₁ (hsame.allocatorOk ha)
    (hsame.holds ha hp) hlength hsize
  have hext' := Extended.of_same hsame hext
  rw [freeClusters_congr hsame.slots hsame.entry] at hloop hext'
  obtain ⟨l, hl⟩ : ∃ l, (s.freeClusters.take k).getLast? = some l := by
    cases hlast : (s.freeClusters.take k).getLast? with
    | some l => exact ⟨l, rfl⟩
    | none =>
      have hnil := List.getLast?_eq_none_iff.mp hlast
      have := congrArg List.length hnil
      rw [List.length_take, List.length_nil, ← ha.number] at this
      omega
  have hlast : (chain ++ s.freeClusters.take k).getLast? = some l := by
    rw [List.getLast?_append, hl, Option.some_or]
  have hslot : l < s.slots :=
    (mem_freeClusters.mp (List.mem_of_mem_take (List.mem_of_getLast? hl))).1
  obtain ⟨s₃, hclose, hext₃⟩ := hext'.close hl
  obtain ⟨s₄, hcopy, hext₄, hdevice⟩ := hext₃.copy
  refine ⟨s₄, fun get set hagree => ?_, hext₄, hdevice⟩
  rw [clustersAllocateVia, exits_bind_get, if_neg (by omega), exits_bind_ok (getInode_run hinode)]
  refine (hsearch get hagree.get _).trans ?_
  simp only
  rw [exits_bind_ok (hloop get set (hsame.slots ▸ hagree))]
  simp only [hlast, setLastVia, hagree.set l hslot]
  rw [exits_bind_ok hclose]
  exact hcopy

/-- `_clusters_allocate` on a request for fewer clusters than there are free ones. The chain of
the inode is extended by the smallest free clusters, the allocator keeps its invariant, the
File-Cache has the new clusters, and the device has the new FAT. -/
theorem clustersAllocate_extends (hv : s.Volume) (ha : s.AllocatorOk) (hp : s.Holds p chain)
    {k fuel : ℕ} (hpos : 1 ≤ k) (hk : k < s.freeClustersNumber)
    (hsize : chain.length + k ≤ 0x100000) (hfuel : chain.length < fuel) :
    ∃ s', clustersAllocate fuel p chain.length k s = .ok false s' ∧
      Extended s s' p chain (s.freeClusters.take k) ∧
      s'.freeClustersNumber + k = s.freeClustersNumber ∧
      ∀ c < s.slots, s'.deviceEntry c = s'.fatEntry c := by
  obtain ⟨s', hrun, hext, hdevice⟩ := clustersAllocateVia_run hv ha hp hpos hk hsize hfuel
  refine ⟨s', ?_, hext, ?_, hdevice⟩
  · rw [← clustersAllocateVia_self]
    exact hrun _ _ (Agrees.self s.slots)
  · have hlength := congrArg List.length hext.free
    rw [List.length_append, List.length_take, ← ha.number, ← hext.ok.number] at hlength
    omega

end Chain

/-! ## A small volume -/

/-- The FAT of a volume whose chains have one cluster each. -/
def tableDisk (free : List ℕ) : Disk := fun a =>
  (Bytes.wordBytes (if (a - 0x4000) / 4 ∈ free then freeCluster else endOfChainClusterMax)).getD
    ((a - 0x4000) % 4) 0

/-- A volume of 2048 slots with the given free clusters and one inode. -/
def volumeOf (free : List ℕ) (inode : Inode) : FatState :=
  { FatState.boot ⟨tableDisk free, fun _ => false, 0⟩ (fun _ _ => 0) (fun _ => 0) with
    fatLba := 32
    fatSectors := 16
    dataLba := 48
    dataSectors := 16384
    fatCacheRoot := RadixTree.emptyNode 1
    fatCacheLevels := 1
    firstFreeCluster := free.headD 0
    freeClustersNumber := free.length
    brk := 8
    inodes := fun p => if p = 7 then some inode else none }

/-- The inode of a file with one cluster. -/
def smallFile : Inode where
  parent := none
  next := none
  child := none
  cache := RadixTree.emptyNode 2
  cluster := 3
  size := 4096
  count := 1
  dentry := 0
  levels := 1
  isDir := false
  name := [0x66]

section VolumeOf

variable (free : List ℕ) (inode : Inode)

theorem volumeOf_slots : (volumeOf free inode).slots = 2048 := by
  have hsectors : (volumeOf free inode).dataSectors = 16384 := rfl
  rw [FatState.slots, hsectors]

theorem volumeOf_slot (k : ℕ) : (volumeOf free inode).slot none k = none := by
  have hcache : (volumeOf free inode).cacheAt none = some (1, RadixTree.emptyNode 1) := rfl
  rw [slot_eq hcache, slotOf, RadixTree.get?_emptyNode, ite_self]

theorem volumeOf_entry {c : ℕ} (hc : c < 2048) : (volumeOf free inode).fatEntry c =
    if c ∈ free then freeCluster else endOfChainClusterMax := by
  have hlba : u32 (32 + c / 0x400 * 8) = 32 + c / 0x400 * 8 := Nat.mod_eq_of_lt (by omega)
  rw [FatState.fatEntry, FatState.fatBlock, volumeOf_slot]
  have hfatLba : (volumeOf free inode).fatLba = 32 := rfl
  have hdisk : (volumeOf free inode).device.disk = tableDisk free := by
    simp only [volumeOf, FatState.boot]
  simp only [hfatLba, hdisk, hlba]
  rw [Bytes.word_of_bytes (v := if c ∈ free then freeCluster else endOfChainClusterMax)]
  · split <;> rfl
  · intro j hj
    have haddr : 512 * (32 + c / 0x400 * 8) + (4 * (c % 0x400) + j) - 0x4000 = 4 * c + j := by
      omega
    rw [Bytes.get_of_lt _ (by omega), Disk.load, tableDisk, haddr,
      show (4 * c + j) / 4 = c by omega, show (4 * c + j) % 4 = j by omega]

theorem volumeOf_volume : (volumeOf free inode).Volume where
  fatLba := by
    have hfatLba : (volumeOf free inode).fatLba = 32 := rfl
    omega
  dataSectors := by
    have hsectors : (volumeOf free inode).dataSectors = 16384 := rfl
    have hfat : (volumeOf free inode).fatSectors = 16 := rfl
    omega
  slots := by
    rw [volumeOf_slots]
    decide
  levels := by
    have hlevels : (volumeOf free inode).fatCacheLevels = 1 := rfl
    have hfat : (volumeOf free inode).fatSectors = 16 := rfl
    rw [hlevels, hfat]
    rfl
  fatOk := by
    have hlevels : (volumeOf free inode).fatCacheLevels = 1 := rfl
    exact ⟨by omega, trivial, @RadixTree.shaped_emptyNode _ Desc 1 1⟩
  deviceOk := fun _ => rfl
  coherent := by
    intro k desc h
    rw [volumeOf_slot] at h
    cases h

/-- The invariant of the allocator on such a volume. -/
theorem volumeOf_allocatorOk (hfree : (List.range 2048).filter (fun c => decide (c ∈ free)) = free)
    (h2 : ∀ c ∈ free, 2 ≤ c) : (volumeOf free inode).AllocatorOk := by
  have hslots := volumeOf_slots free inode
  have hclusters : (volumeOf free inode).freeClusters = free := by
    rw [FatState.freeClusters, hslots, ← hfree]
    refine List.filter_congr fun c hc => ?_
    rw [volumeOf_entry _ _ (List.mem_range.mp hc), hfree]
    by_cases h : c ∈ free <;> simp [h]
  have hend (c : ℕ) (hc : (volumeOf free inode).Allocated c) :
      EndOfChain ((volumeOf free inode).fatEntry c) := by
    have hlt : c < 2048 := hslots ▸ hc.2.1
    have hentry := volumeOf_entry free inode hlt
    rw [if_neg] at hentry
    · rw [hentry]
      exact (by decide : endOfChainClusterMin ≤ endOfChainClusterMax)
    · intro hmem
      rw [if_pos hmem] at hentry
      exact hc.2.2.1 hentry
  refine ⟨?_, ?_, ?_, ⟨?_, ?_, ?_⟩⟩
  · rw [hclusters]
    exact h2
  · rw [hclusters]
    rfl
  · intro c hc
    rw [hclusters] at hc
    change free.headD 0 = c
    rw [List.headD_eq_head?_getD, hc, Option.getD_some]
  · intro c hc hgo
    exact absurd (hend c hc) hgo
  · intro c c' hc _ hgo
    exact absurd (hend c hc) hgo
  · intro c hc
    exact ⟨[c], rfl, (volumeOf_volume free inode).not_end hc.2.1, hend c hc⟩

/-- The small file on such a volume. -/
theorem smallFile_holds (h3 : 3 ∉ free) : (volumeOf free smallFile).Holds 7 [3] := by
  have hentry := volumeOf_entry free smallFile (by decide : 3 < 2048)
  rw [if_neg h3] at hentry
  have hslots := volumeOf_slots free smallFile
  refine ⟨⟨smallFile, rfl, ⟨by decide, trivial, @RadixTree.shaped_emptyNode _ Desc 1 2⟩,
    by decide, fun _ => ⟨⟨by decide, by rw [hslots]; decide, ?_⟩, rfl, ?_, ?_⟩⟩, ?_⟩
  · change (volumeOf free smallFile).fatEntry 3 ≠ _ ∧ (volumeOf free smallFile).fatEntry 3 ≠ _ ∧
      (volumeOf free smallFile).fatEntry 3 ≠ _
    rw [hentry]
    decide
  · exact (volumeOf_volume free smallFile).not_end (by rw [hslots]; decide)
  · change EndOfChain ((volumeOf free smallFile).fatEntry 3)
    rw [hentry]
    exact (by decide : endOfChainClusterMin ≤ endOfChainClusterMax)
  · intro k _
    have hcache : (volumeOf free smallFile).cacheAt (some 7) =
      some (1, RadixTree.emptyNode 2) := rfl
    rw [slot_eq hcache, slotOf, RadixTree.get?_emptyNode, ite_self]

end VolumeOf

/-- A file of one cluster gets another one. -/
theorem clustersAllocate_extends_small :
    ∃ s', clustersAllocate 2 7 1 1 (volumeOf [5, 9] smallFile) = .ok false s' ∧
      Extended (volumeOf [5, 9] smallFile) s' 7 [3]
        ((volumeOf [5, 9] smallFile).freeClusters.take 1) ∧
      s'.freeClustersNumber + 1 = 2 ∧
      ∀ c < (volumeOf [5, 9] smallFile).slots, s'.deviceEntry c = s'.fatEntry c :=
  clustersAllocate_extends (volumeOf_volume _ _)
    (volumeOf_allocatorOk _ _ (by decide +kernel) (by decide)) (smallFile_holds [5, 9] (by decide))
    le_rfl (by decide) (by decide) (by decide)

end GietVm.Fat
