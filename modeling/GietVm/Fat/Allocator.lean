import GietVm.Fat.Volume
import GietVm.Library.ChainTable

/-!
# The cluster allocator

`AllocatorOk` is the invariant of the allocator: the hint is the smallest free cluster, the
counter is the number of free clusters, and the allocated clusters form disjoint chains that
end.

The code of the allocator reaches the FAT through `_get_fat_entry` and `_set_fat_entry` only.
The functions `…Via` are the functions of the allocator with these two as parameters, and
`Agrees` says of two parameters that they are the real ones on the slots of the FAT. A run
that is the same for all such parameters is a run that asks for no other slot.
-/

namespace GietVm.Fat

open GietVm.Library

/-! ## The invariant -/

/-- The free clusters in increasing order. -/
def FatState.freeClusters (s : FatState) : List ℕ :=
  (List.range s.slots).filter fun c => s.fatEntry c = freeCluster

/-- The value that ends a chain. -/
def EndOfChain (c : ℕ) : Prop := endOfChainClusterMin ≤ c

/-- A cluster that belongs to a file or a directory. -/
def FatState.Allocated (s : FatState) (c : ℕ) : Prop :=
  2 ≤ c ∧ c < s.slots ∧ s.fatEntry c ≠ freeCluster ∧ s.fatEntry c ≠ reservedCluster ∧
    s.fatEntry c ≠ badCluster

/-- The invariant of the allocator. -/
structure FatState.AllocatorOk (s : FatState) : Prop where
  /-- The two slots before the first cluster are never free. -/
  reserved : ∀ c ∈ s.freeClusters, 2 ≤ c
  number : s.freeClustersNumber = s.freeClusters.length
  first : ∀ c, s.freeClusters.head? = some c → s.firstFreeCluster = c
  chains : Chained EndOfChain s.Allocated s.fatEntry

/-! ## The code with other accesses to the FAT -/

/-- `findNextFree` with another way to read the FAT. -/
def findNextFreeVia (get : ℕ → FatM (Option ℕ)) (max fuel current : ℕ) :
    FatM (Option (ℕ × Bool)) := do
  let current := u32 (current + 1)
  match ← get current with
  | none => pure none
  | some value =>
    if value = freeCluster then pure (some (current, true))
    else match fuel with
      | 0 => pure (some (current, false))
      | fuel + 1 =>
        if current < max then findNextFreeVia get max fuel current
        else pure (some (current, false))

/-- `allocateOneCluster` with other ways to read and write the FAT. -/
def allocateOneClusterVia (get' : ℕ → FatM (Option ℕ)) (set' : ℕ → ℕ → FatM Bool) :
    FatM (Option ℕ) := do
  let s ← get
  let nbFree := s.freeClustersNumber
  let free := s.firstFreeCluster
  let max := s.dataSectors / 8
  match ← findNextFreeVia get' max (max - u32 (free + 1)) free with
  | some (current, true) =>
    if ← set' free endOfChainClusterMax then pure none
    else do
      modify fun s => { s with
        freeClustersNumber := u32 (nbFree + 0xFFFFFFFF), firstFreeCluster := current }
      pure (some free)
  | _ => pure none

/-- `findLast` with another way to read the FAT. -/
def findLastVia (get : ℕ → FatM (Option ℕ)) : ℕ → ℕ → Option ℕ → FatM (Option (Option ℕ))
  | 0, _, _ => throw .endless
  | fuel + 1, current, last =>
    if current < endOfChainClusterMin then do
      match ← get current with
      | none => pure none
      | some next => findLastVia get fuel next (some current)
    else pure (some last)

/-- `setLast` with another way to write the FAT. -/
def setLastVia (set : ℕ → ℕ → FatM Bool) (last : Option ℕ) (value : ℕ) : FatM Bool :=
  match last with
  | none => throw .undefined
  | some last => set last value

/-- `allocateClusters` with other ways to read and write the FAT. -/
def allocateClustersVia (get : ℕ → FatM (Option ℕ)) (set : ℕ → ℕ → FatM Bool) (p : Ptr) :
    ℕ → ℕ → Option ℕ → FatM (Option (Option ℕ))
  | 0, _, last => pure (some last)
  | more + 1, clusterId, last => do
    match ← allocateOneClusterVia get set with
    | none => pure none
    | some new => do
      allocateOneBuffer p clusterId new
      let failed ← if clusterId = 0 then do
          modifyInode p fun inode => { inode with cluster := new }
          pure false
        else setLastVia set last new
      if failed then pure none
      else allocateClustersVia get set p more (clusterId + 1) (some new)

/-- `clustersAllocate` with other ways to read and write the FAT. -/
def clustersAllocateVia (get' : ℕ → FatM (Option ℕ)) (set' : ℕ → ℕ → FatM Bool) (fuel : ℕ)
    (p : Ptr) (nbCurrent nbRequired : ℕ) : FatM Bool := do
  let s ← get
  if nbRequired > s.freeClustersNumber then pure true
  else do
    let inode ← getInode p
    match ← if nbCurrent ≠ 0 then findLastVia get' fuel inode.cluster none
        else pure (some none) with
    | none => pure true
    | some last => do
      match ← allocateClustersVia get' set' p nbRequired nbCurrent last with
      | none => pure true
      | some last =>
        if ← setLastVia set' last endOfChainClusterMax then pure true
        else updateDeviceFromCache none

theorem findNextFreeVia_self (max fuel current : ℕ) :
    findNextFreeVia getFatEntry max fuel current = findNextFree max fuel current := by
  induction fuel generalizing current with
  | zero =>
    rw [findNextFreeVia, findNextFree] <;> rfl
  | succ fuel ih =>
    simp only [findNextFreeVia, findNextFree, ih] <;> rfl

theorem allocateOneClusterVia_self :
    allocateOneClusterVia getFatEntry setFatEntry = allocateOneCluster := by
  simp only [allocateOneClusterVia, allocateOneCluster, findNextFreeVia_self] <;> rfl

theorem findLastVia_self (fuel current : ℕ) (last : Option ℕ) :
    findLastVia getFatEntry fuel current last = findLast fuel current last := by
  induction fuel generalizing current last with
  | zero => rfl
  | succ fuel ih =>
    simp only [findLastVia, findLast, ih] <;> rfl

theorem allocateClustersVia_self (p : Ptr) (more clusterId : ℕ) (last : Option ℕ) :
    allocateClustersVia getFatEntry setFatEntry p more clusterId last =
      allocateClusters p more clusterId last := by
  induction more generalizing clusterId last with
  | zero => rfl
  | succ more ih =>
    simp only [allocateClustersVia, allocateClusters, allocateOneClusterVia_self, ih] <;> rfl

/-- With the accesses of the code, the function is that of the code. -/
theorem clustersAllocateVia_self (fuel : ℕ) (p : Ptr) (nbCurrent nbRequired : ℕ) :
    clustersAllocateVia getFatEntry setFatEntry fuel p nbCurrent nbRequired =
      clustersAllocate fuel p nbCurrent nbRequired := by
  simp only [clustersAllocateVia, clustersAllocate, findLastVia_self, allocateClustersVia_self]
    <;> rfl

/-- Two functions that access the slots of a FAT of `n` slots as the code does. -/
structure Agrees (n : ℕ) (get : ℕ → FatM (Option ℕ)) (set : ℕ → ℕ → FatM Bool) : Prop where
  get : ∀ c < n, get c = getFatEntry c
  set : ∀ c < n, ∀ value, set c value = setFatEntry c value

theorem Agrees.self (n : ℕ) : Agrees n getFatEntry setFatEntry :=
  ⟨fun _ _ => rfl, fun _ _ _ => rfl⟩

/-! ## The free clusters -/

section Free

variable {s s' : FatState} {a b : ℕ} {rest : List ℕ}

theorem mem_freeClusters {c : ℕ} :
    c ∈ s.freeClusters ↔ c < s.slots ∧ s.fatEntry c = freeCluster := by
  simp [FatState.freeClusters]

theorem freeClusters_sorted (s : FatState) : s.freeClusters.Pairwise (· < ·) :=
  List.Pairwise.filter _ List.pairwise_lt_range

theorem freeClusters_length_le (s : FatState) : s.freeClusters.length ≤ s.slots := by
  have := List.length_filter_le (fun c => decide (s.fatEntry c = freeCluster)) (List.range s.slots)
  rwa [List.length_range] at this

/-- A free cluster before which no other is free is the first one. -/
theorem not_free_below (hfree : s.freeClusters = a :: b :: rest) {c : ℕ} (hac : a < c)
    (hcb : c < b) : s.fatEntry c ≠ freeCluster := by
  intro h
  have hsorted := freeClusters_sorted s
  have hb : b < s.slots := (mem_freeClusters.mp (by simp [hfree] : b ∈ s.freeClusters)).1
  have hmem : c ∈ s.freeClusters := mem_freeClusters.mpr ⟨by omega, h⟩
  rw [hfree] at hsorted hmem
  rw [List.pairwise_cons, List.pairwise_cons] at hsorted
  rcases List.mem_cons.mp hmem with hc | hmem
  · omega
  · rcases List.mem_cons.mp hmem with hc | hmem
    · omega
    · have := hsorted.2.1 c hmem
      omega

theorem lt_of_freeClusters (hfree : s.freeClusters = a :: b :: rest) : a < b := by
  have hsorted := freeClusters_sorted s
  rw [hfree, List.pairwise_cons] at hsorted
  exact hsorted.1 b (by simp)

/-- Marking the first free cluster removes it. -/
theorem freeClusters_update (hslots : s'.slots = s.slots) {value : ℕ} (hvalue : value ≠ freeCluster)
    (hentry : s'.fatEntry = Function.update s.fatEntry a value)
    (hfree : s.freeClusters = a :: rest) : s'.freeClusters = rest := by
  have hsorted := freeClusters_sorted s
  have hsame : s'.freeClusters = s.freeClusters.filter fun c => decide (c ≠ a) := by
    rw [FatState.freeClusters, FatState.freeClusters, hslots, List.filter_filter]
    refine List.filter_congr fun c _ => ?_
    rw [hentry, Function.update_apply]
    by_cases hc : c = a
    · simp [hc, hvalue]
    · simp [hc]
  rw [hsame, hfree, List.filter_cons_of_neg (by simp)]
  rw [hfree, List.pairwise_cons] at hsorted
  refine List.filter_eq_self.mpr fun c hc => ?_
  have := hsorted.1 c hc
  simp only [decide_eq_true_eq]
  omega

/-- Changing a slot that is not free to a value that is not free either. -/
theorem freeClusters_keep (hslots : s'.slots = s.slots) {value : ℕ} (hvalue : value ≠ freeCluster)
    (hentry : s'.fatEntry = Function.update s.fatEntry a value)
    (ha : s.fatEntry a ≠ freeCluster) : s'.freeClusters = s.freeClusters := by
  rw [FatState.freeClusters, FatState.freeClusters, hslots]
  refine List.filter_congr fun c _ => ?_
  rw [hentry, Function.update_apply]
  by_cases hc : c = a
  · simp [hc, hvalue, ha]
  · rw [if_neg hc]

theorem freeClusters_congr (hslots : s'.slots = s.slots)
    (hentry : ∀ c < s.slots, s'.fatEntry c = s.fatEntry c) :
    s'.freeClusters = s.freeClusters := by
  rw [FatState.freeClusters, FatState.freeClusters, hslots]
  refine List.filter_congr fun c hc => ?_
  rw [hentry c (List.mem_range.mp hc)]

theorem allocated_congr (hslots : s'.slots = s.slots)
    (hentry : ∀ c < s.slots, s'.fatEntry c = s.fatEntry c) : s'.Allocated = s.Allocated := by
  funext c
  rw [FatState.Allocated, FatState.Allocated, hslots]
  by_cases hc : c < s.slots
  · rw [hentry c hc]
  · simp [hc]

/-- The invariant depends on the FAT, the hint and the counter only. -/
theorem FatState.AllocatorOk.congr (ha : s.AllocatorOk) (hslots : s'.slots = s.slots)
    (hentry : ∀ c < s.slots, s'.fatEntry c = s.fatEntry c)
    (hnumber : s'.freeClustersNumber = s.freeClustersNumber)
    (hfirst : s'.firstFreeCluster = s.firstFreeCluster) : s'.AllocatorOk where
  reserved := by
    rw [freeClusters_congr hslots hentry]
    exact ha.reserved
  number := by
    rw [freeClusters_congr hslots hentry, hnumber]
    exact ha.number
  first := by
    rw [freeClusters_congr hslots hentry, hfirst]
    exact ha.first
  chains := by
    rw [allocated_congr hslots hentry]
    exact ha.chains.congr fun c hc => hentry c hc.2.1

/-- A cluster index is not a mark. -/
theorem FatState.Volume.not_end (hv : s.Volume) {c : ℕ} (hc : c < s.slots) : ¬ EndOfChain c := by
  have hslots : s.slots ≤ 0x0FFFFFF7 := hv.slots
  change ¬ 0x0FFFFFF8 ≤ c
  omega

theorem FatState.Volume.not_mark (hv : s.Volume) {c : ℕ} (h2 : 2 ≤ c) (hc : c < s.slots) :
    c ≠ freeCluster ∧ c ≠ reservedCluster ∧ c ≠ badCluster := by
  have hslots : s.slots ≤ 0x0FFFFFF7 := hv.slots
  change c ≠ 0 ∧ c ≠ 1 ∧ c ≠ 0x0FFFFFF7
  omega

/-- Writing another link to an allocated cluster changes no allocation. -/
theorem allocated_keep (hslots : s'.slots = s.slots) {value : ℕ}
    (hvalue : value ≠ freeCluster ∧ value ≠ reservedCluster ∧ value ≠ badCluster)
    (hentry : s'.fatEntry = Function.update s.fatEntry a value) (ha : s.Allocated a) :
    s'.Allocated = s.Allocated := by
  funext c
  rw [FatState.Allocated, FatState.Allocated, hslots, hentry, Function.update_apply]
  split
  · rename_i hc
    rw [hc]
    exact propext ⟨fun _ => ha, fun h => ⟨h.1, h.2.1, hvalue⟩⟩
  · rfl

end Free

/-! ## One cluster -/

section OneCluster

variable {s : FatState}

/-- The search for the next free cluster stops at it. -/
theorem findNextFreeVia_run (hv : s.Volume) {current b : ℕ} (hb : b < s.slots) (hlt : current < b)
    (hfree : s.fatEntry b = freeCluster)
    (hbelow : ∀ c, current < c → c < b → s.fatEntry c ≠ freeCluster) :
    ∃ s', (∀ get, (∀ c < s.slots, get c = getFatEntry c) →
        findNextFreeVia get s.slots (s.slots - (current + 1)) current s =
          .ok (some (b, true)) s') ∧
      Cached s s' ∧ ∀ p, s'.cacheAt (some p) = s.cacheAt (some p) := by
  have hslots : s.slots ≤ 0x0FFFFFF7 := hv.slots
  obtain ⟨d, hd⟩ := Nat.exists_eq_add_of_lt hlt
  induction d generalizing s current with
  | zero =>
    obtain ⟨s', hrun, hcached, hfiles⟩ := getFatEntry_run hv.fatOk hv.deviceOk (hv.inFat hb)
    refine ⟨s', fun get hget => ?_, hcached, hfiles⟩
    have hnext : u32 (current + 1) = b := by
      rw [u32, Nat.mod_eq_of_lt (by omega)]
      omega
    rw [findNextFreeVia.eq_def]
    simp only [hnext]
    rw [hget b hb, exits_bind_ok hrun]
    simp only [hfree, if_true, exits_pure]
  | succ d ih =>
    have hc : current + 1 < s.slots := by omega
    obtain ⟨s₁, hrun, hcached, hfiles⟩ := getFatEntry_run hv.fatOk hv.deviceOk (hv.inFat hc)
    have hsame : s₁.slots = s.slots := bare_slots hcached.bare
    have hlt' : current + 1 < b := by omega
    obtain ⟨s', hrun', hcached', hfiles'⟩ := ih (s := s₁)
      (hcached.volume hv) (by omega) hlt' (by rw [hcached.fatEntry]; exact hfree)
      (fun c h h' => by rw [hcached.fatEntry]; exact hbelow c (by omega) h') (by omega) (by omega)
    refine ⟨s', fun get hget => ?_, hcached.trans hcached',
      fun p => (hfiles' p).trans (hfiles p)⟩
    have hnext : u32 (current + 1) = current + 1 := by
      rw [u32, Nat.mod_eq_of_lt (by omega)]
    have hmore : s.slots - (current + 1) = s.slots - (current + 1 + 1) + 1 := by omega
    rw [findNextFreeVia.eq_def]
    simp only [hnext]
    rw [hget _ hc, exits_bind_ok hrun]
    simp only [if_neg (hbelow (current + 1) (by omega) (by omega)), hmore, if_pos hc]
    rw [← hsame]
    exact hrun' get fun c h => hget c (hsame ▸ h)

/-- What an allocation of one cluster does. -/
structure Took (s s' : FatState) (a : ℕ) : Prop where
  inodes : s'.inodes = s.inodes
  slots : s'.slots = s.slots
  dataLba : s'.dataLba = s.dataLba
  volume : s'.Volume
  ok : s'.AllocatorOk
  free : s.freeClusters = a :: s'.freeClusters
  entry : s'.fatEntry = Function.update s.fatEntry a endOfChainClusterMax
  /-- No chain goes on to the new cluster. -/
  first : ∀ c, s'.Allocated c → s'.fatEntry c ≠ a

/-- A cluster is allocated when another one is free. -/
theorem allocateOneClusterVia_run (hv : s.Volume) (ha : s.AllocatorOk) {a b : ℕ} {rest : List ℕ}
    (hfree : s.freeClusters = a :: b :: rest) :
    ∃ s', (∀ get set, Agrees s.slots get set →
      allocateOneClusterVia get set s = .ok (some a) s') ∧ Took s s' a := by
  have hslots : s.slots ≤ 0x0FFFFFF7 := hv.slots
  have hmem : a ∈ s.freeClusters := by simp [hfree]
  have hmem' : b ∈ s.freeClusters := by simp [hfree]
  obtain ⟨hlt, hzero⟩ := mem_freeClusters.mp hmem
  obtain ⟨hlt', hzero'⟩ := mem_freeClusters.mp hmem'
  have hfirst : s.firstFreeCluster = a := ha.first a (by simp [hfree])
  have hnumber := ha.number
  have hlength := freeClusters_length_le s
  obtain ⟨s₁, hsearch, hcached, hfiles⟩ := findNextFreeVia_run hv hlt' (lt_of_freeClusters hfree)
    hzero' fun c => not_free_below hfree
  have hv₁ := hcached.volume hv
  have hslots₁ : s₁.slots = s.slots := bare_slots hcached.bare
  obtain ⟨s₂, hset, honly, hv₂, hentry⟩ := setFatEntry_run hv₁ (hslots₁ ▸ hlt)
    (by decide : endOfChainClusterMax < _)
  have honly₂ : FatOnly s s₂ := FatOnly.trans ⟨hcached.bare, hfiles⟩ honly
  have hslots₂ : s₂.slots = s.slots := bare_slots honly₂.bare
  have hfat : s₁.fatEntry = s.fatEntry := funext hcached.fatEntry
  rw [hfat] at hentry
  set s' : FatState := { s₂ with
    freeClustersNumber := u32 (s.freeClustersNumber + 0xFFFFFFFF), firstFreeCluster := b } with hs'
  have hentry' : s'.fatEntry = Function.update s.fatEntry a endOfChainClusterMax := hentry
  have hrest : s'.freeClusters = b :: rest :=
    freeClusters_update (s := s) hslots₂ (by decide) hentry' hfree
  have hself : s'.fatEntry a = endOfChainClusterMax := by rw [hentry', Function.update_self]
  have hother (c : ℕ) (h : c ≠ a) : s'.fatEntry c = s.fatEntry c := by
    rw [hentry', Function.update_of_ne h]
  have hnot : ¬ s.Allocated a := fun h => h.2.2.1 hzero
  have halloc : s'.Allocated = fun c => s.Allocated c ∨ c = a := by
    funext c
    by_cases hc : c = a
    · have h2 := ha.reserved a hmem
      simp only [FatState.Allocated, hc, hself, or_true, eq_iff_iff, iff_true]
      refine ⟨h2, ?_, by decide, by decide, by decide⟩
      change a < s₂.slots
      rwa [hslots₂]
    · have hsame : s'.slots = s.slots := hslots₂
      simp only [FatState.Allocated, hother c hc, hc, or_false, hsame]
  have hchains : Chained EndOfChain s'.Allocated s'.fatEntry := by
    rw [halloc, hentry']
    exact ha.chains.fresh hnot (hv.not_end hlt) (by decide : endOfChainClusterMin ≤ _)
  refine ⟨s', fun get set hagree => ?_, ⟨?_, hslots₂,
    @bare_dataLba s s₂ honly₂.bare, ?_, ?_, ?_, hentry', ?_⟩⟩
  · have hnext : u32 (a + 1) = a + 1 := by rw [u32, Nat.mod_eq_of_lt (by omega)]
    have hmax : s.dataSectors / 8 = s.slots := rfl
    rw [allocateOneClusterVia, exits_bind_get]
    simp only [hfirst, hnext, hmax]
    rw [exits_bind_ok (hsearch get hagree.get)]
    simp only [hagree.set a hlt]
    rw [exits_bind_ok hset]
    rfl
  · exact honly₂.inodes
  · exact ⟨hv₂.fatLba, hv₂.dataSectors, hv₂.slots, hv₂.levels, hv₂.fatOk, hv₂.deviceOk,
      hv₂.coherent⟩
  · refine ⟨?_, ?_, ?_, hchains⟩
    · intro c hc
      rw [hrest] at hc
      exact ha.reserved c (by rw [hfree]; exact List.mem_cons_of_mem a hc)
    · have hcount : s.freeClustersNumber = rest.length + 2 := by rw [hnumber, hfree]; rfl
      change u32 (s.freeClustersNumber + 0xFFFFFFFF) = _
      rw [hrest, List.length_cons, hcount, u32]
      rw [hfree, List.length_cons, List.length_cons] at hlength
      omega
    · intro c hc
      rw [hrest] at hc
      exact Option.some.inj hc
  · rw [hfree, hrest]
  · intro c hc hca
    rw [halloc] at hc
    by_cases h : c = a
    · rw [h, hself] at hca
      change 0x0FFFFFFF = a at hca
      omega
    · rw [hother c h] at hca
      have hlive := ha.chains.closed c (hc.resolve_right h) (by rw [hca]; exact hv.not_end hlt)
      rw [hca] at hlive
      exact hnot hlive

/-- Linking a new cluster behind the last one of a chain keeps the invariant. -/
theorem FatState.AllocatorOk.link {s' : FatState} (ha : s.AllocatorOk) (hv : s.Volume) {l a : ℕ}
    (hl : s.Allocated l) (hnew : s.Allocated a) (hne : a ≠ l) (hend : EndOfChain (s.fatEntry a))
    (hfirst : ∀ c, s.Allocated c → s.fatEntry c ≠ a) (hslots : s'.slots = s.slots)
    (hentry : s'.fatEntry = Function.update s.fatEntry l a)
    (hnumber : s'.freeClustersNumber = s.freeClustersNumber)
    (hhint : s'.firstFreeCluster = s.firstFreeCluster) : s'.AllocatorOk := by
  have hmarks := hv.not_mark hnew.1 hnew.2.1
  have hfree : s'.freeClusters = s.freeClusters :=
    freeClusters_keep hslots hmarks.1 hentry hl.2.2.1
  have halloc : s'.Allocated = s.Allocated := allocated_keep hslots hmarks hentry hl
  refine ⟨?_, ?_, ?_, ?_⟩
  · rw [hfree]
    exact ha.reserved
  · rw [hfree, hnumber]
    exact ha.number
  · rw [hfree, hhint]
    exact ha.first
  · rw [halloc, hentry]
    exact ha.chains.link hnew hne (hv.not_end hnew.2.1) hend hfirst

end OneCluster

end GietVm.Fat
