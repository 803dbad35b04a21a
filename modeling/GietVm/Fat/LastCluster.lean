import GietVm.Fat.Extend

/-!
# The last free cluster

The allocator looks for a second free cluster before it takes the first one, and its loop
tests the bound after it has read a slot. When no second cluster is free it therefore reads
the slot behind the FAT, which is the first word of the DATA region, and then refuses the
cluster or, when that word is zero, takes the cluster behind the volume as the next hint.
-/

namespace GietVm.Fat

open GietVm.Library

/-- The call depends on the slots of the FAT only: it is the same run with any other functions
that access these slots as the code does. -/
def FatState.ExtendsInside (s : FatState) (fuel : ℕ) (p : Ptr) (n k : ℕ) : Prop :=
  ∀ get set, Agrees s.slots get set →
    clustersAllocateVia get set fuel p n k s = clustersAllocate fuel p n k s

/-- The direct call of `_fat_mkdir` depends on the slots of the FAT only. -/
def FatState.TakesInside (s : FatState) : Prop :=
  ∀ get set, Agrees s.slots get set → allocateOneClusterVia get set s = allocateOneCluster s

/-- Every free cluster can be used, and no other slot than those of the FAT is accessed. -/
structure FatState.UsesAll (s : FatState) (fuel : ℕ) (p : Ptr) (n k : ℕ) : Prop where
  succeeds : (∃ s', clustersAllocate fuel p n k s = .ok false s') ↔ k ≤ s.freeClustersNumber
  inside : s.ExtendsInside fuel p n k
  direct : s.TakesInside

/-- An access to the FAT that ends the computation at the slots behind it. -/
def getBelow (n : ℕ) (e : FatError) (c : ℕ) : FatM (Option ℕ) :=
  if c < n then getFatEntry c else throw e

theorem getBelow_agrees (n : ℕ) (e : FatError) : Agrees n (getBelow n e) setFatEntry :=
  ⟨fun _ hc => if_pos hc, fun _ _ _ => rfl⟩

variable {s : FatState} {p : Ptr} {chain : List ℕ}

/-- A search that meets no free cluster leaves the FAT. -/
theorem findNextFreeVia_leaves (hv : s.Volume) (e : FatError) {current : ℕ}
    (hnone : ∀ c, u32 (current + 1) ≤ c → c < s.slots → s.fatEntry c ≠ freeCluster) :
    ∃ s', findNextFreeVia (getBelow s.slots e) s.slots (s.slots - u32 (current + 1)) current s =
      .error e s' := by
  have hslots : s.slots ≤ 0x0FFFFFF7 := hv.slots
  generalize hcur : u32 (current + 1) = cur at hnone
  obtain ⟨d, hd⟩ : ∃ d, s.slots - cur = d := ⟨_, rfl⟩
  induction d generalizing s current cur with
  | zero =>
    refine ⟨s, ?_⟩
    rw [findNextFreeVia.eq_def]
    simp only [hcur]
    rw [getBelow, if_neg (by omega)]
    exact exits_bind_throw e _
  | succ d ih =>
    have hc : cur < s.slots := by omega
    obtain ⟨s₁, hget, hcached, -⟩ := getFatEntry_run hv.fatOk hv.deviceOk (hv.inFat hc)
    have hsame : s₁.slots = s.slots := bare_slots hcached.bare
    have hnext : u32 (cur + 1) = cur + 1 := Nat.mod_eq_of_lt (by omega)
    obtain ⟨s', hrun⟩ := ih (s := s₁) (hcached.volume hv) (hsame ▸ hslots)
      (cur + 1) hnext (fun c hc hc' => by
        rw [hcached.fatEntry]
        exact hnone c (by omega) (hsame ▸ hc')) (by omega)
    refine ⟨s', ?_⟩
    have hfuel : s.slots - cur = s.slots - (cur + 1) + 1 := by omega
    rw [findNextFreeVia.eq_def]
    simp only [hcur]
    rw [getBelow, if_pos hc, exits_bind_ok hget]
    simp only [if_neg (hnone cur le_rfl hc), hfuel, if_pos hc]
    rwa [hsame] at hrun

/-- Without a second free cluster the allocation of one cluster leaves the FAT. -/
theorem allocateOneClusterVia_leaves (hv : s.Volume) (ha : s.AllocatorOk)
    (hfew : s.freeClusters.length ≤ 1) (e : FatError) :
    ∃ s', allocateOneClusterVia (getBelow s.slots e) setFatEntry s = .error e s' := by
  have hslots : s.slots ≤ 0x0FFFFFF7 := hv.slots
  have hnone (c : ℕ) (hc : u32 (s.firstFreeCluster + 1) ≤ c) (hlt : c < s.slots) :
      s.fatEntry c ≠ freeCluster := by
    intro hzero
    have hmem : c ∈ s.freeClusters := mem_freeClusters.mpr ⟨hlt, hzero⟩
    match hlist : s.freeClusters with
    | [] => rw [hlist] at hmem; cases hmem
    | [a] =>
      have hfirst := ha.first a (by rw [hlist]; rfl)
      have hlast : c = a := by
        rw [hlist] at hmem
        exact List.mem_singleton.mp hmem
      rw [hfirst, u32, Nat.mod_eq_of_lt (by omega)] at hc
      omega
    | a :: b :: rest =>
      rw [hlist, List.length_cons, List.length_cons] at hfew
      omega
  obtain ⟨s', hrun⟩ := findNextFreeVia_leaves hv e hnone
  refine ⟨s', ?_⟩
  rw [allocateOneClusterVia, exits_bind_get]
  exact exits_bind_error hrun

/-- A request for all the free clusters leaves the FAT at the last one. -/
theorem allocateClustersVia_leaves (k : ℕ) (hv : s.Volume) (ha : s.AllocatorOk)
    (hp : s.Holds p chain) (hk : k + 1 = s.freeClusters.length)
    (hsize : chain.length + k < 0x100000) (e : FatError) :
    ∃ s', allocateClustersVia (getBelow s.slots e) setFatEntry p (k + 1) chain.length
      chain.getLast? s = .error e s' := by
  induction k generalizing s chain with
  | zero =>
    obtain ⟨s', hrun⟩ := allocateOneClusterVia_leaves hv ha (by omega) e
    refine ⟨s', ?_⟩
    rw [allocateClustersVia]
    exact exits_bind_error hrun
  | succ k ih =>
    obtain ⟨a, b, rest, hfree⟩ := two_of_length (by omega : 1 < s.freeClusters.length)
    obtain ⟨s₁, hturn, hext⟩ := allocateClustersVia_turn hv ha hp hfree (by omega)
    have hfree₁ : s.freeClusters = a :: s₁.freeClusters := hext.free
    rw [hfree₁, List.length_cons] at hk
    obtain ⟨s', hrun⟩ := ih hext.volume hext.ok hext.holds (by omega)
      (by rw [List.length_append, List.length_singleton]; omega)
    refine ⟨s', ?_⟩
    rw [hturn _ _ (getBelow_agrees s.slots e) (k + 1), ← hext.slots]
    exact hrun

/-- So does the whole call. -/
theorem clustersAllocateVia_leaves (hv : s.Volume) (ha : s.AllocatorOk) (hp : s.Holds p chain)
    {k fuel : ℕ} (hpos : 1 ≤ k) (hk : k = s.freeClustersNumber)
    (hsize : chain.length + k ≤ 0x100000) (hfuel : chain.length < fuel) (e : FatError) :
    ∃ s', clustersAllocateVia (getBelow s.slots e) setFatEntry fuel p chain.length k s =
      .error e s' := by
  obtain ⟨inode, hinode, -⟩ := hp.live
  obtain ⟨s₁, hsearch, hsame, hv₁⟩ := searchLast_run hv ha hp hinode hfuel
  obtain ⟨k', rfl⟩ := Nat.exists_eq_succ_of_ne_zero (by omega : k ≠ 0)
  have hlength : k' + 1 = s₁.freeClusters.length := by
    rw [freeClusters_congr hsame.slots hsame.entry, ← ha.number]
    exact hk
  obtain ⟨s', hrun⟩ := allocateClustersVia_leaves k' hv₁ (hsame.allocatorOk ha)
    (hsame.holds ha hp) hlength (by omega) e
  rw [hsame.slots] at hrun
  refine ⟨s', ?_⟩
  rw [clustersAllocateVia, exits_bind_get, if_neg (by omega), exits_bind_ok (getInode_run hinode)]
  refine (hsearch _ (getBelow_agrees s.slots e).get _).trans ?_
  exact exits_bind_error hrun

/-- A run that stops outside the FAT, however it is made to stop there, is not inside. -/
theorem outside_of_leaves {α : Type} {x : EStateM FatError FatState α}
    {y : FatError → EStateM FatError FatState α} (hy : ∀ e, ∃ s', y e s = .error e s') :
    ¬ ∀ e, y e s = x s := by
  intro hsame
  obtain ⟨s₁, h₁⟩ := hy .endless
  obtain ⟨s₂, h₂⟩ := hy .undefined
  rw [hsame .endless] at h₁
  rw [hsame .undefined, h₁] at h₂
  cases h₂

/-- The direct allocation stays inside the FAT exactly when two clusters are free. -/
theorem takesInside_iff (hv : s.Volume) (ha : s.AllocatorOk) :
    s.TakesInside ↔ 2 ≤ s.freeClustersNumber := by
  rw [ha.number]
  constructor
  · intro hinside
    by_contra hfew
    exact outside_of_leaves (x := allocateOneCluster)
      (allocateOneClusterVia_leaves hv ha (by omega))
      fun e => hinside _ _ (getBelow_agrees s.slots e)
  · intro htwo get set hagree
    obtain ⟨a, b, rest, hfree⟩ := two_of_length htwo
    obtain ⟨s', hrun, -⟩ := allocateOneClusterVia_run hv ha hfree
    rw [hrun get set hagree, ← allocateOneClusterVia_self, hrun _ _ (Agrees.self s.slots)]

/-- A request is served inside the FAT, and exactly when enough clusters are free, unless it is
for all the free clusters. The direct allocation needs a second free cluster. -/
theorem usesAll_iff (hv : s.Volume) (ha : s.AllocatorOk) (hp : s.Holds p chain) {k fuel : ℕ}
    (hpos : 1 ≤ k) (hsize : chain.length + k ≤ 0x100000) (hfuel : chain.length < fuel) :
    s.UsesAll fuel p chain.length k ↔
      k ≠ s.freeClustersNumber ∧ 2 ≤ s.freeClustersNumber := by
  constructor
  · rintro ⟨-, hinside, hdirect⟩
    refine ⟨fun hk => ?_, (takesInside_iff hv ha).mp hdirect⟩
    exact outside_of_leaves (clustersAllocateVia_leaves hv ha hp hpos hk hsize hfuel)
      fun e => hinside _ _ (getBelow_agrees s.slots e)
  · rintro ⟨hk, htwo⟩
    have hdirect := (takesInside_iff hv ha).mpr htwo
    rcases lt_or_gt_of_ne hk with hlt | hgt
    · obtain ⟨s', hrun, -⟩ := clustersAllocateVia_run hv ha hp hpos hlt hsize hfuel
      have hself := hrun _ _ (Agrees.self s.slots)
      rw [clustersAllocateVia_self] at hself
      refine ⟨⟨fun _ => hlt.le, fun _ => ⟨s', hself⟩⟩, ?_, hdirect⟩
      intro get set hagree
      rw [hrun get set hagree, hself]
    · have hrefused : clustersAllocate fuel p chain.length k s = .ok true s := by
        rw [clustersAllocate, exits_bind_get, if_pos hgt]
        rfl
      refine ⟨⟨?_, fun hle => absurd hle (by omega)⟩, ?_, hdirect⟩
      · rintro ⟨s', hrun⟩
        rw [hrefused] at hrun
        cases hrun
      · intro get set _
        rw [hrefused, clustersAllocateVia, exits_bind_get, if_pos hgt]
        rfl

/-- One cluster for a file when two are free. -/
theorem usesAll_two_free :
    (volumeOf [5, 9] smallFile).UsesAll 2 7 1 1 ↔ 1 ≠ 2 ∧ 2 ≤ 2 := by
  exact usesAll_iff (volumeOf_volume _ _) (volumeOf_allocatorOk _ _ (by decide +kernel) (by decide))
    (smallFile_holds [5, 9] (by decide)) le_rfl (by decide) (by decide)

/-- The last free cluster of a volume is refused after a read of the slot behind the FAT. -/
theorem not_usesAll_last : ¬ (volumeOf [5] smallFile).UsesAll 2 7 1 1 := by
  intro h
  have ha : (volumeOf [5] smallFile).AllocatorOk :=
    volumeOf_allocatorOk _ _ (by decide +kernel) (by decide)
  have htwo := (takesInside_iff (volumeOf_volume _ _) ha).mp h.direct
  exact absurd htwo (by decide)

end GietVm.Fat
