import GietVm.Fat.Edit
import GietVm.Fat.Extend

/-!
# The map from the indices of a file to its descriptors

`_get_buffer_from_cache` and `_allocate_one_buffer` walk the same 64-tree and extend it, above its
root and below. Seen from outside, the tree is a finite map from the indices requested so far to
descriptors. Each call keeps the descriptors that are there, and adds at most one, for the index
requested, in a new cell of memory and with the lba of the cluster at this index of the chain.
-/

namespace GietVm.Fat

open GietVm.Library

/-! ## Calls -/

/-- A call on the File-Cache of an inode. -/
inductive CacheCall
  | getBuffer (clusterId : ℕ)
  | allocate (clusterId cluster : ℕ)

/-- The index of a call. -/
def CacheCall.index : CacheCall → ℕ
  | .getBuffer clusterId => clusterId
  | .allocate clusterId _ => clusterId

/-- The effect of a call, with the descriptor that it returns. -/
def CacheCall.run (p : Ptr) : CacheCall → FatM (Option Desc)
  | .getBuffer clusterId => getBufferFromCache (some p) clusterId
  | .allocate clusterId cluster => do
    allocateOneBuffer p clusterId cluster
    pure none

/-- The index of a call is inside the chain and its bytes have 32-bit offsets. A new buffer is for
the cluster at this index. -/
structure CacheCall.Valid (s : FatState) (first : ℕ) (call : CacheCall) : Prop where
  small : (call.index + 1) * 4096 < 0x100000000
  reaches : s.Reaches first call.index
  cluster : ∀ clusterId cluster, call = .allocate clusterId cluster →
    cluster = s.chain clusterId first

/-- Successive calls that return. -/
inductive Calls (p : Ptr) : FatState → List CacheCall → FatState → Prop
  | nil (s : FatState) : Calls p s [] s
  | cons {s s' s'' : FatState} {call : CacheCall} {calls : List CacheCall} {r : Option Desc}
    (hcall : call.run p s = .ok r s') (hrest : Calls p s' calls s'') :
    Calls p s (call :: calls) s''

/-! ## The map -/

/-- The File-Cache of an inode as a map: what is outside the caches has not changed since `s₀`, and
the descriptors are in different cells, for the clusters at their indices. -/
structure IndexMap (p : Ptr) (first : ℕ) (s₀ s : FatState) : Prop where
  similar : Similar s₀ s
  fatOk : s.FatCacheOk
  deviceOk : s.DeviceOk
  live : ∃ inode, s.inodes p = some inode ∧ inode.cluster = first ∧
    CacheOk inode.levels inode.cache
  lba : ∀ k desc, s.slot (some p) k = some desc → desc.lba = s₀.clusterLba (s₀.chain k first)
  cell : ∀ k desc, s.slot (some p) k = some desc → desc.address < s.brk
  injective : ∀ k k' desc desc', s.slot (some p) k = some desc → s.slot (some p) k' = some desc' →
    desc.address = desc'.address → k = k'

/-- The map after a call for an index: the descriptors are kept, and the index is the only one that
may be new. -/
structure Mapped (p : Ptr) (k : ℕ) (s s' : FatState) : Prop where
  found : (s'.slot (some p) k).isSome
  keep : ∀ k' desc, s.slot (some p) k' = some desc → s'.slot (some p) k' = some desc
  others : ∀ k', k' ≠ k → s'.slot (some p) k' = s.slot (some p) k'
  levels : ∀ inode inode', s.inodes p = some inode → s'.inodes p = some inode' →
    inode.levels ≤ inode'.levels

section IndexMap

variable {p : Ptr} {first k cluster : ℕ} {s₀ s s' : FatState} {desc : Desc}

/-- A new descriptor in a new cell keeps the map. -/
theorem IndexMap.insert (h : IndexMap p first s₀ s) (hsimilar : Similar s s')
    (hfat : s'.FatCacheOk) (hdev : s'.DeviceOk)
    (hlive : ∃ inode, s'.inodes p = some inode ∧ inode.cluster = first ∧
      CacheOk inode.levels inode.cache)
    (hslot : ∀ j, s'.slot (some p) j = if j = k then some desc else s.slot (some p) j)
    (hlba : desc.lba = s₀.clusterLba (s₀.chain k first)) (hlow : s.brk ≤ desc.address)
    (hhigh : desc.address < s'.brk) : IndexMap p first s₀ s' := by
  refine ⟨h.similar.trans hsimilar, hfat, hdev, hlive, fun j d hd => ?_, fun j d hd => ?_,
    fun j j' d d' hd hd' haddress => ?_⟩
  · rw [hslot] at hd
    split at hd
    · rename_i hj
      injection hd with hd
      rw [← hd, hj, hlba]
    · exact h.lba j d hd
  · rw [hslot] at hd
    split at hd
    · injection hd with hd
      rwa [← hd]
    · exact (h.cell j d hd).trans_le hsimilar.brk
  · rw [hslot] at hd hd'
    split at hd
    · rename_i hj
      split at hd'
      · rename_i hj'
        rw [hj, hj']
      · -- the other descriptor has an older cell
        injection hd with hd
        have := h.cell j' d' hd'
        rw [← haddress, ← hd] at this
        exact absurd this (not_lt.mpr hlow)
    · split at hd'
      · injection hd' with hd'
        have := h.cell j d hd
        rw [haddress, ← hd'] at this
        exact absurd this (not_lt.mpr hlow)
      · exact h.injective j j' d d' hd hd' haddress

/-- A call that adds no descriptor keeps the map. -/
theorem IndexMap.keep (h : IndexMap p first s₀ s) (hsimilar : Similar s s')
    (hfat : s'.FatCacheOk) (hdev : s'.DeviceOk)
    (hlive : ∃ inode, s'.inodes p = some inode ∧ inode.cluster = first ∧
      CacheOk inode.levels inode.cache)
    (hslot : ∀ j, s'.slot (some p) j = s.slot (some p) j) : IndexMap p first s₀ s' where
  similar := h.similar.trans hsimilar
  fatOk := hfat
  deviceOk := hdev
  live := hlive
  lba := fun j d hd => h.lba j d ((hslot j).symm.trans hd)
  cell := fun j d hd => (h.cell j d ((hslot j).symm.trans hd)).trans_le hsimilar.brk
  injective := fun j j' d d' hd hd' =>
    h.injective j j' d d' ((hslot j).symm.trans hd) ((hslot j').symm.trans hd')

/-- `_get_buffer_from_cache` returns the descriptor of the map. -/
theorem IndexMap.getBuffer (h : IndexMap p first s₀ s) (hsmall : (k + 1) * 4096 < 0x100000000)
    (hreach : s₀.Reaches first k) :
    ∃ desc s', getBufferFromCache (some p) k s = .ok (some desc) s' ∧
      s'.slot (some p) k = some desc ∧ IndexMap p first s₀ s' ∧ Mapped p k s s' := by
  obtain ⟨inode, hp, hcluster, hok⟩ := h.live
  obtain ⟨desc, s', hrun, -, hslot, hcached, -, hothers, hcell⟩ :=
    getBufferFromCache_cell h.fatOk h.deviceOk hp hok (Or.inr hsmall)
      fun _ => hcluster ▸ h.similar.reaches hreach
  have hlive : ∃ inode', s'.inodes p = some inode' ∧ inode'.cluster = first ∧
      CacheOk inode'.levels inode'.cache ∧ inode.levels ≤ inode'.levels := by
    obtain ⟨inode', hp', hcore⟩ := bare_inode hcached.bare hp
    obtain ⟨levels, root, hcache, hok', hle⟩ := hcached.cacheOk _ _ _ (cacheAt_inode hp) hok
    rw [cacheAt_inode hp', Option.some.injEq, Prod.mk.injEq] at hcache
    obtain ⟨rfl, rfl⟩ := hcache
    exact ⟨inode', hp', (core_cluster hcore).trans hcluster, hok', hle⟩
  obtain ⟨inode', hp', hcluster', hok', hle⟩ := hlive
  have hmapped : Mapped p k s s' := by
    refine ⟨Option.isSome_of_eq_some hslot, hcached.keep (some p), hothers, ?_⟩
    intro i i' hi hi'
    rw [hp] at hi
    rw [hp'] at hi'
    injection hi with hi
    injection hi' with hi'
    rw [← hi, ← hi']
    exact hle
  refine ⟨desc, s', hrun, hslot, ?_, hmapped⟩
  have hfat := hcached.fatCacheOk h.fatOk
  have hdev := hcached.deviceOk h.deviceOk
  cases hold : s.slot (some p) k with
  | some old =>
    refine h.keep hcached.similar hfat hdev ⟨inode', hp', hcluster', hok'⟩ fun j => ?_
    obtain rfl | hj := eq_or_ne j k
    · rw [hold, hcached.keep _ _ _ hold]
    · exact hothers j hj
  | none =>
    obtain ⟨hlow, hhigh⟩ := hcell hold
    refine IndexMap.insert (k := k) h hcached.similar hfat hdev ⟨inode', hp', hcluster', hok'⟩
      (fun j => ?_) ?_ hlow hhigh
    · split
      · rename_i hj
        rw [hj, hslot]
      · rename_i hj
        exact hothers j hj
    · rcases hcached.fresh _ _ _ hslot with hdesc | ⟨-, hlba, -⟩
      · rw [hold] at hdesc
        cases hdesc
      · rw [hlba, FatState.lbaOf, hp]
        dsimp only
        rw [h.similar.chain, h.similar.dataLba, hcluster]
        rfl

/-- `_allocate_one_buffer` adds a descriptor for an index that the map has not. -/
theorem IndexMap.allocate (h : IndexMap p first s₀ s) (hsmall : (k + 1) * 4096 < 0x100000000)
    (hreach : s₀.Reaches first k) (hcluster : cluster = s₀.chain k first)
    (hnone : s.slot (some p) k = none) :
    ∃ s', allocateOneBuffer p k cluster s = .ok () s' ∧ IndexMap p first s₀ s' ∧
      Mapped p k s s' := by
  obtain ⟨inode, hp, hfirst, hok⟩ := h.live
  obtain ⟨s', desc, hrun, hatt, -, hlba, -, -, hbrk, hlow, hhigh, hlevels⟩ :=
    allocateOneBuffer_run hp hok (Or.inr hsmall) hnone (hcluster ▸ hreach.data)
  obtain ⟨inode', hp', hcore, hok', -⟩ := hatt.cacheOk inode hp
  have hsimilar : Similar s s' := by
    refine ⟨frame_of_bare hatt.bare, hbrk, fun c => congrFun hatt.fatEntry c, ?_⟩
    intro owner levels root hcache hcacheOk
    by_cases ho : owner = some p
    · subst ho
      rw [cacheAt_inode hp, Option.some.injEq, Prod.mk.injEq] at hcache
      exact ⟨inode'.levels, inode'.cache, cacheAt_inode hp', hok', hcache.1 ▸ hlevels inode' hp'⟩
    · exact ⟨levels, root, (hatt.others owner ho).trans hcache, hcacheOk, le_rfl⟩
  refine ⟨s', hrun, ?_, ⟨?_, fun k' d hd => ?_, fun k' hk' => ?_, ?_⟩⟩
  · refine h.insert hsimilar (hsimilar.fatCacheOk h.fatOk) (hsimilar.deviceOk h.deviceOk)
      ⟨inode', hp', (core_cluster hcore).trans hfirst, hok'⟩ hatt.slot ?_ hlow hhigh
    rw [hlba, FatState.clusterLba, FatState.clusterLba, h.similar.dataLba, hcluster]
  · rw [hatt.slot, if_pos rfl]
    rfl
  · rw [hatt.slot, if_neg, hd]
    rintro rfl
    rw [hnone] at hd
    cases hd
  · rw [hatt.slot, if_neg hk']
  · intro i i' hi hi'
    rw [hp] at hi
    injection hi with hi
    rw [← hi]
    exact hlevels i' hi'

/-- `_allocate_one_buffer` exits when the map has a descriptor for the index. -/
theorem IndexMap.occupied (h : IndexMap p first s₀ s) (cluster : ℕ)
    (hsmall : (k + 1) * 4096 < 0x100000000)
    (hsome : s.slot (some p) k = some desc) :
    ∃ s', allocateOneBuffer p k cluster s = .error .slotNotEmpty s' := by
  obtain ⟨inode, hp, -, hok⟩ := h.live
  obtain ⟨levels, root, s₁, hgrow, hre, -, hcover⟩ := growCache_run hp hok k
  have hk : k < 64 ^ levels :=
    (lt_pow_getLevelsFromSize hsmall).trans_le (Nat.pow_le_pow_right (by omega) hcover)
  obtain ⟨root₂, s₂, hopen, -⟩ := openCache_run hre.cacheAt hre.ok hk
  rw [hre.slot, hsome] at hopen
  refine ⟨s₂, ?_⟩
  rw [allocateOneBuffer, exits_bind_ok hgrow, exits_bind_ok hopen]
  rfl

end IndexMap

/-! ## Runs -/

section Calls

variable {p : Ptr} {first : ℕ} {s₀ s s' s'' : FatState} {call : CacheCall}
  {calls more : List CacheCall}

/-- A call that returns keeps the map. -/
theorem IndexMap.of_call (h : IndexMap p first s₀ s) (hvalid : call.Valid s₀ first)
    {r : Option Desc} (hrun : call.run p s = .ok r s') :
    IndexMap p first s₀ s' ∧ Mapped p call.index s s' := by
  cases call with
  | getBuffer k =>
    obtain ⟨desc, t, hget, -, hmap, hmapped⟩ := h.getBuffer hvalid.small hvalid.reaches
    change getBufferFromCache (some p) k s = _ at hrun
    rw [show getBufferFromCache (some p) k s = _ from hget] at hrun
    injection hrun with _ hs
    subst hs
    exact ⟨hmap, hmapped⟩
  | allocate k cluster =>
    have hsmall : (k + 1) * 4096 < 0x100000000 := hvalid.small
    have hreach : s₀.Reaches first k := hvalid.reaches
    obtain ⟨_, t, hallocate, hrest⟩ := exits_bind_inv hrun
    injection hrest with _ hs
    subst hs
    cases hslot : s.slot (some p) k with
    | some desc =>
      obtain ⟨u, herror⟩ := h.occupied cluster hsmall hslot
      rw [hallocate] at herror
      cases herror
    | none =>
      obtain ⟨u, hok, hmap, hmapped⟩ :=
        h.allocate hsmall hreach (hvalid.cluster k cluster rfl) hslot
      rw [hallocate] at hok
      injection hok with _ hs
      subst hs
      exact ⟨hmap, hmapped⟩

/-- The descriptors after some calls: those before them, and one for each index requested. -/
structure Requested (p : Ptr) (calls : List CacheCall) (s s' : FatState) : Prop where
  keep : ∀ k desc, s.slot (some p) k = some desc → s'.slot (some p) k = some desc
  found : ∀ call ∈ calls, (s'.slot (some p) call.index).isSome
  others : ∀ k, k ∉ calls.map CacheCall.index → s'.slot (some p) k = s.slot (some p) k
  levels : ∀ inode inode', s.inodes p = some inode → s'.inodes p = some inode' →
    inode.levels ≤ inode'.levels

/-- Successive calls keep the map. -/
theorem IndexMap.of_calls (h : IndexMap p first s₀ s) (hvalid : ∀ call ∈ calls, call.Valid s₀ first)
    (hrun : Calls p s calls s') : IndexMap p first s₀ s' ∧ Requested p calls s s' := by
  induction hrun with
  | nil s =>
    refine ⟨h, fun _ _ hd => hd, fun _ hc => absurd hc List.not_mem_nil, fun _ _ => rfl, ?_⟩
    intro inode inode' hp hp'
    rw [hp] at hp'
    injection hp' with hp'
    rw [hp']
  | @cons s t s' call calls r hcall hrest ih =>
    obtain ⟨hmap, hmapped⟩ := h.of_call (hvalid call List.mem_cons_self) hcall
    obtain ⟨hmap', hreq⟩ := ih hmap fun c hc => hvalid c (List.mem_cons_of_mem _ hc)
    refine ⟨hmap', fun k d hd => hreq.keep k d (hmapped.keep k d hd), fun c hc => ?_,
      fun k hk => ?_, fun inode inode' hp hp' => ?_⟩
    · obtain rfl | hc := List.mem_cons.mp hc
      · obtain ⟨d, hd⟩ := Option.isSome_iff_exists.mp hmapped.found
        exact Option.isSome_of_eq_some (hreq.keep _ d hd)
      · exact hreq.found c hc
    · rw [List.map_cons, List.mem_cons, not_or] at hk
      rw [hreq.others k hk.2, hmapped.others k hk.1]
    · obtain ⟨mid, hmid, -⟩ := hmap.live
      exact (hmapped.levels inode mid hp hmid).trans (hreq.levels mid inode' hmid hp')

/-- An inode whose File-Cache is empty, over a Fat-Cache that can be loaded. -/
structure FatState.EmptyFile (s : FatState) (p : Ptr) (inode : Inode) : Prop where
  fatOk : s.FatCacheOk
  deviceOk : s.DeviceOk
  live : s.inodes p = some inode
  cacheOk : CacheOk inode.levels inode.cache
  empty : ∀ k, s.slot (some p) k = none

theorem FatState.EmptyFile.indexMap {inode : Inode} (h : s.EmptyFile p inode) :
    IndexMap p inode.cluster s s where
  similar := Similar.refl s
  fatOk := h.fatOk
  deviceOk := h.deviceOk
  live := ⟨inode, h.live, rfl, h.cacheOk⟩
  lba := fun k _ hd => absurd ((h.empty k).symm.trans hd) nofun
  cell := fun k _ hd => absurd ((h.empty k).symm.trans hd) nofun
  injective := fun k _ _ _ hd => absurd ((h.empty k).symm.trans hd) nofun

/-- In every sequence of calls on an inode, the map from the indices to the descriptors is
injective, the descriptor of an index is the one that every later call returns, its lba is that of
the cluster at this index of the chain, a buffer can be allocated for every index not requested
yet, and the levels never decrease and cover the indices requested. -/
theorem calls_index_map {inode : Inode} (h : s.EmptyFile p inode)
    (hvalid : ∀ call ∈ calls ++ more, call.Valid s inode.cluster) (hcalls : Calls p s calls s')
    (hmore : Calls p s' more s'') :
    (∀ k k' desc desc', s'.slot (some p) k = some desc → s'.slot (some p) k' = some desc' →
      desc.address = desc'.address → k = k') ∧
    (∀ k desc, s'.slot (some p) k = some desc →
      desc.lba = s.clusterLba (s.chain k inode.cluster)) ∧
    (∀ k desc, s'.slot (some p) k = some desc → s''.slot (some p) k = some desc ∧
      ((CacheCall.getBuffer k).Valid s inode.cluster →
        ∃ t, getBufferFromCache (some p) k s'' = .ok (some desc) t)) ∧
    (∀ k, (CacheCall.getBuffer k).Valid s inode.cluster → ∃ desc t,
      getBufferFromCache (some p) k s' = .ok (some desc) t ∧ t.slot (some p) k = some desc) ∧
    (∀ k cluster, (CacheCall.allocate k cluster).Valid s inode.cluster →
      k ∉ calls.map CacheCall.index → ∃ t, allocateOneBuffer p k cluster s' = .ok () t) ∧
    ∃ inode' inode'', s'.inodes p = some inode' ∧ s''.inodes p = some inode'' ∧
      inode.levels ≤ inode'.levels ∧ inode'.levels ≤ inode''.levels ∧
      ∀ call ∈ calls, call.index < 64 ^ inode'.levels := by
  obtain ⟨hmap, hreq⟩ := h.indexMap.of_calls
    (fun c hc => hvalid c (List.mem_append_left _ hc)) hcalls
  obtain ⟨hmap', hreq'⟩ := hmap.of_calls (fun c hc => hvalid c (List.mem_append_right _ hc)) hmore
  obtain ⟨inode', hp', -, -⟩ := hmap.live
  obtain ⟨inode'', hp'', -, -⟩ := hmap'.live
  refine ⟨hmap.injective, hmap.lba, fun k desc hd => ⟨hreq'.keep k desc hd, fun hv => ?_⟩,
    fun k hv => ?_, fun k cluster hv hk => ?_, inode', inode'', hp', hp'',
    hreq.levels _ _ h.live hp', hreq'.levels _ _ hp' hp'', fun call hc => ?_⟩
  · have hsmall : (k + 1) * 4096 < 0x100000000 := hv.small
    obtain ⟨found, t, hrun, hslot, -, hmapped⟩ := hmap'.getBuffer hsmall hv.reaches
    rw [hmapped.keep k desc (hreq'.keep k desc hd)] at hslot
    injection hslot with hslot
    exact ⟨t, hslot ▸ hrun⟩
  · obtain ⟨desc, t, hrun, hslot, -⟩ := hmap.getBuffer hv.small hv.reaches
    exact ⟨desc, t, hrun, hslot⟩
  · have hnone : s'.slot (some p) k = none := (hreq.others k hk).trans (h.empty k)
    obtain ⟨t, hrun, -⟩ := hmap.allocate hv.small hv.reaches (hv.cluster k cluster rfl) hnone
    exact ⟨t, hrun⟩
  · obtain ⟨desc, hd⟩ := Option.isSome_iff_exists.mp (hreq.found call hc)
    rw [slot_eq (cacheAt_inode hp'), slotOf] at hd
    by_contra hge
    rw [if_neg hge] at hd
    cases hd

end Calls

theorem smallFile_emptyFile : (volumeOf [5] smallFile).EmptyFile 7 smallFile where
  fatOk := (volumeOf_volume _ _).fatOk
  deviceOk := (volumeOf_volume _ _).deviceOk
  live := rfl
  cacheOk := ⟨by decide, trivial, @RadixTree.shaped_emptyNode _ Desc 1 2⟩
  empty := by
    intro k
    have hcache : (volumeOf [5] smallFile).cacheAt (some 7) = some (1, RadixTree.emptyNode 2) := rfl
    rw [slot_eq hcache, slotOf, RadixTree.get?_emptyNode, ite_self]

/-- The first cluster of a file is requested. -/
theorem calls_index_map_small : ∃ s', Calls 7 (volumeOf [5] smallFile) [.getBuffer 0] s' ∧
    ∀ k desc, s'.slot (some 7) k = some desc → desc.lba =
      (volumeOf [5] smallFile).clusterLba ((volumeOf [5] smallFile).chain k smallFile.cluster) := by
  have hvalid : (CacheCall.getBuffer 0).Valid (volumeOf [5] smallFile) smallFile.cluster :=
    ⟨by decide, ⟨fun j hj => absurd hj (Nat.not_lt_zero j), by decide⟩, nofun⟩
  obtain ⟨desc, s', hrun, -⟩ :=
    smallFile_emptyFile.indexMap.getBuffer hvalid.small hvalid.reaches
  have hcall : (CacheCall.getBuffer 0).run 7 (volumeOf [5] smallFile) = .ok (some desc) s' := hrun
  have hcalls : Calls 7 (volumeOf [5] smallFile) [.getBuffer 0] s' := .cons hcall (.nil s')
  have hall : ∀ call ∈ [CacheCall.getBuffer 0] ++ [],
      call.Valid (volumeOf [5] smallFile) smallFile.cluster := by
    intro call hc
    rw [List.append_nil, List.mem_singleton] at hc
    rw [hc]
    exact hvalid
  exact ⟨s', hcalls, (calls_index_map smallFile_emptyFile hall hcalls (.nil s')).2.1⟩

end GietVm.Fat
