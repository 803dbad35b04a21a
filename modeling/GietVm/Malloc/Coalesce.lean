import GietVm.Malloc.Kernel

/-!
# Full coalescing of the kernel heap

`_update_free_array` merges a released block with its companion as long as the companion
is free, and `_get_block` splits a block only when every list below it is empty. So no two
free blocks are ever the halves of one aligned block, whatever the order of the calls. The
free blocks of a heap without live blocks are then determined by the addresses they cover:
they are the blocks that `_heap_init` made.

The runs start in any state that `_heap_init` returns, on any segment that it accepts. A
call that exits ends its processor, and the other processors go on.
-/

namespace GietVm.Malloc.Kernel

open GietVm.Library

/-- The states reached by calls on the heap initialised in the state `s₀`, with the blocks
allocated and not yet released. -/
inductive HeapRun (s₀ : HeapState) : HeapState → List Block → Prop
  | start : HeapRun s₀ s₀ []
  | malloc {s live n b s'} (h : HeapRun s₀ s live) (hrun : remoteMalloc n s = .ok b s') :
      HeapRun s₀ s' (blockOf b n :: live)
  | mallocExit {s live n e s'} (h : HeapRun s₀ s live) (hrun : remoteMalloc n s = .error e s') :
      HeapRun s₀ s' live
  | free {s live b s'} (h : HeapRun s₀ s live) (hb : b ∈ live)
      (hrun : free b.base s = .ok () s') : HeapRun s₀ s' (live.erase b)
  | freeExit {s live b e s'} (h : HeapRun s₀ s live) (hb : b ∈ live)
      (hrun : free b.base s = .error e s') : HeapRun s₀ s' live
  | write {s live mem} (h : HeapRun s₀ s live)
      (hmem : ∀ x, (∀ b ∈ live, ¬ b.Has x) → mem x = s.mem x) : HeapRun s₀ { s with mem } live

/-- The blocks of `free[i]` that `_heap_init` makes: one block of size `2 ^ i` from
`alloc_index` up to `heap_index`. A block at address 0 would be the null pointer. -/
def initialList (heap : Heap) (i : ℕ) : List ℕ :=
  if getSizeIndex heap.allocSize ≤ i ∧ i < getSizeIndex heap.heapSize ∧
      heap.heapBase + heap.heapSize - 2 ^ (i + 1) ≠ 0 then
    [heap.heapBase + heap.heapSize - 2 ^ (i + 1)]
  else []

/-- The lists and the `alloc[]` array of a descriptor are as `_heap_init` makes them. -/
structure Fresh (heap : Heap) (s : HeapState) : Prop where
  lists : ∀ i < 32, Linked (· = 0) (readWord s.mem) (s.heap.free i) (initialList heap i)
  zero : ∀ j < heap.allocSize, s.mem (u32 (heap.allocBase + j)) = 0

/-- No free list holds two companion blocks. -/
def NoCompanions (s : HeapState) : Prop :=
  ∀ i < 32, ∃ l, Linked (· = 0) (readWord s.mem) (s.heap.free i) l ∧
    ∀ a ∈ l, (companion ⟨a, i⟩).base ∉ l

variable {base k : ℕ} {s s' s₁ : HeapState} {F F' live lost : List Block}

/-! ## Canonical free lists -/

/-- The companion of an aligned block makes an aligned pair with it. -/
theorem companion_pair {b : Block} (hb : b.Aligned) (hbound : b.base + b.size ≤ 0x100000000)
    (hc : (companion b).base ≠ 0) (hb0 : b.base ≠ 0) :
    ∃ p : Block, 0 < p.order ∧ p.Aligned ∧
      (b = p.lower ∧ companion b = p.upper ∨ b = p.upper ∧ companion b = p.lower) := by
  obtain ⟨hlow, hhigh⟩ := land_two_pow_eq_zero hb
  have hpos : 0 < 2 ^ b.order := Nat.two_pow_pos _
  simp only [Block.size] at hbound
  by_cases hbit : b.base &&& 2 ^ b.order = 0
  · refine ⟨⟨b.base, b.order + 1⟩, Nat.succ_pos _, hlow hbit, Or.inl ⟨rfl, ?_⟩⟩
    simp only [companion, hbit, if_true, u32] at hc ⊢
    simp only [Block.upper, Nat.add_sub_cancel, Block.mk.injEq, and_true]
    omega
  · obtain ⟨hle, hdvd⟩ := hhigh hbit
    refine ⟨⟨b.base - 2 ^ b.order, b.order + 1⟩, Nat.succ_pos _, hdvd, Or.inr ⟨?_, ?_⟩⟩
    · obtain ⟨bbase, border⟩ := b
      simp only [Block.upper, Nat.add_sub_cancel, Block.mk.injEq, and_true]
      exact (Nat.sub_add_cancel hle).symm
    · simp only [companion, hbit, if_false, u32, Block.lower, Nat.add_sub_cancel, Block.mk.injEq,
        and_true]
      omega

/-- A heap whose free blocks are coalesced has no two companions in a list. -/
theorem HeapUse.noCompanions (h : HeapUse base k lost s F live) (hF : Coalesced F) :
    NoCompanions s := by
  intro i hi
  refine ⟨basesOf F i, h.layout.inv.linked i hi, fun a ha hca => ?_⟩
  have hmem : (⟨a, i⟩ : Block) ∈ F := mem_basesOf.mp ha
  have hcmem : companion ⟨a, i⟩ ∈ F := mem_basesOf.mp hca
  have hbound := (h.layout.inv.tiling.bounds (b := ⟨a, i⟩) (by simp [hmem])).2
  obtain ⟨p, ho, hp, hhalf⟩ := companion_pair (h.layout.inv.aligned _ (by simp [hmem]))
    (hbound.trans h.layout.inv.top) (h.layout.inv.nonnull _ hcmem) (h.layout.inv.nonnull _ hmem)
  rcases hhalf with ⟨hlow, hup⟩ | ⟨hup, hlow⟩
  · exact hF p ho hp (hlow ▸ hmem) (hup ▸ hcmem)
  · exact hF p ho hp (hlow ▸ hcmem) (hup ▸ hmem)

/-- A heap as `_heap_init` leaves it on the segment of `2 ^ k` bytes at `base`. -/
structure InitialHeap (base k : ℕ) (lost : List Block) (heap : Heap) : Prop where
  dvd : 2 ^ k ∣ base
  lt : k < 32
  heapBase : heap.heapBase = base
  heapSize : heap.heapSize = 2 ^ k
  regionBase : (allocRegion heap).base = base + 2 ^ k - (allocRegion heap).size
  regionOrder : (allocRegion heap).order < k
  lost : lost = [] ∨ base = 0 ∧ lost = [⟨0, k - 1⟩]

/-- What every run on an initial heap keeps. -/
structure RunOk (base k : ℕ) (lost : List Block) (heap : Heap) (s : HeapState)
    (F live : List Block) : Prop where
  use : HeapUse base k lost s F live
  coalesced : Coalesced F
  allocBase : s.heap.allocBase = heap.allocBase
  allocSize : s.heap.allocSize = heap.allocSize

/-- Without live blocks the free blocks are those of `_heap_init`. -/
theorem RunOk.mem_iff {heap : Heap} (h : RunOk base k lost heap s F [])
    (hheap : InitialHeap base k lost heap) (b : Block) :
    b ∈ F ↔ (allocRegion heap).order ≤ b.order ∧ b.order < k ∧
      b = stairBlock (base + 2 ^ k) b.order ∧ b.base ≠ 0 := by
  have hinv := h.use.layout.inv
  have hregion : allocRegion s.heap = ⟨base + 2 ^ k - 2 ^ (allocRegion heap).order,
      (allocRegion heap).order⟩ := by
    have hbase := hheap.regionBase
    rw [Block.size] at hbase
    rw [← hbase, allocRegion, allocRegion, h.allocBase, h.allocSize]
  have htiling := hinv.tiling
  rw [h.use.heapBase, h.use.heapSize, hregion] at htiling
  have hlost : ∀ c ∈ lost, c = stairBlock (base + 2 ^ k) (k - 1) ∧ c.base = 0 := by
    intro c hc
    rcases hheap.lost with hnil | ⟨hzero, hone⟩
    · simp [hnil] at hc
    · rw [hone, List.mem_singleton] at hc
      have hpos : 0 < k := Nat.zero_lt_of_lt hheap.regionOrder
      simp only [hc, stairBlock, hzero, Nat.zero_add, Nat.sub_add_cancel hpos, Nat.sub_self,
        and_self]
  have hstair := h.coalesced.eq_stair (b := b) (fun c hc => hinv.aligned c (by simp [hc]))
    hheap.dvd htiling (fun c hc => (hlost c hc).1) hheap.regionOrder
  constructor
  · intro hb
    obtain ⟨hlow, hhigh, heq, -⟩ := hstair.mp hb
    exact ⟨hlow, hhigh, heq, hinv.nonnull b hb⟩
  · rintro ⟨hlow, hhigh, heq, hnull⟩
    exact hstair.mpr ⟨hlow, hhigh, heq, fun hb => hnull (hlost b hb).2⟩

/-- A list without repetition is determined by its only possible member. -/
theorem eq_singleton_of_mem_iff {l : List ℕ} {x : ℕ} {p : Prop} [Decidable p] (h : l.Nodup)
    (hmem : ∀ a, a ∈ l ↔ p ∧ a = x) : l = if p then [x] else [] := by
  by_cases hp : p
  · rw [if_pos hp]
    refine List.perm_singleton.mp ((List.perm_ext_iff_of_nodup h (List.nodup_singleton x)).mpr ?_)
    intro a
    rw [hmem a, List.mem_singleton]
    exact and_iff_right hp
  · rw [if_neg hp]
    exact List.eq_nil_iff_forall_not_mem.mpr fun a ha => hp ((hmem a).mp ha).1

theorem RunOk.fresh {heap : Heap} (h : RunOk base k lost heap s F [])
    (hheap : InitialHeap base k lost heap) : Fresh heap s where
  lists i hi := by
    have hinv := h.use.layout.inv
    have hk : getSizeIndex heap.heapSize = k := by rw [hheap.heapSize, getSizeIndex_two_pow hheap.lt]
    have hlist : basesOf F i = initialList heap i := by
      refine eq_singleton_of_mem_iff (basesOf_nodup hinv.nodup i) fun a => ?_
      rw [mem_basesOf, h.mem_iff hheap, hk, hheap.heapBase, hheap.heapSize]
      simp only [stairBlock, Block.mk.injEq, and_true]
      constructor
      · rintro ⟨hlow, hhigh, rfl, hnull⟩
        exact ⟨⟨hlow, hhigh, hnull⟩, rfl⟩
      · rintro ⟨⟨hlow, hhigh, hnull⟩, rfl⟩
        exact ⟨hlow, hhigh, rfl, hnull⟩
    rw [← hlist]
    exact hinv.linked i hi
  zero j hj := by
    have hregion := h.use.layout.inv.tiling.bounds (b := allocRegion s.heap) (by simp)
    have htop := h.use.layout.inv.top
    have hsize := h.use.layout.allocSize
    have hbase : (allocRegion s.heap).base = s.heap.allocBase := rfl
    rw [← h.allocSize] at hj
    rw [← h.allocBase, u32, Nat.mod_eq_of_lt (by omega)]
    exact h.use.table.zero j hj (by simp) (by simp)

/-! ## Runs -/

/-- Every call keeps what a run keeps. -/
theorem RunOk.malloc {heap : Heap} (h : RunOk base k lost heap s F live) {n b : ℕ}
    (hrun : remoteMalloc n s = .ok b s') :
    ∃ F', RunOk base k lost heap s' F' (blockOf b n :: live) := by
  cases h.use.malloc n with
  | @ok b₁ s₁ F' hok huse hframe _ _ hcoal =>
    cases hok.symm.trans hrun
    exact ⟨F', huse, hcoal h.coalesced, hframe.allocBase.trans h.allocBase,
      hframe.allocSize.trans h.allocSize⟩
  | full hfull => cases hfull.symm.trans hrun
  | big _ _ hout => cases hout.symm.trans hrun

theorem RunOk.malloc_error {heap : Heap} (h : RunOk base k lost heap s F live) {n : ℕ}
    {e : HeapError} (hrun : remoteMalloc n s = .error e s') : s' = s := by
  cases h.use.malloc n with
  | ok hok => cases hok.symm.trans hrun
  | full hfull =>
    cases hfull.symm.trans hrun
    rfl
  | big _ _ hout =>
    cases hout.symm.trans hrun
    rfl

theorem RunOk.free {heap : Heap} (h : RunOk base k lost heap s F live) {b : Block}
    (hb : b ∈ live) (hend : base + 2 ^ k < 0x100000000) :
    ∃ s' F', Kernel.free b.base s = .ok () s' ∧ RunOk base k lost heap s' F' (live.erase b) := by
  obtain ⟨s', F', hok, huse, hframe, hcoal⟩ := h.use.free hb hend
  exact ⟨s', F', hok, huse, hcoal h.coalesced, hframe.allocBase.trans h.allocBase,
    hframe.allocSize.trans h.allocSize⟩

theorem RunOk.free_error {heap : Heap} (h : RunOk base k lost heap s F live) {b : Block}
    (hb : b ∈ live) {e : HeapError} (hrun : Kernel.free b.base s = .error e s') : s' = s := by
  by_cases hend : base + 2 ^ k < 0x100000000
  · obtain ⟨s₁, F', hok, -⟩ := h.free hb hend
    cases hok.symm.trans hrun
  · cases (h.use.free_wrap hend b.base).symm.trans hrun
    rfl

theorem HeapRun.runOk {s₀ : HeapState} {heap : Heap} (h : HeapRun s₀ s live) {F₀ : List Block}
    (h₀ : RunOk base k lost heap s₀ F₀ []) : ∃ F, RunOk base k lost heap s F live := by
  induction h with
  | start => exact ⟨F₀, h₀⟩
  | malloc _ hrun ih =>
    obtain ⟨F, hF⟩ := ih
    exact hF.malloc hrun
  | mallocExit _ hrun ih =>
    obtain ⟨F, hF⟩ := ih
    rw [hF.malloc_error hrun]
    exact ⟨F, hF⟩
  | free _ hb hrun ih =>
    obtain ⟨F, hF⟩ := ih
    obtain ⟨s₁, F', hok, hF'⟩ := hF.free hb (hF.use.end_lt hrun)
    cases hok.symm.trans hrun
    exact ⟨F', hF'⟩
  | freeExit _ hb hrun ih =>
    obtain ⟨F, hF⟩ := ih
    rw [hF.free_error hb hrun]
    exact ⟨F, hF⟩
  | write _ hmem ih =>
    obtain ⟨F, hF⟩ := ih
    exact ⟨F, hF.use.write hmem, hF.coalesced, hF.allocBase, hF.allocSize⟩

/-- A request that fits in one heap without live blocks fits in every other. -/
theorem RunOk.fits {heap : Heap} (h : RunOk base k lost heap s F [])
    (h' : RunOk base k lost heap s' F' []) (hheap : InitialHeap base k lost heap) {n b : ℕ}
    (hrun : remoteMalloc n s = .ok b s₁) : ∃ b' s₂, remoteMalloc n s' = .ok b' s₂ := by
  obtain ⟨f, hf, ho⟩ : ∃ f ∈ F, requestIndex 6 n ≤ f.order := by
    cases h.use.malloc n with
    | @ok b₁ _ _ _ _ _ _ hpart =>
      obtain ⟨f, hf, hpart⟩ := hpart
      have hpos := Nat.two_pow_pos (requestIndex 6 n)
      have hfirst := hpart b₁ (Block.has_base (blockOf b₁ n))
      have hlast := hpart (b₁ + 2 ^ requestIndex 6 n - 1)
        ⟨by simp only [blockOf]; omega, by simp only [blockOf, Block.size]; omega⟩
      have hle : 2 ^ requestIndex 6 n ≤ 2 ^ f.order := by
        simp only [Block.Has, Block.size] at hfirst hlast
        omega
      exact ⟨f, hf, (Nat.pow_le_pow_iff_right (by omega)).mp hle⟩
    | full hfull => cases hfull.symm.trans hrun
    | big _ _ hout => cases hout.symm.trans hrun
  have hf' : f ∈ F' := (h'.mem_iff hheap f).mpr ((h.mem_iff hheap f).mp hf)
  cases h'.use.malloc n with
  | ok hok => exact ⟨_, _, hok⟩
  | full _ _ hnone =>
    have := hnone f hf'
    omega
  | big _ hnone =>
    have := hnone f hf'
    omega

/-! ## Segments without blocks -/

/-- Such a heap has no initial block. -/
theorem initialList_small {heap : Heap} (hk : k ≤ 6) (hsize : heap.heapSize = 2 ^ k)
    (halloc : heap.allocSize = 2 ^ 6) (i : ℕ) : initialList heap i = [] := by
  refine if_neg fun hi => ?_
  rw [hsize, halloc, getSizeIndex_two_pow (by omega), getSizeIndex_two_pow (by omega)] at hi
  omega

/-- On a heap whose lists are all empty no request returns. -/
theorem remoteMalloc_empty (hfree : ∀ i, s.heap.free i = 0) (n : ℕ) :
    ∃ e, remoteMalloc n s = .error e s := by
  rw [remoteMalloc, bind_ok get_run]
  split
  · exact ⟨_, rfl⟩
  · change ∃ e, mallocBlock (2 ^ 6) n s = .error e s
    rw [mallocBlock_run]
    rcases getBlock_empty hfree (requestIndex 6 n) (requestIndex 6 n) with hget | hget
    · rw [bind_ok hget]
      exact ⟨.noMoreSpace, rfl⟩
    · rw [bind_error hget]
      exact ⟨.outOfBounds, rfl⟩

/-- A run on such a heap changes nothing. -/
theorem HeapRun.eq_of_empty {s₀ : HeapState} (h : HeapRun s₀ s live)
    (hfree : ∀ i, s₀.heap.free i = 0) : s = s₀ ∧ live = [] := by
  induction h with
  | start => exact ⟨rfl, rfl⟩
  | malloc _ hrun ih =>
    obtain ⟨rfl, -⟩ := ih
    obtain ⟨e, he⟩ := remoteMalloc_empty hfree _
    cases he.symm.trans hrun
  | mallocExit _ hrun ih =>
    obtain ⟨rfl, rfl⟩ := ih
    obtain ⟨e, he⟩ := remoteMalloc_empty hfree _
    cases he.symm.trans hrun
    exact ⟨rfl, rfl⟩
  | free _ hb _ ih | freeExit _ hb _ ih =>
    rw [ih.2] at hb
    exact absurd hb (by simp)
  | write _ hmem ih =>
    obtain ⟨rfl, rfl⟩ := ih
    obtain rfl := funext fun x => hmem x (by simp)
    exact ⟨rfl, rfl⟩

/-! ## Every heap -/

/-- Full coalescing. After every run on an initialised heap no free list holds two
companions; without live blocks the lists and the table are as `_heap_init` left them, and
every request that fitted in the initial heap fits again. -/
theorem heapRun_coalesced {size : ℕ} (hbase : base < 0x100000000) (hsize : size < 0x100000000)
    {s₀ s₁ : HeapState} (hinit : heapInit base size s₀ = .ok () s₁) :
    Fresh s₁.heap s₁ ∧ ∀ s live, HeapRun s₁ s live →
      NoCompanions s ∧
      (base + size < 0x100000000 → ∀ b ∈ live, ∃ s', Kernel.free b.base s = .ok () s') ∧
      (live = [] → Fresh s₁.heap s ∧
        ∀ n b s', remoteMalloc n s₁ = .ok b s' → ∃ b' s'', remoteMalloc n s = .ok b' s'') := by
  obtain ⟨k, hk, rfl, hdvd, hpos⟩ := heapInit_segment hinit hsize
  rcases Nat.lt_or_ge k 7 with hsmall | hlarge
  · have hok := heapInit_small (m := 6) s₀ hpos (by omega) (by omega) hdvd
    cases hok.symm.trans hinit
    have halt : u32 (base + 2 ^ k + 0x100000000 - 2 ^ 6) < 0x100000000 := Nat.mod_lt _ (by omega)
    generalize u32 (base + 2 ^ k + 0x100000000 - 2 ^ 6) = allocBase at *
    set s₁ : HeapState := ⟨⟨s₀.heap.init, base, 2 ^ k, allocBase, 2 ^ 6, fun _ => 0⟩,
      fillZero s₀.mem allocBase (2 ^ 6)⟩ with hs₁
    have hfresh : Fresh s₁.heap s₁ := by
      refine ⟨fun i _ => ?_, fun j hj => fillZero_add _ halt hj (by omega)⟩
      rw [initialList_small (k := k) (by omega) rfl rfl]
      exact linked_nil.mpr rfl
    refine ⟨hfresh, fun s live hrun => ?_⟩
    obtain ⟨rfl, rfl⟩ := hrun.eq_of_empty fun _ => rfl
    exact ⟨fun i _ => ⟨[], linked_nil.mpr rfl, by simp⟩, by simp,
      fun _ => ⟨hfresh, fun n b s' hrun => ⟨b, s', hrun⟩⟩⟩
  · obtain ⟨s, F₁, lost, hok, huse, ⟨hrbase, hrorder⟩, hlost, hcoal⟩ :=
      heapUse_init s₀ hlarge hk hdvd hbase
    cases hok.symm.trans hinit
    have hheap : InitialHeap base k lost s₁.heap :=
      ⟨hdvd, hk, huse.heapBase, huse.heapSize, hrbase, hrorder, hlost⟩
    have hstart : RunOk base k lost s₁.heap s₁ F₁ [] := ⟨huse, hcoal, rfl, rfl⟩
    refine ⟨hstart.fresh hheap, fun s live hrun => ?_⟩
    obtain ⟨F, hF⟩ := hrun.runOk hstart
    refine ⟨hF.use.noCompanions hF.coalesced, fun hend b hb => ?_, fun hlive => ?_⟩
    · obtain ⟨s', F', hfree, -⟩ := hF.free hb hend
      exact ⟨s', hfree⟩
    · subst hlive
      exact ⟨hF.fresh hheap, fun n b s' hrun' => hstart.fits hF hheap hrun'⟩

/-- A heap of one page serves a request of 64 bytes. -/
theorem page_malloc : ∃ s₁ b s₂ F₂ lost,
    heapInit 0x1000 (2 ^ 12) ⟨⟨0, 0, 0, 0, 0, fun _ => 0⟩, fun _ => 0⟩ = .ok () s₁ ∧
    remoteMalloc 64 s₁ = .ok b s₂ ∧ HeapUse 0x1000 12 lost s₂ F₂ [blockOf b 64] := by
  obtain ⟨s₁, F₁, lost, hinit, huse, ⟨hrbase, hrorder⟩, hlost, hcoal⟩ :=
    heapUse_init (k := 12) ⟨⟨0, 0, 0, 0, 0, fun _ => 0⟩, fun _ => 0⟩
      (by omega) (by omega) (by omega : 2 ^ 12 ∣ 0x1000) (by omega)
  -- the first half of the page is free
  have hheap : InitialHeap 0x1000 12 lost s₁.heap :=
    ⟨by omega, by omega, huse.heapBase, huse.heapSize, hrbase, hrorder, hlost⟩
  have hmem := (RunOk.mem_iff ⟨huse, hcoal, rfl, rfl⟩ hheap ⟨0x1000, 11⟩).mpr
    ⟨Nat.le_of_lt_succ hrorder, by decide, by decide, by decide⟩
  have hindex : requestIndex 6 64 = 6 := by decide
  cases huse.malloc 64 with
  | @ok b s₂ F₂ hok huse₂ => exact ⟨s₁, b, s₂, F₂, lost, hinit, hok, huse₂⟩
  | full _ _ hnone =>
    have := hnone _ hmem
    simp only at this
    omega
  | big _ hnone =>
    have := hnone _ hmem
    simp only at this
    omega

/-- A heap of one page, one request of 64 bytes and its release: the page is whole again. -/
theorem heapRun_coalesced_page : ∃ s₁ b s₂ s₃,
    heapInit 0x1000 (2 ^ 12) ⟨⟨0, 0, 0, 0, 0, fun _ => 0⟩, fun _ => 0⟩ = .ok () s₁ ∧
    remoteMalloc 64 s₁ = .ok b s₂ ∧ Kernel.free b s₂ = .ok () s₃ ∧ Fresh s₁.heap s₃ := by
  obtain ⟨s₁, b, s₂, F₂, lost, hinit, hok, -⟩ := page_malloc
  obtain ⟨-, hrun⟩ := @heapRun_coalesced 0x1000 (2 ^ 12) (by omega) (by omega) _ _ hinit
  have hlive := HeapRun.malloc .start hok
  obtain ⟨-, hfree, -⟩ := hrun s₂ _ hlive
  obtain ⟨s₃, hfree⟩ := hfree (by omega) (blockOf b 64) (by simp)
  have hdone := HeapRun.free hlive (List.mem_singleton.mpr rfl) hfree
  rw [List.erase_cons_head] at hdone
  exact ⟨s₁, b, s₂, s₃, hinit, hok, hfree, ((hrun s₃ [] hdone).2.2 rfl).1⟩

end GietVm.Malloc.Kernel
