import GietVm.Malloc.Table

/-!
# The kernel heap

`_remote_malloc` and `_free` of `kernel_malloc.c` on the heap of one cluster, with
blocks of at least 64 bytes. A release clears the `alloc[]` byte before it returns the
block to the lists.

The runs considered start with `_heap_init` and contain requests, releases of live
blocks, and arbitrary writes of the owners into their live blocks, in any order.
-/

namespace GietVm.Malloc.Kernel

open GietVm.Library

/-- `MIN_BLOCK_SIZE` of `kernel_malloc.h`. -/
def minBlockSize : ℕ := 0x40

/-- `_heap_init` for one cluster. -/
def heapInit (heapBase heapSize : ℕ) : HeapM Unit := Malloc.heapInit minBlockSize heapBase heapSize

/-- `_remote_malloc` on the heap of the addressed cluster. -/
def remoteMalloc (size : ℕ) : HeapM ℕ := do
  let s ← get
  if s.heap.heapSize = 0 then throw .heapNotFound
  else mallocBlock minBlockSize size

/-- `_free` on the heap of the cluster that holds the pointer. -/
def free (base : ℕ) : HeapM Unit := do
  let (ptr, sizeIndex) ← checkReleased minBlockSize base
  modify fun s => { s with mem := writeByte s.mem ptr 0 }
  updateFreeArray base sizeIndex

/-- The block that a request of `size` bytes receives at `base`. -/
def blockOf (base size : ℕ) : Block := ⟨base, requestIndex 6 size⟩

/-- The states reached from `_heap_init` on a segment, with the blocks allocated and not
yet released. -/
inductive Reachable (base size : ℕ) : HeapState → List Block → Prop
  | init {s₀ s} (h : heapInit base size s₀ = .ok () s) : Reachable base size s []
  | malloc {s live n b s'} (h : Reachable base size s live) (hn : n ≤ 2 ^ 30)
      (hrun : remoteMalloc n s = .ok b s') : Reachable base size s' (blockOf b n :: live)
  | free {s live b s'} (h : Reachable base size s live) (hb : b ∈ live)
      (hrun : free b.base s = .ok () s') : Reachable base size s' (live.erase b)
  | write {s live mem} (h : Reachable base size s live)
      (hmem : ∀ x, (∀ b ∈ live, ¬ b.Has x) → mem x = s.mem x) :
      Reachable base size { s with mem } live

/-- The block that holds the `alloc[]` array. -/
def allocRegion (heap : Heap) : Block := ⟨heap.allocBase, getSizeIndex heap.allocSize⟩

/-- The free blocks `F`, the allocated blocks and the `alloc[]` array share the segment
without overlap or gap; each list links exactly the free blocks of its order, once each;
the table describes exactly the allocated blocks. -/
structure Partition (base size : ℕ) (s : HeapState) (F live : List Block) : Prop where
  tiling : Tiling base (base + size) (F ++ live ++ [allocRegion s.heap])
  allocSize : (allocRegion s.heap).size = s.heap.allocSize
  aligned : ∀ b ∈ F ++ live, b.Aligned
  order : ∀ b ∈ F, b.order < 32
  linked : ∀ i < 32, Linked (· = 0) (readWord s.mem) (s.heap.free i) (basesOf F i)
  nodup : ∀ i < 32, (basesOf F i).Nodup
  code : ∀ b ∈ live, (s.mem (s.heap.allocBase + (b.base - base) / 64)).toNat = b.order
  zero : ∀ j < s.heap.allocSize, (∀ b ∈ live, (b.base - base) / 64 ≠ j) →
    s.mem (s.heap.allocBase + j) = 0

/-! ## Runs keep the layout and the table -/

/-- The layout and table of a kernel heap on the segment of `2 ^ k` bytes at `base`. -/
structure HeapOk (base k : ℕ) (s : HeapState) (F live : List Block) : Prop where
  layout : HeapLayout s 6 F live (allocRegion s.heap) []
  table : HeapTable s 6 live []
  heapBase : s.heap.heapBase = base
  heapSize : s.heap.heapSize = 2 ^ k

variable {base k : ℕ} {s s' : HeapState} {F live : List Block}

/-- A layout names its `alloc[]` block by the descriptor. -/
theorem allocRegion_eq {alloc : Block} {lost : List Block}
    (h : HeapLayout s 6 F live alloc lost) : alloc = allocRegion s.heap := by
  have horder := h.inv.order_lt (b := alloc) (by simp)
  obtain ⟨abase, aorder⟩ := alloc
  have hbase : abase = s.heap.allocBase := h.allocBase
  have hsize : 2 ^ aorder = s.heap.allocSize := h.allocSize
  rw [allocRegion, ← hbase, ← hsize, getSizeIndex_two_pow horder]

/-- A heap in use whose first block may be hidden by the null pointer. -/
structure HeapUse (base k : ℕ) (lost : List Block) (s : HeapState) (F live : List Block) : Prop where
  layout : HeapLayout s 6 F live (allocRegion s.heap) lost
  table : HeapTable s 6 live []
  notNull : ∀ b ∈ live, b.base ≠ 0
  heapBase : s.heap.heapBase = base
  heapSize : s.heap.heapSize = 2 ^ k

theorem HeapUse.ok (h : HeapUse base k [] s F live) : HeapOk base k s F live :=
  ⟨h.layout, h.table, h.heapBase, h.heapSize⟩

theorem HeapOk.use (h : HeapOk base k s F live) (hbase : base ≠ 0) : HeapUse base k [] s F live := by
  refine ⟨h.layout, h.table, fun b hb => ?_, h.heapBase, h.heapSize⟩
  have hbounds := (h.layout.inv.tiling.bounds (b := b) (by simp [hb])).1
  have := h.heapBase
  omega

/-- The initial heap: nothing in the free lists can be merged, and the `alloc[]` block is
the end of the segment. -/
theorem heapUse_init (s₀ : HeapState) (hk : 7 ≤ k) (hk' : k < 32) (hdvd : 2 ^ k ∣ base)
    (hlt : base < 0x100000000) :
    ∃ s F lost, heapInit base (2 ^ k) s₀ = .ok () s ∧ HeapUse base k lost s F [] ∧
      ((allocRegion s.heap).base = base + 2 ^ k - (allocRegion s.heap).size ∧
        (allocRegion s.heap).order < k) ∧
      (lost = [] ∨ base = 0 ∧ lost = [⟨0, k - 1⟩]) ∧ Coalesced F := by
  obtain ⟨s, F, alloc, lost, hrun, hlayout, htable, hb, hs, halloc, hlost, hcoal⟩ :=
    heapInit_spec (m := 6) s₀ (by omega) (by omega : 6 < k) (by omega) hdvd hlt
  obtain rfl := allocRegion_eq hlayout
  exact ⟨s, F, lost, hrun, ⟨hlayout, htable, by simp, hb, hs⟩, halloc, hlost, hcoal⟩

theorem heapOk_init (s₀ : HeapState) (hk : 7 ≤ k) (hk' : k ≤ 30) (hbase : base ≠ 0)
    (hdvd : 2 ^ k ∣ base) (hlt : base < 0x100000000) :
    ∃ s F, heapInit base (2 ^ k) s₀ = .ok () s ∧ HeapOk base k s F [] := by
  obtain ⟨s, F, lost, hrun, huse, -, hlost, -⟩ := heapUse_init s₀ hk (by omega) hdvd hlt
  obtain rfl : lost = [] := hlost.resolve_right fun h => hbase h.1
  exact ⟨s, F, hrun, huse.ok⟩

theorem HeapOk.size_lt (h : HeapOk base k s F live) (hk : k ≤ 30) : s.heap.heapSize < 0x80000000 := by
  rw [h.heapSize]
  exact Nat.pow_lt_pow_right (by omega) (by omega : k < 31)

theorem requestIndex_le {n : ℕ} (hn : n ≤ 2 ^ 30) : requestIndex 6 n ≤ 30 := by
  refine getSizeIndex_le (by omega) ?_
  split <;> omega

/-- The outcomes of a request on a heap in use: a part of a free block, or no block when
every free block is too small. -/
inductive MallocOutcome (base k : ℕ) (lost : List Block) (s : HeapState) (F live : List Block)
    (n : ℕ) : Prop
  | ok {b : ℕ} {s' : HeapState} {F' : List Block} (run : remoteMalloc n s = .ok b s')
      (use : HeapUse base k lost s' F' (blockOf b n :: live)) (frame : HeapFrame s s' live)
      (fits : n ≤ (blockOf b n).size) (part : ∃ f ∈ F, ∀ x, (blockOf b n).Has x → f.Has x)
      (coalesced : Coalesced F → Coalesced F')
  | full (run : remoteMalloc n s = .error .noMoreSpace s)
      (get : getBlock (requestIndex 6 n) (requestIndex 6 n) s = .ok 0 s)
      (none : ∀ d ∈ F, d.order < requestIndex 6 n)
  | big (hbig : 0x80000000 ≤ s.heap.heapSize ∨ 32 ≤ requestIndex 6 n)
      (none : ∀ d ∈ F, d.order < requestIndex 6 n)
      (run : remoteMalloc n s = .error .outOfBounds s)

theorem HeapUse.malloc {lost : List Block} (h : HeapUse base k lost s F live) (n : ℕ) :
    MallocOutcome base k lost s F live n := by
  have hsize : s.heap.heapSize ≠ 0 := by
    rw [h.heapSize]
    exact (Nat.two_pow_pos k).ne'
  have hrun : remoteMalloc n s = mallocBlock (2 ^ 6) n s := by
    rw [remoteMalloc, bind_ok get_run, if_neg hsize]
    rfl
  cases mallocBlock_spec h.layout h.table (by omega) n with
  | @ok b s' F' hok hnull hlayout htable hframe hle hpart hcoal =>
    refine .ok (hrun.trans hok) ⟨?_, htable, ?_, hframe.heapBase.trans h.heapBase,
      hframe.heapSize.trans h.heapSize⟩ hframe hle hpart hcoal
    · rw [← allocRegion_eq hlayout]
      exact hlayout
    · simpa [blockOf] using ⟨hnull, h.notNull⟩
  | full hfull hget hnone => exact .full (hrun.trans hfull) hget hnone
  | stale hstale hit => exact absurd hit (by simp)
  | big hbig hnone hout => exact .big hbig hnone (hrun.trans hout)

/-- A request either takes a part of a free block, or finds no block and changes nothing. -/
theorem HeapOk.malloc (h : HeapOk base k s F live) (hk : k ≤ 30) (hbase : base ≠ 0) {n : ℕ}
    (hn : n ≤ 2 ^ 30) :
    (∃ b s' F', remoteMalloc n s = .ok b s' ∧ HeapOk base k s' F' (blockOf b n :: live) ∧
      n ≤ (blockOf b n).size ∧ ∃ f ∈ F, ∀ x, (blockOf b n).Has x → f.Has x) ∨
    (remoteMalloc n s = .error .noMoreSpace s ∧
      getBlock (requestIndex 6 n) (requestIndex 6 n) s = .ok 0 s) := by
  cases (h.use hbase).malloc n with
  | ok hok huse _ hle hpart => exact Or.inl ⟨_, _, _, hok, huse.ok, hle, hpart⟩
  | full hfull hget => exact Or.inr ⟨hfull, hget⟩
  | big hbig =>
    have := h.size_lt hk
    have := requestIndex_le hn
    omega

/-- A release of a live block that passes the checks returns the block to the lists. -/
theorem HeapUse.free {lost : List Block} (h : HeapUse base k lost s F live) {b : Block}
    (hb : b ∈ live) (hend : base + 2 ^ k < 0x100000000) :
    ∃ s' F', free b.base s = .ok () s' ∧ HeapUse base k lost s' F' (live.erase b) ∧
      HeapFrame s s' (live.erase b) ∧ (Coalesced F → Coalesced F') := by
  rw [← h.heapBase, ← h.heapSize] at hend
  have hmem : b ∈ F ++ (live ++ allocRegion s.heap :: lost) := by simp [hb]
  have horder := h.layout.liveOrder b hb
  have hentry := h.layout.entryOf_lt hmem
  set s₁ := s.writeEntry (entryOf 6 s.heap b) 0 with hs₁
  have hinv : HeapInv s₁ F (b :: (live.erase b ++ allocRegion s.heap :: lost)) :=
    (h.layout.writeEntry hentry 0).inHand hb
  have hframe₁ : HeapFrame s s₁ (live.erase b) :=
    (h.layout.frame_writeEntry hentry 0).mono fun c hc =>
      List.mem_append_right _ (List.mem_of_mem_erase hc)
  obtain ⟨s', F', hrun, hinv', hframe, hcoal⟩ :=
    updateFreeArray_spec hinv (by omega) (h.notNull b hb)
  have hperm : (b :: (live.erase b ++ allocRegion s.heap :: lost)).Perm
      (live.erase b ++ allocRegion s.heap :: b :: lost) := by
    simpa using (@List.perm_middle _ b (live.erase b ++ [allocRegion s.heap]) lost).symm
  have horders : ∀ c ∈ live.erase b, 6 ≤ c.order :=
    fun c hc => h.layout.liveOrder c (List.mem_of_mem_erase hc)
  -- while the block is in hand it belongs to no list
  have hlayout : HeapLayout s₁ 6 F (live.erase b) (allocRegion s.heap) (b :: lost) :=
    h.layout.step (hinv.perm hperm) hframe₁ horders
  have hregion : allocRegion s'.heap = allocRegion s.heap := by
    rw [allocRegion, allocRegion, hframe.allocBase, hframe.allocSize]
    rfl
  have hwhole : HeapFrame s s' (live.erase b) := hframe₁.trans (hframe.mono (by simp +contextual))
  refine ⟨s', F', ?_, ⟨?_, ?_, fun c hc => h.notNull c (List.mem_of_mem_erase hc),
    hframe.heapBase.trans h.heapBase, hframe.heapSize.trans h.heapSize⟩, hwhole, hcoal⟩
  · have hcheck := checkReleased_live h.layout h.table hb hend
    exact (bind_ok hcheck).trans hrun
  · rw [hregion]
    exact h.layout.step hinv' hwhole horders
  · exact (h.table.erase h.layout hb).step hlayout hframe (by simp)

theorem HeapOk.free (h : HeapOk base k s F live) (hbase : base ≠ 0) {b : Block} (hb : b ∈ live)
    (hend : base + 2 ^ k < 0x100000000) :
    ∃ s' F', free b.base s = .ok () s' ∧ HeapOk base k s' F' (live.erase b) := by
  obtain ⟨s', F', hrun, huse, -⟩ := (h.use hbase).free hb hend
  exact ⟨s', F', hrun, huse.ok⟩

/-- On a heap that ends at the last address every release is rejected. -/
theorem HeapUse.free_wrap {lost : List Block} (h : HeapUse base k lost s F live)
    (hge : ¬ base + 2 ^ k < 0x100000000) (b : ℕ) :
    Kernel.free b s = .error .illegalPointer s := by
  have htop := h.layout.inv.top
  rw [h.heapBase, h.heapSize] at htop
  have hwrap : u32 (s.heap.heapBase + s.heap.heapSize) = 0 := by
    rw [h.heapBase, h.heapSize, show base + 2 ^ k = 0x100000000 by omega]
  have hcheck : checkReleased minBlockSize b s = .error .illegalPointer s := by
    rw [checkReleased, bind_ok get_run, hwrap, if_pos (Or.inr (Nat.zero_le b))]
    rfl
  rw [Kernel.free, bind_error hcheck]

/-- A release that returns has a heap that ends below the last address. -/
theorem HeapUse.end_lt {lost : List Block} (h : HeapUse base k lost s F live) {b : ℕ}
    (hrun : Kernel.free b s = .ok () s') : base + 2 ^ k < 0x100000000 := by
  by_contra hge
  cases (h.free_wrap hge b).symm.trans hrun

/-- The owners of live blocks write nothing that the allocator reads. -/
theorem HeapUse.write {lost : List Block} (h : HeapUse base k lost s F live) {mem : Mem}
    (hmem : ∀ x, (∀ b ∈ live, ¬ b.Has x) → mem x = s.mem x) :
    HeapUse base k lost { s with mem } F live := by
  obtain ⟨hlayout, hframe⟩ := h.layout.write hmem
  exact ⟨hlayout, h.table.step h.layout hframe (by simp), h.notNull, h.heapBase, h.heapSize⟩

/-- Every reachable state has a layout and a table. -/
theorem Reachable.heapOk (h : Reachable base (2 ^ k) s live) (hk : 7 ≤ k) (hk' : k ≤ 30)
    (hbase : base ≠ 0) (hdvd : 2 ^ k ∣ base) (hlt : base < 0x100000000) :
    ∃ F, HeapOk base k s F live := by
  generalize hsize : 2 ^ k = size at h
  induction h with
  | @init s₀ s hrun =>
    obtain ⟨s₁, F, hok, hheap⟩ := heapOk_init s₀ hk hk' hbase hdvd hlt
    rw [hsize, hrun] at hok
    cases hok
    exact ⟨F, hheap⟩
  | malloc hreach hn hrun ih =>
    obtain ⟨F, hheap⟩ := ih
    rcases hheap.malloc hk' hbase hn with ⟨b, s₁, F', hok, hheap', -⟩ | ⟨hfull, -⟩
    · rw [hrun] at hok
      cases hok
      exact ⟨F', hheap'⟩
    · rw [hrun] at hfull
      cases hfull
  | free hreach hb hrun ih =>
    obtain ⟨F, hheap⟩ := ih
    obtain ⟨s₁, F', hok, hheap'⟩ := hheap.free hbase hb ((hheap.use hbase).end_lt hrun)
    rw [hrun] at hok
    cases hok
    exact ⟨F', hheap'⟩
  | write hreach hmem ih =>
    obtain ⟨F, hheap⟩ := ih
    exact ⟨F, ((hheap.use hbase).write hmem).ok⟩

theorem HeapOk.partition (h : HeapOk base k s F live) : Partition base (2 ^ k) s F live where
  tiling := by
    have htiling := h.layout.inv.tiling
    rw [h.heapBase, h.heapSize] at htiling
    simpa using htiling
  allocSize := h.layout.allocSize
  aligned b hb := h.layout.inv.aligned b (by simp at hb ⊢; tauto)
  order b hb := h.layout.inv.order_lt (by simp [hb])
  linked := h.layout.inv.linked
  nodup i _ := basesOf_nodup h.layout.inv.nodup i
  code b hb := by
    have hcode := h.table.code b hb
    rwa [entryOf, h.heapBase] at hcode
  zero j hj hne := by
    refine h.table.zero j hj (fun b hb => ?_) (by simp)
    rw [entryOf, h.heapBase]
    exact hne b hb

/-- Partition of the kernel heap. After every sequence of requests, releases and writes of
the owners, the free blocks, the allocated blocks and the `alloc[]` array tile the segment,
the lists and the table describe them, a request takes a large enough part of a free block
or finds none, and the release of an allocated block returns. -/
theorem reachable_partition (hk : 7 ≤ k) (hk' : k ≤ 30) (hbase : base ≠ 0) (hdvd : 2 ^ k ∣ base)
    (hlt : base < 0x100000000) :
    (∀ s₀, ∃ s, heapInit base (2 ^ k) s₀ = .ok () s) ∧
    ∀ s live, Reachable base (2 ^ k) s live → ∃ F, Partition base (2 ^ k) s F live ∧
      (∀ n ≤ 2 ^ 30,
        (∃ b s', remoteMalloc n s = .ok b s' ∧ n ≤ (blockOf b n).size ∧
          ∃ f ∈ F, ∀ x, (blockOf b n).Has x → f.Has x) ∨
        (remoteMalloc n s = .error .noMoreSpace s ∧
          getBlock (requestIndex 6 n) (requestIndex 6 n) s = .ok 0 s)) ∧
      (base + 2 ^ k < 0x100000000 → ∀ b ∈ live, ∃ s', Kernel.free b.base s = .ok () s') := by
  refine ⟨fun s₀ => ?_, fun s live h => ?_⟩
  · obtain ⟨s, F, hok, -⟩ := heapOk_init s₀ hk hk' hbase hdvd hlt
    exact ⟨s, hok⟩
  · obtain ⟨F, hheap⟩ := h.heapOk hk hk' hbase hdvd hlt
    refine ⟨F, hheap.partition, fun n hn => ?_, fun hend b hb => ?_⟩
    · rcases hheap.malloc hk' hbase hn with ⟨b, s', F', hok, -, hle, hpart⟩ | hfull
      · exact Or.inl ⟨b, s', hok, hle, hpart⟩
      · exact Or.inr hfull
    · obtain ⟨s', F', hok, -⟩ := hheap.free hbase hb hend
      exact ⟨s', hok⟩

/-- A heap of one page, just initialised, is partitioned. -/
theorem reachable_partition_page :
    ∃ s F, Reachable 0x1000 (2 ^ 12) s [] ∧ Partition 0x1000 (2 ^ 12) s F [] := by
  have hpage := @reachable_partition 0x1000 12 (by omega) (by omega) (by omega) (by omega)
    (by omega)
  obtain ⟨hinit, hrun⟩ := hpage
  obtain ⟨s, hs⟩ := hinit ⟨⟨0, 0, 0, 0, 0, fun _ => 0⟩, fun _ => 0⟩
  obtain ⟨F, hpart, -⟩ := hrun s [] (.init hs)
  exact ⟨s, F, .init hs, hpart⟩

end GietVm.Malloc.Kernel
