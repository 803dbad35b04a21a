import GietVm.Malloc.Table

/-!
# The user heap

`heap_init`, `remote_malloc` and `free` of `malloc.c` on the heap of one cluster, with
blocks of at least 128 bytes. The copy differs from the kernel heap in one line: `free`
returns the block to the lists and leaves its `alloc[]` byte as it was.

The runs considered start with `heap_init` and contain requests, releases of live blocks,
and arbitrary writes of the owners into their live blocks, in any order. A call that
exits ends its task, and the other tasks of the application go on with the state it
leaves. The table describes the live blocks exactly as long as no block is released.
-/

namespace GietVm.Malloc.User

open GietVm.Library

/-- `MIN_BLOCK_SIZE` of `malloc.h`. -/
def minBlockSize : ℕ := 0x80

/-- `HEAP_INITIALIZED` of `malloc.h`. -/
def heapInitialized : ℕ := 0xDEADBEEF

/-- `heap_init` for one cluster. -/
def heapInit (heapBase heapSize : ℕ) : HeapM Unit := do
  if heapSize = 0 then throw .heapNotFound
  else do
    Malloc.heapInit minBlockSize heapBase heapSize
    modify fun s => { s with heap := { s.heap with init := heapInitialized } }

/-- `remote_malloc` on the heap of the addressed cluster. -/
def remoteMalloc (size : ℕ) : HeapM ℕ := do
  if size = 0 then throw .zeroSize
  else do
    let s ← get
    if s.heap.init ≠ heapInitialized then throw .notInitialized
    else mallocBlock minBlockSize size

/-- `free` on the heap of the cluster that holds the pointer. -/
def free (base : ℕ) : HeapM Unit := do
  let (_, sizeIndex) ← checkReleased minBlockSize base
  updateFreeArray base sizeIndex

/-- The block that a request of `size` bytes receives at `base`. -/
def blockOf (base size : ℕ) : Block := ⟨base, requestIndex 7 size⟩

/-- The errors by which a call exits, as opposed to an access that C leaves undefined. -/
def isExit : HeapError → Bool
  | .outOfBounds | .endlessList => false
  | _ => true

/-- The runs of a user heap: the state reached, the blocks allocated and not yet released,
and the pointers passed to `free` so far. -/
inductive Run (base size : ℕ) : HeapState → List Block → List ℕ → Prop
  | init {s₀ s} (h : heapInit base size s₀ = .ok () s) : Run base size s [] []
  | malloc {s live freed n b s'} (h : Run base size s live freed)
      (hrun : remoteMalloc n s = .ok b s') : Run base size s' (blockOf b n :: live) freed
  | mallocExit {s live freed n e s'} (h : Run base size s live freed)
      (hrun : remoteMalloc n s = .error e s') (he : isExit e) : Run base size s' live freed
  | free {s live freed b s'} (h : Run base size s live freed) (hb : b ∈ live)
      (hrun : free b.base s = .ok () s') : Run base size s' (live.erase b) (b.base :: freed)
  | freeExit {s live freed b e s'} (h : Run base size s live freed) (hb : b ∈ live)
      (hrun : free b.base s = .error e s') (he : isExit e) :
      Run base size s' live (b.base :: freed)
  | write {s live freed mem} (h : Run base size s live freed)
      (hmem : ∀ x, (∀ b ∈ live, ¬ b.Has x) → mem x = s.mem x) :
      Run base size { s with mem } live freed

/-- The `alloc[]` byte of a block address is not zero exactly for the allocated blocks, no
request finds its block already allocated, and the release of any pointer but the base of
an allocated block is rejected and changes nothing. -/
structure Consistent (s : HeapState) (live : List Block) : Prop where
  entry : ∀ p, s.heap.heapBase ≤ p → p < s.heap.heapBase + s.heap.heapSize →
    minBlockSize ∣ p - s.heap.heapBase →
    (s.mem (allocPtr minBlockSize s.heap p) ≠ 0 ↔ ∃ b ∈ live, b.base = p)
  malloc : ∀ size s', remoteMalloc size s ≠ .error .alreadyAllocated s'
  free : ∀ p, (∀ b ∈ live, b.base ≠ p) → ∃ e, User.free p s = .error e s

/-! ## Heaps with blocks -/

/-- The layout and table of a user heap on the segment of `2 ^ k` bytes at `base`, with
the stale entries that released blocks left. -/
structure HeapOk (base k : ℕ) (s : HeapState) (live : List Block) (stale : List ℕ) : Prop where
  layout : ∃ F alloc lost, HeapLayout s 7 F live alloc lost
  table : HeapTable s 7 live stale
  notNull : ∀ b ∈ live, b.base ≠ 0
  init : s.heap.init = heapInitialized
  heapBase : s.heap.heapBase = base
  heapSize : s.heap.heapSize = 2 ^ k

variable {base k size : ℕ} {s s' : HeapState} {live : List Block} {stale freed : List ℕ}
  {first code : ℕ}

/-- An initialisation that returns has a segment of a power of two, aligned on its size. -/
theorem heapInit_ok {s₀ : HeapState} (hrun : heapInit base size s₀ = .ok () s)
    (hsize : size < 0x100000000) : ∃ k < 32, size = 2 ^ k ∧ 2 ^ k ∣ base ∧ 0 < k := by
  by_cases hzero : size = 0
  · rw [heapInit, if_pos hzero] at hrun
    cases hrun
  · rw [heapInit, if_neg hzero] at hrun
    cases hfirst : Malloc.heapInit minBlockSize base size s₀ with
    | ok a s₁ => exact heapInit_segment hfirst hsize
    | error e s₁ =>
      rw [bind_error hfirst] at hrun
      cases hrun

/-- The segment of a run. -/
theorem Run.segment (h : Run base size s live freed) (hsize : size < 0x100000000) :
    ∃ k < 32, size = 2 ^ k ∧ 2 ^ k ∣ base ∧ 0 < k := by
  induction h with
  | init hrun => exact heapInit_ok hrun hsize
  | malloc _ _ ih | mallocExit _ _ _ ih | free _ _ _ ih | freeExit _ _ _ _ ih | write _ _ ih =>
    exact ih

theorem heapOk_init {s₀ : HeapState} (hk : 7 < k) (hk' : k < 32) (hdvd : 2 ^ k ∣ base)
    (hlt : base < 0x100000000) (hrun : heapInit base (2 ^ k) s₀ = .ok () s) :
    HeapOk base k s [] [] := by
  obtain ⟨s₁, F, alloc, lost, hok, hlayout, htable, hb, hs, -, -, -⟩ :=
    heapInit_spec (m := 7) s₀ (by omega) hk hk' hdvd hlt
  have hpos : 2 ^ k ≠ 0 := (Nat.two_pow_pos k).ne'
  have hstep : heapInit base (2 ^ k) s₀ =
      .ok () { s₁ with heap := { s₁.heap with init := heapInitialized } } := by
    rw [heapInit, if_neg hpos]
    exact bind_ok hok
  cases hstep.symm.trans hrun
  exact ⟨⟨F, alloc, lost, { hlayout with inv := { hlayout.inv with } }⟩, { htable with },
    by simp, rfl, hb, hs⟩

theorem remoteMalloc_run (hinit : s.heap.init = heapInitialized) {n : ℕ} (hn : n ≠ 0) :
    remoteMalloc n s = mallocBlock (2 ^ 7) n s := by
  rw [remoteMalloc, if_neg hn, bind_ok get_run, if_neg (by simpa using hinit)]
  rfl

theorem remoteMalloc_zero : remoteMalloc 0 s = .error .zeroSize s := rfl

/-- The steps of a request: it extends the live blocks, or it exits. -/
theorem HeapOk.malloc_ok (h : HeapOk base k s live stale) {n b : ℕ}
    (hrun : remoteMalloc n s = .ok b s') : HeapOk base k s' (blockOf b n :: live) stale := by
  obtain ⟨F, alloc, lost, hlayout⟩ := h.layout
  have hn : n ≠ 0 := by
    rintro rfl
    cases hrun
  rw [remoteMalloc_run h.init hn] at hrun
  cases mallocBlock_spec hlayout h.table (by omega) n with
  | @ok v s₁ F' hok hnull hlayout' htable hframe hle hpart hcoal =>
    cases hok.symm.trans hrun
    exact ⟨⟨F', alloc, lost, hlayout'⟩, htable, by simpa [blockOf] using ⟨hnull, h.notNull⟩,
      hframe.init.trans h.init, hframe.heapBase.trans h.heapBase,
      hframe.heapSize.trans h.heapSize⟩
  | full hfull => cases hfull.symm.trans hrun
  | stale hstale => cases hstale.symm.trans hrun
  | big hbig hnone hout => cases hout.symm.trans hrun

/-- A request that exits keeps the live blocks, and it finds its block already allocated
only where an entry is stale. -/
theorem HeapOk.malloc_error (h : HeapOk base k s live stale) {n : ℕ} {e : HeapError}
    (hrun : remoteMalloc n s = .error e s') :
    HeapOk base k s' live stale ∧ (e = .alreadyAllocated → stale ≠ []) := by
  obtain ⟨F, alloc, lost, hlayout⟩ := h.layout
  rcases eq_or_ne n 0 with rfl | hn
  · cases hrun
    exact ⟨h, by simp⟩
  rw [remoteMalloc_run h.init hn] at hrun
  cases mallocBlock_spec hlayout h.table (by omega) n with
  | ok hok => cases hok.symm.trans hrun
  | full hfull =>
    cases hfull.symm.trans hrun
    exact ⟨h, by simp⟩
  | @stale v s₁ F' hstale hit hlayout' htable hframe =>
    cases hstale.symm.trans hrun
    exact ⟨⟨⟨F', alloc, _, hlayout'⟩, htable, h.notNull, hframe.init.trans h.init,
      hframe.heapBase.trans h.heapBase, hframe.heapSize.trans h.heapSize⟩,
      fun _ => List.ne_nil_of_mem hit⟩
  | big hbig hnone hout =>
    cases hout.symm.trans hrun
    exact ⟨h, by simp⟩

/-- The release of a live block takes it from its owner and leaves a stale entry, unless
the end of the heap wraps around to address 0: then it is rejected. -/
theorem HeapOk.free (h : HeapOk base k s live stale) {b : Block} (hb : b ∈ live) :
    (base + 2 ^ k < 0x100000000 ∧ ∃ s', User.free b.base s = .ok () s' ∧
      HeapOk base k s' (live.erase b) (entryOf 7 s.heap b :: stale)) ∨
    (base + 2 ^ k = 0x100000000 ∧ User.free b.base s = .error .illegalPointer s) := by
  obtain ⟨F, alloc, lost, hlayout⟩ := h.layout
  have htop := hlayout.inv.top
  rw [h.heapBase, h.heapSize] at htop
  rcases Nat.lt_or_eq_of_le htop with hend | hend
  · refine Or.inl ⟨hend, ?_⟩
    rw [← h.heapBase, ← h.heapSize] at hend
    have horder := hlayout.liveOrder b hb
    obtain ⟨s', F', hrun, hinv, hframe, -⟩ :=
      updateFreeArray_spec (hlayout.inHand hb) (by omega) (h.notNull b hb)
    have hperm : (b :: (live.erase b ++ alloc :: lost)).Perm (live.erase b ++ alloc :: b :: lost) := by
      simpa using (@List.perm_middle _ b (live.erase b ++ [alloc]) lost).symm
    have hretire : HeapLayout s 7 F (live.erase b) alloc (b :: lost) :=
      hlayout.step ((hlayout.inHand hb).perm hperm) (HeapFrame.refl s [])
        fun c hc => hlayout.liveOrder c (List.mem_of_mem_erase hc)
    refine ⟨s', ?_, ⟨F', alloc, lost, ?_⟩, ?_, ?_, hframe.init.trans h.init,
      hframe.heapBase.trans h.heapBase, hframe.heapSize.trans h.heapSize⟩
    · have hcheck := checkReleased_live hlayout h.table hb hend
      exact (bind_ok hcheck).trans hrun
    · exact hlayout.step hinv hframe fun c hc => hlayout.liveOrder c (List.mem_of_mem_erase hc)
    · exact (h.table.retire hlayout hb).step hretire hframe (by simp)
    · exact fun c hc => h.notNull c (List.mem_of_mem_erase hc)
  · refine Or.inr ⟨hend, ?_⟩
    have hwrap : u32 (s.heap.heapBase + s.heap.heapSize) = 0 := by
      rw [h.heapBase, h.heapSize, hend]
    have hcheck : checkReleased minBlockSize b.base s = .error .illegalPointer s := by
      rw [checkReleased, bind_ok get_run, hwrap, if_pos (Or.inr (Nat.zero_le _))]
      rfl
    exact bind_error hcheck

/-- The owners of live blocks write nothing that the allocator reads. -/
theorem HeapOk.write (h : HeapOk base k s live stale) {mem : Mem}
    (hmem : ∀ x, (∀ b ∈ live, ¬ b.Has x) → mem x = s.mem x) :
    HeapOk base k { s with mem } live stale := by
  obtain ⟨F, alloc, lost, hlayout⟩ := h.layout
  obtain ⟨hlayout', hframe⟩ := hlayout.write hmem
  exact ⟨⟨F, alloc, lost, hlayout'⟩, h.table.step hlayout hframe (by simp), h.notNull, h.init,
    h.heapBase, h.heapSize⟩

/-- The table describes the live blocks exactly while no entry is stale. -/
theorem HeapOk.consistent_iff (h : HeapOk base k s live stale) :
    Consistent s live ↔ stale = [] := by
  obtain ⟨F, alloc, lost, hlayout⟩ := h.layout
  constructor
  · intro hc
    refine List.eq_nil_iff_forall_not_mem.mpr fun j hj => ?_
    have hlt := h.table.staleLt j hj
    have hmul : j * 2 ^ 7 + 2 ^ 7 ≤ s.heap.heapSize := by
      rw [← Nat.succ_mul]
      exact (Nat.le_div_iff_mul_le (by omega)).mp hlt
    have hptr := hlayout.allocPtr_eq (p := s.heap.heapBase + j * 2 ^ 7) (by omega) (by omega)
    have hj' : (s.heap.heapBase + j * 2 ^ 7 - s.heap.heapBase) / 2 ^ 7 = j := by omega
    rw [hj'] at hptr
    have hentry := hc.entry (s.heap.heapBase + j * 2 ^ 7) (by omega) (by omega)
      ⟨j, by rw [minBlockSize]; omega⟩
    obtain ⟨b, hb, hbase⟩ := hentry.mp (hptr ▸ h.table.kept j hj)
    exact h.table.dead j hj b hb (by rw [entryOf, hbase, hj'])
  · rintro rfl
    refine ⟨fun p hp hp' hdvd => ?_, fun n s' hrun => ?_, fun p hp => ?_⟩
    · have hptr := hlayout.allocPtr_eq hp' hp
      change s.mem (allocPtr (2 ^ 7) s.heap p) ≠ 0 ↔ _
      rw [hptr]
      constructor
      · intro hne
        by_contra hnone
        push Not at hnone
        have hj := lt_of_lt_of_le (hlayout.entry_lt hp' hp) hlayout.entries
        refine hne (h.table.zero _ hj (fun b hb he => hnone b hb ?_) (by simp))
        have hpdvd : 2 ^ 7 ∣ p := by
          have := (Nat.dvd_add_right hlayout.baseAligned).mpr hdvd
          rwa [Nat.add_sub_cancel' hp] at this
        exact hlayout.base_eq_of_dvd (by simp [hb]) (hlayout.liveOrder b hb) hp hpdvd he
      · rintro ⟨b, hb, rfl⟩ hzero
        have hcode := h.table.code b hb
        have hmin := hlayout.minOrder.trans (hlayout.liveOrder b hb)
        rw [entryOf, hzero] at hcode
        exact absurd hcode (by simp; omega)
    · exact (h.malloc_error hrun).2 rfl rfl
    · obtain ⟨e, hcheck⟩ := checkReleased_dead hlayout h.table hp
      exact ⟨e, bind_error hcheck⟩

/-! ## Heaps without blocks -/

/-- A heap of at most one block: all of it is taken by the `alloc[]` array. -/
structure HeapEmpty (base k : ℕ) (s : HeapState) : Prop where
  lists : ∀ i, s.heap.free i = 0
  allocBase : s.heap.allocBase < 0x100000000
  zero : s.mem s.heap.allocBase = 0
  init : s.heap.init = heapInitialized
  heapBase : s.heap.heapBase = base
  heapSize : s.heap.heapSize = 2 ^ k

theorem heapEmpty_init {s₀ : HeapState} (hk : k ≤ 7) (hkpos : 0 < k) (hdvd : 2 ^ k ∣ base)
    (hrun : heapInit base (2 ^ k) s₀ = .ok () s) : HeapEmpty base k s := by
  have hpos : 2 ^ k ≠ 0 := (Nat.two_pow_pos k).ne'
  have hsmall := heapInit_small (m := 7) s₀ hkpos hk (by omega) hdvd
  rw [heapInit, if_neg hpos] at hrun
  cases (bind_ok hsmall).symm.trans hrun
  have ha : u32 (base + 2 ^ k + 0x100000000 - 2 ^ 7) < 0x100000000 := Nat.mod_lt _ (by omega)
  refine ⟨fun _ => rfl, ha, ?_, rfl, rfl, rfl⟩
  have hzero := fillZero_add s₀.mem (j := 0) (n := 2 ^ 7) ha (by omega) (by omega)
  generalize u32 (base + 2 ^ k + 0x100000000 - 2 ^ 7) = a at *
  rwa [Nat.add_zero, u32, Nat.mod_eq_of_lt ha] at hzero

/-- Every request and every release on an empty heap exits, and changes nothing. -/
theorem HeapEmpty.malloc (h : HeapEmpty base k s) (n : ℕ) :
    ∃ e, remoteMalloc n s = .error e s ∧ e ≠ .alreadyAllocated := by
  rcases eq_or_ne n 0 with rfl | hn
  · exact ⟨.zeroSize, rfl, by simp⟩
  rw [remoteMalloc_run h.init hn, mallocBlock_run]
  rcases getBlock_empty h.lists (requestIndex 7 n) (requestIndex 7 n) with hget | hget
  · rw [bind_ok hget]
    exact ⟨.noMoreSpace, rfl, by simp⟩
  · rw [bind_error hget]
    exact ⟨.outOfBounds, rfl, by simp⟩

theorem HeapEmpty.allocPtr_eq (h : HeapEmpty base k s) (hk : k ≤ 7) {p : ℕ}
    (hp : s.heap.heapBase ≤ p) (hp' : p < s.heap.heapBase + s.heap.heapSize) :
    allocPtr minBlockSize s.heap p = s.heap.allocBase := by
  have hle : 2 ^ k ≤ 2 ^ 7 := Nat.pow_le_pow_right (by omega) hk
  have hsize := h.heapSize
  have hlt := h.allocBase
  rw [allocPtr, minBlockSize, u32, u32]
  omega

theorem HeapEmpty.free (h : HeapEmpty base k s) (hk : k ≤ 7) (p : ℕ) :
    ∃ e, User.free p s = .error e s := by
  have hcheck : ∃ e, checkReleased minBlockSize p s = .error e s := by
    rw [checkReleased, bind_ok get_run]
    split
    · exact ⟨_, rfl⟩
    · rename_i hrange
      have hptr := h.allocPtr_eq hk (p := p) (by omega) (by unfold u32 at hrange; omega)
      simp only [hptr, h.zero]
      exact ⟨_, rfl⟩
  obtain ⟨e, he⟩ := hcheck
  exact ⟨e, bind_error he⟩

theorem HeapEmpty.consistent (h : HeapEmpty base k s) (hk : k ≤ 7) : Consistent s [] where
  entry p hp hp' _ := by
    rw [h.allocPtr_eq hk hp hp']
    simp [h.zero]
  malloc n s' hrun := by
    obtain ⟨e, he, hne⟩ := h.malloc n
    cases he.symm.trans hrun
    exact hne rfl
  free p _ := h.free hk p

/-! ## Runs -/

/-- What a run keeps: on a heap with blocks the table, where an entry is stale as soon as
a release has been accepted; on an empty heap nothing is ever allocated. -/
inductive RunOk (base k : ℕ) (s : HeapState) (live : List Block) (freed : List ℕ) : Prop
  | blocks {stale : List ℕ} (hk : 7 < k) (heap : HeapOk base k s live stale)
      (hstale : stale = [] ↔ freed = [] ∨ base + 2 ^ k = 0x100000000)
  | empty (hk : k ≤ 7) (heap : HeapEmpty base k s) (hlive : live = []) (hfreed : freed = [])

theorem Run.runOk (h : Run base (2 ^ k) s live freed) (hk : k < 32) (hpos : 0 < k)
    (hdvd : 2 ^ k ∣ base) (hbase : base < 0x100000000) : RunOk base k s live freed := by
  generalize hsize : 2 ^ k = size at h
  induction h with
  | init hrun =>
    subst hsize
    rcases Nat.lt_or_ge 7 k with hk7 | hk7
    · exact .blocks hk7 (heapOk_init hk7 hk hdvd hbase hrun) (by simp)
    · exact .empty hk7 (heapEmpty_init hk7 hpos hdvd hrun) rfl rfl
  | malloc hreach hrun ih =>
    cases ih with
    | blocks hk7 heap hstale => exact .blocks hk7 (heap.malloc_ok hrun) hstale
    | empty hk7 heap =>
      obtain ⟨e, he, -⟩ := heap.malloc _
      cases he.symm.trans hrun
  | mallocExit hreach hrun he ih =>
    cases ih with
    | blocks hk7 heap hstale => exact .blocks hk7 (heap.malloc_error hrun).1 hstale
    | empty hk7 heap hlive hfreed =>
      obtain ⟨e, he, -⟩ := heap.malloc _
      cases he.symm.trans hrun
      exact .empty hk7 heap hlive hfreed
  | free hreach hb hrun ih =>
    cases ih with
    | blocks hk7 heap hstale =>
      rcases heap.free hb with ⟨hend, s₁, hok, heap'⟩ | ⟨-, herr⟩
      · cases hok.symm.trans hrun
        exact .blocks hk7 heap' (by simp; omega)
      · cases herr.symm.trans hrun
    | empty hk7 heap hlive =>
      subst hlive
      cases hb
  | freeExit hreach hb hrun he ih =>
    cases ih with
    | blocks hk7 heap hstale =>
      rcases heap.free hb with ⟨hend, s₁, hok, heap'⟩ | ⟨hend, herr⟩
      · cases hok.symm.trans hrun
      · cases herr.symm.trans hrun
        exact .blocks hk7 heap (by simp [hstale, hend])
    | empty hk7 heap hlive =>
      subst hlive
      cases hb
  | write hreach hmem ih =>
    cases ih with
    | blocks hk7 heap hstale => exact .blocks hk7 (heap.write hmem) hstale
    | empty hk7 heap hlive hfreed =>
      subst hlive
      refine .empty hk7 { heap with zero := ?_ } rfl hfreed
      exact (hmem _ (by simp)).trans heap.zero

/-- The user heap is consistent in a state of a run if and only if no block has been
passed to `free`, or the heap ends at the last address and every release was rejected. -/
theorem run_consistent_iff (hbase : base < 0x100000000) (hsize : size < 0x100000000)
    (h : Run base size s live freed) :
    Consistent s live ↔ freed = [] ∨ base + size = 0x100000000 := by
  obtain ⟨k, hk, rfl, hdvd, hpos⟩ := h.segment hsize
  cases h.runOk hk hpos hdvd hbase with
  | blocks hk7 heap hstale => rw [heap.consistent_iff, hstale]
  | empty hk7 heap hlive hfreed =>
    subst hlive hfreed
    simpa using heap.consistent hk7

/-! ## The released block that stays allocated -/

/-- A request of the order of a listed block takes the first block of that list. -/
theorem getBlock_pop {i : ℕ} (hi : i < 32) (hle : 2 ^ i ≤ s.heap.heapSize)
    (hfree : s.heap.free i ≠ 0) : getBlock i i s = .ok (s.heap.free i) (s.pop i) := by
  rw [getBlock, dif_neg (by omega), bind_ok get_run, if_neg (by omega),
    bind_ok (getFree_run hi), if_neg hfree, bind_ok (readNext_run _), bind_ok (setFree_run hi _),
    if_pos rfl]
  rfl

/-- A block whose list is empty is pushed without a merge. -/
theorem updateFreeArray_push {i a : ℕ} (hi : i < 32) (hfree : s.heap.free i = 0) :
    updateFreeArray a i s = .ok () (s.push i a) := by
  rw [updateFreeArray, dif_neg (by omega)]
  simp only [bind_ok get_run, hfree]
  exact pushFree_run hi a

/-- A heap of two blocks of 128 bytes, the upper one the `alloc[]` array. -/
structure TwoBlocks (s : HeapState) (first code : ℕ) : Prop where
  init : s.heap.init = heapInitialized
  heapBase : s.heap.heapBase = 0x10000
  heapSize : s.heap.heapSize = 0x100
  allocBase : s.heap.allocBase = 0x10080
  first : s.heap.free 7 = first
  code : s.mem 0x10080 = UInt8.ofNat code

theorem twoBlocks_init : ∃ s, heapInit 0x10000 0x100 ⟨⟨0, 0, 0, 0, 0, fun _ => 0⟩, fun _ => 0⟩ =
    .ok () s ∧ TwoBlocks s 0x10000 0 ∧ readWord s.mem 0x10000 = 0 :=
  ⟨_, rfl, ⟨rfl, rfl, rfl, rfl, rfl, rfl⟩, rfl⟩

theorem TwoBlocks.allocPtr (h : TwoBlocks s first code) :
    allocPtr minBlockSize s.heap 0x10000 = 0x10080 := by
  rw [Malloc.allocPtr, h.allocBase, h.heapBase, minBlockSize, u32, u32]

/-- A request for the only block takes it from its list. -/
theorem TwoBlocks.malloc_run (h : TwoBlocks s 0x10000 code) :
    remoteMalloc 0x80 s = (if UInt8.ofNat code ≠ 0 then throw .alreadyAllocated
      else set (HeapState.mk (s.pop 7).heap (writeByte s.mem 0x10080 7)) >>= fun _ =>
        pure 0x10000 : HeapM ℕ) (s.pop 7) := by
  have hindex : requestIndex 7 0x80 = 7 := by decide
  have hget : getBlock 7 7 s = .ok 0x10000 (s.pop 7) := by
    rw [getBlock_pop (by omega) (by rw [h.heapSize]; omega) (by rw [h.first]; omega), h.first]
  have hptr : Malloc.allocPtr (2 ^ 7) (s.pop 7).heap 0x10000 = 0x10080 := h.allocPtr
  have hcode : (s.pop 7).mem 0x10080 = UInt8.ofNat code := h.code
  rw [remoteMalloc_run h.init (by omega), mallocBlock_run, hindex, bind_ok hget,
    if_neg (by omega), bind_ok get_run, hptr, hcode]
  rfl

/-- A request for the only block, its release and a second request: the block is found
already allocated. -/
theorem run_alreadyAllocated : ∃ s, Run 0x10000 0x100 s [] [0x10000] ∧
    ∃ s', remoteMalloc 0x80 s = .error .alreadyAllocated s' := by
  obtain ⟨s₁, hinit, h₁, hnext⟩ := twoBlocks_init
  set s₂ : HeapState := ⟨(s₁.pop 7).heap, writeByte s₁.mem 0x10080 7⟩ with hs₂
  have hmalloc : remoteMalloc 0x80 s₁ = .ok 0x10000 s₂ := h₁.malloc_run
  have hempty : (s₁.pop 7).heap.free 7 = 0 := by
    simp [HeapState.pop, h₁.first, hnext]
  have h₂ : TwoBlocks s₂ 0 7 := ⟨h₁.init, h₁.heapBase, h₁.heapSize, h₁.allocBase, hempty, rfl⟩
  set s₃ := s₂.push 7 0x10000 with hs₃
  have hfree : User.free 0x10000 s₂ = .ok () s₃ := by
    have hcheck : checkReleased minBlockSize 0x10000 s₂ = .ok (0x10080, 7) s₂ := by
      rw [checkReleased, bind_ok get_run, h₂.heapBase, h₂.heapSize, h₂.allocPtr]
      simp only [h₂.code]
      rfl
    exact (bind_ok hcheck).trans (updateFreeArray_push (by omega) h₂.first)
  have hcode : s₃.mem 0x10080 = 7 := by simp [hs₃, hs₂, HeapState.push, writeWord, writeByte]
  have h₃ : TwoBlocks s₃ 0x10000 7 :=
    ⟨h₂.init, h₂.heapBase, h₂.heapSize, h₂.allocBase, rfl, hcode⟩
  exact ⟨s₃, (Run.malloc (.init hinit) hmalloc).free List.mem_cons_self hfree, s₃.pop 7,
    h₃.malloc_run⟩

/-- The table does not describe the live blocks in every state of every run. -/
theorem not_consistent_twoBlocks :
    ¬ ∀ s live freed, Run 0x10000 0x100 s live freed → Consistent s live := by
  intro hall
  obtain ⟨s, hrun, s', herr⟩ := run_alreadyAllocated
  exact (hall s [] _ hrun).malloc _ _ herr

/-- The heap of two blocks after one release. -/
theorem run_consistent_iff_twoBlocks : ∃ s, Run 0x10000 0x100 s [] [0x10000] ∧
    (Consistent s [] ↔ [0x10000] = [] ∨ 0x10000 + 0x100 = 0x100000000) := by
  obtain ⟨s, hrun, -⟩ := run_alreadyAllocated
  exact ⟨s, hrun, run_consistent_iff (by omega) (by omega) hrun⟩

end GietVm.Malloc.User
