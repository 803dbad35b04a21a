import GietVm.Malloc.Allocator

/-!
# The `alloc[]` table of a heap in use

`HeapTable` adds to the partition the blocks handed out, called live, and the contents
of the `alloc[]` array: the byte of a live block holds its order, the bytes of some
stale entries are left over from released blocks, and every other byte is zero. A request
extends the live blocks by a part of one free block, unless that part has a stale entry.
-/

namespace GietVm.Malloc

open GietVm.Library

variable {s s' : HeapState} {F H live lost : List Block} {alloc : Block} {m : ℕ}
  {stale : List ℕ}

/-- The partition of a heap in use, with the live blocks, the block of the `alloc[]`
array, and the part that the null pointer hides. -/
structure HeapLayout (s : HeapState) (m : ℕ) (F live : List Block) (alloc : Block)
    (lost : List Block) : Prop where
  inv : HeapInv s F (live ++ alloc :: lost)
  minOrder : 2 ≤ m
  liveOrder : ∀ b ∈ live, m ≤ b.order
  baseAligned : 2 ^ m ∣ s.heap.heapBase
  sizeAligned : 2 ^ m ∣ s.heap.heapSize
  allocBase : alloc.base = s.heap.allocBase
  allocSize : alloc.size = s.heap.allocSize
  entries : s.heap.heapSize / 2 ^ m ≤ s.heap.allocSize

/-- The index of a block in the `alloc[]` array. -/
def entryOf (m : ℕ) (heap : Heap) (b : Block) : ℕ := (b.base - heap.heapBase) / 2 ^ m

/-- The `alloc[]` bytes of the live blocks hold their order, those of the stale entries
are not zero although no live block has them, and all others are zero. -/
structure HeapTable (s : HeapState) (m : ℕ) (live : List Block) (stale : List ℕ) : Prop where
  code : ∀ b ∈ live, (s.mem (s.heap.allocBase + entryOf m s.heap b)).toNat = b.order
  staleLt : ∀ j ∈ stale, j < s.heap.heapSize / 2 ^ m
  kept : ∀ j ∈ stale, s.mem (s.heap.allocBase + j) ≠ 0
  dead : ∀ j ∈ stale, ∀ b ∈ live, entryOf m s.heap b ≠ j
  zero : ∀ j < s.heap.allocSize, (∀ b ∈ live, entryOf m s.heap b ≠ j) → j ∉ stale →
    s.mem (s.heap.allocBase + j) = 0

/-! ## Memory outside the free blocks -/

/-- The invariant reads only the free blocks. -/
theorem HeapInv.congr_mem (h : HeapInv s F H) {mem : Mem}
    (hmem : ∀ b ∈ F, ∀ x, b.Has x → mem x = s.mem x) : HeapInv { s with mem } F H := by
  refine { h with linked := fun i hi => (h.linked i hi).frame fun a ha => ?_ }
  have ha := mem_basesOf.mp ha
  have hsize := four_le_size (h.order _ ha)
  have hbyte (j : ℕ) (hj : j < 4) : mem (a + j) = s.mem (a + j) :=
    hmem _ ha _ ⟨Nat.le_add_right _ _, Nat.add_lt_add_left (by omega) _⟩
  have h0 := hbyte 0 (by omega)
  simp only [Nat.add_zero] at h0
  simp only [readWord, h0, hbyte 1 (by omega), hbyte 2 (by omega), hbyte 3 (by omega)]

theorem HeapInv.congr_mem_of_has (h : HeapInv s F H) {mem : Mem}
    (hmem : ∀ x, (∀ b ∈ H, ¬ b.Has x) → mem x = s.mem x) : HeapInv { s with mem } F H := by
  refine h.congr_mem fun b hb x hx => hmem x fun c hc => ?_
  exact ((List.pairwise_append.mp h.tiling.apart).2.2 b hb c hc).not_has hx

namespace HeapLayout

/-- The entry of a pointer into the segment lies in the table. -/
theorem entry_lt (h : HeapLayout s m F live alloc lost) {p : ℕ}
    (hp : p < s.heap.heapBase + s.heap.heapSize) (hp' : s.heap.heapBase ≤ p) :
    (p - s.heap.heapBase) / 2 ^ m < s.heap.heapSize / 2 ^ m :=
  Nat.div_lt_div_of_lt_of_dvd h.sizeAligned (by omega)

/-- The address of the `alloc[]` byte of a pointer into the segment. -/
theorem allocPtr_eq (h : HeapLayout s m F live alloc lost) {p : ℕ}
    (hp : p < s.heap.heapBase + s.heap.heapSize) (hp' : s.heap.heapBase ≤ p) :
    allocPtr (2 ^ m) s.heap p = s.heap.allocBase + (p - s.heap.heapBase) / 2 ^ m := by
  have halloc := h.inv.tiling.bounds (b := alloc) (by simp)
  have hentry := lt_of_lt_of_le (h.entry_lt hp hp') h.entries
  have htop := h.inv.top
  rw [h.allocBase, h.allocSize] at halloc
  have hoff : u32 (p + 0x100000000 - s.heap.heapBase) = p - s.heap.heapBase := by
    unfold u32
    omega
  rw [allocPtr, hoff]
  exact Nat.mod_eq_of_lt (by omega)

/-- The base of a block of the segment is a pointer into the segment. -/
theorem base_bounds (h : HeapLayout s m F live alloc lost) {b : Block}
    (hb : b ∈ F ++ (live ++ alloc :: lost)) :
    b.base < s.heap.heapBase + s.heap.heapSize ∧ s.heap.heapBase ≤ b.base := by
  have hbounds := h.inv.tiling.bounds hb
  have hpos := b.size_pos
  omega

/-- The entry of a block of the segment lies in the table. -/
theorem entryOf_lt (h : HeapLayout s m F live alloc lost) {b : Block}
    (hb : b ∈ F ++ (live ++ alloc :: lost)) : entryOf m s.heap b < s.heap.allocSize :=
  lt_of_lt_of_le (h.entry_lt (h.base_bounds hb).1 (h.base_bounds hb).2) h.entries

/-- The entry of a block determines its base among the aligned pointers. -/
theorem base_eq_of_dvd (h : HeapLayout s m F live alloc lost) {b : Block} {p : ℕ}
    (hb : b ∈ F ++ (live ++ alloc :: lost)) (ho : m ≤ b.order) (hp : s.heap.heapBase ≤ p)
    (hdvd : 2 ^ m ∣ p) (he : entryOf m s.heap b = (p - s.heap.heapBase) / 2 ^ m) : b.base = p := by
  have hbdvd : 2 ^ m ∣ b.base - s.heap.heapBase :=
    Nat.dvd_sub ((pow_dvd_pow 2 ho).trans (h.inv.aligned b hb)) h.baseAligned
  have hsub := (Nat.div_left_inj hbdvd (Nat.dvd_sub hdvd h.baseAligned)).mp he
  have := (h.base_bounds hb).2
  omega

/-- Different blocks of the segment have different entries. -/
theorem entryOf_inj (h : HeapLayout s m F live alloc lost) {b c : Block}
    (hb : b ∈ F ++ (live ++ alloc :: lost)) (hc : c ∈ F ++ (live ++ alloc :: lost))
    (hbo : m ≤ b.order) (hco : m ≤ c.order) (he : entryOf m s.heap b = entryOf m s.heap c) :
    b = c := by
  by_contra hne
  have hbase : b.base = c.base :=
    h.base_eq_of_dvd hb hbo (h.base_bounds hc).2 ((pow_dvd_pow 2 hco).trans (h.inv.aligned c hc)) he
  exact (h.inv.tiling.apart_of_mem hb hc hne).base_ne hbase

/-- A table entry is an address of the `alloc[]` block. -/
theorem has_entry (h : HeapLayout s m F live alloc lost) {j : ℕ} (hj : j < s.heap.allocSize) :
    alloc.Has (s.heap.allocBase + j) := by
  constructor
  · rw [h.allocBase]
    omega
  · rw [h.allocBase, h.allocSize]
    omega

/-- The members of a list of live blocks have an entry each of their own. -/
theorem head_entryOf (h : HeapLayout s m F live alloc lost) {b : Block} {rest : List Block}
    (hp : live.Perm (b :: rest)) : ∀ c ∈ rest, entryOf m s.heap c ≠ entryOf m s.heap b := by
  intro c hc he
  have hnodup := hp.nodup_iff.mp (List.nodup_append.mp (List.nodup_append.mp h.inv.tiling.nodup).2.1).1
  have hbl : b ∈ live := hp.mem_iff.mpr (by simp)
  have hcl : c ∈ live := hp.mem_iff.mpr (by simp [hc])
  have hcb := h.entryOf_inj (by simp [hcl]) (by simp [hbl]) (h.liveOrder c hcl) (h.liveOrder b hbl) he
  exact (List.nodup_cons.mp hnodup).1 (hcb ▸ hc)

/-- Steps that keep the descriptor and the invariant keep the layout. -/
theorem step (h : HeapLayout s m F live alloc lost) {F' live' lost' : List Block}
    (hinv : HeapInv s' F' (live' ++ alloc :: lost')) (hframe : HeapFrame s s' H)
    (hlive : ∀ b ∈ live', m ≤ b.order) : HeapLayout s' m F' live' alloc lost' where
  inv := hinv
  minOrder := h.minOrder
  liveOrder := hlive
  baseAligned := hframe.heapBase ▸ h.baseAligned
  sizeAligned := hframe.heapSize ▸ h.sizeAligned
  allocBase := h.allocBase.trans hframe.allocBase.symm
  allocSize := h.allocSize.trans hframe.allocSize.symm
  entries := by rw [hframe.heapSize, hframe.allocSize]; exact h.entries

end HeapLayout

/-- Write the `alloc[]` byte with index `j`. -/
def HeapState.writeEntry (s : HeapState) (j v : ℕ) : HeapState :=
  { s with mem := writeByte s.mem (s.heap.allocBase + j) v }

@[simp] theorem HeapState.writeEntry_heap (s : HeapState) (j v : ℕ) :
    (s.writeEntry j v).heap = s.heap := rfl

theorem HeapState.writeEntry_mem_self (s : HeapState) (j v : ℕ) :
    (s.writeEntry j v).mem (s.heap.allocBase + j) = UInt8.ofNat v := by
  simp [writeEntry, writeByte]

theorem HeapState.writeEntry_mem_of_ne (s : HeapState) {i j : ℕ} (h : i ≠ j) (v : ℕ) :
    (s.writeEntry j v).mem (s.heap.allocBase + i) = s.mem (s.heap.allocBase + i) := by
  simp [writeEntry, writeByte, h]

/-- An entry belongs to the `alloc[]` block alone. -/
theorem HeapLayout.frame_writeEntry (h : HeapLayout s m F live alloc lost) {j : ℕ}
    (hj : j < s.heap.allocSize) (v : ℕ) : HeapFrame s (s.writeEntry j v) (F ++ live) := by
  refine ⟨rfl, rfl, rfl, rfl, rfl, fun b hb x hx => ?_⟩
  have hne : x ≠ s.heap.allocBase + j := by
    rintro rfl
    have hapart : b.Apart alloc := by
      have happ := List.pairwise_append.mp h.inv.tiling.apart
      rcases List.mem_append.mp hb with hb | hb
      · exact happ.2.2 b hb alloc (by simp)
      · exact (List.pairwise_append.mp happ.2.1).2.2 b hb alloc (by simp)
    exact hapart.not_has hx (h.has_entry hj)
  simp [HeapState.writeEntry, writeByte, hne]

theorem HeapLayout.writeEntry (h : HeapLayout s m F live alloc lost) {j : ℕ}
    (hj : j < s.heap.allocSize) (v : ℕ) :
    HeapLayout (s.writeEntry j v) m F live alloc lost := by
  have hframe := h.frame_writeEntry hj v
  refine { h with inv := h.inv.congr_mem fun b hb x hx => ?_ }
  exact hframe.mem b (by simp [hb]) x hx

theorem HeapFrame.entryOf (h : HeapFrame s s' H) (b : Block) :
    entryOf m s'.heap b = entryOf m s.heap b := by
  rw [Malloc.entryOf, Malloc.entryOf, h.heapBase]

/-- A step that leaves the `alloc[]` block alone leaves the table alone. -/
theorem HeapTable.step (h : HeapTable s m live stale) (hl : HeapLayout s m F live alloc lost)
    (hframe : HeapFrame s s' H) (halloc : alloc ∈ H) : HeapTable s' m live stale where
  code b hb := by
    have hmem : b ∈ F ++ (live ++ alloc :: lost) := by simp [hb]
    rw [hframe.entryOf, hframe.allocBase,
      hframe.mem alloc halloc _ (hl.has_entry (hl.entryOf_lt hmem))]
    exact h.code b hb
  staleLt j hj := by
    rw [hframe.heapSize]
    exact h.staleLt j hj
  kept j hj := by
    have hlt := lt_of_lt_of_le (h.staleLt j hj) hl.entries
    rw [hframe.allocBase, hframe.mem alloc halloc _ (hl.has_entry hlt)]
    exact h.kept j hj
  dead j hj b hb := by
    rw [hframe.entryOf]
    exact h.dead j hj b hb
  zero j hj hne hstale := by
    rw [hframe.allocSize] at hj
    rw [hframe.allocBase, hframe.mem alloc halloc _ (hl.has_entry hj)]
    exact h.zero j hj (fun b hb => (hframe.entryOf b).symm ▸ hne b hb) hstale

/-- The owners of live blocks write nothing that the allocator reads. -/
theorem HeapLayout.write (h : HeapLayout s m F live alloc lost) {mem : Mem}
    (hmem : ∀ x, (∀ b ∈ live, ¬ b.Has x) → mem x = s.mem x) :
    HeapLayout { s with mem } m F live alloc lost ∧ HeapFrame s { s with mem } [alloc] := by
  refine ⟨{ h with inv := ?_ }, rfl, rfl, rfl, rfl, rfl, fun c hc x hx => hmem x fun b hb => ?_⟩
  · exact h.inv.congr_mem_of_has fun x hx => hmem x fun b hb => hx b (by simp [hb])
  · rw [List.mem_singleton.mp hc] at hx
    have happ := (List.pairwise_append.mp h.inv.tiling.apart).2.1
    exact ((List.pairwise_append.mp happ).2.2 b hb alloc (by simp)).symm.not_has hx

/-- Writing the order of a new live block into its zero entry. -/
theorem HeapTable.add (h : HeapTable s m live stale) {b : Block}
    (hl : HeapLayout s m F (b :: live) alloc lost) (hb : entryOf m s.heap b ∉ stale) :
    HeapTable (s.writeEntry (entryOf m s.heap b) b.order) m (b :: live) stale where
  code c hc := by
    rcases List.mem_cons.mp hc with rfl | hc
    · have := hl.inv.order_lt (b := c) (by simp)
      rw [HeapState.writeEntry_heap, HeapState.writeEntry_mem_self, UInt8.toNat_ofNat']
      omega
    · rw [HeapState.writeEntry_heap,
        HeapState.writeEntry_mem_of_ne _ (hl.head_entryOf (List.Perm.refl _) c hc)]
      exact h.code c hc
  staleLt := h.staleLt
  kept j hj := by
    have hne : j ≠ entryOf m s.heap b := fun he => hb (he ▸ hj)
    rw [HeapState.writeEntry_heap, HeapState.writeEntry_mem_of_ne _ hne]
    exact h.kept j hj
  dead j hj c hc := by
    rcases List.mem_cons.mp hc with rfl | hc
    · exact fun he => hb (he ▸ hj)
    · exact h.dead j hj c hc
  zero j hj hne hstale := by
    have hself : entryOf m s.heap b ≠ j := hne b (by simp)
    rw [HeapState.writeEntry_heap, HeapState.writeEntry_mem_of_ne _ hself.symm]
    exact h.zero j hj (fun c hc => hne c (by simp [hc])) hstale

/-! ## Requests -/

/-- The block a request of `size` bytes is served with. -/
def requestIndex (m size : ℕ) : ℕ := getSizeIndex (if size < 2 ^ m then 2 ^ m else size)

/-- The block served is large enough. -/
theorem size_le_requestIndex {size : ℕ} (h : requestIndex m size < 32) :
    m ≤ requestIndex m size ∧ size ≤ 2 ^ requestIndex m size := by
  have hle := le_two_pow_getSizeIndex h
  have hge : 2 ^ m ≤ (if size < 2 ^ m then 2 ^ m else size) := by split <;> omega
  refine ⟨le_getSizeIndex hge h, le_trans ?_ hle⟩
  split <;> omega

theorem le_requestIndex (hm : m < 32) (size : ℕ) : m ≤ requestIndex m size := by
  by_cases h : requestIndex m size < 32
  · exact (size_le_requestIndex h).1
  · omega

/-- The outcomes of a request: a part of one free block, with its order written in the
table; no block; a block that is lost because its entry is stale; or an index outside
the array of lists. -/
inductive MallocPost (s : HeapState) (m : ℕ) (F live : List Block) (alloc : Block)
    (lost : List Block) (stale : List ℕ) (size : ℕ) : Prop
  | ok {v : ℕ} {s' : HeapState} {F' : List Block}
      (run : mallocBlock (2 ^ m) size s = .ok v s')
      (notNull : v ≠ 0)
      (layout : HeapLayout s' m F' (⟨v, requestIndex m size⟩ :: live) alloc lost)
      (table : HeapTable s' m (⟨v, requestIndex m size⟩ :: live) stale)
      (frame : HeapFrame s s' live)
      (fits : size ≤ 2 ^ requestIndex m size)
      (part : ∃ b ∈ F, ∀ x, (Block.mk v (requestIndex m size)).Has x → b.Has x)
      (coalesced : Coalesced F → Coalesced F')
  | full (run : mallocBlock (2 ^ m) size s = .error .noMoreSpace s)
      (get : getBlock (requestIndex m size) (requestIndex m size) s = .ok 0 s)
      (none : ∀ d ∈ F, d.order < requestIndex m size)
  | stale {v : ℕ} {s' : HeapState} {F' : List Block}
      (run : mallocBlock (2 ^ m) size s = .error .alreadyAllocated s')
      (hit : entryOf m s.heap ⟨v, requestIndex m size⟩ ∈ stale)
      (layout : HeapLayout s' m F' live alloc (⟨v, requestIndex m size⟩ :: lost))
      (table : HeapTable s' m live stale)
      (frame : HeapFrame s s' live)
  | big (hbig : 0x80000000 ≤ s.heap.heapSize ∨ 32 ≤ requestIndex m size)
      (none : ∀ d ∈ F, d.order < requestIndex m size)
      (run : mallocBlock (2 ^ m) size s = .error .outOfBounds s)

/-- A request as the steps that `get_block` leaves to do. -/
theorem mallocBlock_run (m size : ℕ) (s : HeapState) :
    mallocBlock (2 ^ m) size s =
      (getBlock (requestIndex m size) (requestIndex m size) >>= fun base =>
        if base = 0 then throw .noMoreSpace
        else get >>= fun s =>
          if s.mem (allocPtr (2 ^ m) s.heap base) ≠ 0 then throw .alreadyAllocated
          else set (HeapState.mk s.heap
            (writeByte s.mem (allocPtr (2 ^ m) s.heap base) (requestIndex m size))) >>= fun _ =>
              pure base : HeapM ℕ) s := rfl

theorem mallocBlock_spec (hl : HeapLayout s m F live alloc lost) (ht : HeapTable s m live stale)
    (hm : m < 32) (size : ℕ) : MallocPost s m F live alloc lost stale size := by
  have hrun := mallocBlock_run m size s
  set r := requestIndex m size with hr
  have hmr : m ≤ r := le_requestIndex hm size
  rcases getBlock_spec hl.inv (hl.minOrder.trans hmr) (le_refl r) (fun _ _ h => h) with
    ⟨v, s₁, hget, hpost⟩ | ⟨hbig, hnone, hget⟩
  · rw [bind_ok hget] at hrun
    by_cases hv : v = 0
    · obtain ⟨hs, hnone⟩ := hpost.none hv
      subst hv hs
      exact .full hrun hget hnone
    · obtain ⟨F', hinv, hframe, hpart, hnew⟩ := hpost.some hv
      have hlayout : HeapLayout s₁ m F' (⟨v, r⟩ :: live) alloc lost :=
        hl.step hinv hframe (by simpa using ⟨hmr, hl.liveOrder⟩)
      have htable := ht.step hl hframe (by simp)
      have hmem : (⟨v, r⟩ : Block) ∈ F' ++ (⟨v, r⟩ :: live ++ alloc :: lost) := by simp
      have hptr : allocPtr (2 ^ m) s₁.heap v = s₁.heap.allocBase + entryOf m s₁.heap ⟨v, r⟩ :=
        hlayout.allocPtr_eq (hlayout.base_bounds hmem).1 (hlayout.base_bounds hmem).2
      have hentry := hlayout.entryOf_lt hmem
      have hkeep : HeapFrame s s₁ live := hframe.mono (by simp +contextual)
      rw [if_neg hv, bind_ok get_run, hptr] at hrun
      by_cases hstale : entryOf m s₁.heap ⟨v, r⟩ ∈ stale
      · -- the popped block goes to no list and to no owner
        have hperm : (⟨v, r⟩ :: (live ++ alloc :: lost)).Perm (live ++ alloc :: ⟨v, r⟩ :: lost) := by
          have := @List.perm_middle _ (⟨v, r⟩ : Block) (live ++ [alloc]) lost
          simpa using this.symm
        rw [if_pos (htable.kept _ hstale)] at hrun
        exact .stale hrun (by rwa [← hframe.entryOf])
          (hl.step (hinv.perm hperm) hframe hl.liveOrder) htable hkeep
      · have hzero := htable.zero _ hentry (hlayout.head_entryOf (List.Perm.refl _)) hstale
        rw [hzero, if_neg (by simp)] at hrun
        have hr32 : r < 32 := hinv.order_lt (b := ⟨v, r⟩) (by simp)
        exact .ok hrun hv (hlayout.writeEntry hentry r)
          (htable.add hlayout hstale)
          (hkeep.trans ((hlayout.frame_writeEntry hentry r).mono (by simp +contextual)))
          (size_le_requestIndex hr32).2 hpart fun hF => hF.extend (v + 2 ^ ·) hnew
  · rw [bind_error hget] at hrun
    exact .big hbig hnone hrun

/-! ## Releases -/

/-- The checks of `free` accept the base of a live block, unless the end of the heap
wraps around to address 0. -/
theorem checkReleased_live (hl : HeapLayout s m F live alloc lost) (ht : HeapTable s m live stale)
    {b : Block} (hb : b ∈ live) (hend : s.heap.heapBase + s.heap.heapSize < 0x100000000) :
    checkReleased (2 ^ m) b.base s =
      .ok (s.heap.allocBase + entryOf m s.heap b, b.order) s := by
  have hmem : b ∈ F ++ (live ++ alloc :: lost) := by simp [hb]
  have hbounds := hl.inv.tiling.bounds hmem
  have hpos := b.size_pos
  have hcode := ht.code b hb
  have hpos' : b.order ≠ 0 := by
    have := hl.liveOrder b hb
    have := hl.minOrder
    omega
  have hrange : ¬ (b.base < s.heap.heapBase ∨
      b.base ≥ u32 (s.heap.heapBase + s.heap.heapSize)) := by
    rw [u32, Nat.mod_eq_of_lt hend]
    omega
  have haligned : b.base % 2 ^ b.order = 0 := Nat.mod_eq_zero_of_dvd (hl.inv.aligned b hmem)
  rw [checkReleased, bind_ok get_run, if_neg hrange]
  have hptr := hl.allocPtr_eq (hl.base_bounds hmem).1 (hl.base_bounds hmem).2
  rw [entryOf] at hcode
  simp only [hptr, hcode, if_neg hpos']
  rw [bind_ok (shiftOne_run (hl.inv.order_lt hmem)), if_neg (by simpa using haligned)]
  rfl

/-- The live blocks of a layout, one of them in hand. -/
theorem HeapLayout.inHand (hl : HeapLayout s m F live alloc lost) {b : Block} (hb : b ∈ live) :
    HeapInv s F (b :: (live.erase b ++ alloc :: lost)) :=
  hl.inv.perm ((List.perm_cons_erase hb).append_right _)

/-- Clearing the entry of a live block makes the table describe the remaining ones. -/
theorem HeapTable.erase (ht : HeapTable s m live stale) (hl : HeapLayout s m F live alloc lost)
    {b : Block} (hb : b ∈ live) :
    HeapTable (s.writeEntry (entryOf m s.heap b) 0) m (live.erase b) stale where
  code c hc := by
    rw [HeapState.writeEntry_heap, HeapState.writeEntry_mem_of_ne _ (hl.head_entryOf (List.perm_cons_erase hb) c hc)]
    exact ht.code c (List.mem_of_mem_erase hc)
  staleLt := ht.staleLt
  kept j hj := by
    rw [HeapState.writeEntry_heap, HeapState.writeEntry_mem_of_ne _ (ht.dead j hj b hb).symm]
    exact ht.kept j hj
  dead j hj c hc := ht.dead j hj c (List.mem_of_mem_erase hc)
  zero j hj hne hstale := by
    by_cases hjb : j = entryOf m s.heap b
    · rw [hjb, HeapState.writeEntry_heap, HeapState.writeEntry_mem_self]
      rfl
    · rw [HeapState.writeEntry_heap, HeapState.writeEntry_mem_of_ne _ hjb]
      refine ht.zero j hj (fun c hc he => ?_) hstale
      rcases eq_or_ne c b with rfl | hcb
      · exact hjb he.symm
      · exact hne c ((List.mem_erase_of_ne hcb).mpr hc) he

/-- A release that keeps the entry of the block makes the entry stale. -/
theorem HeapTable.retire (ht : HeapTable s m live stale) (hl : HeapLayout s m F live alloc lost)
    {b : Block} (hb : b ∈ live) :
    HeapTable s m (live.erase b) (entryOf m s.heap b :: stale) where
  code c hc := ht.code c (List.mem_of_mem_erase hc)
  staleLt j hj := by
    rcases List.mem_cons.mp hj with rfl | hj
    · exact hl.entry_lt (hl.base_bounds (b := b) (by simp [hb])).1 (hl.base_bounds (b := b) (by simp [hb])).2
    · exact ht.staleLt j hj
  kept j hj := by
    rcases List.mem_cons.mp hj with rfl | hj
    · intro hzero
      have hcode := ht.code b hb
      have hmin := hl.minOrder.trans (hl.liveOrder b hb)
      rw [hzero] at hcode
      exact absurd hcode (by simp; omega)
    · exact ht.kept j hj
  dead j hj c hc := by
    rcases List.mem_cons.mp hj with rfl | hj
    · exact hl.head_entryOf (List.perm_cons_erase hb) c hc
    · exact ht.dead j hj c (List.mem_of_mem_erase hc)
  zero j hj hne hstale := by
    rw [List.mem_cons, not_or] at hstale
    refine ht.zero j hj (fun c hc he => ?_) hstale.2
    rcases eq_or_ne c b with rfl | hcb
    · exact hstale.1 he.symm
    · exact hne c ((List.mem_erase_of_ne hcb).mpr hc) he

/-- Without stale entries a release of any other pointer is rejected. -/
theorem checkReleased_dead (hl : HeapLayout s m F live alloc lost) (ht : HeapTable s m live [])
    {p : ℕ} (hp : ∀ b ∈ live, b.base ≠ p) : ∃ e, checkReleased (2 ^ m) p s = .error e s := by
  have htop := hl.inv.top
  rw [checkReleased, bind_ok get_run]
  split
  · exact ⟨_, rfl⟩
  · rename_i hrange
    have hin : s.heap.heapBase ≤ p ∧ p < s.heap.heapBase + s.heap.heapSize := by
      unfold u32 at hrange
      omega
    have hj := lt_of_lt_of_le (hl.entry_lt hin.2 hin.1) hl.entries
    have hptr := hl.allocPtr_eq hin.2 hin.1
    by_cases hlive : ∃ b ∈ live, entryOf m s.heap b = (p - s.heap.heapBase) / 2 ^ m
    · obtain ⟨b, hb, hbj⟩ := hlive
      have hmem : b ∈ F ++ (live ++ alloc :: lost) := by simp [hb]
      have hcode := ht.code b hb
      rw [hbj] at hcode
      have hpos : b.order ≠ 0 := by
        have := hl.minOrder.trans (hl.liveOrder b hb)
        omega
      have hodd : p % 2 ^ b.order ≠ 0 := fun hz =>
        hp b hb (hl.base_eq_of_dvd hmem (hl.liveOrder b hb) hin.1
          ((pow_dvd_pow 2 (hl.liveOrder b hb)).trans (Nat.dvd_of_mod_eq_zero hz)) hbj)
      simp only [hptr, hcode, if_neg hpos]
      rw [bind_ok (shiftOne_run (hl.inv.order_lt hmem)), if_pos hodd]
      exact ⟨_, rfl⟩
    · push Not at hlive
      have hzero := ht.zero _ hj hlive (by simp)
      simp only [hptr, hzero]
      exact ⟨_, rfl⟩

/-! ## The initial heap -/

/-- An initialisation that returns has a segment of a power of two, aligned on its size. -/
theorem heapInit_segment {minBlockSize base size : ℕ}
    (hrun : heapInit minBlockSize base size s = .ok () s') (hsize : size < 0x100000000) :
    ∃ k < 32, size = 2 ^ k ∧ 2 ^ k ∣ base ∧ 0 < k := by
  rw [heapInit] at hrun
  by_cases hpow : size = 2 ^ getSizeIndex size
  · by_cases hbase : base % size = 0
    · refine ⟨getSizeIndex size, ?_, hpow, hpow ▸ Nat.dvd_of_mod_eq_zero hbase, ?_⟩
      · rw [hpow] at hsize
        exact (Nat.pow_lt_pow_iff_right (a := 2) (m := 32) (by omega)).mp hsize
      · refine Nat.pos_of_ne_zero fun hzero => ?_
        rw [hzero, pow_zero] at hpow
        subst hpow
        simp only [hzero, pow_zero, ne_eq, not_true_eq_false, if_false, hbase, if_true] at hrun
        cases hrun
    · simp only [← hpow, ne_eq, not_true_eq_false, if_false, hbase, not_false_eq_true,
        if_true] at hrun
      cases hrun
  · simp only [ne_eq, hpow, not_false_eq_true, if_true] at hrun
    cases hrun

/-- A segment that is not larger than its table is not cut into blocks. -/
theorem heapInit_small {base k : ℕ} (s : HeapState) (hk : 0 < k) (hkm : k ≤ m) (hm : m < 32)
    (hdvd : 2 ^ k ∣ base) : heapInit (2 ^ m) base (2 ^ k) s =
      .ok () ⟨⟨s.heap.init, base, 2 ^ k, u32 (base + 2 ^ k + 0x100000000 - 2 ^ m), 2 ^ m, fun _ => 0⟩,
        fillZero s.mem (u32 (base + 2 ^ k + 0x100000000 - 2 ^ m)) (2 ^ m)⟩ := by
  have halloc : max (2 ^ k / 2 ^ m) (2 ^ m) = 2 ^ m := by
    refine max_eq_right ((Nat.div_le_self _ _).trans (Nat.pow_le_pow_right (by omega) hkm))
  have hstop (b : ℕ) : initFreeBlocks m (k - 1) b = pure () := by
    rw [initFreeBlocks.eq_def]
    exact if_pos (by omega)
  rw [heapInit, getSizeIndex_two_pow (by omega)]
  simp only [ne_eq, not_true_eq_false, if_false, Nat.mod_eq_zero_of_dvd hdvd, halloc,
    getSizeIndex_two_pow hm, hk.ne', hstop]
  rfl

/-- Every address of the range is reset. -/
theorem fillZero_add (mem : Mem) {a n j : ℕ} (ha : a < 0x100000000) (hj : j < n)
    (hn : n ≤ 0x100000000) : fillZero mem a n (u32 (a + j)) = 0 := by
  refine if_pos ?_
  unfold u32
  omega

/-- A segment larger than its table is cut into free blocks and an empty table. -/
theorem heapInit_spec {base k : ℕ} (s : HeapState) (hm : 2 ≤ m) (hmk : m < k) (hk : k < 32)
    (hdvd : 2 ^ k ∣ base) (hbase : base < 0x100000000) :
    ∃ s' F alloc lost, heapInit (2 ^ m) base (2 ^ k) s = .ok () s' ∧
      HeapLayout s' m F [] alloc lost ∧ HeapTable s' m [] [] ∧
      s'.heap.heapBase = base ∧ s'.heap.heapSize = 2 ^ k ∧
      (alloc.base = base + 2 ^ k - alloc.size ∧ alloc.order < k) ∧
      (lost = [] ∨ base = 0 ∧ lost = [⟨0, k - 1⟩]) ∧ Coalesced F := by
  have hk32 : 2 ^ k < 2 ^ 32 := Nat.pow_lt_pow_right (by omega) hk
  have htop : base + 2 ^ k ≤ 0x100000000 := by
    have h32 : 2 ^ k ∣ 0x100000000 := pow_dvd_pow 2 (m := k) (n := 32) (by omega)
    obtain ⟨p, hp⟩ := hdvd
    obtain ⟨q, hq⟩ := h32
    rw [hp, hq] at hbase
    have hpq : p < q := lt_of_mul_lt_mul_left hbase (Nat.zero_le _)
    rw [hp, hq, ← Nat.mul_succ]
    exact Nat.mul_le_mul_left _ hpq
  -- the table takes 2 ^ n bytes
  obtain ⟨n, hn, hmn, hnk, hkmn⟩ :
      ∃ n, max (2 ^ k / 2 ^ m) (2 ^ m) = 2 ^ n ∧ m ≤ n ∧ n < k ∧ 2 ^ k / 2 ^ m ≤ 2 ^ n := by
    have hdiv : 2 ^ k / 2 ^ m = 2 ^ (k - m) := Nat.pow_div (by omega) (by omega)
    rw [hdiv]
    rcases Nat.le_total (k - m) m with hle | hle
    · have := Nat.pow_le_pow_right (n := 2) (by omega) hle
      exact ⟨m, max_eq_right this, le_rfl, hmk, this⟩
    · have := Nat.pow_le_pow_right (n := 2) (by omega) hle
      exact ⟨k - m, max_eq_left this, hle, by omega, le_rfl⟩
  have hnk2 : 2 ^ n ≤ 2 ^ k := Nat.pow_le_pow_right (by omega) hnk.le
  have hptr : u32 (base + 2 ^ k + 0x100000000 - 2 ^ n) = base + 2 ^ k - 2 ^ n := by
    have := Nat.two_pow_pos n
    unfold u32
    omega
  set s₁ : HeapState := ⟨⟨s.heap.init, base, 2 ^ k, base + 2 ^ k - 2 ^ n, 2 ^ n, fun _ => 0⟩,
    fillZero s.mem (base + 2 ^ k - 2 ^ n) (2 ^ n)⟩ with hs₁
  have hrun : heapInit (2 ^ m) base (2 ^ k) s = initFreeBlocks n (k - 1) base s₁ := by
    rw [heapInit, getSizeIndex_two_pow hk]
    simp only [ne_eq, not_true_eq_false, if_false, hn, getSizeIndex_two_pow (by omega : n < 32),
      hptr, Nat.mod_eq_zero_of_dvd hdvd, show k ≠ 0 by omega]
    rfl
  have hstart : HeapInv s₁ [] [⟨base, k - 1 + 1⟩] := by
    rw [Nat.sub_add_cancel (by omega)]
    exact ⟨Tiling.single ⟨base, k⟩, htop, hk32, by simpa [Block.Aligned, Block.size] using hdvd,
      by simp, by simp, fun i _ => by simp [hs₁]⟩
  obtain ⟨s', F, lost, hok, hinv, hframe, hlost, hcoal⟩ :=
    initFreeBlocks_spec hstart (hm.trans hmn) (by omega) fun _ _ => rfl
  rw [Nat.sub_add_cancel (by omega)] at hinv hframe
  refine ⟨s', F, _, lost, hrun.trans hok, ⟨hinv, hm, by simp, ?_, ?_, ?_, ?_, ?_⟩,
    ⟨by simp, by simp, by simp, by simp, fun j hj _ _ => ?_⟩, hframe.heapBase, hframe.heapSize, ⟨rfl, hnk⟩,
    hlost, hcoal coalesced_nil⟩
  · rw [hframe.heapBase]
    exact (pow_dvd_pow 2 hmk.le).trans hdvd
  · rw [hframe.heapSize]
    exact pow_dvd_pow 2 hmk.le
  · rw [hframe.allocBase]
  · rw [hframe.allocSize]
    rfl
  · rw [hframe.heapSize, hframe.allocSize]
    exact hkmn
  · rw [hframe.allocBase]
    rw [hframe.allocSize] at hj
    change j < 2 ^ n at hj
    rw [hframe.mem _ List.mem_cons_self _ ⟨Nat.le_add_right _ _, Nat.add_lt_add_left hj _⟩]
    have hlt : base + 2 ^ k - 2 ^ n + j < 0x100000000 := by omega
    have hzero := fillZero_add s.mem (a := base + 2 ^ k - 2 ^ n) (n := 2 ^ n) (by omega) hj (by omega)
    rwa [u32, Nat.mod_eq_of_lt hlt] at hzero

end GietVm.Malloc
