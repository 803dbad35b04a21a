import GietVm.Library.Linked
import GietVm.Malloc.Heap

/-!
# The partition of a heap segment

The invariant of the allocator lists the free blocks in `F` and every other block of the
segment in `H`: the blocks handed out, the block of the `alloc[]` array, and during a
call the block in hand. Together they tile the segment, and for each order the NEXT
pointers in memory link exactly the free blocks of that order.

Four edits of this invariant cover everything the code does: pushing the block in hand,
popping the head of a list, unlinking a companion, and cutting or joining the block in
hand. One lemma for each function of the allocator is then assembled from them.
-/

namespace GietVm.Malloc

open GietVm.Library

/-! ## Memory -/

theorem readWord_writeWord_same (mem : Mem) (a v : ℕ) : readWord (writeWord mem a v) a = u32 v := by
  simp only [readWord, writeWord, if_true, Nat.add_eq_left, OfNat.ofNat_ne_zero, one_ne_zero,
    if_false, Nat.add_left_cancel_iff, UInt8.toNat_ofNat', u32]
  norm_num
  omega

theorem readWord_writeWord_apart (mem : Mem) {a c : ℕ} (v : ℕ) (h : a + 4 ≤ c ∨ c + 4 ≤ a) :
    readWord (writeWord mem a v) c = readWord mem c := by
  have hne (i j : ℕ) (hi : i < 4) (hj : j < 4) : c + i ≠ a + j := by omega
  have hbyte (i : ℕ) (hi : i < 4) : writeWord mem a v (c + i) = mem (c + i) := by
    simp [writeWord, hne i 1 hi (by omega), hne i 2 hi (by omega),
      hne i 3 hi (by omega), show c + i ≠ a by omega]
  have h0 := hbyte 0 (by omega)
  simp only [Nat.add_zero] at h0
  simp only [readWord, h0, hbyte 1 (by omega), hbyte 2 (by omega), hbyte 3 (by omega)]

theorem writeWord_apart (mem : Mem) {a x : ℕ} (v : ℕ) (h : x < a ∨ a + 4 ≤ x) :
    writeWord mem a v x = mem x := by
  simp [writeWord, show x ≠ a by omega, show x ≠ a + 1 by omega, show x ≠ a + 2 by omega,
    show x ≠ a + 3 by omega]

theorem readWord_lt (mem : Mem) (a : ℕ) : readWord mem a < 0x100000000 := by
  have h (x : ℕ) : (mem x).toNat < 256 := (mem x).toNat_lt
  have := h a
  have := h (a + 1)
  have := h (a + 2)
  have := h (a + 3)
  simp only [readWord]
  omega

/-! ## Running the primitive steps -/

section Run

variable {α β : Type} {s s' : HeapState}

theorem bind_ok {x : HeapM α} {f : α → HeapM β} {a : α} (h : x s = .ok a s') :
    (x >>= f) s = f a s' := by
  simp [bind, EStateM.bind, h]

theorem bind_error {x : HeapM α} {f : α → HeapM β} {e : HeapError} (h : x s = .error e s') :
    (x >>= f) s = .error e s' := by
  simp [bind, EStateM.bind, h]

@[simp] theorem pure_run (a : α) : (pure a : HeapM α) s = .ok a s := rfl

@[simp] theorem throw_run (e : HeapError) : (throw e : HeapM α) s = .error e s := rfl

@[simp] theorem get_run : (get : HeapM HeapState) s = .ok s s := rfl

@[simp] theorem readNext_run (a : ℕ) : readNext a s = .ok (readWord s.mem a) s := rfl

@[simp] theorem writeNext_run (a v : ℕ) :
    writeNext a v s = .ok () { s with mem := writeWord s.mem a v } := rfl

theorem getFree_run {i : ℕ} (hi : i < 32) : getFree i s = .ok (s.heap.free i) s := by
  simp [getFree, hi]

theorem setFree_run {i : ℕ} (hi : i < 32) (v : ℕ) : setFree i v s =
    .ok () { s with heap := { s.heap with free := Function.update s.heap.free i v } } := by
  simp [setFree, hi]

theorem shiftOne_run {i : ℕ} (hi : i < 32) : shiftOne i s = .ok (2 ^ i) s := by
  simp [shiftOne, hi]

end Run

/-- The state after pushing the block at `a` on the list of order `i`. -/
def HeapState.push (s : HeapState) (i a : ℕ) : HeapState :=
  { heap := { s.heap with free := Function.update s.heap.free i a }
    mem := writeWord s.mem a (s.heap.free i) }

/-- The state after popping the list of order `i`. -/
def HeapState.pop (s : HeapState) (i : ℕ) : HeapState :=
  { s with heap := { s.heap with
    free := Function.update s.heap.free i (readWord s.mem (s.heap.free i)) } }

/-! ## The invariant -/

/-- The free blocks `F` and the other blocks `H` of a segment, with the lists that link `F`. -/
structure HeapInv (s : HeapState) (F H : List Block) : Prop where
  tiling : Tiling s.heap.heapBase (s.heap.heapBase + s.heap.heapSize) (F ++ H)
  top : s.heap.heapBase + s.heap.heapSize ≤ 0x100000000
  sizeLt : s.heap.heapSize < 0x100000000
  aligned : ∀ b ∈ F ++ H, b.Aligned
  order : ∀ b ∈ F, 2 ≤ b.order
  nonnull : ∀ b ∈ F, b.base ≠ 0
  linked : ∀ i < 32, Linked (· = 0) (readWord s.mem) (s.heap.free i) (basesOf F i)

/-- What a call leaves alone: the descriptor but for the lists, and the bytes of `H`. -/
structure HeapFrame (s s' : HeapState) (H : List Block) : Prop where
  init : s'.heap.init = s.heap.init
  heapBase : s'.heap.heapBase = s.heap.heapBase
  heapSize : s'.heap.heapSize = s.heap.heapSize
  allocBase : s'.heap.allocBase = s.heap.allocBase
  allocSize : s'.heap.allocSize = s.heap.allocSize
  mem : ∀ b ∈ H, ∀ x, b.Has x → s'.mem x = s.mem x

theorem HeapFrame.refl (s : HeapState) (H : List Block) : HeapFrame s s H :=
  ⟨rfl, rfl, rfl, rfl, rfl, fun _ _ _ _ => rfl⟩

theorem HeapFrame.trans {s s' s'' : HeapState} {H : List Block} (h : HeapFrame s s' H)
    (h' : HeapFrame s' s'' H) : HeapFrame s s'' H where
  init := h'.init.trans h.init
  heapBase := h'.heapBase.trans h.heapBase
  heapSize := h'.heapSize.trans h.heapSize
  allocBase := h'.allocBase.trans h.allocBase
  allocSize := h'.allocSize.trans h.allocSize
  mem b hb x hx := (h'.mem b hb x hx).trans (h.mem b hb x hx)

theorem HeapFrame.mono {s s' : HeapState} {H H' : List Block} (h : HeapFrame s s' H)
    (hsub : ∀ b ∈ H', b ∈ H) : HeapFrame s s' H' :=
  { h with mem := fun b hb => h.mem b (hsub b hb) }

namespace HeapInv

variable {s : HeapState} {F H H' : List Block} {b : Block}

/-- Only the members of `H` matter. -/
theorem perm (h : HeapInv s F H) (hp : H.Perm H') : HeapInv s F H' :=
  { h with
    tiling := h.tiling.perm (hp.append_left F)
    aligned := fun b hb => h.aligned b ((hp.append_left F).mem_iff.mpr hb) }

/-- Members of `F` are smaller than the address space. -/
theorem size_lt (h : HeapInv s F H) (hb : b ∈ F ++ H) : b.size < 0x100000000 := by
  have := h.tiling.bounds hb
  have := h.sizeLt
  omega

theorem order_lt (h : HeapInv s F H) (hb : b ∈ F ++ H) : b.order < 32 := by
  have hlt : 2 ^ b.order < 2 ^ 32 := h.size_lt hb
  exact (Nat.pow_lt_pow_iff_right (by omega)).mp hlt

theorem base_lt (h : HeapInv s F H) (hb : b ∈ F ++ H) : b.base < 0x100000000 := by
  have := h.tiling.bounds hb
  have := h.top
  have := b.size_pos
  omega

theorem four_le_size (h : 2 ≤ b.order) : 4 ≤ b.size :=
  Nat.pow_le_pow_right (n := 2) (by omega) h

/-- Writing inside a block that is not free changes no NEXT pointer of a free block. -/
theorem linked_write (h : HeapInv s F H) (hb : b ∈ H) (ho : 2 ≤ b.order) (v : ℕ) :
    ∀ c ∈ F, readWord (writeWord s.mem b.base v) c.base = readWord s.mem c.base := by
  intro c hc
  apply readWord_writeWord_apart
  have hne := (List.pairwise_append.mp h.tiling.apart).2.2 c hc b hb
  have := four_le_size (h.order c hc)
  have := four_le_size ho
  rcases hne with hne | hne <;> omega

/-- Pushing the block in hand. -/
theorem push (h : HeapInv s F (b :: H)) (ho : 2 ≤ b.order) (hb : b.base ≠ 0) :
    HeapInv (s.push b.order b.base) (b :: F) H ∧ HeapFrame s (s.push b.order b.base) H := by
  have hp : (F ++ b :: H).Perm (b :: F ++ H) := List.perm_middle
  have hmem : b ∈ F ++ b :: H := by simp
  have hwrite := h.linked_write List.mem_cons_self ho (s.heap.free b.order)
  refine ⟨{ h with
    tiling := h.tiling.perm hp
    aligned := fun c hc => h.aligned c (hp.mem_iff.mpr hc)
    order := by simpa using ⟨ho, h.order⟩
    nonnull := by simpa using ⟨hb, h.nonnull⟩
    linked := fun i hi => ?_ }, ⟨rfl, rfl, rfl, rfl, rfl, fun c hc x hx => ?_⟩⟩
  · have hframe : ∀ a ∈ basesOf F i,
        readWord (writeWord s.mem b.base (s.heap.free b.order)) a = readWord s.mem a :=
      fun a ha => hwrite ⟨a, i⟩ (mem_basesOf.mp ha)
    rw [basesOf_cons]
    by_cases hbi : b.order = i
    · subst hbi
      have hhead : s.heap.free b.order < 0x100000000 := by
        by_cases hnull : s.heap.free b.order = 0
        · omega
        · obtain ⟨rest, hrest, -⟩ := (h.linked b.order hi).head hnull
          exact h.base_lt (b := ⟨s.heap.free b.order, b.order⟩)
            (List.mem_append_left _ (mem_basesOf.mp (hrest ▸ List.mem_cons_self)))
      simp only [HeapState.push, Function.update_self, if_true]
      refine (h.linked b.order hi).push hb ?_ hframe
      rw [readWord_writeWord_same, u32, Nat.mod_eq_of_lt hhead]
    · simp only [HeapState.push, hbi, if_false, Function.update_of_ne (Ne.symm hbi)]
      exact (h.linked i hi).frame hframe
  · have hapart := (List.pairwise_cons.mp (List.pairwise_append.mp h.tiling.apart).2.1).1 c hc
    have := four_le_size ho
    obtain ⟨hx₁, hx₂⟩ := hx
    apply writeWord_apart
    rcases hapart with hapart | hapart <;> omega

/-- Popping a non-empty list takes its first block in hand. -/
theorem pop (h : HeapInv s F H) {i : ℕ} (hi : i < 32) (hne : s.heap.free i ≠ 0) :
    (⟨s.heap.free i, i⟩ : Block) ∈ F ∧
      HeapInv (s.pop i) (F.erase ⟨s.heap.free i, i⟩) (⟨s.heap.free i, i⟩ :: H) := by
  obtain ⟨rest, hrest, htail⟩ := (h.linked i hi).head hne
  have hmem : (⟨s.heap.free i, i⟩ : Block) ∈ F := mem_basesOf.mp (hrest ▸ List.mem_cons_self)
  have hp : (F ++ H).Perm (F.erase ⟨s.heap.free i, i⟩ ++ ⟨s.heap.free i, i⟩ :: H) :=
    ((List.perm_cons_erase hmem).append_right H).trans List.perm_middle.symm
  refine ⟨hmem, { h with
    tiling := h.tiling.perm hp
    aligned := fun c hc => h.aligned c (hp.mem_iff.mpr hc)
    order := fun c hc => h.order c (List.mem_of_mem_erase hc)
    nonnull := fun c hc => h.nonnull c (List.mem_of_mem_erase hc)
    linked := fun j hj => ?_ }⟩
  rw [basesOf_erase]
  by_cases hij : i = j
  · subst hij
    simp only [HeapState.pop, Function.update_self, if_true]
    rw [hrest, List.erase_cons_head]
    exact htail
  · simp only [HeapState.pop, hij, if_false, Function.update_of_ne (Ne.symm hij)]
    exact h.linked j hj

/-- Cutting the block in hand. -/
theorem split (h : HeapInv s F (b :: H)) (ho : 0 < b.order) :
    HeapInv s F (b.lower :: b.upper :: H) := by
  have hp : (F ++ b :: H).Perm (b :: (F ++ H)) := List.perm_middle
  have hp' : (b.lower :: b.upper :: (F ++ H)).Perm (F ++ b.lower :: b.upper :: H) :=
    ((List.perm_middle (a := b.upper)).symm.cons b.lower).trans List.perm_middle.symm
  have hb := h.aligned b (by simp)
  have hhalf : b.size = 2 * 2 ^ (b.order - 1) := by
    rw [Block.size, ← Nat.pow_succ']
    congr 1
    omega
  refine { h with tiling := ((h.tiling.perm hp).split ho).perm hp', aligned := fun c hc => ?_ }
  have hdvd : 2 ^ (b.order - 1) ∣ b.base := (Dvd.intro_left 2 hhalf.symm).trans hb
  rcases List.mem_append.mp hc with hc | hc
  · exact h.aligned c (List.mem_append_left _ hc)
  · rcases List.mem_cons.mp hc with rfl | hc
    · exact hdvd
    rcases List.mem_cons.mp hc with rfl | hc
    · exact (Nat.dvd_add_iff_left (dvd_refl _)).mp hdvd
    · exact h.aligned c (by simp [hc])

/-- Joining the two halves in hand. -/
theorem merge (h : HeapInv s F (b.lower :: b.upper :: H)) (ho : 0 < b.order) (hb : b.Aligned) :
    HeapInv s F (b :: H) := by
  have hp : (F ++ b.lower :: b.upper :: H).Perm (b.lower :: b.upper :: (F ++ H)) :=
    List.perm_middle.trans ((List.perm_middle (a := b.upper)).cons b.lower)
  refine { h with
    tiling := ((h.tiling.perm hp).merge ho).perm List.perm_middle.symm
    aligned := fun c hc => ?_ }
  rcases List.mem_append.mp hc with hc | hc
  · exact h.aligned c (List.mem_append_left _ hc)
  · rcases List.mem_cons.mp hc with rfl | hc
    · exact hb
    · exact h.aligned c (by simp [hc])

end HeapInv

/-! ## Finding and unlinking the companion -/

/-- The slot that points to the block after the blocks at `l`, read from `prev`. -/
def lastSlot : Slot → List ℕ → Slot
  | prev, [] => prev
  | _, a :: l => lastSlot (.next a) l

@[simp] theorem lastSlot_concat (prev : Slot) (l : List ℕ) (a : ℕ) :
    lastSlot prev (l ++ [a]) = .next a := by
  induction l generalizing prev with
  | nil => rfl
  | cons b l ih => exact ih _

/-- The scan stops at the first occurrence of the companion. -/
theorem scanFree_found {mem : Mem} {c iter bound : ℕ} {l₁ l₂ : List ℕ} {prev : Slot}
    (hl : Linked (· = 0) (readWord mem) iter (l₁ ++ c :: l₂)) (hc : c ∉ l₁)
    (hb : l₁.length < bound) : scanFree mem c bound prev iter = some (some (lastSlot prev l₁)) := by
  induction l₁ generalizing iter bound prev with
  | nil =>
    obtain ⟨rfl, hnull, -⟩ := hl
    obtain ⟨bound, rfl⟩ := Nat.exists_eq_succ_of_ne_zero (Nat.pos_iff_ne_zero.mp hb)
    simp [scanFree, hnull, lastSlot]
  | cons a l₁ ih =>
    obtain ⟨rfl, hnull, htail⟩ := hl
    rw [List.mem_cons, not_or] at hc
    obtain ⟨hne, hc⟩ := hc
    cases bound with
    | zero => simp at hb
    | succ bound =>
      simp only [scanFree, if_neg hnull, if_neg (Ne.symm hne)]
      exact ih htail hc (by simpa using hb)

/-- The scan reaches the null pointer when the companion is not listed. -/
theorem scanFree_missing {mem : Mem} {c iter bound : ℕ} {l : List ℕ} {prev : Slot}
    (hl : Linked (· = 0) (readWord mem) iter l) (hc : c ∉ l) (hb : l.length < bound) :
    scanFree mem c bound prev iter = some none := by
  induction l generalizing iter bound prev with
  | nil =>
    obtain ⟨bound, rfl⟩ := Nat.exists_eq_succ_of_ne_zero (Nat.pos_iff_ne_zero.mp hb)
    simp only [linked_nil] at hl
    simp [scanFree, hl]
  | cons a l ih =>
    obtain ⟨rfl, hnull, htail⟩ := hl
    rw [List.mem_cons, not_or] at hc
    obtain ⟨hne, hc⟩ := hc
    cases bound with
    | zero => simp at hb
    | succ bound =>
      simp only [scanFree, if_neg hnull, if_neg (Ne.symm hne)]
      exact ih htail hc (by simpa using hb)

namespace HeapInv

variable {s : HeapState} {F H : List Block}

theorem nodup (h : HeapInv s F H) : F.Nodup :=
  (List.nodup_append.mp h.tiling.nodup).1

/-- A free list holds different non-null addresses, so it is shorter than the address space. -/
theorem length_basesOf_lt (h : HeapInv s F H) (i : ℕ) :
    (basesOf F i).length < 0x100000000 := by
  have hnull : 0 ∉ basesOf F i := fun h0 => h.nonnull _ (mem_basesOf.mp h0) rfl
  have hnodup : (0 :: basesOf F i).Nodup := List.nodup_cons.mpr ⟨hnull, basesOf_nodup h.nodup i⟩
  have hsub : 0 :: basesOf F i ⊆ List.range 0x100000000 := by
    intro a ha
    rw [List.mem_range]
    rcases List.mem_cons.mp ha with rfl | ha
    · omega
    · exact h.base_lt (b := ⟨a, i⟩) (List.mem_append_left _ (mem_basesOf.mp ha))
  have hlen := (List.subperm_of_subset hnodup hsub).length_le
  rw [List.length_range, List.length_cons] at hlen
  omega

/-- Unlinking a free block takes it in hand. -/
theorem unlink (h : HeapInv s F H) {a i : ℕ} (hi : i < 32) {l₁ l₂ : List ℕ}
    (hl : basesOf F i = l₁ ++ a :: l₂) :
    ∃ s', writeSlot i (lastSlot .head l₁) (readWord s.mem a) s = .ok () s' ∧
      HeapInv s' (F.erase ⟨a, i⟩) (⟨a, i⟩ :: H) ∧ HeapFrame s s' H := by
  have hlist := h.linked i hi
  rw [hl] at hlist
  rcases List.eq_nil_or_concat l₁ with rfl | ⟨l₀, p, rfl⟩
  · -- the block is the head of its list
    have hhead : s.heap.free i = a := hlist.1
    have hnull : s.heap.free i ≠ 0 := by rw [hhead]; exact hlist.2.1
    refine ⟨s.pop i, ?_, ?_, ⟨rfl, rfl, rfl, rfl, rfl, fun _ _ _ _ => rfl⟩⟩
    · simp only [lastSlot, writeSlot, setFree_run hi, HeapState.pop, hhead]
    · exact hhead ▸ (h.pop hi hnull).2
  · -- the block follows `p`, whose NEXT pointer is redirected
    rw [List.concat_eq_append] at *
    have hmem : (⟨a, i⟩ : Block) ∈ F := mem_basesOf.mp (by rw [hl]; simp)
    have hp : (⟨p, i⟩ : Block) ∈ F := mem_basesOf.mp (by rw [hl]; simp)
    have hperm : (F ++ H).Perm (F.erase ⟨a, i⟩ ++ ⟨a, i⟩ :: H) :=
      ((List.perm_cons_erase hmem).append_right H).trans List.perm_middle.symm
    have hnodup := basesOf_nodup h.nodup i
    rw [hl] at hnodup
    have hsize := four_le_size (h.order _ hp)
    have hother : ∀ c ∈ F, c ≠ ⟨p, i⟩ →
        readWord (writeWord s.mem p (readWord s.mem a)) c.base = readWord s.mem c.base := by
      intro c hc hne
      apply readWord_writeWord_apart
      have hapart := h.tiling.apart_of_mem (List.mem_append_left H hc) (List.mem_append_left H hp) hne
      have hsize' := four_le_size (h.order _ hc)
      rcases hapart with hapart | hapart
      · exact Or.inr ((Nat.add_le_add_left hsize' c.base).trans hapart)
      · exact Or.inl ((Nat.add_le_add_left hsize p).trans hapart)
    refine ⟨{ s with mem := writeWord s.mem p (readWord s.mem a) }, ?_, { h with
      tiling := h.tiling.perm hperm
      aligned := fun c hc => h.aligned c (hperm.mem_iff.mpr hc)
      order := fun c hc => h.order c (List.mem_of_mem_erase hc)
      nonnull := fun c hc => h.nonnull c (List.mem_of_mem_erase hc)
      linked := fun j hj => ?_ }, ⟨rfl, rfl, rfl, rfl, rfl, fun c hc x hx => ?_⟩⟩
    · rw [lastSlot_concat]
      rfl
    · rw [basesOf_erase]
      by_cases hij : i = j
      · subst hij
        have hpa : p ≠ a ∧ p ∉ l₀ ∧ p ∉ l₂ ∧ a ∉ l₀ ++ [p] := by
          simp only [List.append_assoc, List.singleton_append, List.nodup_append, List.nodup_cons,
            List.mem_cons, List.mem_append, List.not_mem_nil, or_false, not_or] at hnodup ⊢
          grind
        have hrest : ∀ b ∈ l₀ ++ l₂, readWord (writeWord s.mem p (readWord s.mem a)) b =
            readWord s.mem b := by
          intro b hb
          refine hother ⟨b, i⟩ (mem_basesOf.mp ?_) ?_
          · rw [hl]
            simp only [List.mem_append, List.mem_cons] at hb ⊢
            tauto
          · rintro ⟨⟩
            rcases List.mem_append.mp hb with hb | hb
            · exact hpa.2.1 hb
            · exact hpa.2.2.1 hb
        simp only [if_true]
        rw [hl, List.erase_append_right _ hpa.2.2.2, List.erase_cons_head, List.append_assoc,
          List.singleton_append]
        rw [List.append_assoc, List.singleton_append] at hlist
        refine hlist.unlink ?_ (fun b hb => hrest b (List.mem_append_left _ hb))
          fun b hb => hrest b (List.mem_append_right _ hb)
        rw [readWord_writeWord_same, u32, Nat.mod_eq_of_lt (readWord_lt _ _)]
      · simp only [hij, if_false]
        refine (h.linked j hj).frame fun b hb => hother ⟨b, j⟩ (mem_basesOf.mp hb) ?_
        rintro ⟨⟩
        exact hij rfl
    · have hapart := (List.pairwise_append.mp h.tiling.apart).2.2 _ hp c hc
      obtain ⟨hx₁, hx₂⟩ := hx
      apply writeWord_apart
      rcases hapart with hapart | hapart
      · exact Or.inr ((Nat.add_le_add_left hsize p).trans (hapart.trans hx₁))
      · exact Or.inl (lt_of_lt_of_le hx₂ hapart)

end HeapInv

end GietVm.Malloc
