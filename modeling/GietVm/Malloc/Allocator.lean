import GietVm.Library.Buddies
import GietVm.Malloc.Invariant
import Mathlib.Data.Nat.Bitwise

/-!
# What the allocator functions do to the partition

One lemma for each recursive function: `split_block` returns the lower end of the block
in hand, `get_block` takes a part of one free block in hand or changes nothing,
`update_free_array` returns the block in hand to the lists, and `heap_init` cuts the
whole segment.
-/

namespace GietVm.Malloc

open GietVm.Library

variable {s s' : HeapState} {F H : List Block}

/-! ## The size index -/

theorem getSizeIndex_le {size i : ℕ} (hi : i < 32) (h : size ≤ 2 ^ i) : getSizeIndex size ≤ i := by
  unfold getSizeIndex
  cases hf : (List.range 32).find? fun i => decide (size ≤ 2 ^ i) with
  | none =>
    have := List.find?_eq_none.mp hf i (List.mem_range.mpr hi)
    simp [h] at this
  | some j =>
    simp only [Option.getD_some]
    by_contra hlt
    have hmin := (List.find?_range_eq_some.mp hf).2.2 i (by omega)
    simp [h] at hmin

theorem le_two_pow_getSizeIndex {size : ℕ} (h : getSizeIndex size < 32) :
    size ≤ 2 ^ getSizeIndex size := by
  unfold getSizeIndex at h ⊢
  cases hf : (List.range 32).find? fun i => decide (size ≤ 2 ^ i) with
  | none => simp [hf] at h
  | some j => simpa using List.find?_some hf

/-- A power of two is its own rounded size. -/
theorem getSizeIndex_two_pow {k : ℕ} (hk : k < 32) : getSizeIndex (2 ^ k) = k := by
  have hle := getSizeIndex_le hk (le_refl (2 ^ k))
  have hge := le_two_pow_getSizeIndex (lt_of_le_of_lt hle hk)
  exact le_antisymm hle ((Nat.pow_le_pow_iff_right (by omega)).mp hge)

/-- A size above `2 ^ m` has an index above `m`. -/
theorem le_getSizeIndex {size m : ℕ} (hm : 2 ^ m ≤ size) (h : getSizeIndex size < 32) :
    m ≤ getSizeIndex size :=
  (Nat.pow_le_pow_iff_right (by omega : 1 < 2)).mp (hm.trans (le_two_pow_getSizeIndex h))

/-! ## Splitting and taking blocks -/

@[simp] theorem pushFree_run {i : ℕ} (hi : i < 32) (a : ℕ) : pushFree i a s = .ok () (s.push i a) := by
  rw [pushFree, bind_ok (getFree_run hi), bind_ok (writeNext_run _ _), setFree_run hi]
  rfl

/-- `split_block` keeps the lower part of the block in hand and pushes the upper halves. -/
theorem splitBlock_spec {v n r : ℕ} (h : HeapInv s F (⟨v, n⟩ :: H)) (hr : 2 ≤ r) (hrn : r < n)
    (hv : v ≠ 0) : ∃ s' F', splitBlock v n r s = .ok v s' ∧ HeapInv s' F' (⟨v, r⟩ :: H) ∧
      HeapFrame s s' H ∧
      ∀ c ∈ F', c ∈ F ∨ r ≤ c.order ∧ c.order < n ∧ c.base = v + 2 ^ c.order := by
  induction n generalizing s F with
  | zero => omega
  | succ n ih =>
    have hn : n < 32 := Nat.lt_of_succ_lt (h.order_lt (b := ⟨v, n + 1⟩) (by simp))
    have hsplit := h.split (Nat.succ_pos n)
    simp only [Block.lower, Block.upper, Nat.add_sub_cancel] at hsplit
    -- the upper half moves to the front and is pushed
    have hswap := hsplit.perm (List.Perm.swap _ _ _)
    have hnew : u32 (v + 2 ^ n) = v + 2 ^ n :=
      Nat.mod_eq_of_lt (hswap.base_lt (b := ⟨v + 2 ^ n, n⟩) (by simp))
    obtain ⟨hinv, hframe⟩ := hswap.push (show 2 ≤ n by omega)
      (Nat.add_pos_left (Nat.pos_of_ne_zero hv) _).ne'
    simp only [splitBlock, bind_ok (shiftOne_run hn), hnew, bind_ok (pushFree_run hn _)]
    by_cases hnr : n = r
    · subst hnr
      refine ⟨_, _, by simp, hinv, hframe.mono fun b hb => List.mem_cons_of_mem _ hb, ?_⟩
      intro c hc
      rcases List.mem_cons.mp hc with rfl | hc
      · exact Or.inr ⟨le_rfl, Nat.lt_succ_self _, rfl⟩
      · exact Or.inl hc
    · obtain ⟨s', F', hrun, hinv', hframe', hnew⟩ := ih hinv (by omega)
      refine ⟨s', F', by simpa [hnr] using hrun, hinv', ?_, fun c hc => ?_⟩
      · exact (hframe.mono fun b hb => List.mem_cons_of_mem _ hb).trans hframe'
      · rcases hnew c hc with hc | ⟨hrc, hcn, hbase⟩
        · rcases List.mem_cons.mp hc with rfl | hc
          · exact Or.inr ⟨by simp only; omega, Nat.lt_succ_self _, rfl⟩
          · exact Or.inl hc
        · exact Or.inr ⟨hrc, Nat.lt_succ_of_lt hcn, hbase⟩

/-- What a returning `get_block` has done: nothing, if every free block is too small, or the
block in hand is a part of one formerly free block, whose other parts are the only free
blocks of their orders. -/
structure GetBlockPost (s s' : HeapState) (F H : List Block) (r v : ℕ) : Prop where
  none : v = 0 → s' = s ∧ ∀ d ∈ F, d.order < r
  some : v ≠ 0 → ∃ F', HeapInv s' F' (⟨v, r⟩ :: H) ∧ HeapFrame s s' H ∧
    (∃ b ∈ F, ∀ x, (Block.mk v r).Has x → b.Has x) ∧
    ∀ c ∈ F', c ∈ F ∨ c.base = v + 2 ^ c.order ∧ ∀ d ∈ F, d.order ≠ c.order

theorem getBlock_spec {i r : ℕ} (h : HeapInv s F H) (hr : 2 ≤ r) (hri : r ≤ i)
    (hskip : ∀ d ∈ F, r ≤ d.order → i ≤ d.order) :
    (∃ v s', getBlock i r s = .ok v s' ∧ GetBlockPost s s' F H r v) ∨
      (0x80000000 ≤ s.heap.heapSize ∨ 32 ≤ i) ∧ (∀ d ∈ F, d.order < r) ∧
        getBlock i r s = .error .outOfBounds s := by
  induction hm : 32 - i generalizing i with
  | zero =>
    have hi : 32 ≤ i := by omega
    refine Or.inr ⟨Or.inr hi, fun d hd => ?_, by rw [getBlock, dif_pos hi]; rfl⟩
    have := h.order_lt (b := d) (by simp [hd])
    have := hskip d hd
    omega
  | succ m ih =>
    have hi : i < 32 := by omega
    rw [getBlock, dif_neg (by omega)]
    simp only [bind_ok get_run]
    by_cases hsize : 2 ^ i > s.heap.heapSize
    · simp only [if_pos hsize]
      refine Or.inl ⟨0, s, rfl, fun _ => ⟨rfl, fun d hd => Nat.lt_of_not_le fun hrd => ?_⟩,
        fun hne => absurd rfl hne⟩
      have hle : 2 ^ i ≤ 2 ^ d.order := Nat.pow_le_pow_right (by omega) (hskip d hd hrd)
      have hbounds := h.tiling.bounds (b := d) (by simp [hd])
      have hdsize : d.size = 2 ^ d.order := rfl
      omega
    simp only [if_neg hsize, bind_ok (getFree_run hi)]
    by_cases hempty : s.heap.free i = 0
    · simp only [if_pos hempty]
      have hnone : basesOf F i = [] := (h.linked i hi).eq_nil hempty
      have hskip' : ∀ d ∈ F, r ≤ d.order → i + 1 ≤ d.order := by
        intro d hd hrd
        have hne : d.order ≠ i := by
          rintro rfl
          have hmem := mem_basesOf.mpr hd
          rw [hnone] at hmem
          exact absurd hmem (by simp)
        have := hskip d hd hrd
        omega
      rcases ih (i := i + 1) (by omega) hskip' (by omega) with
        hok | ⟨hbig, hnone, herr⟩
      · exact Or.inl hok
      · refine Or.inr ⟨Or.inl ?_, hnone, herr⟩
        rcases hbig with hbig | hbig
        · exact hbig
        · obtain rfl : i = 31 := by omega
          exact Nat.le_of_not_gt hsize
    simp only [if_neg hempty, bind_ok (readNext_run _), bind_ok (setFree_run hi _)]
    obtain ⟨hmem, hpop⟩ := h.pop hi hempty
    have hframe : HeapFrame s (s.pop i) H := ⟨rfl, rfl, rfl, rfl, rfl, fun _ _ _ _ => rfl⟩
    change (∃ v s', (if i = r then pure (s.heap.free i) else splitBlock (s.heap.free i) i r :
      HeapM ℕ) (s.pop i) = .ok v s' ∧ _) ∨ _
    left
    by_cases hir : i = r
    · subst hir
      refine ⟨s.heap.free i, s.pop i, by simp, fun hv => absurd hv hempty, fun _ => ?_⟩
      exact ⟨_, hpop, hframe, ⟨_, hmem, fun _ hx => hx⟩,
        fun c hc => Or.inl (List.mem_of_mem_erase hc)⟩
    · obtain ⟨s', F', hrun, hinv, hframe', hnew⟩ := splitBlock_spec hpop hr (by omega) hempty
      refine ⟨s.heap.free i, s', by simpa [hir] using hrun, fun hv => absurd hv hempty, fun _ => ?_⟩
      refine ⟨F', hinv, hframe.trans hframe', ⟨_, hmem, fun x hx => ⟨hx.1, hx.2.trans_le ?_⟩⟩,
        fun c hc => ?_⟩
      · exact Nat.add_le_add_left (Nat.pow_le_pow_right (by omega) hri) _
      · rcases hnew c hc with hc | ⟨hrc, hci, hbase⟩
        · exact Or.inl (List.mem_of_mem_erase hc)
        · refine Or.inr ⟨hbase, fun d hd heq => ?_⟩
          have := hskip d hd (by omega)
          omega

/-- Empty lists have no block for any request. -/
theorem getBlock_empty (hfree : ∀ i, s.heap.free i = 0) (i r : ℕ) :
    getBlock i r s = .ok 0 s ∨ getBlock i r s = .error .outOfBounds s := by
  by_cases hi : 32 ≤ i
  · rw [getBlock, dif_pos hi]
    exact Or.inr rfl
  · rw [getBlock, dif_neg hi, bind_ok get_run]
    split
    · exact Or.inl rfl
    · rw [bind_ok (getFree_run (by omega)), if_pos (hfree i)]
      exact getBlock_empty hfree (i + 1) r
termination_by 32 - i

/-! ## Returning blocks -/

/-- The tested bit tells the lower half of a pair from the upper half. -/
theorem land_two_pow_eq_zero {base i : ℕ} (h : 2 ^ i ∣ base) :
    (base &&& 2 ^ i = 0 → 2 ^ (i + 1) ∣ base) ∧
      (base &&& 2 ^ i ≠ 0 → 2 ^ i ≤ base ∧ 2 ^ (i + 1) ∣ base - 2 ^ i) := by
  obtain ⟨q, rfl⟩ := h
  have hdiv : 2 ^ i * q / 2 ^ i = q := Nat.mul_div_cancel_left _ (Nat.two_pow_pos i)
  have hbit : 2 ^ i * q &&& 2 ^ i = 2 ^ i * (q % 2) := by
    rw [Nat.and_two_pow, Nat.testBit_eq_decide_div_mod_eq, hdiv, mul_comm]
    rcases Nat.mod_two_eq_zero_or_one q with hq | hq <;> simp [hq]
  rw [hbit]
  constructor
  · intro h0
    have hq : q % 2 = 0 := by
      rcases Nat.mul_eq_zero.mp h0 with h0 | h0
      · exact absurd h0 (Nat.two_pow_pos i).ne'
      · exact h0
    rw [pow_succ]
    exact Nat.mul_dvd_mul_left _ (Nat.dvd_of_mod_eq_zero hq)
  · intro h1
    have hq : q % 2 = 1 := by
      rcases Nat.mod_two_eq_zero_or_one q with hq | hq
      · simp [hq] at h1
      · exact hq
    refine ⟨Nat.le_mul_of_pos_right _ (by omega), ?_⟩
    have : 2 ^ i * q - 2 ^ i = 2 ^ i * (q - 1) := by rw [Nat.mul_sub_one]
    rw [this, pow_succ]
    exact Nat.mul_dvd_mul_left _ (Nat.dvd_of_mod_eq_zero (by omega))

/-- The block next to `b` with which it makes an aligned block of twice the size. -/
def companion (b : Block) : Block :=
  ⟨if b.base &&& 2 ^ b.order = 0 then u32 (b.base + 2 ^ b.order)
    else u32 (b.base + 0x100000000 - 2 ^ b.order), b.order⟩

/-- The union of a block and its companion. -/
def merged (b : Block) : Block :=
  ⟨if b.base &&& 2 ^ b.order = 0 then b.base else u32 (b.base + 0x100000000 - 2 ^ b.order), b.order + 1⟩

/-- A block and a companion in the same heap are the halves of an aligned block. -/
theorem merged_halves {b : Block} (h : HeapInv s F (companion b :: b :: H))
    (hc : (companion b).base ≠ 0) (hb : b.base ≠ 0) :
    (merged b).Aligned ∧ (merged b).base ≠ 0 ∧
      ((merged b).lower :: (merged b).upper :: H).Perm (companion b :: b :: H) := by
  obtain ⟨hlow, hhigh⟩ := land_two_pow_eq_zero (h.aligned b (by simp))
  have hbounds := h.tiling.bounds (b := b) (by simp)
  have htop := h.top
  have hpos : 0 < 2 ^ b.order := Nat.two_pow_pos _
  unfold Block.size at hbounds
  unfold companion merged at *
  by_cases hbit : b.base &&& 2 ^ b.order = 0
  · simp only [hbit, if_true, Block.Aligned, Block.size, Block.lower, Block.upper,
      Nat.add_sub_cancel] at hc ⊢
    have hwrap : u32 (b.base + 2 ^ b.order) = b.base + 2 ^ b.order := by
      rcases Nat.lt_or_ge (b.base + 2 ^ b.order) 0x100000000 with hlt | hge
      · exact Nat.mod_eq_of_lt hlt
      · have heq : b.base + 2 ^ b.order = 0x100000000 := by omega
        rw [heq] at hc
        exact absurd (by decide) hc
    rw [hwrap]
    exact ⟨hlow hbit, hb, List.Perm.swap _ _ _⟩
  · obtain ⟨hge, hdvd⟩ := hhigh hbit
    have hwrap : u32 (b.base + 0x100000000 - 2 ^ b.order) = b.base - 2 ^ b.order := by
      unfold u32
      omega
    simp only [hbit, if_false, hwrap, Block.Aligned, Block.size, Block.lower, Block.upper,
      Nat.add_sub_cancel, Nat.sub_add_cancel hge] at hc ⊢
    exact ⟨hdvd, hc, List.Perm.refl _⟩

/-- The other half of an aligned block is the companion, unless it starts at the null address. -/
theorem companion_halves {p : Block} (hp : p.Aligned) (ho : 0 < p.order)
    (htop : p.base + p.size ≤ 0x100000000) :
    companion p.lower = p.upper ∧ companion p.upper = p.lower := by
  obtain ⟨base, _ | n⟩ := p
  · simp at ho
  obtain ⟨q, rfl⟩ : 2 ^ (n + 1) ∣ base := hp
  have hpos := Nat.two_pow_pos n
  have hsize : 2 ^ (n + 1) = 2 ^ n + 2 ^ n := by rw [pow_succ]; omega
  have hlow : 2 ^ (n + 1) * q &&& 2 ^ n = 0 := by
    have hdvd : 2 ^ n ∣ 2 ^ (n + 1) * q := Dvd.dvd.mul_right (pow_dvd_pow 2 (Nat.le_succ n)) q
    have hfirst := land_two_pow_eq_zero hdvd
    by_contra hne
    obtain ⟨hle, r, hr⟩ := hfirst.2 hne
    have hr' : 2 ^ (n + 1) * q = 2 ^ (n + 1) * r + 2 ^ n := by omega
    have hmod := congrArg (· % 2 ^ (n + 1)) hr'
    simp only [Nat.mul_mod_right, Nat.mul_add_mod] at hmod
    rw [Nat.mod_eq_of_lt (by omega)] at hmod
    omega
  have hup : (2 ^ (n + 1) * q + 2 ^ n) &&& 2 ^ n ≠ 0 := by
    have hdvd : 2 ^ n ∣ 2 ^ (n + 1) * q + 2 ^ n :=
      Nat.dvd_add (Dvd.dvd.mul_right (pow_dvd_pow 2 (Nat.le_succ n)) q) (dvd_refl _)
    have hfirst := land_two_pow_eq_zero hdvd
    intro hzero
    have hmod := Nat.mod_eq_zero_of_dvd (hfirst.1 hzero)
    rw [Nat.mul_add_mod, Nat.mod_eq_of_lt (by omega)] at hmod
    omega
  simp only [Block.size] at htop
  generalize 2 ^ (n + 1) * q = base at *
  simp only [companion, Block.lower, Block.upper, Nat.add_sub_cancel, hlow, hup, if_true, if_false,
    Block.mk.injEq, and_true, u32]
  omega

/-- A block whose companion is not free leaves nothing to merge. -/
theorem HeapInv.coalesced_cons {b : Block} (h : HeapInv s F (b :: H)) (hF : Coalesced F)
    (hmem : (companion b).base ∉ basesOf F b.order) : Coalesced (b :: F) := by
  have hmissing : companion b ∉ F := fun hc => hmem (mem_basesOf.mpr hc)
  have htop := h.top
  have hbound {c : Block} (hc : c ∈ F ++ b :: H) : c.base + c.size ≤ 0x100000000 :=
    (h.tiling.bounds hc).2.trans htop
  have hsum {p : Block} (ho : 0 < p.order) : p.upper.base + p.upper.size = p.base + p.size := by
    obtain ⟨base, _ | n⟩ := p
    · simp at ho
    · simp only [Block.upper, Block.size_succ, Nat.add_sub_cancel]
      simp only [Block.size]
      omega
  refine hF.cons (fun p ho hp hlow hup => ?_) fun p ho hp hup hlow => ?_
  · have hend := hbound (List.mem_append_left _ hup)
    rw [hsum ho] at hend
    exact hmissing (by rw [hlow, (companion_halves hp ho hend).1]; exact hup)
  · have hend := hbound (c := b) (by simp)
    rw [hup, hsum ho] at hend
    exact hmissing (by rw [hup, (companion_halves hp ho hend).2]; exact hlow)

/-- One round of `update_free_array`, over the companion and the union. -/
theorem updateFreeArray_step {b : Block} (hi : b.order < 32) :
    updateFreeArray b.base b.order s =
      (match scanFree s.mem (companion b).base 0x100000000 .head (s.heap.free b.order) with
      | none => throw .endlessList
      | some none => pushFree b.order b.base
      | some (some prev) => do
        writeSlot b.order prev (← readNext (companion b).base)
        updateFreeArray (merged b).base (b.order + 1) : HeapM Unit) s := by
  rw [updateFreeArray, dif_neg (by omega)]
  simp only [bind_ok get_run]
  rfl

/-- `update_free_array` gives the block in hand back to the lists, and leaves nothing to
merge where there was nothing to merge. -/
theorem updateFreeArray_spec {b : Block} (h : HeapInv s F (b :: H)) (ho : 2 ≤ b.order)
    (hb : b.base ≠ 0) : ∃ s' F', updateFreeArray b.base b.order s = .ok () s' ∧
      HeapInv s' F' H ∧ HeapFrame s s' H ∧ (Coalesced F → Coalesced F') := by
  induction hm : 32 - b.order generalizing b s F with
  | zero =>
    have := h.order_lt (b := b) (by simp)
    omega
  | succ m ih =>
    have hi : b.order < 32 := by omega
    have hlist := h.linked b.order hi
    have hlen := h.length_basesOf_lt b.order
    rw [updateFreeArray_step hi]
    by_cases hmem : (companion b).base ∈ basesOf F b.order
    · -- the companion is free: unlink it and go on with the union
      obtain ⟨l₁, l₂, hl, hnot⟩ := List.eq_append_cons_of_mem hmem
      have hshort : l₁.length < 0x100000000 := by
        rw [hl, List.length_append, List.length_cons] at hlen
        omega
      rw [hl] at hlist
      rw [scanFree_found hlist hnot hshort]
      obtain ⟨s₁, hrun, hinv, hframe⟩ := h.unlink hi hl
      have hcompanion : (companion b).base ≠ 0 := h.nonnull _ (mem_basesOf.mp hmem)
      obtain ⟨haligned, hnull, hperm⟩ := merged_halves hinv hcompanion hb
      have hmerge := (hinv.perm hperm.symm).merge (Nat.succ_pos b.order) haligned
      obtain ⟨s', F', hrun', hinv', hframe', hcoal⟩ :=
        ih hmerge (Nat.le_succ_of_le ho) hnull (by change 32 - (b.order + 1) = m; omega)
      refine ⟨s', F', ?_, hinv', (hframe.mono fun c hc => List.mem_cons_of_mem _ hc).trans hframe',
        fun hF => hcoal (hF.mono fun c hc => List.mem_of_mem_erase hc)⟩
      simp only [bind_ok (readNext_run _), bind_ok hrun]
      exact hrun'
    · -- the companion is not free: the block joins its list
      rw [scanFree_missing hlist hmem hlen]
      obtain ⟨hinv, hframe⟩ := h.push ho hb
      exact ⟨_, _, pushFree_run hi _, hinv, hframe, fun hF => h.coalesced_cons hF hmem⟩

/-! ## Cutting a new segment -/

/-- The loop of `heap_init` pushes the lower half of what is left until the block of the
`alloc[]` array remains. A half at address 0 is the null pointer: it is lost. -/
theorem initFreeBlocks_spec {m n base : ℕ} {lost : List Block}
    (h : HeapInv s F (⟨base, n + 1⟩ :: lost)) (hm : 2 ≤ m) (hmn : m ≤ n + 1)
    (hempty : ∀ i ≤ n, basesOf F i = []) :
    ∃ s' F' lost', initFreeBlocks m n base s = .ok () s' ∧
      HeapInv s' F' (⟨base + 2 ^ (n + 1) - 2 ^ m, m⟩ :: lost') ∧
      HeapFrame s s' [⟨base + 2 ^ (n + 1) - 2 ^ m, m⟩] ∧
      (lost' = lost ∨ base = 0 ∧ lost' = ⟨0, n⟩ :: lost) ∧ (Coalesced F → Coalesced F') := by
  induction n generalizing s F base lost with
  | zero => omega
  | succ n ih =>
    have hpow : 2 ^ (n + 2) = 2 ^ (n + 1) + 2 ^ (n + 1) := by rw [pow_succ]; omega
    have hn : n + 1 < 32 := Nat.lt_of_succ_lt (h.order_lt (b := ⟨base, n + 2⟩) (by simp))
    rw [initFreeBlocks]
    by_cases hlt : n + 1 < m
    · obtain rfl : m = n + 2 := by omega
      rw [Nat.add_sub_cancel]
      simp only [if_pos hlt]
      exact ⟨s, F, lost, rfl, h, HeapFrame.refl _ _, Or.inl rfl, id⟩
    · have hle : 2 ^ m ≤ 2 ^ (n + 1) := Nat.pow_le_pow_right (by omega) (by omega)
      have hsplit := h.split (Nat.succ_pos _)
      simp only [Block.lower, Block.upper, Nat.add_sub_cancel] at hsplit
      have hnew : u32 (base + 2 ^ (n + 1)) = base + 2 ^ (n + 1) :=
        Nat.mod_eq_of_lt (hsplit.base_lt (b := ⟨base + 2 ^ (n + 1), n + 1⟩) (by simp))
      have hnull : s.heap.free (n + 1) = 0 := by
        have hlist := h.linked (n + 1) hn
        rw [hempty (n + 1) le_rfl] at hlist
        exact hlist
      simp only [if_neg hlt, hnew]
      -- the rest of the loop works on the upper half
      have hrest {F₁ lost₁ : List Block} {s₁ : HeapState}
          (hinv : HeapInv s₁ F₁ (⟨base + 2 ^ (n + 1), n + 1⟩ :: lost₁))
          (hframe : HeapFrame s s₁ [⟨base + 2 ^ (n + 1), n + 1⟩])
          (hempty₁ : ∀ i ≤ n, basesOf F₁ i = [])
          (hlost : lost₁ = lost ∨ base = 0 ∧ lost₁ = ⟨0, n + 1⟩ :: lost)
          (hF : Coalesced F → Coalesced F₁) :
          ∃ s' F' lost', initFreeBlocks m n (base + 2 ^ (n + 1)) s₁ = .ok () s' ∧
            HeapInv s' F' (⟨base + 2 ^ (n + 2) - 2 ^ m, m⟩ :: lost') ∧
            HeapFrame s s' [⟨base + 2 ^ (n + 2) - 2 ^ m, m⟩] ∧
            (lost' = lost ∨ base = 0 ∧ lost' = ⟨0, n + 1⟩ :: lost) ∧
            (Coalesced F → Coalesced F') := by
        obtain ⟨s', F', lost', hrun, hinv', hframe', hlost', hF'⟩ := ih hinv (by omega) hempty₁
        rw [show base + 2 ^ (n + 2) - 2 ^ m = base + 2 ^ (n + 1) + 2 ^ (n + 1) - 2 ^ m by omega]
        have hsub : HeapFrame s s₁ [⟨base + 2 ^ (n + 1) + 2 ^ (n + 1) - 2 ^ m, m⟩] := by
          refine { hframe with mem := fun b hb x hx => hframe.mem _ (List.mem_singleton.mpr rfl) x ?_ }
          rw [List.mem_singleton.mp hb] at hx
          simp only [Block.Has, Block.size] at hx ⊢
          omega
        have hpos : 0 < 2 ^ (n + 1) := Nat.two_pow_pos _
        obtain rfl : lost' = lost₁ := by
          rcases hlost' with hlost' | ⟨hzero, -⟩
          · exact hlost'
          · omega
        exact ⟨s', F', lost', hrun, hinv', hsub.trans hframe', hlost, fun hc => hF' (hF hc)⟩
      have hrun : (do setFree (n + 1) base; writeNext base 0
                      initFreeBlocks m n (base + 2 ^ (n + 1)) : HeapM Unit) s =
          initFreeBlocks m n (base + 2 ^ (n + 1)) (s.push (n + 1) base) := by
        rw [bind_ok (setFree_run hn _), bind_ok (writeNext_run _ _), HeapState.push, hnull]
      rw [hrun]
      by_cases hb : base = 0
      · -- the lower half starts at the null address and is never found again
        subst hb
        refine @hrest F (⟨0, n + 1⟩ :: lost) _ ?_ ?_
          (fun i hi => hempty i (by omega)) (Or.inr ⟨rfl, rfl⟩) id
        · refine HeapInv.perm { hsplit with linked := fun i hi => ?_ } (List.Perm.swap _ _ _)
          have hsame : (s.push (n + 1) 0).heap.free = s.heap.free := by
            rw [HeapState.push, ← hnull, Function.update_eq_self]
          rw [hsame]
          exact (h.linked i hi).frame fun a ha =>
            h.linked_write List.mem_cons_self (show 2 ≤ n + 2 by omega) _ ⟨a, i⟩ (mem_basesOf.mp ha)
        · refine ⟨rfl, rfl, rfl, rfl, rfl, fun b hb x hx => writeWord_apart _ _ (Or.inr ?_)⟩
          have hfour : 2 ^ 2 ≤ 2 ^ (n + 1) := Nat.pow_le_pow_right (by omega) (by omega)
          rw [List.mem_singleton.mp hb] at hx
          simp only [Block.Has] at hx
          omega
      · obtain ⟨hinv, hframe⟩ := hsplit.push (show 2 ≤ n + 1 by omega) hb
        refine hrest hinv (hframe.mono (by simp)) (fun i hi => ?_) (Or.inl rfl) fun hF => ?_
        · rw [basesOf_cons, if_neg (show n + 1 ≠ i by omega)]
          exact hempty i (by omega)
        · refine hF.extend (fun _ => base) fun c hc => ?_
          rcases List.mem_cons.mp hc with rfl | hc
          · refine Or.inr ⟨rfl, fun d hd ho => ?_⟩
            have hnone := mem_basesOf.mpr hd
            rw [ho, hempty (n + 1) le_rfl] at hnone
            exact absurd hnone (by simp)
          · exact Or.inl hc

end GietVm.Malloc
