import GietVm.Library.Word
import Mathlib.Data.List.Basic
import Mathlib.Data.Nat.Bitwise

/-!
# Physical page allocation

The boot loader allocates the physical pages of a cluster from the first RAM segment of the
cluster and never releases them (`pmem.c`). A page index of 28 bits holds the cluster
coordinates, the index of a big page of 2 Mbytes and the index of a small page of 4 Kbytes in
it. Big pages are taken one after the other; small pages are taken from a current big page,
and a new big page is taken when the current one has not enough small pages left.

A request for more than 512 small pages does not fit into any big page and is not refused, so
its range runs over the following big pages, which are allocated again. The requests that do
fit, and the big ones whose sum does not wrap around, get disjoint ranges.
-/

namespace GietVm.Boot

open Library

/-- The allocator of a cluster, `pmem_alloc_t`. -/
structure PmemAlloc where
  x : ℕ
  y : ℕ
  maxBppi : ℕ
  nxtBppi : ℕ
  maxSppi : ℕ
  nxtSppi : ℕ
  sppBppi : ℕ
  deriving DecidableEq

/-- `_pmem_alloc_init`; none when it exits. The current big page for small pages keeps its
old value `sppBppi`. -/
def pmemAllocInit (x y base size sppBppi : ℕ) : Option PmemAlloc :=
  if base &&& 0x1FFFFF ≠ 0 ∨ size &&& 0x1FFFFF ≠ 0 then none
  else
    let bppiMin := base >>> 21
    let bppiMax := add32 base size >>> 21
    some { x, y, maxBppi := bppiMax, nxtBppi := if x = 0 ∧ y = 0 then bppiMin + 1 else bppiMin,
           maxSppi := 0, nxtSppi := 0, sppBppi }

/-- `_get_big_ppn`; none when it exits. -/
def getBigPpn (p : PmemAlloc) (n : ℕ) : Option (ℕ × PmemAlloc) :=
  let bpi := p.nxtBppi
  if p.maxBppi < add32 bpi n then none
  else
    some (add32 (add32 (shl32 p.x 24) (shl32 p.y 20)) (shl32 bpi 9),
      { p with nxtBppi := add32 bpi n })

/-- The part of `_get_small_ppn` that takes a new big page; none when it exits. -/
def newSmallPage (p : PmemAlloc) : Option PmemAlloc :=
  if p.maxBppi < add32 p.nxtBppi 1 then none
  else
    some { p with sppBppi := p.nxtBppi, nxtBppi := add32 p.nxtBppi 1, nxtSppi := 0,
                  maxSppi := 512 }

/-- `_get_small_ppn`; none when it exits. -/
def getSmallPpn (p : PmemAlloc) (n : ℕ) : Option (ℕ × PmemAlloc) := do
  let p ← if p.maxSppi < add32 p.nxtSppi n then newSmallPage p else some p
  some (add32 (add32 (add32 (shl32 p.x 24) (shl32 p.y 20)) (shl32 p.sppBppi 9)) p.nxtSppi,
    { p with nxtSppi := add32 p.nxtSppi n })

/-- A request for big or small pages. -/
inductive Request
  | big (n : ℕ)
  | small (n : ℕ)
  deriving DecidableEq

/-- A range of small pages: the index of the first one and their number. -/
structure PageRange where
  first : ℕ
  count : ℕ
  deriving DecidableEq

/-- The range that a request is given, and the allocator after it. -/
def allocate (p : PmemAlloc) : Request → Option (PageRange × PmemAlloc)
  | .big n => (getBigPpn p n).map fun r => (⟨r.1, 512 * n⟩, r.2)
  | .small n => (getSmallPpn p n).map fun r => (⟨r.1, n⟩, r.2)

/-- The number of pages of a request. -/
def Request.count : Request → ℕ
  | .big n => n
  | .small n => n

/-- The runs of requests that return, each of which meets a condition: the allocator and the
ranges given so far. -/
inductive Run (meets : PmemAlloc → Request → Prop) (p₀ : PmemAlloc) :
    PmemAlloc → List PageRange → Prop
  | refl : Run meets p₀ p₀ []
  | step {p granted} (r : Request) {range p'} (h : Run meets p₀ p granted)
      (hpos : 1 ≤ r.count) (hlt : r.count < 0x100000000) (hmeets : meets p r)
      (halloc : allocate p r = some (range, p')) : Run meets p₀ p' (range :: granted)

/-! ## Ranges -/

/-- Two ranges have no page in common. -/
def PageRange.Disjoint (r q : PageRange) : Prop :=
  r.first + r.count ≤ q.first ∨ q.first + q.count ≤ r.first

/-- The page index of the first small page of a cluster. -/
def clusterPpn (x y : ℕ) : ℕ := x * 2 ^ 24 + y * 2 ^ 20

/-- The ranges are pairwise disjoint and lie inside the segment, beyond its first big page in
cluster (0,0). -/
def Sound (x y base size : ℕ) (granted : List PageRange) : Prop :=
  granted.Pairwise PageRange.Disjoint ∧
  ∀ r ∈ granted, clusterPpn x y + base / 2 ^ 12 ≤ r.first ∧
    r.first + r.count ≤ clusterPpn x y + (base + size) / 2 ^ 12 ∧
    (x = 0 ∧ y = 0 → base / 2 ^ 12 + 512 ≤ r.first)

/-- A small request fits into one big page, and the sum of a big request does not wrap
around. -/
def Fits (p : PmemAlloc) : Request → Prop
  | .big n => p.nxtBppi + n < 0x100000000
  | .small n => n ≤ 512

/-! ## The invariant -/

variable {x y lo hi : ℕ} {p p' : PmemAlloc} {granted : List PageRange}

/-- The allocator of a cluster whose big pages `lo, …, hi - 1` may be allocated. The ranges
lie below the next big page, and apart from the free part of the current one. -/
structure Inv (x y lo hi : ℕ) (p : PmemAlloc) (granted : List PageRange) : Prop where
  x_eq : p.x = x
  y_eq : p.y = y
  max_eq : p.maxBppi = hi
  lo_le : lo ≤ p.nxtBppi
  nxt_le : p.nxtBppi = lo ∨ p.nxtBppi ≤ hi
  small : p.maxSppi = 0 ∧ p.nxtSppi = 0 ∨
    p.maxSppi = 512 ∧ p.nxtSppi ≤ 512 ∧ lo ≤ p.sppBppi ∧ p.sppBppi < p.nxtBppi ∧ p.sppBppi < hi
  lower : ∀ r ∈ granted, clusterPpn x y + lo * 512 ≤ r.first
  upper : ∀ r ∈ granted, r.first + r.count ≤ clusterPpn x y + hi * 512
  below : ∀ r ∈ granted, r.first + r.count ≤ clusterPpn x y + p.nxtBppi * 512
  apart : p.maxSppi = 512 → ∀ r ∈ granted,
    r.Disjoint ⟨clusterPpn x y + p.sppBppi * 512 + p.nxtSppi, 512 - p.nxtSppi⟩
  pairwise : granted.Pairwise PageRange.Disjoint

/-- The index that is composed from the coordinates and a big page. -/
theorem bigPpn_eq {bpi : ℕ} (hx : x < 16) (hy : y < 16) (hbpi : bpi < 2048) :
    add32 (add32 (shl32 x 24) (shl32 y 20)) (shl32 bpi 9) = clusterPpn x y + bpi * 512 := by
  have hx' : shl32 x 24 = x * 2 ^ 24 := shl32_eq (by omega)
  have hy' : shl32 y 20 = y * 2 ^ 20 := shl32_eq (by omega)
  have hb' : shl32 bpi 9 = bpi * 512 := shl32_eq (by omega)
  have hxy : add32 (x * 2 ^ 24) (y * 2 ^ 20) = x * 2 ^ 24 + y * 2 ^ 20 := add32_eq (by omega)
  rw [hx', hy', hb', hxy, clusterPpn]
  exact add32_eq (by omega)

/-- The index that is composed from the coordinates, a big page and a small page in it. -/
theorem smallPpn_eq {bpi spi : ℕ} (hx : x < 16) (hy : y < 16) (hbpi : bpi < 2048)
    (hspi : spi ≤ 512) :
    add32 (add32 (add32 (shl32 x 24) (shl32 y 20)) (shl32 bpi 9)) spi =
      clusterPpn x y + bpi * 512 + spi := by
  rw [bigPpn_eq hx hy hbpi]
  apply add32_eq
  rw [clusterPpn]
  omega

/-- A big request that does not wrap around is given the next big pages. -/
theorem getBigPpn_spec {n ppn : ℕ} (hx : p.x < 16) (hy : p.y < 16) (hmax : p.maxBppi < 2048)
    (hpos : 1 ≤ n) (hn : p.nxtBppi + n < 0x100000000) (h : getBigPpn p n = some (ppn, p')) :
    p.nxtBppi + n ≤ p.maxBppi ∧ ppn = clusterPpn p.x p.y + p.nxtBppi * 512 ∧
      p' = { p with nxtBppi := p.nxtBppi + n } := by
  rw [getBigPpn, add32_eq hn] at h
  split at h
  · cases h
  · rename_i hroom
    rw [bigPpn_eq hx hy (by omega)] at h
    obtain ⟨hppn, hp'⟩ := Prod.mk.inj (Option.some.inj h)
    exact ⟨by omega, hppn.symm, hp'.symm⟩

/-- A new big page for small pages is the next one. -/
theorem newSmallPage_spec (hnxt : p.nxtBppi ≤ 2048) (h : newSmallPage p = some p') :
    p.nxtBppi + 1 ≤ p.maxBppi ∧
      p' = { p with sppBppi := p.nxtBppi, nxtBppi := p.nxtBppi + 1, nxtSppi := 0,
                    maxSppi := 512 } := by
  have hsum : add32 p.nxtBppi 1 = p.nxtBppi + 1 := add32_eq (by omega)
  rw [newSmallPage, hsum] at h
  split at h
  · cases h
  · rename_i hroom
    exact ⟨by omega, (Option.some.inj h).symm⟩

/-- A request for at most 512 small pages is given the next ones of the current big page, or
the first ones of the next big page. -/
theorem getSmallPpn_spec {n ppn : ℕ} (hx : p.x < 16) (hy : p.y < 16) (hnxt : p.nxtBppi ≤ 2048)
    (hmax : p.maxBppi < 2048) (hspp : p.maxSppi ≠ 0 → p.sppBppi < 2048)
    (hsppi : p.nxtSppi ≤ p.maxSppi ∧ p.maxSppi ≤ 512) (hpos : 1 ≤ n) (hn : n ≤ 512)
    (h : getSmallPpn p n = some (ppn, p')) :
    (p.nxtSppi + n ≤ p.maxSppi ∧ ppn = clusterPpn p.x p.y + p.sppBppi * 512 + p.nxtSppi ∧
      p' = { p with nxtSppi := p.nxtSppi + n }) ∨
    (p.nxtBppi + 1 ≤ p.maxBppi ∧ ppn = clusterPpn p.x p.y + p.nxtBppi * 512 ∧
      p' = { p with sppBppi := p.nxtBppi, nxtBppi := p.nxtBppi + 1, nxtSppi := n,
                    maxSppi := 512 }) := by
  have hsum : add32 p.nxtSppi n = p.nxtSppi + n := add32_eq (by omega)
  rw [getSmallPpn, hsum] at h
  split at h
  · obtain ⟨q, hq, hrest⟩ := Option.bind_eq_some_iff.mp h
    obtain ⟨hroom, hq⟩ := newSmallPage_spec hnxt hq
    have hzero : add32 0 n = n := (add32_eq (a := 0) (by omega)).trans (Nat.zero_add n)
    rw [hq] at hrest
    dsimp only at hrest
    rw [smallPpn_eq hx hy (by omega) (Nat.zero_le _), hzero, Nat.add_zero] at hrest
    obtain ⟨hppn, hp'⟩ := Prod.mk.inj (Option.some.inj hrest)
    exact Or.inr ⟨hroom, hppn.symm, hp'.symm⟩
  · rename_i hroom
    obtain ⟨q, hq, hrest⟩ := Option.bind_eq_some_iff.mp h
    obtain rfl := Option.some.inj hq
    dsimp only at hrest
    rw [smallPpn_eq hx hy (hspp (by omega)) (by omega), hsum] at hrest
    obtain ⟨hppn, hp'⟩ := Prod.mk.inj (Option.some.inj hrest)
    exact Or.inl ⟨by omega, hppn.symm, hp'.symm⟩

/-- Every request that meets the condition and returns keeps the invariant. -/
theorem Inv.allocate (h : Inv x y lo hi p granted) (hx : x < 16) (hy : y < 16) (hhi : hi < 2048)
    (hlo : lo ≤ 2048) {r : Request} {range : PageRange} (hpos : 1 ≤ r.count) (hfits : Fits p r)
    (halloc : allocate p r = some (range, p')) : Inv x y lo hi p' (range :: granted) := by
  have hmax := h.max_eq
  have hnxt := h.nxt_le
  have hlow := h.lo_le
  have hsmall := h.small
  cases r with
  | big n =>
    obtain ⟨⟨ppn, q⟩, hget, heq⟩ := Option.map_eq_some_iff.mp halloc
    simp only [Prod.mk.injEq] at heq
    obtain ⟨rfl, rfl⟩ := heq
    have hpos : 1 ≤ n := hpos
    obtain ⟨hroom, rfl, rfl⟩ := getBigPpn_spec (h.x_eq ▸ hx) (h.y_eq ▸ hy) (by omega) hpos
      hfits hget
    rw [h.x_eq, h.y_eq]
    refine ⟨rfl, rfl, hmax, by dsimp only; omega, by dsimp only; omega,
      by dsimp only; omega, ?_, ?_, ?_, ?_, ?_⟩
    · refine List.forall_mem_cons.mpr ⟨?_, h.lower⟩
      dsimp only
      omega
    · refine List.forall_mem_cons.mpr ⟨?_, h.upper⟩
      dsimp only
      omega
    · refine List.forall_mem_cons.mpr ⟨?_, fun q hq => ?_⟩
      · dsimp only
        omega
      · exact (h.below q hq).trans
          (Nat.add_le_add_left (Nat.mul_le_mul_right _ (Nat.le_add_right _ _)) _)
    · intro hfree
      refine List.forall_mem_cons.mpr ⟨Or.inr ?_, h.apart hfree⟩
      dsimp only at hfree ⊢
      omega
    · refine List.pairwise_cons.mpr ⟨fun q hq => Or.inr ?_, h.pairwise⟩
      exact h.below q hq
  | small n =>
    obtain ⟨⟨ppn, q⟩, hget, heq⟩ := Option.map_eq_some_iff.mp halloc
    simp only [Prod.mk.injEq] at heq
    obtain ⟨rfl, rfl⟩ := heq
    have hpos : 1 ≤ n := hpos
    obtain ⟨hroom, rfl, rfl⟩ | ⟨hroom, rfl, rfl⟩ := getSmallPpn_spec (h.x_eq ▸ hx) (h.y_eq ▸ hy)
      (by omega) (by omega) (by omega) (by omega) hpos hfits hget
    · -- the next pages of the current big page
      have hpages : p.maxSppi = 512 := by omega
      rw [h.x_eq, h.y_eq]
      refine ⟨rfl, rfl, hmax, hlow, hnxt, by dsimp only; omega, ?_, ?_, ?_, ?_, ?_⟩
      · refine List.forall_mem_cons.mpr ⟨?_, h.lower⟩
        dsimp only
        omega
      · refine List.forall_mem_cons.mpr ⟨?_, h.upper⟩
        dsimp only
        omega
      · refine List.forall_mem_cons.mpr ⟨?_, h.below⟩
        dsimp only
        omega
      · intro _
        refine List.forall_mem_cons.mpr ⟨Or.inl ?_, fun q hq => ?_⟩
        · dsimp only
          omega
        · have hapart := h.apart hpages q hq
          simp only [PageRange.Disjoint] at hapart ⊢
          omega
      · refine List.pairwise_cons.mpr ⟨fun q hq => ?_, h.pairwise⟩
        have hapart := h.apart hpages q hq
        simp only [PageRange.Disjoint] at hapart ⊢
        omega
    · -- the first pages of the next big page
      rw [h.x_eq, h.y_eq]
      have hn : n ≤ 512 := hfits
      refine ⟨rfl, rfl, hmax, by dsimp only; omega, by dsimp only; omega,
        by dsimp only; omega, ?_, ?_, ?_, ?_, ?_⟩
      · refine List.forall_mem_cons.mpr ⟨?_, h.lower⟩
        dsimp only
        omega
      · refine List.forall_mem_cons.mpr ⟨?_, h.upper⟩
        dsimp only
        omega
      · refine List.forall_mem_cons.mpr ⟨?_, fun q hq => ?_⟩
        · dsimp only
          omega
        · exact (h.below q hq).trans
            (Nat.add_le_add_left (Nat.mul_le_mul_right _ (Nat.le_succ _)) _)
      · intro _
        refine List.forall_mem_cons.mpr ⟨Or.inl le_rfl, fun q hq => Or.inl ?_⟩
        exact (h.below q hq).trans (Nat.le_add_right _ _)
      · refine List.pairwise_cons.mpr ⟨fun q hq => Or.inr ?_, h.pairwise⟩
        exact h.below q hq

/-! ## Runs -/

/-- The initial allocator may allocate the big pages of the segment, without the first one in
cluster (0,0). -/
theorem pmemAllocInit_inv {base size sppBppi : ℕ} (hbase : base < 0x100000000)
    (h : pmemAllocInit x y base size sppBppi = some p) :
    2 ^ 21 ∣ base ∧ ∃ lo hi, Inv x y lo hi p [] ∧ hi < 2048 ∧ lo ≤ 2048 ∧ base / 2 ^ 21 ≤ lo ∧
      (x = 0 ∧ y = 0 → lo = base / 2 ^ 21 + 1) ∧ hi ≤ (base + size) / 2 ^ 21 := by
  rw [pmemAllocInit] at h
  split at h
  · cases h
  · rename_i haligned
    push Not at haligned
    have hdvd : 2 ^ 21 ∣ base := by
      have hmask := Nat.and_two_pow_sub_one_eq_mod base 21
      exact Nat.dvd_of_mod_eq_zero (hmask.symm.trans haligned.1)
    obtain rfl := Option.some.inj h
    refine ⟨hdvd, _, _, ⟨rfl, rfl, rfl, le_rfl, Or.inl rfl, Or.inl ⟨rfl, rfl⟩, nofun, nofun,
      nofun, nofun, List.Pairwise.nil⟩, ?_, ?_, ?_, ?_, ?_⟩
    · have hlt := add32_lt base size
      rw [Nat.shiftRight_eq_div_pow]
      exact Nat.div_lt_of_lt_mul hlt
    · change (if x = 0 ∧ y = 0 then base >>> 21 + 1 else base >>> 21) ≤ 2048
      rw [Nat.shiftRight_eq_div_pow]
      split <;> omega
    · change _ ≤ if x = 0 ∧ y = 0 then base >>> 21 + 1 else base >>> 21
      rw [Nat.shiftRight_eq_div_pow]
      split <;> omega
    · intro hzero
      change (if x = 0 ∧ y = 0 then base >>> 21 + 1 else base >>> 21) = _
      rw [if_pos hzero, Nat.shiftRight_eq_div_pow]
    · rw [Nat.shiftRight_eq_div_pow]
      exact Nat.div_le_div_right (Nat.mod_le _ _)

/-- The invariant holds after every run whose requests meet the condition. -/
theorem Run.inv {p₀ : PmemAlloc} (h : Run Fits p₀ p granted) (hx : x < 16) (hy : y < 16)
    (hhi : hi < 2048) (hlo : lo ≤ 2048) (h₀ : Inv x y lo hi p₀ []) :
    Inv x y lo hi p granted := by
  induction h with
  | refl => exact h₀
  | step r _ hpos _ hmeets halloc ih => exact ih.allocate hx hy hhi hlo hpos hmeets halloc

/-- The ranges that a run of fitting requests is given are pairwise disjoint and lie inside
the segment, for every cluster, every segment and every order of requests. -/
theorem run_sound {base size sppBppi : ℕ} {p₀ : PmemAlloc} (hx : x < 16) (hy : y < 16)
    (hbase : base < 0x100000000) (hinit : pmemAllocInit x y base size sppBppi = some p₀)
    (hrun : Run Fits p₀ p granted) : Sound x y base size granted := by
  obtain ⟨hdvd, lo, hi, hinv₀, hhi, hlo, hbaselo, hfirst, hend⟩ := pmemAllocInit_inv hbase hinit
  have hinv := hrun.inv hx hy hhi hlo hinv₀
  refine ⟨hinv.pairwise, fun r hr => ⟨?_, ?_, fun hzero => ?_⟩⟩
  · have := hinv.lower r hr
    omega
  · have := hinv.upper r hr
    omega
  · have hlower := hinv.lower r hr
    have := hfirst hzero
    omega

/-- Two requests that fit, in a segment of 16 Mbytes. -/
theorem run_sound_two : ∃ p₀ p granted, pmemAllocInit 1 0 0 0x1000000 0 = some p₀ ∧
    Run Fits p₀ p granted ∧ granted.length = 2 ∧ Sound 1 0 0 0x1000000 granted := by
  have hfirst : Run Fits ⟨1, 0, 8, 0, 0, 0, 0⟩ ⟨1, 0, 8, 1, 512, 512, 0⟩ [⟨0x1000000, 512⟩] :=
    Run.refl.step (.small 512) (by decide) (by decide) (by decide : (512 : ℕ) ≤ 512) (by decide)
  have hsecond : Run Fits ⟨1, 0, 8, 0, 0, 0, 0⟩ ⟨1, 0, 8, 3, 512, 512, 0⟩
      [⟨0x1000200, 1024⟩, ⟨0x1000000, 512⟩] :=
    hfirst.step (.big 2) (by decide) (by decide) (by decide : 1 + 2 < 0x100000000) (by decide)
  exact ⟨_, _, _, by decide, hsecond, rfl,
    run_sound (by decide) (by decide) (by decide) (by decide : pmemAllocInit 1 0 0 0x1000000 0 = _)
      hsecond⟩

/-- A request for 513 small pages is given a range whose last page is given again. -/
theorem run_overlap : ∃ p₀ p granted, pmemAllocInit 1 0 0 0x1000000 0 = some p₀ ∧
    Run (fun _ _ => True) p₀ p granted ∧ ¬Sound 1 0 0 0x1000000 granted := by
  have hfirst : Run (fun _ _ => True) ⟨1, 0, 8, 0, 0, 0, 0⟩ ⟨1, 0, 8, 1, 512, 513, 0⟩
      [⟨0x1000000, 513⟩] :=
    Run.refl.step (.small 513) (by decide) (by decide) trivial (by decide)
  have hsecond : Run (fun _ _ => True) ⟨1, 0, 8, 0, 0, 0, 0⟩ ⟨1, 0, 8, 2, 512, 513, 0⟩
      [⟨0x1000200, 512⟩, ⟨0x1000000, 513⟩] :=
    hfirst.step (.big 1) (by decide) (by decide) trivial (by decide)
  refine ⟨_, _, _, by decide, hsecond, fun hsound => ?_⟩
  obtain hlast | hlast := (List.pairwise_cons.mp hsound.1).1 _ List.mem_cons_self
  · exact absurd hlast (by decide)
  · exact absurd hlast (by decide)

end GietVm.Boot
