import GietVm.Library.Bits
import GietVm.Library.Word
import Mathlib.Data.List.Nodup
import Mathlib.Tactic.SplitIfs

/-!
# Page tables

A page table has a first level (PT1) of 2048 words and an array of second level tables (PT2)
of 512 entries of two words. The boot loader registers big pages in PT1 and small pages in a
PT2, which it takes from the array when the region of 2 Mbytes has none (`boot.c`).
`_v2p_translate` of `vmem.c` reads the table.

The boot loader clears PT1 and never clears a PT2. So the entries of a PT2 that are not
registered still have the contents of the memory before.
-/

namespace GietVm.Boot

open Library

/-- The valid bit of an entry. -/
def pteV : ℕ := 0x80000000

/-- The bit of a PT1 entry that points to a PT2. -/
def pteT : ℕ := 0x40000000

/-- The page table of a vspace in a cluster, and the physical memory as a function from the
addresses of words to words. -/
structure Ptab where
  paddr : ℕ
  maxPt2 : ℕ
  nextPt2 : ℕ
  mem : ℕ → ℕ

/-- `_physical_write`. -/
def Ptab.write (p : Ptab) (addr value : ℕ) : Ptab :=
  { p with mem := Function.update p.mem addr value }

/-- The PT1 entry of a big page. -/
def pte1Word (flags ppn : ℕ) : ℕ := pteV ||| (flags &&& 0x3FC00000) ||| ((ppn >>> 9) &&& 0x7FFFF)

/-- The PT1 entry that points to a PT2. -/
def ptdWord (pt2Pbase : ℕ) : ℕ := pteV ||| pteT ||| (pt2Pbase >>> 12)

/-- `boot_add_pte1`; none when it exits. -/
def bootAddPte1 (p : Ptab) (vpn flags ppn : ℕ) : Option Ptab :=
  let ix1 := vpn >>> 9
  if p.paddr = 0 then none
  else some (p.write (p.paddr + 4 * ix1) (pte1Word flags ppn))

/-- The PT2 of a region: the one of its entry, or the next one of the array; none when there
is none left. -/
def getPt2 (p : Ptab) (ix1 : ℕ) : Option (ℕ × Ptab) :=
  let ptd := p.mem (p.paddr + 4 * ix1)
  if ptd &&& pteV = 0 then
    let pt2Id := p.nextPt2
    let p := { p with nextPt2 := pt2Id + 1 }
    if pt2Id = p.maxPt2 then none
    else
      let pt2Pbase := p.paddr + 8192 + mul32 4096 pt2Id
      some (pt2Pbase, p.write (p.paddr + 4 * ix1) (ptdWord pt2Pbase))
  else some ((ptd &&& 0x0FFFFFFF) <<< 12, p)

/-- `boot_add_pte2`; none when it exits. -/
def bootAddPte2 (p : Ptab) (vpn flags ppn : ℕ) : Option Ptab :=
  let ix1 := vpn >>> 9
  let ix2 := vpn &&& 0x1FF
  if p.paddr = 0 then none
  else do
    let (pt2Pbase, p) ← getPt2 p ix1
    let pte2Paddr := pt2Pbase + 8 * ix2
    some ((p.write pte2Paddr (pteV ||| flags)).write (pte2Paddr + 4) ppn)

/-- `_v2p_translate` on the table at a physical address: the physical address and the flags;
none when it exits. -/
def v2pTranslate (mem : ℕ → ℕ) (pt vaddr : ℕ) : Option (ℕ × ℕ) :=
  let offset := vaddr &&& 0xFFF
  let ix1 := (vaddr >>> 21) &&& 0x7FF
  let ix2 := (vaddr >>> 12) &&& 0x1FF
  let pte1 := mem (pt + 4 * ix1)
  if pte1 &&& pteV = 0 then none
  else if pte1 &&& pteT = 0 then
    let offset := offset ||| (ix2 <<< 12)
    some (((pte1 &&& 0x7FFFF) <<< 21) ||| offset, pte1 &&& 0xFFC00000)
  else
    let ptba := (pte1 &&& 0x0FFFFFFF) <<< 12
    let pte2Paddr := ptba + 8 * ix2
    let flagsValue := mem pte2Paddr
    let ppnValue := mem (pte2Paddr + 4)
    if flagsValue &&& pteV = 0 then none
    else some (((ppnValue &&& 0x0FFFFFFF) <<< 12) ||| offset, flagsValue &&& 0xFFC00000)

/-- The flags that `boot_vseg_pte` computes from the mode of a segment. -/
def vsegFlags (mode : ℕ) (isGlobal : Bool) : ℕ :=
  (if mode &&& 0b1000 ≠ 0 then 0x08000000 else 0) |||
  (if mode &&& 0b0100 ≠ 0 then 0x02000000 else 0) |||
  (if mode &&& 0b0010 ≠ 0 then 0x04000000 else 0) |||
  (if mode &&& 0b0001 ≠ 0 then 0x01000000 else 0) |||
  (if isGlobal then 0x00800000 else 0) ||| 0x20000000 ||| 0x10000000 ||| 0x00400000

/-- The flags of a segment are among the eight flags of an entry. -/
theorem vsegFlags_mask (mode : ℕ) (isGlobal : Bool) :
    vsegFlags mode isGlobal &&& 0x3FC00000 = vsegFlags mode isGlobal := by
  rw [vsegFlags]
  split_ifs <;> decide

/-! ## Registrations -/

/-- A call of `boot_add_pte1` (for a big page) or of `boot_add_pte2`. -/
structure Registration where
  big : Bool
  vpn : ℕ
  flags : ℕ
  ppn : ℕ
  deriving DecidableEq

/-- The call. -/
def Registration.add (r : Registration) (p : Ptab) : Option Ptab :=
  if r.big then bootAddPte1 p r.vpn r.flags r.ppn else bootAddPte2 p r.vpn r.flags r.ppn

/-- The calls of a list, the last one first; none when one of them exits. -/
def build (p₀ : Ptab) : List Registration → Option Ptab
  | [] => some p₀
  | r :: earlier => do
    let p ← build p₀ earlier
    r.add p

/-- The region of 2 Mbytes of a page. -/
def Registration.region (r : Registration) : ℕ := r.vpn / 512

/-- The fields have the widths that the comments of the functions give, and the flags are
among the eight flags of an entry, as those of `boot_vseg_pte`. -/
structure Registration.Ok (r : Registration) : Prop where
  vpn_lt : r.vpn < 2 ^ 20
  ppn_lt : r.ppn < 2 ^ 28
  flags_mask : r.flags &&& 0x3FC00000 = r.flags

/-- Two calls register different pages, and different regions when one page is big. -/
def Registration.Separate (r q : Registration) : Prop :=
  if r.big ∨ q.big then r.region ≠ q.region else r.vpn ≠ q.vpn

/-- The regions that take a PT2, in the order of the array. -/
def regions : List Registration → List ℕ
  | [] => []
  | r :: earlier =>
    if r.big ∨ r.region ∈ regions earlier then regions earlier
    else regions earlier ++ [r.region]

/-- A page contains a virtual address. -/
def Registration.covers (r : Registration) (vaddr : ℕ) : Prop :=
  if r.big then r.region = vaddr / 2 ^ 21 else r.vpn = vaddr / 2 ^ 12

instance (r : Registration) (vaddr : ℕ) : Decidable (r.covers vaddr) :=
  inferInstanceAs (Decidable (if r.big then r.region = vaddr / 2 ^ 21 else r.vpn = vaddr / 2 ^ 12))

/-- The translation that a registration asks for. -/
def Registration.translate (r : Registration) (vaddr : ℕ) : ℕ × ℕ :=
  (if r.big then ((r.ppn >>> 9) <<< 21) ||| (vaddr % 2 ^ 21)
    else (r.ppn <<< 12) ||| (vaddr % 2 ^ 12), pteV ||| r.flags)

/-- What a list of registrations says about a virtual address: its translation, or none where
no page is registered. -/
def registered (calls : List Registration) (vaddr : ℕ) : Option (ℕ × ℕ) :=
  (calls.find? fun r => r.covers vaddr).map fun r => r.translate vaddr

/-! ## Words -/

/-- The flags of an entry are a multiple of `2 ^ 22`. -/
theorem flags_eq {flags : ℕ} (h : flags &&& 0x3FC00000 = flags) :
    ∃ f < 256, flags = f * 2 ^ 22 := by
  have hle : flags ≤ 0x3FC00000 := h ▸ Nat.and_le_right
  have hhigh := and_high_eq (w := flags) (i := 22) (n := 8) (by omega)
  have heq : flags / 2 ^ 22 * 2 ^ 22 = flags := hhigh.symm.trans h
  exact ⟨flags / 2 ^ 22, by omega, heq.symm⟩

theorem and_pteV_iff (w : ℕ) : w &&& pteV = 0 ↔ w / 2 ^ 31 % 2 = 0 := and_two_pow_eq_zero_iff w 31

theorem and_pteT_iff (w : ℕ) : w &&& pteT = 0 ↔ w / 2 ^ 30 % 2 = 0 := and_two_pow_eq_zero_iff w 30

theorem and_flags_eq {w : ℕ} (h : w < 2 ^ 32) : w &&& 0xFFC00000 = w / 2 ^ 22 * 2 ^ 22 :=
  and_high_eq (i := 22) (n := 10) h

theorem or_pteV_eq {f : ℕ} (h : f < 256) : pteV ||| f * 2 ^ 22 = (512 + f) * 2 ^ 22 := by
  have hadd := mul_two_pow_or_eq_add (i := 31) (b := f * 2 ^ 22) 1 (by omega)
  have hval : pteV = 1 * 2 ^ 31 := by decide
  rw [hval, hadd]
  omega

/-- The fields of the entry of a big page. -/
theorem pte1Word_eq {flags ppn f : ℕ} (hflags : flags &&& 0x3FC00000 = flags)
    (hf : flags = f * 2 ^ 22) (hlt : f < 256) (hppn : ppn < 2 ^ 28) :
    pte1Word flags ppn = (512 + f) * 2 ^ 22 + ppn / 512 := by
  have hmask : (ppn >>> 9) &&& 0x7FFFF = ppn / 512 := by
    have hlow := Nat.and_two_pow_sub_one_eq_mod (ppn >>> 9) 19
    rw [Nat.shiftRight_eq_div_pow] at hlow ⊢
    exact hlow.trans (Nat.mod_eq_of_lt (by omega))
  rw [pte1Word, hflags, hmask, hf, or_pteV_eq hlt]
  exact mul_two_pow_or_eq_add _ (by omega)

/-- The fields of an entry that points to a PT2. -/
theorem ptdWord_eq {base : ℕ} (h : base < 2 ^ 40) :
    ptdWord base = 3 * 2 ^ 30 + base / 2 ^ 12 := by
  have hval : pteV ||| pteT = 3 * 2 ^ 30 := by decide
  rw [ptdWord, hval, Nat.shiftRight_eq_div_pow]
  exact mul_two_pow_or_eq_add 3 (by omega)

/-- The address of a PT2, from the entry that points to it. -/
theorem ptdWord_base {base : ℕ} (h : base < 2 ^ 40) (hdvd : 2 ^ 12 ∣ base) :
    (ptdWord base &&& 0x0FFFFFFF) <<< 12 = base := by
  have hword := ptdWord_eq h
  have hlow := Nat.and_two_pow_sub_one_eq_mod (ptdWord base) 28
  have hfield : ptdWord base &&& 0x0FFFFFFF = base / 2 ^ 12 := by
    refine hlow.trans ?_
    rw [hword]
    omega
  rw [hfield, Nat.shiftLeft_eq, Nat.div_mul_cancel hdvd]

/-! ## Reading an entry -/

/-- The indices of a virtual address. -/
theorem ix1_eq {vaddr : ℕ} (h : vaddr < 2 ^ 32) : (vaddr >>> 21) &&& 0x7FF = vaddr / 2 ^ 21 := by
  have hlow := Nat.and_two_pow_sub_one_eq_mod (vaddr >>> 21) 11
  rw [Nat.shiftRight_eq_div_pow] at hlow ⊢
  exact hlow.trans (Nat.mod_eq_of_lt (by omega))

theorem ix2_eq (vaddr : ℕ) : (vaddr >>> 12) &&& 0x1FF = vaddr / 2 ^ 12 % 512 := by
  rw [Nat.shiftRight_eq_div_pow]
  exact Nat.and_two_pow_sub_one_eq_mod _ 9

theorem offset_eq (vaddr : ℕ) : vaddr &&& 0xFFF = vaddr % 2 ^ 12 :=
  Nat.and_two_pow_sub_one_eq_mod vaddr 12

/-- The offset in a big page. -/
theorem bigOffset_eq (vaddr : ℕ) :
    (vaddr &&& 0xFFF) ||| (((vaddr >>> 12) &&& 0x1FF) <<< 12) = vaddr % 2 ^ 21 := by
  have hlow : vaddr % 2 ^ 12 < 2 ^ 12 := Nat.mod_lt _ (by decide)
  rw [offset_eq, ix2_eq, Nat.shiftLeft_eq, Nat.or_comm, mul_two_pow_or_eq_add _ hlow]
  omega

section Translate

variable {mem : ℕ → ℕ} {pt vaddr : ℕ}

/-- A clear PT1 entry. -/
theorem v2pTranslate_clear (hvaddr : vaddr < 2 ^ 32) (h : mem (pt + 4 * (vaddr / 2 ^ 21)) = 0) :
    v2pTranslate mem pt vaddr = none := by
  rw [v2pTranslate, ix1_eq hvaddr, h, Nat.zero_and]
  exact if_pos rfl

/-- The entry of a big page. -/
theorem v2pTranslate_big {flags ppn : ℕ} (hvaddr : vaddr < 2 ^ 32)
    (hflags : flags &&& 0x3FC00000 = flags) (hppn : ppn < 2 ^ 28)
    (h : mem (pt + 4 * (vaddr / 2 ^ 21)) = pte1Word flags ppn) :
    v2pTranslate mem pt vaddr =
      some (((ppn >>> 9) <<< 21) ||| (vaddr % 2 ^ 21), pteV ||| flags) := by
  obtain ⟨f, hlt, hf⟩ := flags_eq hflags
  have hword := pte1Word_eq hflags hf hlt hppn
  have hvalid : ¬pte1Word flags ppn &&& pteV = 0 := by
    rw [and_pteV_iff, hword]
    omega
  have hbig : pte1Word flags ppn &&& pteT = 0 := by
    rw [and_pteT_iff, hword]
    omega
  have hbppi : pte1Word flags ppn &&& 0x7FFFF = ppn >>> 9 := by
    have hlow := Nat.and_two_pow_sub_one_eq_mod (pte1Word flags ppn) 19
    rw [Nat.shiftRight_eq_div_pow]
    refine hlow.trans ?_
    rw [hword]
    omega
  have hvalue : pte1Word flags ppn &&& 0xFFC00000 = pteV ||| flags := by
    rw [and_flags_eq (by omega), hword, hf, or_pteV_eq hlt]
    omega
  rw [v2pTranslate, ix1_eq hvaddr, h, if_neg hvalid, if_pos hbig, bigOffset_eq, hbppi, hvalue]

/-- An entry that points to a PT2. -/
theorem v2pTranslate_ptd {base : ℕ} (hvaddr : vaddr < 2 ^ 32) (hbase : base < 2 ^ 40)
    (hdvd : 2 ^ 12 ∣ base) (h : mem (pt + 4 * (vaddr / 2 ^ 21)) = ptdWord base) :
    v2pTranslate mem pt vaddr =
      if mem (base + 8 * (vaddr / 2 ^ 12 % 512)) &&& pteV = 0 then none
      else some (((mem (base + 8 * (vaddr / 2 ^ 12 % 512) + 4) &&& 0x0FFFFFFF) <<< 12) |||
        (vaddr % 2 ^ 12), mem (base + 8 * (vaddr / 2 ^ 12 % 512)) &&& 0xFFC00000) := by
  have hword := ptdWord_eq hbase
  have hvalid : ¬ptdWord base &&& pteV = 0 := by
    rw [and_pteV_iff, hword]
    omega
  have hsmall : ¬ptdWord base &&& pteT = 0 := by
    rw [and_pteT_iff, hword]
    omega
  rw [v2pTranslate, ix1_eq hvaddr, h, if_neg hvalid, if_neg hsmall,
    ptdWord_base hbase hdvd, ix2_eq, offset_eq]

/-- The entry of a small page. -/
theorem v2pTranslate_small {base flags ppn : ℕ} (hvaddr : vaddr < 2 ^ 32) (hbase : base < 2 ^ 40)
    (hdvd : 2 ^ 12 ∣ base) (h : mem (pt + 4 * (vaddr / 2 ^ 21)) = ptdWord base)
    (hflags : flags &&& 0x3FC00000 = flags) (hppn : ppn < 2 ^ 28)
    (hfirst : mem (base + 8 * (vaddr / 2 ^ 12 % 512)) = pteV ||| flags)
    (hsecond : mem (base + 8 * (vaddr / 2 ^ 12 % 512) + 4) = ppn) :
    v2pTranslate mem pt vaddr = some ((ppn <<< 12) ||| (vaddr % 2 ^ 12), pteV ||| flags) := by
  obtain ⟨f, hlt, hf⟩ := flags_eq hflags
  have hword : pteV ||| flags = (512 + f) * 2 ^ 22 := by
    rw [hf]
    exact or_pteV_eq hlt
  have hvalid : ¬(pteV ||| flags) &&& pteV = 0 := by
    rw [and_pteV_iff, hword]
    omega
  have hvalue : (pteV ||| flags) &&& 0xFFC00000 = pteV ||| flags := by
    rw [and_flags_eq (by omega), hword]
    omega
  have hfield : ppn &&& 0x0FFFFFFF = ppn := by
    have hlow := Nat.and_two_pow_sub_one_eq_mod ppn 28
    exact hlow.trans (Nat.mod_eq_of_lt hppn)
  rw [v2pTranslate_ptd hvaddr hbase hdvd h, hfirst, hsecond]
  rw [if_neg hvalid, hvalue, hfield]

end Translate

end GietVm.Boot
