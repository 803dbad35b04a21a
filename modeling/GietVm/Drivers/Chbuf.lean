import GietVm.Library.Bits
import Mathlib.Data.BitVec
import Mathlib.Tactic.Common

/-!
# Chained buffer descriptors

The CMA component finds its buffers through 64-bit descriptors: 26 bits for the status address
without its six low bits, 26 bits for the buffer address without its six low bits, and 12 bits for
the extension that both addresses share. The NIC and frame buffer handlers build such descriptors
from 40-bit physical addresses, and take the addresses out of them again to synchronise the caches.
-/

namespace GietVm.Drivers.Chbuf

/-- A physical address, an `unsigned long long`. -/
abbrev Paddr := BitVec 64

/-! ## Building descriptors -/

/-- The descriptor of a container that the NIC fills, from its status and its own address. -/
def rxDescriptor (stsPaddr contPaddr : Paddr) : BitVec 64 :=
  ((stsPaddr &&& 0xFFFFFFFF) >>> 6) + (((contPaddr &&& 0xFFFFFFFFFFF) >>> 6) <<< 26)

/-- The descriptor of a container that the NIC empties. -/
def txDescriptor (stsPaddr contPaddr : Paddr) : BitVec 64 :=
  ((stsPaddr &&& 0xFFFFFFC0) >>> 6) + (((contPaddr &&& 0xFFFFFFFFFC0) >>> 6) <<< 26)

/-- The descriptor of the frame buffer or of a user buffer. -/
def fbfDescriptor (stsPaddr bufPaddr : Paddr) : BitVec 64 :=
  ((stsPaddr &&& 0xFFFFFFFF) >>> 6) + (((bufPaddr &&& 0xFFFFFFFF) >>> 6) <<< 26)

/-- The descriptors of a channel that displays on the frame buffer. -/
structure FbfChbuf where
  buf0Desc : BitVec 64
  buf1Desc : BitVec 64
  fbfDesc : BitVec 64

/-- The bit of the flags of a page that is in user space. -/
def pteU : BitVec 32 := 0x01000000

/-- `_sys_fbf_cma_init_buf`, from the virtual addresses of the frame buffer, of its status and of
the user buffers. The result is 0, or -1 when an address is not aligned or not in user space; the
descriptors built before the failing check are kept. -/
def fbfInitBuf (translate : BitVec 32 → Paddr × BitVec 32) (fbfVaddr fbfStsVaddr : BitVec 32)
    (buf0Vbase buf1Vbase sts0Vaddr sts1Vaddr : BitVec 32) (chbuf : FbfChbuf) : FbfChbuf × ℤ :=
  if buf0Vbase &&& 0x3F ≠ 0 ∨ buf1Vbase &&& 0x3F ≠ 0 then (chbuf, -1)
  else if sts0Vaddr &&& 0x3F ≠ 0 ∨ sts1Vaddr &&& 0x3F ≠ 0 then (chbuf, -1)
  else
    let fbf := { chbuf with
      fbfDesc := fbfDescriptor (translate fbfStsVaddr).1 (translate fbfVaddr).1 }
    if (translate buf0Vbase).2 &&& pteU = 0 then (fbf, -1)
    else if (translate sts0Vaddr).2 &&& pteU = 0 then (fbf, -1)
    else
      let buf0 := { fbf with
        buf0Desc := fbfDescriptor (translate sts0Vaddr).1 (translate buf0Vbase).1 }
      if (translate buf1Vbase).2 &&& pteU = 0 then (buf0, -1)
      else if (translate sts1Vaddr).2 &&& pteU = 0 then (buf0, -1)
      else
        ({ buf0 with
          buf1Desc := fbfDescriptor (translate sts1Vaddr).1 (translate buf1Vbase).1 }, 0)

/-! ## Reading descriptors -/

/-- The address of the status. -/
def stsPaddr (desc : BitVec 64) : Paddr :=
  ((desc &&& 0xFFF0000000000000) >>> 20) + ((desc &&& 0x3FFFFFF) <<< 6)

/-- The address of the buffer. -/
def bufPaddr (desc : BitVec 64) : Paddr := (desc &&& 0xFFFFFFFFFC000000) >>> 20

/-- The addresses that `_sys_fbf_cma_display` uses: the status of the user buffer, the user buffer,
and the status of the frame buffer. -/
def displayPaddrs (chbuf : FbfChbuf) (bufferIndex : BitVec 32) : Paddr × Paddr × Paddr :=
  if bufferIndex = 0 then
    (stsPaddr chbuf.buf0Desc, bufPaddr chbuf.buf0Desc, stsPaddr chbuf.fbfDesc)
  else
    (stsPaddr chbuf.buf1Desc, bufPaddr chbuf.buf1Desc, stsPaddr chbuf.fbfDesc)

/-! ## The layout -/

section Layout

variable {sts buf : Paddr}

/-- The fields of a descriptor whose buffer field has `width` bits. -/
def fields (width : ℕ) (sts buf : ℕ) : ℕ := sts / 64 % 2 ^ 26 + buf / 64 % 2 ^ width * 2 ^ 26

/-- A masked field as a number. -/
theorem field_toNat (x mask : BitVec 64) {width : ℕ} (hmask : (mask >>> 6).toNat = 2 ^ width - 1) :
    ((x &&& mask) >>> 6).toNat = x.toNat / 64 % 2 ^ width := by
  rw [BitVec.ushiftRight_and_distrib, BitVec.toNat_and, hmask, Nat.and_two_pow_sub_one_eq_mod,
    BitVec.toNat_ushiftRight, Nat.shiftRight_eq_div_pow]

/-- A descriptor as a number. -/
theorem descriptor_toNat {stsMask bufMask : BitVec 64} {width : ℕ}
    (hsts : (stsMask >>> 6).toNat = 2 ^ 26 - 1) (hbuf : (bufMask >>> 6).toNat = 2 ^ width - 1)
    (hwidth : width ≤ 38) :
    (((sts &&& stsMask) >>> 6) + (((buf &&& bufMask) >>> 6) <<< 26)).toNat =
      fields width sts.toNat buf.toNat := by
  have hlow : sts.toNat / 64 % 2 ^ 26 < 2 ^ 26 := Nat.mod_lt _ (by decide)
  have hhigh : buf.toNat / 64 % 2 ^ width < 2 ^ 38 :=
    (Nat.mod_lt _ (Nat.two_pow_pos width)).trans_le (Nat.pow_le_pow_right (by decide) hwidth)
  rw [BitVec.toNat_add, BitVec.toNat_shiftLeft, field_toNat sts stsMask hsts,
    field_toNat buf bufMask hbuf, Nat.shiftLeft_eq, fields]
  generalize sts.toNat / 64 % 2 ^ 26 = low at hlow ⊢
  generalize buf.toNat / 64 % 2 ^ width = high at hhigh ⊢
  omega

theorem rxDescriptor_toNat : (rxDescriptor sts buf).toNat = fields 38 sts.toNat buf.toNat :=
  descriptor_toNat (by decide) (by decide) le_rfl

theorem txDescriptor_toNat : (txDescriptor sts buf).toNat = fields 38 sts.toNat buf.toNat :=
  descriptor_toNat (by decide) (by decide) le_rfl

theorem fbfDescriptor_toNat : (fbfDescriptor sts buf).toNat = fields 26 sts.toNat buf.toNat :=
  descriptor_toNat (by decide) (by decide) (by decide)

theorem bufPaddr_toNat (desc : BitVec 64) : (bufPaddr desc).toNat = desc.toNat / 2 ^ 26 * 64 := by
  have hmask : ((0xFFFFFFFFFC000000 : BitVec 64) >>> 20).toNat = (2 ^ 38 - 1) * 2 ^ 6 := by decide
  have hlt : desc.toNat / 2 ^ 20 < 2 ^ (6 + 38) := by
    have := desc.isLt
    omega
  rw [bufPaddr, BitVec.ushiftRight_and_distrib, BitVec.toNat_and, hmask,
    BitVec.toNat_ushiftRight, Nat.shiftRight_eq_div_pow, Library.and_high_eq hlt,
    Nat.div_div_eq_div_mul]
  rfl

theorem stsPaddr_toNat (desc : BitVec 64) :
    (stsPaddr desc).toNat = desc.toNat / 2 ^ 52 * 2 ^ 32 + desc.toNat % 2 ^ 26 * 64 := by
  have hmask : ((0xFFF0000000000000 : BitVec 64) >>> 20).toNat = (2 ^ 12 - 1) * 2 ^ 32 := by decide
  have hlow : (0x3FFFFFF : BitVec 64).toNat = 2 ^ 26 - 1 := by decide
  have hdesc := desc.isLt
  have hlt : desc.toNat / 2 ^ 20 < 2 ^ (32 + 12) := by omega
  rw [stsPaddr, BitVec.ushiftRight_and_distrib, BitVec.toNat_add, BitVec.toNat_and, hmask,
    BitVec.toNat_ushiftRight, Nat.shiftRight_eq_div_pow, Library.and_high_eq hlt,
    Nat.div_div_eq_div_mul, BitVec.toNat_shiftLeft, BitVec.toNat_and, hlow,
    Nat.and_two_pow_sub_one_eq_mod, Nat.shiftLeft_eq]
  omega

end Layout

/-! ## The round trip -/

section RoundTrip

variable {sts buf : Paddr}

/-- A physical address of 40 bits, at a multiple of 64. -/
structure IsPaddr (paddr : Paddr) : Prop where
  bits : paddr.toNat < 2 ^ 40
  aligned : paddr.toNat % 64 = 0

/-- The extension of an address: the bits that give the cluster. -/
def extension (paddr : Paddr) : ℕ := paddr.toNat / 2 ^ 32

/-- A descriptor gives back both addresses. -/
def GivesBack (desc : BitVec 64) (sts buf : Paddr) : Prop :=
  stsPaddr desc = sts ∧ bufPaddr desc = buf

theorem givesBack_iff (desc : BitVec 64) :
    GivesBack desc sts buf ↔
      desc.toNat / 2 ^ 52 * 2 ^ 32 + desc.toNat % 2 ^ 26 * 64 = sts.toNat ∧
        desc.toNat / 2 ^ 26 * 64 = buf.toNat := by
  rw [GivesBack, BitVec.toNat_eq, BitVec.toNat_eq, stsPaddr_toNat, bufPaddr_toNat]

/-- A buffer field of 38 bits holds the extension. -/
theorem givesBack_wide {desc : BitVec 64} (hdesc : desc.toNat = fields 38 sts.toNat buf.toNat)
    (hsts : IsPaddr sts) (hbuf : IsPaddr buf) (hext : extension sts = extension buf) :
    GivesBack desc sts buf := by
  have := hsts.bits
  have := hsts.aligned
  have := hbuf.bits
  have := hbuf.aligned
  rw [extension, extension] at hext
  rw [givesBack_iff, hdesc, fields]
  omega

/-- A buffer field of 26 bits does not hold the extension. -/
theorem givesBack_narrow_iff {desc : BitVec 64}
    (hdesc : desc.toNat = fields 26 sts.toNat buf.toNat) (hsts : IsPaddr sts) (hbuf : IsPaddr buf)
    (hext : extension sts = extension buf) : GivesBack desc sts buf ↔ extension buf = 0 := by
  have := hsts.bits
  have := hsts.aligned
  have := hbuf.bits
  have := hbuf.aligned
  rw [givesBack_iff, hdesc, fields]
  rw [extension, extension] at hext
  rw [extension]
  omega

/-- All the descriptors give back the addresses exactly when these are in the cluster whose
extension is 0. -/
theorem descriptors_iff (hsts : IsPaddr sts) (hbuf : IsPaddr buf)
    (hext : extension sts = extension buf) :
    (GivesBack (rxDescriptor sts buf) sts buf ∧ GivesBack (txDescriptor sts buf) sts buf ∧
        GivesBack (fbfDescriptor sts buf) sts buf) ↔ extension buf = 0 := by
  rw [← givesBack_narrow_iff fbfDescriptor_toNat hsts hbuf hext]
  constructor
  · intro h
    exact h.2.2
  · intro h
    exact ⟨givesBack_wide rxDescriptor_toNat hsts hbuf hext,
      givesBack_wide txDescriptor_toNat hsts hbuf hext, h⟩

/-- Addresses of cluster `(0, 0)` are given back. -/
theorem descriptors_cluster_zero :
    GivesBack (rxDescriptor 0x50040 0x40000) 0x50040 0x40000 ∧
      GivesBack (txDescriptor 0x50040 0x40000) 0x50040 0x40000 ∧
      GivesBack (fbfDescriptor 0x50040 0x40000) 0x50040 0x40000 :=
  (descriptors_iff ⟨by decide, by decide⟩ ⟨by decide, by decide⟩ (by decide)).2 (by decide)

/-- The descriptor of a buffer in another cluster loses the extension. -/
theorem not_givesBack_extension :
    ¬∀ sts buf : Paddr, IsPaddr sts → IsPaddr buf → extension sts = extension buf →
      GivesBack (rxDescriptor sts buf) sts buf ∧ GivesBack (txDescriptor sts buf) sts buf ∧
        GivesBack (fbfDescriptor sts buf) sts buf := by
  intro hall
  have hgiven := (hall 0x1000050040 0x1000040000 ⟨by decide, by decide⟩ ⟨by decide, by decide⟩
    (by decide)).2.2
  revert hgiven
  rw [GivesBack]
  decide

/-- Once the buffers are initialised the channel holds the descriptors of the frame buffer and of
both user buffers. -/
theorem fbfInitBuf_descriptors {translate : BitVec 32 → Paddr × BitVec 32}
    {fbf fbfSts buf0 buf1 sts0 sts1 : BitVec 32} {chbuf : FbfChbuf}
    (h : (fbfInitBuf translate fbf fbfSts buf0 buf1 sts0 sts1 chbuf).2 = 0) :
    (fbfInitBuf translate fbf fbfSts buf0 buf1 sts0 sts1 chbuf).1 =
      { buf0Desc := fbfDescriptor (translate sts0).1 (translate buf0).1
        buf1Desc := fbfDescriptor (translate sts1).1 (translate buf1).1
        fbfDesc := fbfDescriptor (translate fbfSts).1 (translate fbf).1 } := by
  have hfail : (-1 : ℤ) ≠ 0 := by decide
  rw [fbfInitBuf] at h ⊢
  dsimp only at h ⊢
  split_ifs at h ⊢
  · exact absurd h hfail
  · exact absurd h hfail
  · exact absurd h hfail
  · exact absurd h hfail
  · exact absurd h hfail
  · exact absurd h hfail
  · rfl

end RoundTrip

end GietVm.Drivers.Chbuf
