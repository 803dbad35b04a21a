import GietVm.Library.ByteMemory

/-!
# memcpy and memset

The kernel and the user library have each their own versions. When the pointers are aligned the
first loop moves words while more than three bytes remain. The loop on bytes that follows does the
rest: in the user library it goes on where the words end, while in the kernel it starts again at
the beginning of the buffers, so that the bytes left over are never written.
-/

namespace GietVm.Common

open GietVm.Library

/-! ## The functions -/

/-- Both pointers are on a word boundary. -/
def aligned (p : Address) : Prop := p &&& 3 = 0

instance (p : Address) : Decidable (aligned p) := inferInstanceAs (Decidable (_ = _))

/-- The memory, the pointers and the size between the two loops. -/
structure Cursor where
  /-- The memory. -/
  mem : ByteMemory
  /-- The pointer to the destination. -/
  dst : Address
  /-- The pointer to the source. -/
  src : Address
  /-- The bytes left. -/
  size : ℕ

/-- `while (size > 3) { *idst++ = *isrc++; size -= 4; }`. -/
def copyWords (m : ByteMemory) (dst src : Address) : ℕ → Cursor
  | size + 4 => copyWords (m.storeWord dst (m.loadWord src)) (dst + 4) (src + 4) size
  | size => ⟨m, dst, src, size⟩

/-- `while (size--) { *cdst++ = *csrc++; }`. -/
def copyBytes (m : ByteMemory) (dst src : Address) : ℕ → ByteMemory
  | 0 => m
  | size + 1 => copyBytes (m.storeByte dst (m src)) (dst + 1) (src + 1) size

/-- `while (count > 3) { *idst++ = data; count -= 4; }`. -/
def setWords (m : ByteMemory) (dst : Address) (data : BitVec 32) : ℕ → ByteMemory × ℕ
  | count + 4 => setWords (m.storeWord dst data) (dst + 4) data count
  | count => (m, count)

/-- `while (count--) { *cdst++ = value; }`. -/
def setBytes (m : ByteMemory) (dst : Address) (value : BitVec 8) : ℕ → ByteMemory
  | 0 => m
  | count + 1 => setBytes (m.storeByte dst value) (dst + 1) value count

namespace Kernel

/-- `memcpy` of the kernel. -/
def memcpy (m : ByteMemory) (dest source : Address) (size : BitVec 32) : ByteMemory :=
  if aligned dest ∧ aligned source then
    let words := copyWords m dest source size.toNat
    copyBytes words.mem dest source words.size
  else
    copyBytes m dest source size.toNat

/-- `memset` of the kernel. -/
def memset (m : ByteMemory) (dst : Address) (value count : BitVec 32) : ByteMemory :=
  let byte := value.setWidth 8
  let data := byte.setWidth 32 ||| (byte.setWidth 32 <<< 8) ||| (byte.setWidth 32 <<< 16) |||
    (byte.setWidth 32 <<< 24)
  if aligned dst then
    let words := setWords m dst data count.toNat
    setBytes words.1 dst byte words.2
  else
    setBytes m dst byte count.toNat

end Kernel

namespace User

/-- `memcpy` of the user library. -/
def memcpy (m : ByteMemory) (dst src : Address) (size : BitVec 32) : ByteMemory :=
  if aligned dst ∧ aligned src then
    let words := copyWords m dst src size.toNat
    copyBytes words.mem words.dst words.src words.size
  else
    copyBytes m dst src size.toNat

/-- `memset` of the user library. -/
def memset (m : ByteMemory) (dst : Address) (s size : BitVec 32) : ByteMemory :=
  setBytes m dst (s.setWidth 8) size.toNat

end User

/-! ## The loops -/

section Loops

variable {m : ByteMemory} {dst src : Address} {n k : ℕ}

/-- The memory with the first `k` bytes copied. -/
def copied (m : ByteMemory) (dst src : Address) (k : ℕ) : ByteMemory :=
  m.fill dst k (fun i => m (src + i))

/-- A byte of the source is not changed by those copied. -/
theorem copied_source (hlen : n ≤ 2 ^ 32) (hapart : dst.Apart src n) {i : ℕ} (hk : k ≤ n)
    (hi : i < n) : copied m dst src k (src + BitVec.ofNat 32 i) = m (src + BitVec.ofNat 32 i) := by
  apply ByteMemory.fill_of_not_within
  intro hin
  exact hapart _ (hin.mono hk) (Address.within_add hi hlen)

/-- A byte is copied. -/
theorem copied_storeByte (hlen : n ≤ 2 ^ 32) (hapart : dst.Apart src n) (hk : k < n) :
    (copied m dst src k).storeByte (dst + BitVec.ofNat 32 k)
        (copied m dst src k (src + BitVec.ofNat 32 k)) = copied m dst src (k + 1) := by
  apply ByteMemory.storeByte_fill (lt_of_lt_of_le hk hlen)
  exact copied_source hlen hapart hk.le hk

/-- A word is copied. -/
theorem copied_storeWord (hlen : n ≤ 2 ^ 32) (hapart : dst.Apart src n) (hk : k + 4 ≤ n) :
    (copied m dst src k).storeWord (dst + BitVec.ofNat 32 k)
        ((copied m dst src k).loadWord (src + BitVec.ofNat 32 k)) = copied m dst src (k + 4) := by
  apply ByteMemory.storeWord_fill (by omega)
  intro i hi
  rw [ByteMemory.loadWord_extract _ hi, add_assoc, ← BitVec.ofNat_add]
  exact copied_source hlen hapart (by omega) (by omega)

/-- The loop on bytes copies the bytes left. -/
theorem copyBytes_copied (hlen : n ≤ 2 ^ 32) (hapart : dst.Apart src n) (size : ℕ)
    (hk : k + size ≤ n) :
    copyBytes (copied m dst src k) (dst + BitVec.ofNat 32 k) (src + BitVec.ofNat 32 k) size =
      copied m dst src (k + size) := by
  induction size generalizing k with
  | zero => rfl
  | succ size ih =>
    have hnext (p : Address) : p + BitVec.ofNat 32 k + 1 = p + BitVec.ofNat 32 (k + 1) := by
      rw [BitVec.ofNat_add, ← add_assoc]
      rfl
    rw [copyBytes, copied_storeByte hlen hapart (by omega), hnext, hnext, ih (by omega)]
    congr 1
    omega

/-- The loop on words copies the words, and leaves the bytes of the last one. -/
theorem copyWords_copied (hlen : n ≤ 2 ^ 32) (hapart : dst.Apart src n) (words : ℕ) {rest : ℕ}
    (hrest : rest < 4) (hk : k + 4 * words + rest ≤ n) :
    copyWords (copied m dst src k) (dst + BitVec.ofNat 32 k) (src + BitVec.ofNat 32 k)
        (4 * words + rest) =
      ⟨copied m dst src (k + 4 * words), dst + BitVec.ofNat 32 (k + 4 * words),
        src + BitVec.ofNat 32 (k + 4 * words), rest⟩ := by
  induction words generalizing k with
  | zero =>
    rw [Nat.mul_zero, Nat.zero_add, Nat.add_zero, copyWords]
    intro size heq
    omega
  | succ words ih =>
    have hsize : 4 * (words + 1) + rest = 4 * words + rest + 4 := by omega
    have hnext (p : Address) : p + BitVec.ofNat 32 k + 4 = p + BitVec.ofNat 32 (k + 4) := by
      rw [BitVec.ofNat_add, ← add_assoc]
      rfl
    have hend : k + 4 + 4 * words = k + 4 * (words + 1) := by omega
    rw [hsize, copyWords, copied_storeWord hlen hapart (by omega), hnext, hnext, ih (by omega),
      hend]

/-- The loop on bytes changes nothing when it copies again bytes already copied. -/
theorem copyBytes_again (hlen : n ≤ 2 ^ 32) (hapart : dst.Apart src n) (hk : k ≤ n) (size : ℕ)
    {j : ℕ} (hj : j + size ≤ k) :
    copyBytes (copied m dst src k) (dst + BitVec.ofNat 32 j) (src + BitVec.ofNat 32 j) size =
      copied m dst src k := by
  induction size generalizing j with
  | zero => rfl
  | succ size ih =>
    have hnext (p : Address) : p + BitVec.ofNat 32 j + 1 = p + BitVec.ofNat 32 (j + 1) := by
      rw [BitVec.ofNat_add, ← add_assoc]
      rfl
    have hsame : copied m dst src k (src + BitVec.ofNat 32 j) =
        copied m dst src k (dst + BitVec.ofNat 32 j) := by
      rw [copied_source hlen hapart hk (by omega), copied,
        ByteMemory.fill_of_within (Address.within_add (by omega) (by omega)), add_sub_cancel_left]
    rw [copyBytes, ByteMemory.storeByte, hsame, Function.update_eq_self, hnext, hnext,
      ih (by omega)]

/-- The loop on bytes fills the bytes left. -/
theorem setBytes_fill (dst : Address) (byte : BitVec 8) (count : ℕ) (hk : k + count ≤ 2 ^ 32) :
    setBytes (m.fill dst k fun _ => byte) (dst + BitVec.ofNat 32 k) byte count =
      m.fill dst (k + count) fun _ => byte := by
  induction count generalizing k with
  | zero => rfl
  | succ count ih =>
    have hnext : dst + BitVec.ofNat 32 k + 1 = dst + BitVec.ofNat 32 (k + 1) := by
      rw [BitVec.ofNat_add, ← add_assoc]
      rfl
    rw [setBytes, ByteMemory.storeByte_fill (by omega) rfl, hnext, ih (by omega)]
    congr 1
    omega

/-- The loop on words fills the words, and leaves the bytes of the last one. -/
theorem setWords_fill (dst : Address) {byte : BitVec 8} {data : BitVec 32}
    (hdata : ∀ i < 4, data.extractLsb' (8 * i) 8 = byte) (words : ℕ) {rest : ℕ} (hrest : rest < 4)
    (hk : k + 4 * words + rest ≤ 2 ^ 32) :
    setWords (m.fill dst k fun _ => byte) (dst + BitVec.ofNat 32 k) data (4 * words + rest) =
      (m.fill dst (k + 4 * words) fun _ => byte, rest) := by
  induction words generalizing k with
  | zero =>
    rw [Nat.mul_zero, Nat.zero_add, Nat.add_zero, setWords]
    intro count heq
    omega
  | succ words ih =>
    have hcount : 4 * (words + 1) + rest = 4 * words + rest + 4 := by omega
    have hnext : dst + BitVec.ofNat 32 k + 4 = dst + BitVec.ofNat 32 (k + 4) := by
      rw [BitVec.ofNat_add, ← add_assoc]
      rfl
    have hend : k + 4 + 4 * words = k + 4 * (words + 1) := by omega
    rw [hcount, setWords, ByteMemory.storeWord_fill (by omega) hdata, hnext, ih (by omega), hend]

/-- The loop on bytes changes nothing when it fills again bytes already filled. -/
theorem setBytes_again (dst : Address) (byte : BitVec 8) (hk : k ≤ 2 ^ 32) (count : ℕ) {j : ℕ}
    (hj : j + count ≤ k) :
    setBytes (m.fill dst k fun _ => byte) (dst + BitVec.ofNat 32 j) byte count =
      m.fill dst k fun _ => byte := by
  induction count generalizing j with
  | zero => rfl
  | succ count ih =>
    have hnext : dst + BitVec.ofNat 32 j + 1 = dst + BitVec.ofNat 32 (j + 1) := by
      rw [BitVec.ofNat_add, ← add_assoc]
      rfl
    have hsame : (m.fill dst k fun _ => byte) (dst + BitVec.ofNat 32 j) = byte :=
      ByteMemory.fill_of_within (Address.within_add (by omega) hk)
    have hstore : (m.fill dst k fun _ => byte).storeByte (dst + BitVec.ofNat 32 j) byte =
        m.fill dst k fun _ => byte := by
      nth_rewrite 2 [← hsame]
      exact Function.update_eq_self _ _
    rw [setBytes, hstore, hnext, ih (by omega)]

end Loops

/-! ## What the functions write -/

section Results

variable {m : ByteMemory} {dest source dst : Address} {size value count : BitVec 32}

/-- The bytes that a kernel function whose loop on words is taken reaches: those of the words,
unless there is none. -/
def reached (words : Prop) [Decidable words] (size : ℕ) : ℕ :=
  if words ∧ 4 ≤ size then 4 * (size / 4) else size

/-- The user library copies the whole buffer. -/
theorem User.memcpy_eq (hapart : dest.Apart source size.toNat) :
    User.memcpy m dest source size = copied m dest source size.toNat := by
  have hlen : size.toNat ≤ 2 ^ 32 := size.isLt.le
  have hzero : copied m dest source 0 = m := ByteMemory.fill_zero
  have hbase (p : Address) : p + BitVec.ofNat 32 0 = p := add_zero p
  rw [User.memcpy]
  split
  · have hwords := copyWords_copied (m := m) (k := 0) hlen hapart (size.toNat / 4)
      (Nat.mod_lt size.toNat (by decide)) (by omega)
    rw [hzero, hbase, hbase, Nat.div_add_mod, Nat.zero_add] at hwords
    dsimp only
    rw [hwords]
    dsimp only
    rw [copyBytes_copied hlen hapart _ (by omega), Nat.div_add_mod]
  · have hbytes := copyBytes_copied (m := m) (k := 0) hlen hapart size.toNat (by omega)
    rwa [hzero, hbase, hbase, Nat.zero_add] at hbytes

/-- The kernel leaves out the bytes after the last word. -/
theorem Kernel.memcpy_eq (hapart : dest.Apart source size.toNat) :
    Kernel.memcpy m dest source size =
      copied m dest source (reached (aligned dest ∧ aligned source) size.toNat) := by
  have hlen : size.toNat ≤ 2 ^ 32 := size.isLt.le
  have hzero : copied m dest source 0 = m := ByteMemory.fill_zero
  have hbase (p : Address) : p + BitVec.ofNat 32 0 = p := add_zero p
  have hbytes := copyBytes_copied (m := m) (k := 0) hlen hapart size.toNat (by omega)
  rw [hzero, hbase, hbase, Nat.zero_add] at hbytes
  rw [Kernel.memcpy, reached]
  split
  · next halign =>
    have hwords := copyWords_copied (m := m) (k := 0) hlen hapart (size.toNat / 4)
      (Nat.mod_lt size.toNat (by decide)) (by omega)
    rw [hzero, hbase, hbase, Nat.div_add_mod, Nat.zero_add] at hwords
    dsimp only
    rw [hwords]
    dsimp only
    by_cases hsize : 4 ≤ size.toNat
    · have hagain := copyBytes_again (m := m) (j := 0) (k := 4 * (size.toNat / 4)) hlen hapart
        (by omega) (size.toNat % 4) (by omega)
      rw [hbase, hbase] at hagain
      rw [hagain, if_pos ⟨halign, hsize⟩]
    · have hquot : size.toNat / 4 = 0 := by omega
      have hrest : size.toNat % 4 = size.toNat := by omega
      rw [hquot, hrest, Nat.mul_zero, hzero, hbytes, if_neg (fun h => hsize h.2)]
  · next halign =>
    rw [hbytes, if_neg (fun h => halign h.1)]

/-- The user library fills the whole buffer. -/
theorem User.memset_eq :
    User.memset m dst value count = m.fill dst count.toNat fun _ => value.setWidth 8 := by
  have hbytes := setBytes_fill (m := m) (k := 0) dst (value.setWidth 8)
    count.toNat (by omega)
  rw [ByteMemory.fill_zero, Nat.zero_add] at hbytes
  have hbase : dst + BitVec.ofNat 32 0 = dst := add_zero dst
  rwa [hbase] at hbytes

/-- The word of `memset` holds the byte four times. -/
theorem data_extract (byte : BitVec 8) (i : ℕ) (hi : i < 4) :
    (byte.setWidth 32 ||| (byte.setWidth 32 <<< 8) ||| (byte.setWidth 32 <<< 16) |||
      (byte.setWidth 32 <<< 24)).extractLsb' (8 * i) 8 = byte := by
  apply BitVec.eq_of_getLsbD_eq
  intro n hn
  have hshift (j : ℕ) : (byte.setWidth 32 <<< (8 * j)).getLsbD (8 * i + n) =
      (decide (i = j) && byte.getLsbD n) := by
    rw [BitVec.getLsbD_shiftLeft, BitVec.getLsbD_setWidth]
    rcases lt_trichotomy i j with hlt | rfl | hgt
    · rw [decide_eq_true (show 8 * i + n < 8 * j by omega), decide_eq_false hlt.ne]
      simp
    · rw [Nat.add_sub_cancel_left, decide_eq_true (show 8 * i + n < 32 by omega),
        decide_eq_true (show n < 32 by omega),
        decide_eq_false (show ¬8 * i + n < 8 * i by omega)]
      simp
    · rw [BitVec.getLsbD_of_ge byte _ (show 8 ≤ 8 * i + n - 8 * j by omega),
        decide_eq_false hgt.ne']
      simp
  have hfirst : byte.setWidth 32 = byte.setWidth 32 <<< (8 * 0) := (BitVec.shiftLeft_zero _).symm
  have hcases : i = 0 ∨ i = 1 ∨ i = 2 ∨ i = 3 := by omega
  rw [BitVec.getLsbD_extractLsb', BitVec.getLsbD_or, BitVec.getLsbD_or, BitVec.getLsbD_or]
  nth_rewrite 1 [hfirst]
  rw [hshift 0, hshift 1, hshift 2, hshift 3, decide_eq_true hn]
  rcases hcases with rfl | rfl | rfl | rfl
  all_goals simp

/-- The kernel leaves out the bytes after the last word. -/
theorem Kernel.memset_eq :
    Kernel.memset m dst value count =
      m.fill dst (reached (aligned dst) count.toNat) fun _ => value.setWidth 8 := by
  have hbase : dst + BitVec.ofNat 32 0 = dst := add_zero dst
  have hbytes := setBytes_fill (m := m) (k := 0) dst (value.setWidth 8)
    count.toNat (by omega)
  rw [ByteMemory.fill_zero, Nat.zero_add, hbase] at hbytes
  rw [Kernel.memset, reached]
  dsimp only
  split
  · next halign =>
    have hwords := setWords_fill (m := m) (k := 0) dst (data_extract (value.setWidth 8))
      (count.toNat / 4) (Nat.mod_lt count.toNat (by decide)) (by omega)
    rw [ByteMemory.fill_zero, hbase, Nat.div_add_mod, Nat.zero_add] at hwords
    rw [hwords]
    dsimp only
    by_cases hcount : 4 ≤ count.toNat
    · have hagain := setBytes_again (m := m) (j := 0) (k := 4 * (count.toNat / 4)) dst
        (value.setWidth 8) (by omega) (count.toNat % 4) (by omega)
      rw [hbase] at hagain
      rw [hagain, if_pos ⟨halign, hcount⟩]
    · have hquot : count.toNat / 4 = 0 := by omega
      have hrest : count.toNat % 4 = count.toNat := by omega
      rw [hquot, hrest, Nat.mul_zero, ByteMemory.fill_zero, hbytes, if_neg (fun h => hcount h.2)]
  · next halign =>
    rw [hbytes, if_neg (fun h => halign h.1)]

end Results

/-! ## When every byte is transferred -/

section Transfers

variable {m m' : ByteMemory} {dest source dst : Address} {size value count : BitVec 32} {n k : ℕ}

/-- The destination holds the bytes of the source and nothing else changed. -/
structure Copies (m m' : ByteMemory) (dest source : Address) (n : ℕ) : Prop where
  bytes : ∀ i < n, m' (dest + BitVec.ofNat 32 i) = m (source + BitVec.ofNat 32 i)
  others : ∀ a : Address, ¬a.Within dest n → m' a = m a

/-- The buffer holds the byte everywhere and nothing else changed. -/
structure Fills (m m' : ByteMemory) (dst : Address) (byte : BitVec 8) (n : ℕ) : Prop where
  bytes : ∀ i < n, m' (dst + BitVec.ofNat 32 i) = byte
  others : ∀ a : Address, ¬a.Within dst n → m' a = m a

/-- What is asked of `memcpy`: both versions copy the buffer, each computes what its loop on bytes
alone would, and they agree. -/
structure MemcpyTransfers (m : ByteMemory) (dest source : Address) (size : BitVec 32) : Prop where
  kernel : Copies m (Kernel.memcpy m dest source size) dest source size.toNat
  user : Copies m (User.memcpy m dest source size) dest source size.toNat
  kernelBytes : Kernel.memcpy m dest source size = copyBytes m dest source size.toNat
  userBytes : User.memcpy m dest source size = copyBytes m dest source size.toNat
  agree : Kernel.memcpy m dest source size = User.memcpy m dest source size

/-- What is asked of `memset`: both versions fill the buffer, and the kernel's computes what its
loop on bytes alone would. -/
structure MemsetTransfers (m : ByteMemory) (dst : Address) (value count : BitVec 32) : Prop where
  kernel : Fills m (Kernel.memset m dst value count) dst (value.setWidth 8) count.toNat
  user : Fills m (User.memset m dst value count) dst (value.setWidth 8) count.toNat
  kernelBytes : Kernel.memset m dst value count = setBytes m dst (value.setWidth 8) count.toNat

/-- The index is that of a byte after the last word. -/
def Leftover (size i : ℕ) : Prop := 4 ≤ size ∧ 4 * (size / 4) ≤ i ∧ i < size

/-- When both pointers are aligned, the bytes after the last word are already equal. -/
def LeftoverEqual (m : ByteMemory) (dest source : Address) (size : BitVec 32) : Prop :=
  aligned dest ∧ aligned source →
    ∀ i, Leftover size.toNat i → m (dest + BitVec.ofNat 32 i) = m (source + BitVec.ofNat 32 i)

/-- When the pointer is aligned, the bytes after the last word already have the value. -/
def LeftoverFilled (m : ByteMemory) (dst : Address) (value count : BitVec 32) : Prop :=
  aligned dst → ∀ i, Leftover count.toNat i → m (dst + BitVec.ofNat 32 i) = value.setWidth 8

/-- The bytes that the kernel does not reach. -/
theorem fill_reached_iff {words : Prop} [Decidable words] {bytes : BitVec 32 → BitVec 8}
    (hn : n ≤ 2 ^ 32) :
    m.fill dst (reached words n) bytes = m.fill dst n bytes ↔
      (words → ∀ i, Leftover n i → m (dst + BitVec.ofNat 32 i) = bytes (BitVec.ofNat 32 i)) := by
  rw [reached]
  split
  · next h =>
    rw [ByteMemory.fill_eq_fill_iff (Nat.mul_div_le n 4) hn]
    exact ⟨fun hall _ i hi => hall i hi.2.1 hi.2.2, fun hall i hi hin => hall h.1 i ⟨h.2, hi, hin⟩⟩
  · next h =>
    exact iff_of_true rfl fun hwords i hi => absurd ⟨hwords, hi.1⟩ h

theorem copies_iff (hn : n ≤ 2 ^ 32) :
    Copies m m' dest source n ↔ m' = copied m dest source n := by
  rw [copied, ByteMemory.eq_fill_iff hn]
  exact ⟨fun h => ⟨h.bytes, h.others⟩, fun h => ⟨h.1, h.2⟩⟩

theorem fills_iff {byte : BitVec 8} (hn : n ≤ 2 ^ 32) :
    Fills m m' dst byte n ↔ m' = m.fill dst n fun _ => byte := by
  rw [ByteMemory.eq_fill_iff hn]
  exact ⟨fun h => ⟨h.bytes, h.others⟩, fun h => ⟨h.1, h.2⟩⟩

/-- `memcpy` transfers every byte exactly when the bytes it does not reach are already equal. -/
theorem memcpyTransfers_iff (hapart : dest.Apart source size.toNat) :
    MemcpyTransfers m dest source size ↔ LeftoverEqual m dest source size := by
  have hn : size.toNat ≤ 2 ^ 32 := size.isLt.le
  have hbytes : copyBytes m dest source size.toNat = copied m dest source size.toNat := by
    have hloop := copyBytes_copied (m := m) (k := 0) hn hapart size.toNat (by omega)
    have hzero : copied m dest source 0 = m := ByteMemory.fill_zero
    have hbase (p : Address) : p + BitVec.ofNat 32 0 = p := add_zero p
    rwa [hzero, hbase, hbase, Nat.zero_add] at hloop
  have hreached : Kernel.memcpy m dest source size = copied m dest source size.toNat ↔
      LeftoverEqual m dest source size := by
    rw [Kernel.memcpy_eq hapart]
    exact fill_reached_iff hn
  rw [← hreached]
  constructor
  · intro h
    exact (copies_iff hn).1 h.kernel
  · intro h
    exact {
      kernel := (copies_iff hn).2 h
      user := (copies_iff hn).2 (User.memcpy_eq hapart)
      kernelBytes := h.trans hbytes.symm
      userBytes := (User.memcpy_eq hapart).trans hbytes.symm
      agree := h.trans (User.memcpy_eq hapart).symm }

/-- `memset` transfers every byte exactly when the bytes it does not reach already have the
value. -/
theorem memsetTransfers_iff :
    MemsetTransfers m dst value count ↔ LeftoverFilled m dst value count := by
  have hn : count.toNat ≤ 2 ^ 32 := count.isLt.le
  have hbytes : setBytes m dst (value.setWidth 8) count.toNat =
      m.fill dst count.toNat fun _ => value.setWidth 8 := User.memset_eq
  have hreached : (Kernel.memset m dst value count =
      m.fill dst count.toNat fun _ => value.setWidth 8) ↔ LeftoverFilled m dst value count := by
    rw [Kernel.memset_eq]
    exact fill_reached_iff hn
  rw [← hreached]
  constructor
  · intro h
    exact (fills_iff hn).1 h.kernel
  · intro h
    exact {
      kernel := (fills_iff hn).2 h
      user := (fills_iff hn).2 User.memset_eq
      kernelBytes := h.trans hbytes.symm }

/-- Every byte is transferred exactly when those that the kernel does not reach already have their
final value. -/
theorem transfers_iff (hapart : dest.Apart source size.toNat) :
    MemcpyTransfers m dest source size ∧ MemsetTransfers m dst value count ↔
      LeftoverEqual m dest source size ∧ LeftoverFilled m dst value count :=
  and_congr (memcpyTransfers_iff hapart) memsetTransfers_iff

/-- Aligned buffers whose sizes are multiples of four are transferred. -/
theorem transfers_words :
    MemcpyTransfers (fun a => a.setWidth 8) 0x100 0x200 8 ∧
      MemsetTransfers (fun a => a.setWidth 8) 0x100 7 12 := by
  have hnone {size : ℕ} (hsize : size % 4 = 0) (i : ℕ) : ¬Leftover size i := by
    intro h
    have := h.2
    omega
  apply (transfers_iff (Address.apart_of_le (by decide) (by decide))).2
  exact ⟨fun _ i hi => absurd hi (hnone rfl i), fun _ i hi => absurd hi (hnone rfl i)⟩

/-- The last byte of an aligned buffer of five bytes is not copied. -/
theorem not_transfers_five :
    ¬∀ (m : ByteMemory) (dest source : Address) (size : BitVec 32) (dst : Address)
      (value count : BitVec 32), dest.Apart source size.toNat →
      MemcpyTransfers m dest source size ∧ MemsetTransfers m dst value count := by
  intro hall
  have hcopies := (hall (fun a => (a >>> 8).setWidth 8) 0x100 0x200 5 0 0 0
    (Address.apart_of_le (by decide) (by decide))).1.kernel
  have hlast := hcopies.bytes 4 (by decide)
  revert hlast
  decide

/-- The words leave less than four bytes. -/
theorem copyWords_size (n : ℕ) (m : ByteMemory) (dst src : Address) :
    (copyWords m dst src n).size = n % 4 := by
  induction n using Nat.strong_induction_on generalizing m dst src with
  | h n ih =>
    unfold copyWords
    split
    · next size =>
      rw [ih size (by omega)]
      exact (Nat.add_mod_right size 4).symm
    · next size hsmall =>
      have hlt : n < 4 := by
        by_contra hge
        exact hsmall (n - 4) (by omega)
      exact (Nat.mod_eq_of_lt hlt).symm

/-- Whatever the buffers, even overlapping ones, both versions of `memcpy` agree when there is no
byte after the last word. -/
theorem memcpy_agree (h : ¬(aligned dest ∧ aligned source) ∨ size.toNat % 4 = 0) :
    Kernel.memcpy m dest source size = User.memcpy m dest source size := by
  rw [Kernel.memcpy, User.memcpy]
  split
  · next halign =>
    have hrest : (copyWords m dest source size.toNat).size = 0 := by
      rw [copyWords_size]
      exact h.resolve_left (not_not_intro halign)
    dsimp only
    rw [hrest, copyBytes, copyBytes]
  · rfl

end Transfers

end GietVm.Common
