import Mathlib.Data.List.Range
import Mathlib.Data.Fin.Basic
import Mathlib.Algebra.Order.Ring.Nat
import Mathlib.Tactic.Common
import Mathlib.Tactic.NormNum

/-!
# Byte buffers and a disk of sectors

A buffer is an array of `n` bytes, read and written at natural offsets. Words are stored
in little-endian order. A disk is an endless array of bytes addressed by sectors of 512
bytes: `Disk.load` copies consecutive sectors into a buffer and `Disk.store` writes a
buffer over them. Everything said about disks follows from three facts: a load sees a
store over the same sectors, a load does not see a store over other sectors, and bytes
outside the stored sectors keep their value.
-/

namespace GietVm.Library

/-- A buffer of `n` bytes. -/
abbrev Bytes (n : ℕ) := Fin n → UInt8

namespace Bytes

variable {n : ℕ}

/-- The byte at an offset. No access outside the buffer is ever made. -/
def get (b : Bytes n) (i : ℕ) : UInt8 := if h : i < n then b ⟨i, h⟩ else 0

/-- Store one byte. -/
def set (b : Bytes n) (i : ℕ) (v : UInt8) : Bytes n := fun j => if j.val = i then v else b j

/-- Store consecutive bytes from an offset on. -/
def write (b : Bytes n) (i : ℕ) (l : List UInt8) : Bytes n := fun j =>
  if i ≤ j.val ∧ j.val < i + l.length then l.getD (j.val - i) 0 else b j

/-- The little-endian word at an offset. -/
def word (b : Bytes n) (i : ℕ) : ℕ :=
  (b.get i).toNat + 0x100 * (b.get (i + 1)).toNat + 0x10000 * (b.get (i + 2)).toNat +
    0x1000000 * (b.get (i + 3)).toNat

/-- The four bytes of a word, in little-endian order. -/
def wordBytes (v : ℕ) : List UInt8 :=
  [UInt8.ofNat v, UInt8.ofNat (v / 0x100), UInt8.ofNat (v / 0x10000),
    UInt8.ofNat (v / 0x1000000)]

/-- Store a little-endian word. -/
def setWord (b : Bytes n) (i v : ℕ) : Bytes n := b.write i (wordBytes v)

theorem get_of_lt (b : Bytes n) {i : ℕ} (hi : i < n) : b.get i = b ⟨i, hi⟩ := by
  simp [get, hi]

theorem ext_get {b c : Bytes n} (h : ∀ i < n, b.get i = c.get i) : b = c := by
  funext j
  have := h j.val j.isLt
  rwa [get_of_lt b j.isLt, get_of_lt c j.isLt] at this

theorem get_set (b : Bytes n) (i j : ℕ) (v : UInt8) (hj : j < n) :
    (b.set i v).get j = if j = i then v else b.get j := by
  simp [get, set, hj]

theorem get_write (b : Bytes n) (i j : ℕ) (l : List UInt8) (hj : j < n) :
    (b.write i l).get j = if i ≤ j ∧ j < i + l.length then l.getD (j - i) 0 else b.get j := by
  simp [get, write, hj]

theorem get_write_apart (b : Bytes n) {i j : ℕ} (l : List UInt8)
    (h : j < i ∨ i + l.length ≤ j) : (b.write i l).get j = b.get j := by
  unfold get write
  split
  · exact if_neg (by simp only; omega)
  · rfl

theorem get_write_inside (b : Bytes n) {i j : ℕ} (l : List UInt8) (hj : j < l.length)
    (hin : i + l.length ≤ n) : (b.write i l).get (i + j) = l[j] := by
  rw [get_write _ _ _ _ (by omega), if_pos (by omega), Nat.add_sub_cancel_left]
  simp [List.getD, hj]

theorem word_lt (b : Bytes n) (i : ℕ) : b.word i < 0x100000000 := by
  have h (j : ℕ) : (b.get j).toNat < 256 := (b.get j).toNat_lt
  have := h i
  have := h (i + 1)
  have := h (i + 2)
  have := h (i + 3)
  simp only [word]
  omega

/-- The word whose bytes are those of a value. -/
theorem word_of_bytes (b : Bytes n) {i v : ℕ}
    (hbyte : ∀ j < 4, b.get (i + j) = (wordBytes v).getD j 0) : b.word i = v % 0x100000000 := by
  have h0 := hbyte 0 (by omega)
  rw [Nat.add_zero] at h0
  simp only [word, h0, hbyte 1 (by omega), hbyte 2 (by omega), hbyte 3 (by omega), wordBytes,
    List.getD_cons_zero, List.getD_cons_succ, UInt8.toNat_ofNat']
  norm_num
  omega

theorem word_setWord_same (b : Bytes n) {i : ℕ} (v : ℕ) (hi : i + 4 ≤ n) :
    (b.setWord i v).word i = v % 0x100000000 := by
  have hlen : (wordBytes v).length = 4 := rfl
  refine word_of_bytes _ fun j hj => ?_
  rw [setWord, get_write _ _ _ _ (by omega), if_pos (by rw [hlen]; omega),
    Nat.add_sub_cancel_left]

theorem word_setWord_apart (b : Bytes n) {i j : ℕ} (v : ℕ) (h : j + 4 ≤ i ∨ i + 4 ≤ j) :
    (b.setWord i v).word j = b.word j := by
  have hbyte (k : ℕ) (hk : k < 4) : (b.setWord i v).get (j + k) = b.get (j + k) := by
    refine get_write_apart b _ ?_
    change _ ∨ i + 4 ≤ _
    omega
  have h0 := hbyte 0 (by omega)
  rw [Nat.add_zero] at h0
  simp only [word, h0, hbyte 1 (by omega), hbyte 2 (by omega), hbyte 3 (by omega)]

end Bytes

/-- The bytes of a device, numbered from its first sector on. -/
abbrev Disk := ℕ → UInt8

namespace Disk

variable {n m : ℕ}

/-- Copy the `n` bytes from sector `lba` on. -/
def load (d : Disk) (n lba : ℕ) : Bytes n := fun i => d (512 * lba + i.val)

/-- Write a buffer from sector `lba` on. -/
def store (d : Disk) (lba : ℕ) (b : Bytes n) : Disk := fun a =>
  if h : 512 * lba ≤ a ∧ a - 512 * lba < n then b ⟨a - 512 * lba, h.2⟩ else d a

theorem store_apart (d : Disk) {lba : ℕ} (b : Bytes n) {a : ℕ}
    (h : a < 512 * lba ∨ 512 * lba + n ≤ a) : d.store lba b a = d a := by
  rw [store, dif_neg (by omega)]

theorem load_store_same (d : Disk) (lba : ℕ) (b : Bytes n) : (d.store lba b).load n lba = b := by
  funext i
  have hi := i.isLt
  rw [load, store, dif_pos (by omega)]
  congr 1
  exact Fin.ext (by simp)

theorem load_store_apart (d : Disk) {lba lba' : ℕ} (b : Bytes n)
    (h : 512 * lba' + m ≤ 512 * lba ∨ 512 * lba + n ≤ 512 * lba') :
    (d.store lba b).load m lba' = d.load m lba' := by
  funext i
  have hi := i.isLt
  exact store_apart d b (by omega)

/-- Writing back what was read changes nothing. -/
theorem store_load (d : Disk) (lba : ℕ) : d.store lba (d.load n lba) = d := by
  funext a
  rw [store]
  split
  · rw [load]
    congr 1
    simp only
    omega
  · rfl

/-- Equal loads remain equal after equal edits elsewhere. -/
theorem load_congr {d d' : Disk} {lba : ℕ}
    (h : ∀ a, 512 * lba ≤ a → a < 512 * lba + n → d a = d' a) :
    d.load n lba = d'.load n lba := by
  funext i
  have hi := i.isLt
  exact h _ (by omega) (by omega)

end Disk

end GietVm.Library
