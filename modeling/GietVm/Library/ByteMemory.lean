import Mathlib.Data.BitVec
import Mathlib.Tactic.Common

/-!
# A memory of bytes

The memory of a 32-bit machine has a byte at each address, and addresses wrap around. A range
is given by its first address and its length: an address belongs to it when its distance from the
first one is less than the length. A loop that fills a range from its first address on keeps the
memory of the form `fill m base k bytes`, where `k` bytes are written: `storeByte_fill` and
`storeWord_fill` are its steps.
-/

namespace GietVm.Library

/-- An address. -/
abbrev Address := BitVec 32

/-- A memory. -/
abbrev ByteMemory := Address → BitVec 8

/-- The address belongs to the range. -/
def Address.Within (a base : Address) (length : ℕ) : Prop := (a - base).toNat < length

instance (a base : Address) (length : ℕ) : Decidable (a.Within base length) :=
  inferInstanceAs (Decidable (_ < _))

/-- No address belongs to both ranges. -/
def Address.Apart (left right : Address) (length : ℕ) : Prop :=
  ∀ a : Address, a.Within left length → ¬a.Within right length

namespace Address

variable {a base : Address} {length k : ℕ}

theorem Within.mono (h : a.Within base k) (hle : k ≤ length) : a.Within base length :=
  lt_of_lt_of_le h hle

theorem not_within_zero : ¬a.Within base 0 := Nat.not_lt_zero _

/-- The distance of an address that is written as an offset. -/
theorem add_sub_toNat (hk : k < 2 ^ 32) : (base + BitVec.ofNat 32 k - base).toNat = k := by
  rw [add_sub_cancel_left, BitVec.toNat_ofNat, Nat.mod_eq_of_lt hk]

/-- An address is its distance from the first one. -/
theorem add_ofNat_sub : base + BitVec.ofNat 32 (a - base).toNat = a := by
  rw [BitVec.ofNat_toNat, BitVec.setWidth_eq, add_sub_cancel]

theorem within_add (hk : k < length) (hlen : length ≤ 2 ^ 32) :
    (base + BitVec.ofNat 32 k).Within base length := by
  rw [Within, add_sub_toNat (lt_of_lt_of_le hk hlen)]
  exact hk

/-- The range with one more byte. -/
theorem within_succ_iff (hk : k < 2 ^ 32) :
    a.Within base (k + 1) ↔ a.Within base k ∨ a = base + BitVec.ofNat 32 k := by
  have hend : a = base + BitVec.ofNat 32 k ↔ (a - base).toNat = k := by
    constructor
    · rintro rfl
      exact add_sub_toNat hk
    · intro heq
      rw [← heq, add_ofNat_sub]
  rw [hend, Within, Within, Nat.lt_succ_iff_lt_or_eq]

theorem not_within_end (hk : k < 2 ^ 32) : ¬(base + BitVec.ofNat 32 k).Within base k := by
  rw [Within, add_sub_toNat hk]
  exact lt_irrefl k

/-- Ranges that follow each other without going round. -/
theorem apart_of_le {left right : Address} (hleft : left.toNat + length ≤ right.toNat)
    (hright : right.toNat + length ≤ 2 ^ 32) : left.Apart right length := by
  intro a hin hin'
  rw [Within, BitVec.toNat_sub] at hin hin'
  have := left.isLt
  have := right.isLt
  have := a.isLt
  omega

end Address

namespace ByteMemory

/-- Store one byte. -/
def storeByte (m : ByteMemory) (a : Address) (v : BitVec 8) : ByteMemory := Function.update m a v

/-- Load the little-endian word at an address. -/
def loadWord (m : ByteMemory) (a : Address) : BitVec 32 :=
  m (a + 3) ++ m (a + 2) ++ m (a + 1) ++ m a

/-- Store a little-endian word. -/
def storeWord (m : ByteMemory) (a : Address) (w : BitVec 32) : ByteMemory :=
  (((m.storeByte a (w.extractLsb' 0 8)).storeByte (a + 1) (w.extractLsb' 8 8)).storeByte (a + 2)
    (w.extractLsb' 16 8)).storeByte (a + 3) (w.extractLsb' 24 8)

/-- The memory in which a range holds the given bytes, indexed by their distance from its first
address. -/
def fill (m : ByteMemory) (base : Address) (length : ℕ) (bytes : BitVec 32 → BitVec 8) :
    ByteMemory :=
  fun a => if a.Within base length then bytes (a - base) else m a

variable {m : ByteMemory} {base : Address} {k : ℕ} {bytes : BitVec 32 → BitVec 8}

theorem fill_of_within {a : Address} (h : a.Within base k) :
    m.fill base k bytes a = bytes (a - base) := if_pos h

theorem fill_of_not_within {a : Address} (h : ¬a.Within base k) : m.fill base k bytes a = m a :=
  if_neg h

theorem fill_zero : m.fill base 0 bytes = m := by
  funext a
  exact fill_of_not_within Address.not_within_zero

/-- The byte after those written is stored. -/
theorem storeByte_fill (hk : k < 2 ^ 32) {v : BitVec 8} (hv : v = bytes (BitVec.ofNat 32 k)) :
    (m.fill base k bytes).storeByte (base + BitVec.ofNat 32 k) v = m.fill base (k + 1) bytes := by
  funext a
  rw [storeByte, Function.update_apply]
  split
  · next heq =>
    rw [fill_of_within ((Address.within_succ_iff hk).2 (.inr heq)), hv, heq, add_sub_cancel_left]
  · next hne =>
    by_cases hin : a.Within base k
    · rw [fill_of_within hin, fill_of_within (hin.mono (Nat.le_succ k))]
    · have hout : ¬a.Within base (k + 1) := by
        rw [Address.within_succ_iff hk]
        exact not_or.2 ⟨hin, hne⟩
      rw [fill_of_not_within hin, fill_of_not_within hout]

/-- The word after the bytes written is stored. -/
theorem storeWord_fill (hk : k + 3 < 2 ^ 32) {w : BitVec 32}
    (hw : ∀ i < 4, w.extractLsb' (8 * i) 8 = bytes (BitVec.ofNat 32 (k + i))) :
    (m.fill base k bytes).storeWord (base + BitVec.ofNat 32 k) w = m.fill base (k + 4) bytes := by
  have hnext (i : ℕ) :
      base + BitVec.ofNat 32 k + BitVec.ofNat 32 i = base + BitVec.ofNat 32 (k + i) := by
    rw [BitVec.ofNat_add, add_assoc]
  have hfirst : w.extractLsb' 0 8 = bytes (BitVec.ofNat 32 k) := hw 0 (by decide)
  rw [storeWord, storeByte_fill (by omega) hfirst]
  change (((m.fill base (k + 1) bytes).storeByte (_ + BitVec.ofNat 32 1) _).storeByte
    (_ + BitVec.ofNat 32 2) _).storeByte (_ + BitVec.ofNat 32 3) _ = _
  rw [hnext, storeByte_fill (by omega) (hw 1 (by decide)),
    hnext, storeByte_fill (by omega) (hw 2 (by decide)),
    hnext, storeByte_fill (by omega) (hw 3 (by decide))]

/-- The bytes of a loaded word. -/
theorem loadWord_extract (a : Address) {i : ℕ} (hi : i < 4) :
    (m.loadWord a).extractLsb' (8 * i) 8 = m (a + BitVec.ofNat 32 i) := by
  have hcases : i = 0 ∨ i = 1 ∨ i = 2 ∨ i = 3 := by omega
  have hbits (b₀ b₁ b₂ b₃ : BitVec 8) (j : ℕ) (hj : j < 4) :
      (b₃ ++ b₂ ++ b₁ ++ b₀).extractLsb' (8 * j) 8 =
        if j = 0 then b₀ else if j = 1 then b₁ else if j = 2 then b₂ else b₃ := by
    apply BitVec.eq_of_getLsbD_eq
    intro n hn
    rw [BitVec.getLsbD_extractLsb']
    simp only [hn, decide_true, Bool.true_and, BitVec.getLsbD_append]
    split_ifs <;> first | omega | (congr 1; omega)
  rw [loadWord, hbits _ _ _ _ i hi]
  rcases hcases with rfl | rfl | rfl | rfl
  · exact congrArg m (add_zero a).symm
  · rfl
  · rfl
  · rfl

/-- A memory is the filled one when the range holds the bytes and nothing else changed. -/
theorem eq_fill_iff {m' : ByteMemory} (hk : k ≤ 2 ^ 32) :
    m' = m.fill base k bytes ↔
      (∀ i < k, m' (base + BitVec.ofNat 32 i) = bytes (BitVec.ofNat 32 i)) ∧
        ∀ a : Address, ¬a.Within base k → m' a = m a := by
  constructor
  · rintro rfl
    refine ⟨fun i hi => ?_, fun a ha => fill_of_not_within ha⟩
    rw [fill_of_within (Address.within_add hi hk), add_sub_cancel_left]
  · intro ⟨hbytes, hothers⟩
    funext a
    by_cases hin : a.Within base k
    · have hbyte := hbytes (a - base).toNat hin
      rw [Address.add_ofNat_sub, BitVec.ofNat_toNat, BitVec.setWidth_eq] at hbyte
      rw [fill_of_within hin, hbyte]
    · rw [fill_of_not_within hin, hothers a hin]

/-- Filling a beginning of the range fills it when the rest already holds the bytes. -/
theorem fill_eq_fill_iff {n : ℕ} (hle : k ≤ n) (hn : n ≤ 2 ^ 32) :
    m.fill base k bytes = m.fill base n bytes ↔
      ∀ i, k ≤ i → i < n → m (base + BitVec.ofNat 32 i) = bytes (BitVec.ofNat 32 i) := by
  have hout {i : ℕ} (hki : k ≤ i) (hin : i < n) :
      ¬(base + BitVec.ofNat 32 i).Within base k := by
    rw [Address.Within, Address.add_sub_toNat (by omega)]
    omega
  rw [eq_fill_iff hn]
  constructor
  · intro ⟨hbytes, _⟩ i hki hin
    have hbyte := hbytes i hin
    rwa [fill_of_not_within (hout hki hin)] at hbyte
  · intro hsame
    refine ⟨fun i hin => ?_, fun a ha => fill_of_not_within fun h => ha (h.mono hle)⟩
    by_cases hki : k ≤ i
    · rw [fill_of_not_within (hout hki hin)]
      exact hsame i hki hin
    · rw [fill_of_within (Address.within_add (by omega) (by omega)), add_sub_cancel_left]

end ByteMemory

end GietVm.Library
