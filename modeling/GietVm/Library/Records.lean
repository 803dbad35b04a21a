import GietVm.Library.ByteMemory
import Mathlib.Algebra.Order.Ring.Int

/-!
# Records laid out one after the other

A sequence of bytes is held in memory from an address on. What is held is a concatenation when
each part is held where the parts before it end, so a table of records of one size holds its
record `k` at `k` times the size. The bytes of a number are held in little-endian order, and
loading them gives the number back.
-/

namespace GietVm.Library

/-- The `count` low bytes of a number, in little-endian order. -/
def littleEndian (count : ℕ) (v : ℤ) : List (BitVec 8) :=
  (List.range count).map fun n => BitVec.ofInt 8 (v / 2 ^ (8 * n))

@[simp] theorem littleEndian_length (count : ℕ) (v : ℤ) : (littleEndian count v).length = count := by
  rw [littleEndian, List.length_map, List.length_range]

/-- The low bytes come first. -/
theorem littleEndian_add (n count : ℕ) (v : ℤ) :
    littleEndian (n + count) v = littleEndian n v ++ littleEndian count (v / 2 ^ (8 * n)) := by
  rw [littleEndian, List.range_add, List.map_append, List.map_map]
  refine congrArg (littleEndian n v ++ ·) (List.map_congr_left fun k _ => ?_)
  change BitVec.ofInt 8 (v / 2 ^ (8 * (n + k))) = BitVec.ofInt 8 (v / 2 ^ (8 * n) / 2 ^ (8 * k))
  rw [Int.ediv_ediv_of_nonneg (pow_nonneg (by decide) _), ← pow_add, Nat.mul_add]

namespace ByteMemory

/-- The bytes are in memory from the address on. -/
def Holds (m : ByteMemory) (a : Address) (bytes : List (BitVec 8)) : Prop :=
  ∀ i (h : i < bytes.length), m (a + BitVec.ofNat 32 i) = bytes[i]

/-- The memory that holds the bytes from an address on, and zeros elsewhere. -/
def ofBytes (a : Address) (bytes : List (BitVec 8)) : ByteMemory :=
  fun p => bytes.getD (p - a).toNat 0

variable {m : ByteMemory} {a : Address} {bytes left right : List (BitVec 8)}

theorem holds_ofBytes (h : bytes.length ≤ 2 ^ 32) : (ofBytes a bytes).Holds a bytes := by
  intro i hi
  rw [ofBytes, Address.add_sub_toNat (lt_of_lt_of_le hi h), List.getD_eq_getElem?_getD,
    List.getElem?_eq_getElem hi, Option.getD_some]

/-- Parts are held one after the other. -/
theorem holds_append :
    m.Holds a (left ++ right) ↔
      m.Holds a left ∧ m.Holds (a + BitVec.ofNat 32 left.length) right := by
  have hnext (i : ℕ) :
      a + BitVec.ofNat 32 left.length + BitVec.ofNat 32 i = a + BitVec.ofNat 32 (left.length + i) := by
    rw [BitVec.ofNat_add, add_assoc]
  constructor
  · intro h
    constructor
    · intro i hi
      rw [h i (by rw [List.length_append]; omega), List.getElem_append_left hi]
    · intro i hi
      rw [hnext, h (left.length + i) (by rw [List.length_append]; omega),
        List.getElem_append_right (Nat.le_add_right _ _)]
      simp only [Nat.add_sub_cancel_left]
  · intro ⟨hleft, hright⟩ i hi
    by_cases hin : i < left.length
    · rw [List.getElem_append_left hin]
      exact hleft i hin
    · rw [List.getElem_append_right (Nat.le_of_not_lt hin)]
      have := hright (i - left.length) (by rw [List.length_append] at hi; omega)
      rwa [hnext, Nat.add_sub_cancel' (Nat.le_of_not_lt hin)] at this

/-- The record at a place of a table. -/
theorem Holds.record {records : List (List (BitVec 8))} {size : ℕ}
    (hsize : ∀ r ∈ records, r.length = size) (h : m.Holds a records.flatten) {k : ℕ}
    {r : List (BitVec 8)} (hk : records[k]? = some r) :
    m.Holds (a + BitVec.ofNat 32 (size * k)) r := by
  induction records generalizing a k with
  | nil => cases hk
  | cons first rest ih =>
    rw [List.flatten_cons, holds_append] at h
    have hfirst : first.length = size := hsize first List.mem_cons_self
    cases k with
    | zero =>
      have hr : first = r := Option.some.inj hk
      rw [← hr]
      simpa using h.1
    | succ k =>
      have hrest := ih (fun r' hr' => hsize r' (List.mem_cons_of_mem _ hr')) h.2 hk
      rwa [hfirst, add_assoc, ← BitVec.ofNat_add, Nat.add_comm, ← Nat.mul_succ] at hrest

/-- The length of a table. -/
theorem flatten_length {records : List (List (BitVec 8))} {size : ℕ}
    (hsize : ∀ r ∈ records, r.length = size) : records.flatten.length = size * records.length := by
  induction records with
  | nil => rfl
  | cons first rest ih =>
    rw [List.flatten_cons, List.length_append, hsize first List.mem_cons_self,
      ih fun r hr => hsize r (List.mem_cons_of_mem _ hr), List.length_cons, Nat.mul_succ,
      Nat.add_comm]

/-- The bytes of a number are loaded as its low word. -/
theorem Holds.loadWord {v : ℤ} (h : m.Holds a (littleEndian 4 v)) :
    m.loadWord a = BitVec.ofInt 32 v := by
  have hbyte (i : ℕ) (hi : i < 4) :
      m (a + BitVec.ofNat 32 i) = BitVec.ofInt 8 (v / 2 ^ (8 * i)) := by
    rw [h i (by rw [littleEndian_length]; exact hi)]
    simp only [littleEndian, List.getElem_map, List.getElem_range]
  have h0 := hbyte 0 (by decide)
  have h1 := hbyte 1 (by decide)
  have h2 := hbyte 2 (by decide)
  have h3 := hbyte 3 (by decide)
  change m (a + 0#32) = _ at h0
  change m (a + 1) = _ at h1
  change m (a + 2) = _ at h2
  change m (a + 3) = _ at h3
  rw [BitVec.add_zero] at h0
  rw [ByteMemory.loadWord, h0, h1, h2, h3]
  apply BitVec.eq_of_toNat_eq
  have happend {w : ℕ} (high : BitVec w) (low : BitVec 8) :
      (high ++ low).toNat = high.toNat * 2 ^ 8 + low.toNat := by
    rw [BitVec.toNat_append, ← Nat.shiftLeft_add_eq_or_of_lt low.isLt, Nat.shiftLeft_eq]
  rw [happend, happend, happend]
  simp only [BitVec.toNat_ofInt]
  omega

/-- The bytes of a double word are loaded as its two words. -/
theorem Holds.loadWords {v : ℤ} (h : m.Holds a (littleEndian 8 v)) :
    m.loadWord a = BitVec.ofInt 32 v ∧ m.loadWord (a + 4) = BitVec.ofInt 32 (v / 2 ^ 32) := by
  have hsplit : littleEndian 8 v = littleEndian 4 v ++ littleEndian 4 (v / 2 ^ 32) :=
    littleEndian_add 4 4 v
  rw [hsplit, holds_append] at h
  exact ⟨h.1.loadWord, h.2.loadWord⟩

end ByteMemory

end GietVm.Library
