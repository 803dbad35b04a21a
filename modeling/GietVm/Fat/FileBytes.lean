import GietVm.Library.Splice
import GietVm.Fat.Readdir
import GietVm.Fat.TransferBounds

/-!
# The bytes of a file

The content of a file is an array of bytes: the one that its File-Cache shows, cluster by cluster.
The loop of `_fat_read` copies a stretch of this array to the memory of the caller, and that of
`_fat_write` replaces a stretch of it, whatever clusters are in the caches before.

`memcpy` of the kernel moves a number of bytes that is no multiple of 4 to its end only when one of
the two addresses is not a multiple of 4, or when there are less than 4 bytes. Of the parts of a
transfer, the one in the last cluster is the only one that this can cut off.
-/

namespace GietVm.Fat

open GietVm.Library

/-- A byte of a file. -/
def FatState.fileByte (s : FatState) (p : Ptr) (i : ℕ) : UInt8 :=
  (s.block (some p) (i / 0x1000)).get (i % 0x1000)

/-! ## The parts of a transfer -/

/-- The first byte of a transfer in a cluster. -/
def partStart (seek k : ℕ) : ℕ := max seek (0x1000 * k)

/-- The copy moves all of its bytes. -/
def ExactCopy (copy : Memcpy) (dest source size : ℕ) : Prop :=
  ∀ src dst i, copy dest source size src dst i = if i < size then src i else dst i

/-- The part of a transfer in the last cluster is not cut off by `memcpy`. -/
def MovesAll (buffer seek count : ℕ) : Prop :=
  let start := partStart seek ((seek + count - 1) / 0x1000)
  (buffer + (start - seek)) % 4 ≠ 0 ∨ start % 4 ≠ 0 ∨ (seek + count - start) % 4 = 0 ∨
    seek + count - start < 4

instance (buffer seek count : ℕ) : Decidable (MovesAll buffer seek count) :=
  inferInstanceAs (Decidable (_ ∨ _ ∨ _ ∨ _))

section Parts

variable {seek count k buffer : ℕ}

theorem memcpy_exact_iff {dest source size : ℕ} : ExactCopy memcpy dest source size ↔
    dest % 4 ≠ 0 ∨ source % 4 ≠ 0 ∨ size % 4 = 0 ∨ size < 4 := by
  constructor
  · intro h
    by_contra hcut
    simp only [not_or, not_not] at hcut
    -- the last byte is neither in a word nor among the first `size % 4` bytes
    have hbyte := h (fun _ => 1) (fun _ => 0) (size - 1)
    rw [memcpy, if_pos ⟨hcut.1, hcut.2.1⟩, copyBytes_apply, if_neg (by omega), copyWords_apply,
      if_neg (by omega), if_pos (by omega)] at hbyte
    exact absurd hbyte (by decide)
  · intro h src dst i
    rw [memcpy]
    split
    · rename_i haligned
      rw [copyBytes_apply, copyWords_apply]
      by_cases hi : i < size
      · rw [if_pos hi]
        split
        · rfl
        · rw [if_pos (by omega)]
      · rw [if_neg hi, if_neg (by omega), if_neg (by omega)]
    · rw [copyBytes_apply, Nat.zero_add]
      simp only [Nat.zero_le, true_and]

theorem ExactCopy.swap {dest source size : ℕ} (h : ExactCopy memcpy dest source size) :
    ExactCopy memcpy source dest size := by
  rw [memcpy_exact_iff] at h ⊢
  omega

end Parts

/-! ## What the loops keep -/

/-- The descriptors of a file are those of its first `n` clusters, they know the places of these
on the device, and the clean ones agree with the device. -/
def FatState.Coherent (s : FatState) (p : Ptr) (n : ℕ) : Prop :=
  ∀ k desc, s.slot (some p) k = some desc → k < n ∧ desc.lba = s.lbaOf (some p) k ∧
    (desc.dirty = false → desc.buffer = s.device.disk.load 4096 desc.lba)

/-- What the loops of a transfer keep, whose clusters are among the first `n` of a file. -/
structure Served (p : Ptr) (n : ℕ) (s s' : FatState) : Prop where
  similar : Similar s s'
  others : ∀ q, q ≠ p → s'.cacheAt (some q) = s.cacheAt (some q)
  coherent : s.Coherent p n → s'.Coherent p n

section Served

variable {s s' s'' : FatState} {p : Ptr} {n k : ℕ}

theorem Served.refl (s : FatState) : Served p n s s := ⟨Similar.refl s, fun _ _ => rfl, id⟩

theorem Served.trans (h : Served p n s s') (h' : Served p n s' s'') : Served p n s s'' :=
  ⟨h.similar.trans h'.similar, fun q hq => (h'.others q hq).trans (h.others q hq),
    fun hs => h'.coherent (h.coherent hs)⟩

/-- Loading one cluster. -/
theorem Served.of_loaded (hc : Cached s s') (hk : k < n)
    (hothers : ∀ q, q ≠ p → s'.cacheAt (some q) = s.cacheAt (some q))
    (hslots : ∀ k', k' ≠ k → s'.slot (some p) k' = s.slot (some p) k') : Served p n s s' := by
  refine ⟨hc.similar, hothers, ?_⟩
  intro hs k' desc hslot
  rw [hc.lbaOf, bare_disk hc.bare]
  by_cases heq : k' = k
  · obtain hold | ⟨-, hlba, hbuffer⟩ := hc.fresh _ _ _ hslot
    · exact hs k' desc hold
    · refine ⟨heq ▸ hk, hlba, ?_⟩
      intro _
      rw [hbuffer, hlba]
  · rw [hslots k' heq] at hslot
    exact hs k' desc hslot

/-- Writing through a descriptor, which becomes dirty. -/
theorem Served.of_edited {desc desc' : Desc} (h : Edited s s' (some p) k desc')
    (hslot : s.slot (some p) k = some desc) (hlba : desc'.lba = desc.lba)
    (hdirty : desc'.dirty = true) : Served p n s s' := by
  refine ⟨h.similar, ?_, ?_⟩
  · intro q hq
    apply h.others
    intro heq
    exact hq (Option.some.inj heq)
  · intro hs k' d hd
    rw [h.slot] at hd
    rw [h.similar.lbaOf, bare_disk h.bare]
    by_cases heq : k' = k
    · rw [if_pos ⟨rfl, heq⟩, Option.some.injEq] at hd
      subst hd heq
      obtain ⟨hk, hold, -⟩ := hs k' desc hslot
      refine ⟨hk, hlba.trans hold, ?_⟩
      intro hclean
      rw [hdirty] at hclean
      cases hclean
    · rw [if_neg (fun h => heq h.2)] at hd
      exact hs k' d hd

end Served

/-! ## The loop of `_fat_read` -/

section Read

variable {s s' : FatState} {p : Ptr} {n seek count buffer : ℕ}

theorem withIo_lbaOf (fd : ℕ → FileDesc) (memory : ℕ → UInt8) (owner : Option Ptr) (k : ℕ) :
    (s.withIo fd memory).lbaOf owner k = s.lbaOf owner k := by
  cases owner with
  | none => rfl
  | some p => exact (withIo_sameFile s fd memory p).lbaOf k

theorem Similar.withIo (h : Similar s s') (fd : ℕ → FileDesc) (memory : ℕ → UInt8) :
    Similar (s.withIo fd memory) (s'.withIo fd memory) where
  frame := congrArg (fun t : FatState => t.withIo fd memory) h.frame
  brk := h.brk
  fatEntry := h.fatEntry
  cacheOk := h.cacheOk

theorem withIo_coherent {fd : ℕ → FileDesc} {memory : ℕ → UInt8} :
    (s.withIo fd memory).Coherent p n ↔ s.Coherent p n := by
  rw [FatState.Coherent, FatState.Coherent]
  simp only [withIo_lbaOf]
  rfl

theorem Served.withIo (h : Served p n s s') (fd : ℕ → FileDesc) (memory : ℕ → UInt8) :
    Served p n (s.withIo fd memory) (s'.withIo fd memory) :=
  ⟨h.similar.withIo fd memory, h.others,
    fun hs => withIo_coherent.2 (h.coherent (withIo_coherent.1 hs))⟩

theorem Cached.fileByte (h : Cached s s') : s'.fileByte = s.fileByte := by
  funext p i
  rw [FatState.fileByte, FatState.fileByte, h.block]

end Read

/-! ## The loop of `_fat_write` -/

section Write

variable {s s' : FatState} {p : Ptr} {n seek count buffer : ℕ}

/-- Overwriting a stretch of one cluster overwrites it in the file. -/
theorem Edited.fileByte {k offset nbytes : ℕ} {desc : Desc} {source : ℕ → UInt8}
    (h : Edited s s' (some p) k desc) (hin : offset + nbytes ≤ 0x1000)
    (hdesc : ∀ j < 0x1000, desc.buffer.get j =
      splice (s.block (some p) k).get offset nbytes source j) :
    s'.fileByte = Function.update s.fileByte p
      (splice (s.fileByte p) (0x1000 * k + offset) nbytes source) := by
  funext q i
  rw [FatState.fileByte, h.block]
  by_cases hq : q = p
  · subst hq
    rw [Function.update_self]
    by_cases hk : i / 0x1000 = k
    · rw [if_pos ⟨rfl, hk⟩, hdesc _ (Nat.mod_lt i (by decide)), splice, splice, FatState.fileByte,
        hk]
      by_cases hin : offset ≤ i % 0x1000 ∧ i % 0x1000 < offset + nbytes
      · rw [if_pos hin, if_pos (by omega)]
        congr 1
        omega
      · rw [if_neg hin, if_neg (by omega)]
    · rw [if_neg (fun h => hk h.2), splice_outside (by omega)]
      rfl
  · rw [if_neg (fun h => hq (Option.some.inj h.1)), Function.update_of_ne hq]
    rfl

theorem Similar.memory (h : Similar s s') : s'.memory = s.memory := by
  have := congrArg FatState.memory h.frame
  exact this

theorem Similar.fd (h : Similar s s') : s'.fd = s.fd := by
  have := congrArg FatState.fd h.frame
  exact this

end Write

end GietVm.Fat
