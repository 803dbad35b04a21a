import GietVm.Boot.PageTable
import GietVm.Drivers.Chbuf
import Mathlib.Data.List.Forall2

/-!
# Moving a container between a user buffer and the kernel

`_sys_nic_move` translates the address of the user buffer, tests the user flag of its page, waits
for the status of the kernel container of the cluster, and copies a container between physical
addresses. Only the first byte of the buffer is translated, and only the user flag is tested: the
copy goes on from one physical address to the next one where the pages of the buffer do not, and it
writes pages that the task can only read.

The physical memory is a function from the addresses of words to words, as in the page tables. The
operations on the caches do not change it. While the call polls the status the memory is changed by
others, so the polls see a list of memories.
-/

namespace GietVm.Kernel.NicMove

open Boot Drivers Library

/-- `PTE_U` -/
def pteU : ℕ := 0x01000000

/-- `PTE_W` -/
def pteW : ℕ := 0x04000000

/-! ## `_physical_memcpy` -/

/-- `ker_chbuf_t` -/
structure KerChbuf where
  bufDesc : ℕ → BitVec 64
  xmax : ℕ
  ymax : ℕ

/-- What the call reads of the platform, of the kernel and of the context of the task. -/
structure Caller where
  nbNicChannels : ℕ
  yWidth : ℕ
  pWidth : ℕ
  rxChbuf : ℕ → KerChbuf
  txChbuf : ℕ → KerChbuf
  procid : ℕ
  ptab : ℕ

/-- How a call ends: it returns -1, the task exits, it polls the status, or it returns 0 with the
memory before and after the copy and the words written and read. -/
inductive Outcome
  | failed
  | exited
  | polling
  | moved (before after : ℕ → ℕ) (copies : List (ℕ × ℕ))

/-- The test that ends the polling loop. -/
def ready (isRx ksts : ℕ) : Bool := if isRx ≠ 0 then ksts = 1 else ksts = 0

section Loop

variable {dstMsb srcMsb dstLsb srcLsb n : ℕ} {mem : ℕ → ℕ}

/-- The bytes of the words. -/
def bytesOf (words : List ℕ) : List ℕ := words.flatMap fun a => [a, a + 1, a + 2, a + 3]

end Loop

/-! ## Pages -/

section Pages

variable {mem : ℕ → ℕ} {pt vaddr : ℕ}

end Pages

/-! ## The pages of the caller -/

/-- The flags of a page that the task can read, or write when the container comes from the NIC. -/
def Rights (isRx flags : ℕ) : Prop := flags &&& pteU ≠ 0 ∧ (isRx ≠ 0 → flags &&& pteW ≠ 0)

/-- The bytes of the user side of a copy, in the order of the copy. -/
def userBytes (isRx : ℕ) (copies : List (ℕ × ℕ)) : List ℕ :=
  bytesOf (copies.map fun c => if isRx ≠ 0 then c.1 else c.2)

/-- The frame behind the one of an address, in its cluster. -/
def nextFrame (a : ℕ) : ℕ := a / 2 ^ 32 * 2 ^ 32 + (a / 4096 + 1) * 4096 % 2 ^ 32

/-- The buffer begins at a word of a page with the rights. It begins with its page, or the next page
has the rights and the frame behind the one of the first page. -/
def Covered (k : Caller) (isRx buffer : ℕ) (mem : ℕ → ℕ) : Prop :=
  ∃ a flags, v2pTranslate mem k.ptab buffer = some (a, flags) ∧ Rights isRx flags ∧
    buffer % 4 = 0 ∧ (buffer % 4096 = 0 ∨
      ∃ flags', v2pTranslate mem k.ptab ((buffer / 4096 + 1) * 4096 % 2 ^ 32) =
        some (nextFrame a, flags') ∧ Rights isRx flags')

section Theorems

variable {k : Caller} {isRx channel buffer a flags : ℕ} {mem m : ℕ → ℕ} {polls : List (ℕ → ℕ)}

end Theorems

section Examples

end Examples

end GietVm.Kernel.NicMove
