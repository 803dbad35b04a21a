import GietVm.Fat.Transfers
import GietVm.Fat.Truncate

/-!
# The bounds of a transfer

A transfer of `count` bytes from `seek` on moves `count` bytes when `seek + count` does not
pass `2 ^ 32` and is not zero, and nothing or `count` bytes beyond. The empty transfer at the
beginning of a file is the exception: its last byte is the last one of the 32-bit range, so
the loop covers `2 ^ 20` clusters of 4096 bytes.
-/

namespace GietVm.Fat

open GietVm.Library

/-- The bytes that the loop moves on some clusters. -/
def Transfer.bytes (t : Transfer) : ℕ → ℕ → ℕ
  | 0, _ => 0
  | more + 1, clusterId => (t.range clusterId).2 + t.bytes more (clusterId + 1)

section Bytes

variable {t : Transfer} {seek count : ℕ}

end Bytes

/-! ## The trace of the loop -/

section Loop

variable {s s' : FatState} {p : Ptr} {t : Transfer} {move : Desc → ℕ → ℕ → FatM Unit}

end Loop

/-! ## The calls -/

section Calls

variable {s s' : FatState} {fdId seek count bound : ℕ} {p : Ptr}
  {move : Desc → ℕ → ℕ → FatM Unit} {grown : List ℕ} {o : Outcome}

end Calls

/-! ## The outcome of a call -/

section Outcome

variable {s s' : FatState} {fuel fdId buffer seek count size : ℕ} {copy : Memcpy} {inode : Inode}
  {o : Outcome}

end Outcome

end GietVm.Fat
