import GietVm.Genmap.Lookups

/-!
# The fields of the binary mapping

The script names types by strings, and the serialiser writes their places in Python lists. The
kernel compares the words with the constants of `mapping_info.h` and `irq_handler.h`. `Contents`
says what the kernel reads for each declared object: its numbers, its names, its flags and the
constants of its types. Two strings have no constant of the same number: the type `PERI` of a
pseg, and the type `ISR_SPI` of an interrupt.
-/

namespace GietVm.Genmap

open GietVm.Library

/-! ## Constants of the kernel -/

namespace Agrees

variable {a : MappingArgs} {d : Declared} {m : Mapping} {im : Image} {k : ℕ}

end Agrees

end GietVm.Genmap
