import GietVm.Library.Word
import Mathlib.Data.List.Basic
import Mathlib.Logic.Function.Basic
import Mathlib.Tactic.Common

/-!
# Loading of an ELF file

`load_one_elf_file` runs on all the processors P[x,y,0]. P[0,0,0] has loaded the file in the buffer
of the boot. Each processor scans the program headers, and copies the loadable segments into the
vsegs that have their virtual address and lie in its cluster, with the copy coprocessor of the cluster
or with the loop of `_physical_memcpy`.

The processors take steps in any order on one physical memory. The buffer of the boot is mapped at
its physical address. The state keeps the addresses that the processors read.
-/

namespace GietVm.Boot.Elf

open Library

/-! ## The file -/

/-- The 16-bit field at an address. -/
def half (m : ℕ → UInt8) (a : ℕ) : ℕ := (m a).toNat + 2 ^ 8 * (m (a + 1)).toNat

/-- The 32-bit field at an address. -/
def word (m : ℕ → UInt8) (a : ℕ) : ℕ := half m a + 2 ^ 16 * half m (a + 2)

/-- The fields of `Elf32_Phdr` that the load uses. -/
structure Phdr where
  type : ℕ
  offset : ℕ
  vaddr : ℕ
  filesz : ℕ
  memsz : ℕ
  deriving DecidableEq

/-- The program header at an address. -/
def phdrAt (m : ℕ → UInt8) (a : ℕ) : Phdr :=
  ⟨word m a, word m (a + 4), word m (a + 8), word m (a + 16), word m (a + 20)⟩

/-- `PT_LOAD` -/
def ptLoad : ℕ := 1

/-! ## The platform -/

/-- `GIET_ELF_BUFFER_SIZE` -/
def elfBufferSize : ℕ := 0x80000

/-- The platform: `Y_WIDTH`, `USE_MWR_CPY` and `_boot_elf_buffer`, which is aligned and does not go
round. -/
structure Config where
  yWidth : ℕ
  useMwrCpy : Bool
  elfBuffer : ℕ
  aligned : elfBuffer % 64 = 0
  inside : elfBuffer + elfBufferSize ≤ 2 ^ 32

/-- `mapping_vseg_t`: a physical address has 64 bits. -/
structure Vseg where
  vbase : ℕ
  pbase : ℕ
  length : ℕ
  hpbase : pbase < 2 ^ 64

/-- The vsegs of the mapping: the number of globals, the first vseg and the number of vsegs of each
vspace, and the array. -/
structure Mapping where
  globals : ℕ
  vsegOffset : ℕ → ℕ
  vsegs : ℕ → ℕ
  vseg : ℕ → Vseg

/-- The vsegs that the load of a file scans. -/
def Mapping.scanned (m : Mapping) (isKernel vspaceId : ℕ) : List Vseg :=
  if isKernel ≠ 0 then (List.range m.globals).map m.vseg
  else (List.range' (m.vsegOffset vspaceId) (m.vsegs vspaceId)).map m.vseg

/-- `cluster_xy` -/
def Vseg.clusterXy (v : Vseg) : ℕ := v.pbase >>> 32 % 2 ^ 32

/-- The coordinates of a vseg are those of a cluster. -/
def Vseg.Local (c : Config) (cxy : ℕ) (v : Vseg) : Prop :=
  v.clusterXy >>> c.yWidth = cxy >>> c.yWidth ∧
    v.clusterXy &&& (2 ^ c.yWidth - 1) = cxy &&& (2 ^ c.yWidth - 1)

instance (c : Config) (cxy : ℕ) (v : Vseg) : Decidable (v.Local c cxy) :=
  inferInstanceAs (Decidable (_ ∧ _))

/-- The size that `boot_dma_copy` programs. -/
def dmaSize (size : ℕ) : ℕ :=
  if size &&& 0x3F ≠ 0 then add32 (size &&& 0xFFFFFFC0) 0x40 else size

/-! ## The states -/

/-- A physical memory. -/
abbrev Memory := ℕ → UInt8

/-- Bytes are stored at an address. -/
def writeBytes (m : Memory) (a : ℕ) (bytes : List UInt8) : Memory := fun b =>
  if a ≤ b ∧ b < a + bytes.length then bytes.getD (b - a) 0 else m b

/-- The bytes from an address on. -/
def readBytes (m : Memory) (a n : ℕ) : List UInt8 := (List.range n).map fun i => m (a + i)

/-- The addresses of a field. -/
def fieldAddresses (a n : ℕ) : List ℕ := (List.range n).map fun i => (a + i) % 2 ^ 32

/-- The locals of the loops: the program header table, the number of segments, the segment and its
header, and the vsegs to come. -/
structure Frame where
  pht : ℕ
  nsegments : ℕ
  seg : ℕ
  ph : Phdr
  todo : List Vseg

/-- The registers of the loop of `_physical_memcpy`, and the data between the load and the store. -/
structure Memcpy where
  dstMsb : ℕ
  dstLsb : ℕ
  srcLsb : ℕ
  iter : ℕ
  data : Option (List UInt8)

/-- What is left to transfer for the copy coprocessor. -/
structure Dma where
  dst : ℕ
  src : ℕ
  size : ℕ

/-- Where a processor is, after the barrier that follows the load of the file: before the ELF header,
at the head of the loop on the segments, in the loop on the vsegs, in a copy, at the end, or stopped
by `_exit` or by an exception. -/
inductive Pc
  | header
  | segment (pht nsegments seg : ℕ)
  | scan (f : Frame) (found : Bool)
  | memcpy (f : Frame) (k : Memcpy)
  | dma (f : Frame) (k : Dma)
  | done
  | exited

/-- The memory, the addresses that have been read as header or segment data, and the processors,
named by their `cluster_xy`. -/
structure State where
  mem : Memory
  reads : List ℕ
  pc : ℕ → Pc

/-- A processor goes on, after it has read addresses and changed the memory. -/
def State.next (s : State) (cxy : ℕ) (mem : Memory) (reads : List ℕ) (pc : Pc) : State :=
  ⟨mem, s.reads ++ reads, Function.update s.pc cxy pc⟩

/-! ## The steps -/

/-- The ELF header. -/
def headerStep (c : Config) (cxy : ℕ) (s : State) : State :=
  let offset := word s.mem (c.elfBuffer + 28)
  let reads := fieldAddresses (c.elfBuffer + 28) 4
  if offset = 0 then s.next cxy s.mem reads .exited
  else
    s.next cxy s.mem (reads ++ fieldAddresses (c.elfBuffer + 44) 2)
      (.segment (add32 c.elfBuffer offset) (half s.mem (c.elfBuffer + 44)) 0)

/-- The head of the loop on the segments: the type of the segment, and its other fields if it is
loadable. An address of the table that is not aligned is an exception. -/
def segmentStep (vsegs : List Vseg) (cxy : ℕ) (s : State) (pht nsegments seg : ℕ) : State :=
  if nsegments ≤ seg then s.next cxy s.mem [] .done
  else if pht % 4 ≠ 0 then s.next cxy s.mem [] .exited
  else
    let a := pht + 32 * seg
    let ph := phdrAt (fun b => s.mem (b % 2 ^ 32)) a
    if ph.type = ptLoad then
      let reads := fieldAddresses a 12 ++ fieldAddresses (a + 16) 8
      if ph.memsz ≠ ph.filesz then s.next cxy s.mem reads .exited
      else s.next cxy s.mem reads (.scan ⟨pht, nsegments, seg, ph, vsegs⟩ false)
    else s.next cxy s.mem (fieldAddresses a 4) (.segment pht nsegments (seg + 1))

/-- A turn of the loop on the vsegs. -/
def scanStep (c : Config) (cxy : ℕ) (s : State) (f : Frame) (found : Bool) : State :=
  match f.todo with
  | [] =>
    if found then s.next cxy s.mem [] (.segment f.pht f.nsegments (f.seg + 1))
    else s.next cxy s.mem [] .exited
  | v :: todo =>
    let f' := { f with todo := todo }
    if f.ph.vaddr = v.vbase then
      let src := add32 c.elfBuffer f.ph.offset
      if v.length < f.ph.filesz then s.next cxy s.mem [] .exited
      else if v.Local c cxy then
        if c.useMwrCpy then s.next cxy s.mem [] (.dma f' ⟨v.pbase, src, dmaSize f.ph.filesz⟩)
        else if v.pbase % 4 ≠ 0 ∨ src % 4 ≠ 0 ∨ f.ph.filesz % 4 ≠ 0 then
          s.next cxy s.mem [] .exited
        else s.next cxy s.mem [] (.memcpy f' ⟨v.pbase / 2 ^ 32, v.pbase % 2 ^ 32, src,
          f.ph.filesz / 4, none⟩)
      else s.next cxy s.mem [] (.scan f' true)
    else s.next cxy s.mem [] (.scan f' found)

/-- `addi` raises an exception when the signed sum overflows. -/
def addiTraps (a : ℕ) : Prop := a = 0x7FFFFFFC

instance (a : ℕ) : Decidable (addiTraps a) := inferInstanceAs (Decidable (_ = _))

/-- The loop of `_physical_memcpy`: a load, and then a store and the end of the turn. The counter is
tested after it is decremented. -/
def memcpyStep (cxy : ℕ) (s : State) (f : Frame) (k : Memcpy) : State :=
  match k.data with
  | none => s.next cxy s.mem (fieldAddresses k.srcLsb 4)
      (.memcpy f { k with data := some (readBytes s.mem k.srcLsb 4) })
  | some bytes =>
    let mem := writeBytes s.mem (k.dstMsb * 2 ^ 32 + k.dstLsb) bytes
    if k.iter = 2 ^ 31 ∨ addiTraps k.srcLsb ∨ addiTraps k.dstLsb then s.next cxy mem [] .exited
    else if sub32 k.iter 1 = 0 then s.next cxy mem [] (.scan f true)
    else s.next cxy mem []
      (.memcpy f ⟨k.dstMsb, add32 k.dstLsb 4, add32 k.srcLsb 4, sub32 k.iter 1, none⟩)

/-- The copy coprocessor transfers one byte, or has no byte left and the processor sees its end. -/
def dmaStep (cxy : ℕ) (s : State) (f : Frame) (k : Dma) : State :=
  match k.size with
  | 0 => s.next cxy s.mem [] (.scan f true)
  | size + 1 => s.next cxy (writeBytes s.mem k.dst [s.mem k.src]) [k.src]
      (.dma f ⟨k.dst + 1, k.src + 1, size⟩)

/-- A step of a processor; none when it has ended or is stopped. -/
def step (c : Config) (vsegs : List Vseg) (cxy : ℕ) (s : State) : Option State :=
  match s.pc cxy with
  | .header => some (headerStep c cxy s)
  | .segment pht nsegments seg => some (segmentStep vsegs cxy s pht nsegments seg)
  | .scan f found => some (scanStep c cxy s f found)
  | .memcpy f k => some (memcpyStep cxy s f k)
  | .dma f k => some (dmaStep cxy s f k)
  | .done => none
  | .exited => none

/-- A run of the processors of a list: who takes each step. -/
def run (c : Config) (vsegs : List Vseg) (procs : List ℕ) : List ℕ → State → Option State
  | [], s => some s
  | cxy :: rest, s =>
    if cxy ∈ procs then (step c vsegs cxy s).bind (run c vsegs procs rest) else none

/-- The state after the first barrier, where P[0,0,0] has checked the magic number; none when it
exits. -/
def start (c : Config) (mem : Memory) : Option State :=
  if readBytes mem c.elfBuffer 4 = [0x7F, 0x45, 0x4C, 0x46] then
    some ⟨mem, fieldAddresses c.elfBuffer 4, fun _ => .header⟩
  else none

end GietVm.Boot.Elf
