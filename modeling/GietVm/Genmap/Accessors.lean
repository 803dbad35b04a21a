import GietVm.Library.Records

/-!
# The binary mapping as the kernel reads it

The boot loader copies `map.bin` to the segment `SEG_BOOT_MAPPING_BASE`, and the kernel reads it
there: it computes the address of each array from the counts of the header and from the constants
`X_SIZE` and `Y_SIZE`, and uses global indexes as indexes in these arrays. The structures below are
packed, and their fields are those of `mapping_info.h`.
-/

namespace GietVm.Genmap

open GietVm.Library

/-- A 32-bit word. -/
abbrev Word := BitVec 32

/-- The constants of `hard_config.h` that describe the mesh. -/
structure HardConfig where
  xSize : Word
  ySize : Word

/-- The characters of a fixed-size field. -/
def chars (mem : ByteMemory) (a : Address) (count : ℕ) : List (BitVec 8) :=
  (List.range count).map fun i => mem (a + BitVec.ofNat 32 i)

/-! ## Structures -/

/-- `mapping_header_t` -/
structure MappingHeader where
  signature : Word
  xSize : Word
  ySize : Word
  xWidth : Word
  yWidth : Word
  xIo : Word
  yIo : Word
  irqPerProc : Word
  useRamDisk : Word
  globals : Word
  vspaces : Word
  psegs : Word
  vsegs : Word
  tasks : Word
  procs : Word
  irqs : Word
  periphs : Word
  name : List (BitVec 8)
  deriving DecidableEq

/-- `mapping_cluster_t` -/
structure MappingCluster where
  x : Word
  y : Word
  psegs : Word
  psegOffset : Word
  procs : Word
  procOffset : Word
  periphs : Word
  periphOffset : Word
  deriving DecidableEq

/-- `mapping_vspace_t` -/
structure MappingVspace where
  name : List (BitVec 8)
  startVsegId : Word
  vsegs : Word
  tasks : Word
  vsegOffset : Word
  taskOffset : Word
  active : Word
  deriving DecidableEq

/-- `mapping_vseg_t`. The two words of `pbase` are separate. -/
structure MappingVseg where
  name : List (BitVec 8)
  binpath : List (BitVec 8)
  vbase : Word
  pbaseLow : Word
  pbaseHigh : Word
  length : Word
  psegid : Word
  mode : Word
  type : Word
  mapped : BitVec 8
  ident : BitVec 8
  isLocal : BitVec 8
  big : BitVec 8
  deriving DecidableEq

/-- `mapping_pseg_t`. The two words of `base` and of `length` are separate. -/
structure MappingPseg where
  name : List (BitVec 8)
  baseLow : Word
  baseHigh : Word
  lengthLow : Word
  lengthHigh : Word
  type : Word
  clusterid : Word
  nextVseg : Word
  deriving DecidableEq

/-- `mapping_task_t` -/
structure MappingTask where
  name : List (BitVec 8)
  clusterid : Word
  proclocid : Word
  trdid : Word
  stackVsegId : Word
  heapVsegId : Word
  startid : Word
  ltid : Word
  deriving DecidableEq

/-- `mapping_proc_t` -/
structure MappingProc where
  index : Word
  deriving DecidableEq

/-- `mapping_irq_t` -/
structure MappingIrq where
  srctype : Word
  srcid : Word
  isr : Word
  channel : Word
  destXy : Word
  destId : Word
  deriving DecidableEq

/-- `mapping_periph_t` -/
structure MappingPeriph where
  type : Word
  subtype : Word
  psegid : Word
  channels : Word
  arg0 : Word
  arg1 : Word
  arg2 : Word
  arg3 : Word
  irqs : Word
  irqOffset : Word
  deriving DecidableEq

/-! ## Reading a structure -/

section Read

variable (mem : ByteMemory) (a : Address)

/-- The `mapping_header_t` at an address. -/
def readHeader : MappingHeader where
  signature := mem.loadWord a
  xSize := mem.loadWord (a + 4)
  ySize := mem.loadWord (a + 8)
  xWidth := mem.loadWord (a + 12)
  yWidth := mem.loadWord (a + 16)
  xIo := mem.loadWord (a + 20)
  yIo := mem.loadWord (a + 24)
  irqPerProc := mem.loadWord (a + 28)
  useRamDisk := mem.loadWord (a + 32)
  globals := mem.loadWord (a + 36)
  vspaces := mem.loadWord (a + 40)
  psegs := mem.loadWord (a + 44)
  vsegs := mem.loadWord (a + 48)
  tasks := mem.loadWord (a + 52)
  procs := mem.loadWord (a + 56)
  irqs := mem.loadWord (a + 60)
  periphs := mem.loadWord (a + 64)
  name := chars mem (a + 68) 64

/-- The `mapping_cluster_t` at an address. -/
def readCluster : MappingCluster where
  x := mem.loadWord a
  y := mem.loadWord (a + 4)
  psegs := mem.loadWord (a + 8)
  psegOffset := mem.loadWord (a + 12)
  procs := mem.loadWord (a + 16)
  procOffset := mem.loadWord (a + 20)
  periphs := mem.loadWord (a + 24)
  periphOffset := mem.loadWord (a + 28)

/-- The `mapping_vspace_t` at an address. -/
def readVspace : MappingVspace where
  name := chars mem a 32
  startVsegId := mem.loadWord (a + 32)
  vsegs := mem.loadWord (a + 36)
  tasks := mem.loadWord (a + 40)
  vsegOffset := mem.loadWord (a + 44)
  taskOffset := mem.loadWord (a + 48)
  active := mem.loadWord (a + 52)

/-- The `mapping_vseg_t` at an address. -/
def readVseg : MappingVseg where
  name := chars mem a 32
  binpath := chars mem (a + 32) 64
  vbase := mem.loadWord (a + 96)
  pbaseLow := mem.loadWord (a + 100)
  pbaseHigh := mem.loadWord (a + 104)
  length := mem.loadWord (a + 108)
  psegid := mem.loadWord (a + 112)
  mode := mem.loadWord (a + 116)
  type := mem.loadWord (a + 120)
  mapped := mem (a + 124)
  ident := mem (a + 125)
  isLocal := mem (a + 126)
  big := mem (a + 127)

/-- The `mapping_pseg_t` at an address. -/
def readPseg : MappingPseg where
  name := chars mem a 32
  baseLow := mem.loadWord (a + 32)
  baseHigh := mem.loadWord (a + 36)
  lengthLow := mem.loadWord (a + 40)
  lengthHigh := mem.loadWord (a + 44)
  type := mem.loadWord (a + 48)
  clusterid := mem.loadWord (a + 52)
  nextVseg := mem.loadWord (a + 56)

/-- The `mapping_task_t` at an address. -/
def readTask : MappingTask where
  name := chars mem a 32
  clusterid := mem.loadWord (a + 32)
  proclocid := mem.loadWord (a + 36)
  trdid := mem.loadWord (a + 40)
  stackVsegId := mem.loadWord (a + 44)
  heapVsegId := mem.loadWord (a + 48)
  startid := mem.loadWord (a + 52)
  ltid := mem.loadWord (a + 56)

/-- The `mapping_proc_t` at an address. -/
def readProc : MappingProc where
  index := mem.loadWord a

/-- The `mapping_irq_t` at an address. -/
def readIrq : MappingIrq where
  srctype := mem.loadWord a
  srcid := mem.loadWord (a + 4)
  isr := mem.loadWord (a + 8)
  channel := mem.loadWord (a + 12)
  destXy := mem.loadWord (a + 16)
  destId := mem.loadWord (a + 20)

/-- The `mapping_periph_t` at an address. -/
def readPeriph : MappingPeriph where
  type := mem.loadWord a
  subtype := mem.loadWord (a + 4)
  psegid := mem.loadWord (a + 8)
  channels := mem.loadWord (a + 12)
  arg0 := mem.loadWord (a + 16)
  arg1 := mem.loadWord (a + 20)
  arg2 := mem.loadWord (a + 24)
  arg3 := mem.loadWord (a + 28)
  irqs := mem.loadWord (a + 32)
  irqOffset := mem.loadWord (a + 36)

end Read

/-! ## Access functions -/

/-- `MAPPING_HEADER_SIZE` -/
def mappingHeaderSize : ℕ := 132

/-- `MAPPING_CLUSTER_SIZE` -/
def mappingClusterSize : ℕ := 32

/-- `MAPPING_VSPACE_SIZE` -/
def mappingVspaceSize : ℕ := 56

/-- `MAPPING_VSEG_SIZE` -/
def mappingVsegSize : ℕ := 128

/-- `MAPPING_PSEG_SIZE` -/
def mappingPsegSize : ℕ := 60

/-- `MAPPING_TASK_SIZE` -/
def mappingTaskSize : ℕ := 60

/-- `MAPPING_PROC_SIZE` -/
def mappingProcSize : ℕ := 4

/-- `MAPPING_IRQ_SIZE` -/
def mappingIrqSize : ℕ := 24

/-- `MAPPING_PERIPH_SIZE` -/
def mappingPeriphSize : ℕ := 40

/-- What the access functions depend on: the constants of the mesh, the memory, and the address
`SEG_BOOT_MAPPING_BASE` of the header. -/
structure Image where
  config : HardConfig
  mem : ByteMemory
  base : Address

/-- The address of the element `k` of an array. -/
def elementAt (base : Address) (size : ℕ) (k : Word) : Address := base + BitVec.ofNat 32 size * k

namespace Image

variable (im : Image)

/-- `header` -/
def header : MappingHeader := readHeader im.mem im.base

/-- `_get_cluster_base` -/
def getClusterBase : Address := im.base + BitVec.ofNat 32 mappingHeaderSize

/-- `_get_pseg_base` -/
def getPsegBase : Address :=
  im.base + BitVec.ofNat 32 mappingHeaderSize +
    BitVec.ofNat 32 mappingClusterSize * im.config.xSize * im.config.ySize

/-- `_get_vspace_base` -/
def getVspaceBase : Address :=
  im.base + BitVec.ofNat 32 mappingHeaderSize +
    BitVec.ofNat 32 mappingClusterSize * im.config.xSize * im.config.ySize +
    BitVec.ofNat 32 mappingPsegSize * im.header.psegs

/-- `_get_vseg_base` -/
def getVsegBase : Address :=
  im.base + BitVec.ofNat 32 mappingHeaderSize +
    BitVec.ofNat 32 mappingClusterSize * im.config.xSize * im.config.ySize +
    BitVec.ofNat 32 mappingPsegSize * im.header.psegs +
    BitVec.ofNat 32 mappingVspaceSize * im.header.vspaces

/-- `_get_task_base` -/
def getTaskBase : Address :=
  im.base + BitVec.ofNat 32 mappingHeaderSize +
    BitVec.ofNat 32 mappingClusterSize * im.config.xSize * im.config.ySize +
    BitVec.ofNat 32 mappingPsegSize * im.header.psegs +
    BitVec.ofNat 32 mappingVspaceSize * im.header.vspaces +
    BitVec.ofNat 32 mappingVsegSize * im.header.vsegs

/-- `_get_proc_base` -/
def getProcBase : Address :=
  im.base + BitVec.ofNat 32 mappingHeaderSize +
    BitVec.ofNat 32 mappingClusterSize * im.config.xSize * im.config.ySize +
    BitVec.ofNat 32 mappingPsegSize * im.header.psegs +
    BitVec.ofNat 32 mappingVspaceSize * im.header.vspaces +
    BitVec.ofNat 32 mappingVsegSize * im.header.vsegs +
    BitVec.ofNat 32 mappingTaskSize * im.header.tasks

/-- `_get_irq_base` -/
def getIrqBase : Address :=
  im.base + BitVec.ofNat 32 mappingHeaderSize +
    BitVec.ofNat 32 mappingClusterSize * im.config.xSize * im.config.ySize +
    BitVec.ofNat 32 mappingPsegSize * im.header.psegs +
    BitVec.ofNat 32 mappingVspaceSize * im.header.vspaces +
    BitVec.ofNat 32 mappingVsegSize * im.header.vsegs +
    BitVec.ofNat 32 mappingTaskSize * im.header.tasks +
    BitVec.ofNat 32 mappingProcSize * im.header.procs

/-- `_get_periph_base` -/
def getPeriphBase : Address :=
  im.base + BitVec.ofNat 32 mappingHeaderSize +
    BitVec.ofNat 32 mappingClusterSize * im.config.xSize * im.config.ySize +
    BitVec.ofNat 32 mappingPsegSize * im.header.psegs +
    BitVec.ofNat 32 mappingVspaceSize * im.header.vspaces +
    BitVec.ofNat 32 mappingVsegSize * im.header.vsegs +
    BitVec.ofNat 32 mappingTaskSize * im.header.tasks +
    BitVec.ofNat 32 mappingProcSize * im.header.procs +
    BitVec.ofNat 32 mappingIrqSize * im.header.irqs

/-- `cluster[k]` -/
def cluster (k : Word) : MappingCluster :=
  readCluster im.mem (elementAt im.getClusterBase mappingClusterSize k)

/-- `pseg[k]` -/
def pseg (k : Word) : MappingPseg :=
  readPseg im.mem (elementAt im.getPsegBase mappingPsegSize k)

/-- `vspace[k]` -/
def vspace (k : Word) : MappingVspace :=
  readVspace im.mem (elementAt im.getVspaceBase mappingVspaceSize k)

/-- `vseg[k]` -/
def vseg (k : Word) : MappingVseg :=
  readVseg im.mem (elementAt im.getVsegBase mappingVsegSize k)

/-- `task[k]` -/
def task (k : Word) : MappingTask :=
  readTask im.mem (elementAt im.getTaskBase mappingTaskSize k)

/-- `proc[k]` -/
def proc (k : Word) : MappingProc :=
  readProc im.mem (elementAt im.getProcBase mappingProcSize k)

/-- `irq[k]` -/
def irq (k : Word) : MappingIrq := readIrq im.mem (elementAt im.getIrqBase mappingIrqSize k)

/-- `periph[k]` -/
def periph (k : Word) : MappingPeriph :=
  readPeriph im.mem (elementAt im.getPeriphBase mappingPeriphSize k)

end Image

end GietVm.Genmap
