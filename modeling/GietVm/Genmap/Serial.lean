import GietVm.Genmap.Objects

/-!
# The binary form of a mapping

`cbin` writes the header and one array for each kind of objects. The objects of a kind stand in
the order of the clusters and of the vspaces that contain them, and each must have its place as
global index. The names by which vsegs and tasks designate other objects are replaced by global
indexes, which are searched in the list of the cluster or of the vspace: the last object of that
name is taken. The parameter `verbose` only prints.
-/

namespace GietVm.Genmap

/-- `int2bytes` -/
def int2bytes (nbytes : ℕ) (val : ℤ) : Text :=
  (List.range nbytes).map fun n => BitVec.ofInt 8 (lowBits (val >>> (n <<< 3)) 8)

/-- `str2bytes` -/
def str2bytes (nbytes : ℕ) (s : Text) : Script Text := do
  require (s.length < nbytes - 1) (.tooLong s)
  return s ++ List.replicate (nbytes - s.length) 0

/-- The index of the last object that passes the test, or `0xFFFFFFFF`. -/
def lastIndex {α : Type} (test : α → Bool) (index : α → ℕ) (l : List α) : ℕ :=
  l.foldl (fun id o => if test o then index o else id) 0xFFFFFFFF

/-- The index of the first object, or zero. -/
def firstIndex {α : Type} (index : α → ℕ) : List α → ℕ
  | [] => 0
  | o :: _ => index o

/-- `l[0].index` -/
def headIndex {α : Type} (index : α → ℕ) : List α → Script ℕ
  | [] => .error .indexError
  | o :: _ => .ok (index o)

/-! ## Numerical values of the enumerations -/

/-- The place in `PSEGTYPES`. -/
def PsegType.id : PsegType → ℕ
  | .ram => 0
  | .peri => 1

/-- The place in `VSEGTYPES`. -/
def VsegType.id : VsegType → ℕ
  | .elf => 0
  | .blob => 1
  | .ptab => 2
  | .peri => 3
  | .buffer => 4
  | .sched => 5
  | .heap => 6

/-- The place in `VSEGMODES`. -/
def VsegMode.id (mode : VsegMode) : ℕ :=
  8 * mode.c.toNat + 4 * mode.x.toNat + 2 * mode.w.toNat + mode.u.toNat

/-- The place in `PERIPHTYPES`. -/
def PeriphType.id : PeriphType → ℕ
  | .cma => 0
  | .dma => 1
  | .fbf => 2
  | .iob => 3
  | .ioc => 4
  | .mmc => 5
  | .mwr => 6
  | .nic => 7
  | .rom => 8
  | .sim => 9
  | .tim => 10
  | .tty => 11
  | .xcu => 12
  | .pic => 13
  | .drom => 14

/-- `subtype_id`: the place in `IOCSUBTYPES` or `MWRSUBTYPES`, for a peripheral of that type. -/
def PeriphArgs.subtypeId (args : PeriphArgs) : ℕ :=
  match args.ptype, args.subtype with
  | .ioc, .bdv => 0
  | .ioc, .hba => 1
  | .ioc, .sdc => 2
  | .ioc, .spi => 3
  | .mwr, .gcd => 0
  | .mwr, .dct => 1
  | .mwr, .cpy => 2
  | _, _ => 0xFFFFFFFF

/-- The place in `IRQTYPES`. -/
def IrqType.id : IrqType → ℕ
  | .hwi => 0
  | .wti => 1
  | .pti => 2

/-- The place in `ISRTYPES`. -/
def IsrType.id : IsrType → ℕ
  | .default => 0
  | .tick => 1
  | .ttyRx => 2
  | .ttyTx => 3
  | .bdv => 4
  | .timer => 5
  | .wakup => 6
  | .nicRx => 7
  | .nicTx => 8
  | .cma => 9
  | .mmc => 10
  | .dma => 11
  | .sdc => 12
  | .mwr => 13
  | .hba => 14
  | .spi => 15

/-! ## Records -/

/-- `Cluster.cbin` -/
def Cluster.cbin (c : Cluster) (expected : ℕ) : Script Text := do
  require (c.index = expected) (.globalIndex .cluster c.index expected)
  let psegId := firstIndex (·.index) c.psegs
  let procId := firstIndex (·.index) c.procs
  let periphId := firstIndex (·.index) c.periphs
  return int2bytes 4 c.x ++ int2bytes 4 c.y ++
    int2bytes 4 c.psegs.length ++ int2bytes 4 psegId ++
    int2bytes 4 c.procs.length ++ int2bytes 4 procId ++
    int2bytes 4 c.periphs.length ++ int2bytes 4 periphId

/-- `Pseg.cbin` -/
def Pseg.cbin (cluster : Cluster) (p : Pseg) (expected : ℕ) : Script Text := do
  require (p.index = expected) (.globalIndex .pseg p.index expected)
  let name ← str2bytes 32 p.name
  return name ++ int2bytes 8 p.base ++ int2bytes 8 p.size ++ int2bytes 4 p.segtype.id ++
    int2bytes 4 cluster.index ++ int2bytes 4 0

/-- `Vspace.cbin` -/
def Vspace.cbin (s : Vspace) (expected : ℕ) : Script Text := do
  require (s.index = expected) (.globalIndex .vspace s.index expected)
  let vsegStartId := lastIndex (fun v => v.name = s.startname) (·.index) s.vsegs
  require (vsegStartId ≠ 0xFFFFFFFF) (.startnameNotFound s.startname s.name)
  let firstVsegId ← headIndex (·.index) s.vsegs
  let firstTaskId ← headIndex (·.index) s.tasks
  let name ← str2bytes 32 s.name
  return name ++ int2bytes 4 vsegStartId ++ int2bytes 4 s.vsegs.length ++
    int2bytes 4 s.tasks.length ++ int2bytes 4 firstVsegId ++ int2bytes 4 firstTaskId ++
    int2bytes 4 s.active.toNat

/-- `Task.cbin` -/
def Task.cbin (m : Mapping) (vspace : Vspace) (t : Task) (expected : ℕ) : Script Text := do
  require (t.index = expected) (.globalIndex .task t.index expected)
  let clusterId := t.x * m.ySize + t.y
  let vsegStackId := lastIndex (fun v => v.name = t.stackname) (·.index) vspace.vsegs
  require (vsegStackId ≠ 0xFFFFFFFF) (.stacknameNotFound t.stackname t.name vspace.name)
  let vsegHeapId := if t.heapname = [] then 0
    else lastIndex (fun v => v.name = t.heapname) (·.index) vspace.vsegs
  require (vsegHeapId ≠ 0xFFFFFFFF) (.heapnameNotFound t.heapname t.name vspace.name)
  let name ← str2bytes 32 t.name
  return name ++ int2bytes 4 clusterId ++ int2bytes 4 t.p ++ int2bytes 4 t.trdid ++
    int2bytes 4 vsegStackId ++ int2bytes 4 vsegHeapId ++ int2bytes 4 t.startid ++ int2bytes 4 0

/-- The psegs of the cluster at a place. -/
def Mapping.psegsAt (m : Mapping) (cluster : ℕ) : List Pseg :=
  (m.clusters[cluster]?.map (·.psegs)).getD []

/-- `Vseg.cbin` -/
def Vseg.cbin (m : Mapping) (v : Vseg) (expected : ℕ) : Script Text := do
  require (v.index = expected) (.globalIndex .vseg v.index expected)
  let cluster ← m.clusterAt v.x v.y
  let psegId := lastIndex (fun p => v.psegname = p.name) (·.index) (m.psegsAt cluster)
  require (psegId ≠ 0xFFFFFFFF) (.psegnameNotFound v.psegname v.name (v.x * m.ySize + v.y))
  let name ← str2bytes 32 v.name
  let binpath ← str2bytes 64 v.binpath
  return name ++ binpath ++ int2bytes 4 v.vbase ++ int2bytes 8 0 ++ int2bytes 4 v.length ++
    int2bytes 4 psegId ++ int2bytes 4 v.mode.id ++ int2bytes 4 v.vtype.id ++ int2bytes 1 0 ++
    int2bytes 1 v.identity.toNat ++ int2bytes 1 v.isLocal.toNat ++ int2bytes 1 v.big.toNat

/-- `Processor.cbin` -/
def Processor.cbin (p : Processor) (expected : ℕ) : Script Text := do
  require (p.index = expected) (.globalIndex .proc p.index expected)
  return int2bytes 4 p.lpid

/-- `Irq.cbin` -/
def Irq.cbin (q : Irq) (expected : ℕ) : Script Text := do
  require (q.index = expected) (.globalIndex .irq q.index expected)
  return int2bytes 4 q.irqtype.id ++ int2bytes 4 q.srcid ++ int2bytes 4 q.isrtype.id ++
    int2bytes 4 q.channel ++ int2bytes 4 0 ++ int2bytes 4 0

/-- `Periph.cbin` -/
def Periph.cbin (p : Periph) (expected : ℕ) : Script Text := do
  require (p.index = expected) (.globalIndex .periph p.index expected)
  let irqId := firstIndex (·.index) p.irqs
  return int2bytes 4 p.ptype.id ++ int2bytes 4 p.subtypeId ++ int2bytes 4 p.pseg.index ++
    int2bytes 4 p.channels ++ int2bytes 4 p.arg0 ++ int2bytes 4 p.arg1 ++ int2bytes 4 p.arg2 ++
    int2bytes 4 p.arg3 ++ int2bytes 4 p.irqs.length ++ int2bytes 4 irqId

/-! ## Arrays -/

/-- The loop over an array: each record is written with its place as expected index. -/
def cbinAll {α : Type} (cbin : α → ℕ → Script Text) : (index : ℕ) → List α → Script Text
  | _, [] => return []
  | index, o :: rest => do
    let bytes ← cbin o index
    let others ← cbinAll cbin (index + 1) rest
    return bytes ++ others

namespace Mapping

/-- The psegs of all clusters, each with its cluster. -/
def clusterPsegs (m : Mapping) : List (Cluster × Pseg) :=
  m.clusters.flatMap fun c => c.psegs.map fun p => (c, p)

/-- The global vsegs, and then those of the vspaces. -/
def vsegs (m : Mapping) : List Vseg := m.globs ++ m.vspaces.flatMap (·.vsegs)

/-- The tasks of all vspaces, each with its vspace. -/
def vspaceTasks (m : Mapping) : List (Vspace × Task) :=
  m.vspaces.flatMap fun s => s.tasks.map fun t => (s, t)

/-- The processors of all clusters. -/
def procs (m : Mapping) : List Processor := m.clusters.flatMap (·.procs)

/-- The interrupts of all peripherals. -/
def irqs (m : Mapping) : List Irq := m.periphs.flatMap (·.irqs)

/-- The words of the header. -/
def headerWords (m : Mapping) : List ℤ :=
  [0xDACE2014, m.xSize, m.ySize, m.xWidth, m.yWidth, m.xIo, m.yIo, m.irqPerProc,
    m.useRamdisk.toNat, m.totalGlobals, m.totalVspaces, m.totalPsegs, m.totalVsegs, m.totalTasks,
    m.totalProcs, m.totalIrqs, m.totalPeriphs]

/-- The header. -/
def cbinHeader (m : Mapping) : Script Text := do
  let name ← str2bytes 64 m.name
  return m.headerWords.flatMap (int2bytes 4) ++ name

/-- `Mapping.cbin` -/
def cbin (m : Mapping) : Script Text := do
  let header ← m.cbinHeader
  let clusters ← cbinAll Cluster.cbin 0 m.clusters
  let psegs ← cbinAll (fun o => o.2.cbin o.1) 0 m.clusterPsegs
  let vspaces ← cbinAll Vspace.cbin 0 m.vspaces
  let vsegs ← cbinAll (Vseg.cbin m) 0 m.vsegs
  let tasks ← cbinAll (fun o => o.2.cbin m o.1) 0 m.vspaceTasks
  let procs ← cbinAll Processor.cbin 0 m.procs
  let irqs ← cbinAll Irq.cbin 0 m.irqs
  let periphs ← cbinAll Periph.cbin 0 m.periphs
  return header ++ clusters ++ psegs ++ vspaces ++ vsegs ++ tasks ++ procs ++ irqs ++ periphs

end Mapping

end GietVm.Genmap
