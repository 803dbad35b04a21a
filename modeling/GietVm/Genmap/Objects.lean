import Mathlib.Data.BitVec
import Mathlib.Tactic.Common

/-!
# The objects of a mapping

A mapping script builds a `Mapping` object with calls of its methods. Each call creates one object
(`addPeriph` two), stores it in the list of its cluster, of its vspace or of the mapping, and gives
it as global index the number of objects of its kind that the mapping holds so far.

Python integers are unbounded and have a sign: coordinates and addresses are integers here, and an
index of a list counts from its end when it is negative. The objects that a call returns are passed
to later calls: an object stands for its global index, which is the number of calls of that kind
before the one that returned it. A call that is not possible ends the script with an error.
-/

namespace GietVm.Genmap

/-- A Python string, as its bytes. -/
abbrev Text := List (BitVec 8)

/-- The kinds of the objects that have a global index. -/
inductive Kind
  | cluster | pseg | vspace | vseg | task | proc | irq | periph
  deriving DecidableEq

/-- How a script ends before its last line. -/
inductive GenmapError
  /-- `assert` -/
  | assertionError
  /-- An index out of a list, or an attribute of an object that does not exist. -/
  | indexError
  /-- A shift by a negative number. -/
  | valueError
  /-- `global vseg name overlap prev` -/
  | overlap (name prev : Text)
  /-- `two different interrupt controller for the same peripheral` -/
  | twoControllers
  /-- `string s too long` -/
  | tooLong (s : Text)
  /-- `global index = index / expected = expected` -/
  | globalIndex (kind : Kind) (index expected : ℕ)
  /-- `startname not found for vspace` -/
  | startnameNotFound (startname vspace : Text)
  /-- `stackname not found for task in vspace` -/
  | stacknameNotFound (stackname task vspace : Text)
  /-- `heapname not found for task in vspace` -/
  | heapnameNotFound (heapname task vspace : Text)
  /-- `psegname not found for vseg in cluster` -/
  | psegnameNotFound (psegname vseg : Text) (cluster : ℤ)
  deriving DecidableEq

/-- A call returns a value, or the script ends. -/
abbrev Script := Except GenmapError

/-- The script goes on when the condition holds. -/
def require (p : Prop) [Decidable p] (e : GenmapError) : Script Unit :=
  if p then .ok () else .error e

/-- `assert` -/
def assertThat (p : Prop) [Decidable p] : Script Unit := require p .assertionError

/-- The place that a list of the given length has for an index. -/
def listIndex (length : ℕ) (i : ℤ) : Script ℕ :=
  if 0 ≤ i ∧ i < length then .ok i.toNat
  else if -length ≤ i ∧ i < 0 then .ok (length + i).toNat
  else .error .indexError

/-- `val & ((1 << n) - 1)` -/
def lowBits (val : ℤ) (n : ℕ) : ℤ := val % 2 ^ n

/-! ## Enumerations -/

/-- `PSEGTYPES` -/
inductive PsegType
  | ram | peri
  deriving DecidableEq

/-- `VSEGTYPES` -/
inductive VsegType
  | elf | blob | ptab | peri | buffer | sched | heap
  deriving DecidableEq

/-- `VSEGMODES`: the letters of `CXWU` that are set. -/
structure VsegMode where
  c : Bool
  x : Bool
  w : Bool
  u : Bool
  deriving DecidableEq

/-- `PERIPHTYPES` -/
inductive PeriphType
  | cma | dma | fbf | iob | ioc | mmc | mwr | nic | rom | sim | tim | tty | xcu | pic | drom
  deriving DecidableEq

/-- `'NONE'`, `IOCSUBTYPES` and `MWRSUBTYPES`. -/
inductive PeriphSubtype
  | none | bdv | hba | sdc | spi | gcd | dct | cpy
  deriving DecidableEq

/-- `IOCSUBTYPES` -/
def iocSubtypes : List PeriphSubtype := [.bdv, .hba, .sdc, .spi]

/-- `MWRSUBTYPES` -/
def mwrSubtypes : List PeriphSubtype := [.gcd, .dct, .cpy]

/-- `IRQTYPES` -/
inductive IrqType
  | hwi | wti | pti
  deriving DecidableEq

/-- `ISRTYPES` -/
inductive IsrType
  | default | tick | ttyRx | ttyTx | bdv | timer | wakup | nicRx | nicTx | cma | mmc | dma | sdc
  | mwr | hba | spi
  deriving DecidableEq

/-! ## Objects -/

/-- The arguments of `Pseg`. -/
structure PsegArgs where
  name : Text
  base : ℤ
  size : ℤ
  x : ℤ
  y : ℤ
  segtype : PsegType
  deriving DecidableEq

/-- `Pseg` -/
structure Pseg extends PsegArgs where
  index : ℕ
  deriving DecidableEq

/-- The arguments of `Processor`. -/
structure ProcessorArgs where
  x : ℤ
  y : ℤ
  lpid : ℤ
  deriving DecidableEq

/-- `Processor` -/
structure Processor extends ProcessorArgs where
  index : ℕ
  deriving DecidableEq

/-- The arguments of `Irq`. -/
structure IrqArgs where
  irqtype : IrqType
  srcid : ℤ
  isrtype : IsrType
  channel : ℤ
  deriving DecidableEq

/-- `Irq` -/
structure Irq extends IrqArgs where
  index : ℕ
  deriving DecidableEq

/-- The arguments of `Periph`, without the pseg. -/
structure PeriphArgs where
  ptype : PeriphType
  subtype : PeriphSubtype := .none
  channels : ℤ := 1
  arg0 : ℤ := 0
  arg1 : ℤ := 0
  arg2 : ℤ := 0
  arg3 : ℤ := 0
  deriving DecidableEq

/-- `Periph`. The interrupt controller is designated by its index. -/
structure Periph extends PeriphArgs where
  index : ℕ
  pseg : Pseg
  irqs : List Irq
  irqCtrl : Option ℕ
  deriving DecidableEq

/-- `Cluster` -/
structure Cluster where
  index : ℕ
  x : ℕ
  y : ℕ
  psegs : List Pseg
  procs : List Processor
  periphs : List Periph
  deriving DecidableEq

/-- The arguments of `Vseg`. -/
structure VsegArgs where
  name : Text
  vbase : ℤ
  length : ℤ
  mode : VsegMode
  vtype : VsegType
  x : ℤ
  y : ℤ
  psegname : Text
  identity : Bool := false
  isLocal : Bool := false
  big : Bool := false
  binpath : Text := []
  deriving DecidableEq

/-- `Vseg` -/
structure Vseg extends VsegArgs where
  index : ℕ
  deriving DecidableEq

/-- The arguments of `Task`. -/
structure TaskArgs where
  name : Text
  trdid : ℤ
  x : ℤ
  y : ℤ
  p : ℤ
  stackname : Text
  heapname : Text
  startid : ℤ
  deriving DecidableEq

/-- `Task` -/
structure Task extends TaskArgs where
  index : ℕ
  deriving DecidableEq

/-- The arguments of `Vspace`. -/
structure VspaceArgs where
  name : Text
  startname : Text
  active : Bool := false
  deriving DecidableEq

/-- `Vspace` -/
structure Vspace extends VspaceArgs where
  index : ℕ
  vsegs : List Vseg
  tasks : List Task
  deriving DecidableEq

/-! ## Changes of an object -/

/-- `cluster.psegs.append( pseg )` -/
def Cluster.appendPseg (c : Cluster) (pseg : Pseg) : Cluster :=
  { c with psegs := c.psegs ++ [pseg] }

/-- `cluster.procs.append( proc )` -/
def Cluster.appendProc (c : Cluster) (proc : Processor) : Cluster :=
  { c with procs := c.procs ++ [proc] }

/-- `cluster.periphs.append( periph )` -/
def Cluster.appendPeriph (c : Cluster) (periph : Periph) : Cluster :=
  { c with periphs := c.periphs ++ [periph] }

/-- The peripherals of a cluster are changed. -/
def Cluster.mapPeriphs (c : Cluster) (f : Periph → Periph) : Cluster :=
  { c with periphs := c.periphs.map f }

/-- `periph.irqs.append( irq )` -/
def Periph.appendIrq (p : Periph) (irq : Irq) : Periph := { p with irqs := p.irqs ++ [irq] }

/-- `if src.irq_ctrl == None: src.irq_ctrl = periph` -/
def Periph.setIrqCtrl (p : Periph) (periph : ℕ) : Periph :=
  { p with irqCtrl := if p.irqCtrl = none then some periph else p.irqCtrl }

/-- `vspace.vsegs.append( vseg )` -/
def Vspace.appendVseg (s : Vspace) (vseg : Vseg) : Vspace := { s with vsegs := s.vsegs ++ [vseg] }

/-- `vspace.tasks.append( task )` -/
def Vspace.appendTask (s : Vspace) (task : Task) : Vspace := { s with tasks := s.tasks ++ [task] }

/-- The arguments of `Mapping` that its methods use. -/
structure MappingArgs where
  name : Text
  xSize : ℕ
  ySize : ℕ
  nprocs : ℕ
  xWidth : ℕ := 4
  yWidth : ℕ := 4
  paddrWidth : ℕ := 40
  irqPerProc : ℤ := 1
  useRamdisk : Bool := false
  xIo : ℤ := 0
  yIo : ℤ := 0
  ramBase : ℤ := 0
  ramSize : ℤ := 0
  deriving DecidableEq

/-- `Mapping` -/
structure Mapping extends MappingArgs where
  totalVspaces : ℕ
  totalGlobals : ℕ
  totalPsegs : ℕ
  totalVsegs : ℕ
  totalTasks : ℕ
  totalProcs : ℕ
  totalIrqs : ℕ
  totalPeriphs : ℕ
  clusters : List Cluster
  globs : List Vseg
  vspaces : List Vspace
  deriving DecidableEq

/-! ## Calls -/

/-- The clusters that `Mapping` creates, without anything in them. -/
def MappingArgs.emptyClusters (a : MappingArgs) : List Cluster :=
  (List.range a.xSize).flatMap fun x => (List.range a.ySize).map fun y =>
    ⟨x * a.ySize + y, x, y, [], [], []⟩

/-- `Mapping.__init__` -/
def Mapping.init (a : MappingArgs) : Script Mapping := do
  assertThat (a.xSize ≤ 2 ^ 4)
  assertThat (a.ySize ≤ 2 ^ 4)
  assertThat (a.nprocs ≤ 2 ^ 4)
  return {
    toMappingArgs := a
    totalVspaces := 0
    totalGlobals := 0
    totalPsegs := 0
    totalVsegs := 0
    totalTasks := 0
    totalProcs := 0
    totalIrqs := 0
    totalPeriphs := 0
    clusters := a.emptyClusters
    globs := []
    vspaces := [] }

/-- `paddr_lsb_width`, when the address can be shifted by it. -/
def MappingArgs.paddrLsbWidth (a : MappingArgs) : Script ℕ := do
  require (a.xWidth + a.yWidth ≤ a.paddrWidth) .valueError
  return a.paddrWidth - a.xWidth - a.yWidth

/-- The coordinate `x` of the cluster of a physical address. -/
def MappingArgs.xOf (a : MappingArgs) (base : ℤ) : ℤ :=
  base >>> (a.paddrWidth - a.xWidth - a.yWidth) >>> a.yWidth

/-- The coordinate `y` of the cluster of a physical address. -/
def MappingArgs.yOf (a : MappingArgs) (base : ℤ) : ℤ :=
  lowBits (base >>> (a.paddrWidth - a.xWidth - a.yWidth)) a.yWidth

namespace Mapping

/-- `self.clusters[(x * self.y_size) + y]` -/
def clusterAt (m : Mapping) (x y : ℤ) : Script ℕ :=
  listIndex m.clusters.length (x * m.ySize + y)

/-- The coordinates pass the tests of the methods. -/
def inSize (m : Mapping) (x y : ℤ) : Prop := x < m.xSize ∧ y < m.ySize

instance (m : Mapping) (x y : ℤ) : Decidable (m.inSize x y) :=
  inferInstanceAs (Decidable (_ ∧ _))

/-- Add one pseg in a cluster of the mapping. -/
def addPseg (m : Mapping) (cluster : ℕ) (args : PsegArgs) : Mapping :=
  let pseg : Pseg := { args with index := m.totalPsegs }
  { m with
    clusters := m.clusters.modify cluster (·.appendPseg pseg)
    totalPsegs := m.totalPsegs + 1 }

/-- `addRam` -/
def addRam (m : Mapping) (name : Text) (base size : ℤ) : Script Mapping := do
  let width ← m.paddrLsbWidth
  let x := m.xOf base
  let y := m.yOf base
  assertThat (lowBits base 12 = 0)
  assertThat (m.inSize x y)
  assertThat (lowBits base width = m.ramBase)
  assertThat (size = m.ramSize)
  let cluster ← m.clusterAt x y
  return m.addPseg cluster ⟨name, base, size, x, y, .ram⟩

/-- `addPeriph`: the pseg and the peripheral. -/
def addPeriph (m : Mapping) (name : Text) (base size : ℤ) (args : PeriphArgs) :
    Script Mapping := do
  let _ ← m.paddrLsbWidth
  let x := m.xOf base
  let y := m.yOf base
  assertThat (m.inSize x y)
  assertThat (lowBits base 12 = 0)
  assertThat (args.ptype = .ioc → args.subtype ∈ iocSubtypes)
  assertThat (args.ptype = .mwr → args.subtype ∈ mwrSubtypes)
  let cluster ← m.clusterAt x y
  let pargs : PsegArgs := ⟨name, base, size, x, y, .peri⟩
  let periph : Periph :=
    { toPeriphArgs := args, index := m.totalPeriphs, pseg := ⟨pargs, m.totalPsegs⟩
      irqs := [], irqCtrl := none }
  let m := m.addPseg cluster pargs
  return { m with
    clusters := m.clusters.modify cluster (·.appendPeriph periph)
    totalPeriphs := m.totalPeriphs + 1 }

/-- The peripherals of all clusters. -/
def periphs (m : Mapping) : List Periph := m.clusters.flatMap (·.periphs)

/-- The attribute of a peripheral is changed. -/
def modifyPeriph (m : Mapping) (index : ℕ) (f : Periph → Periph) : Mapping :=
  { m with
    clusters := m.clusters.map (·.mapPeriphs fun p => if p.index = index then f p else p) }

/-- `addIrq`: the interrupt controller and the source are peripherals. -/
def addIrq (m : Mapping) (periph : ℕ) (index : ℤ) (src : ℕ) (isrtype : IsrType) (channel : ℤ) :
    Script Mapping := do
  require (periph < m.totalPeriphs ∧ src < m.totalPeriphs) .indexError
  assertThat (index < 32)
  let irq : Irq := ⟨⟨.hwi, index, isrtype, channel⟩, m.totalIrqs⟩
  let m := m.modifyPeriph periph (·.appendIrq irq)
  let m := { m with totalIrqs := m.totalIrqs + 1 }
  let m := m.modifyPeriph src (·.setIrqCtrl periph)
  require (∀ p ∈ m.periphs, p.index = src → p.irqCtrl = some periph) .twoControllers
  return m

/-- `addProc` -/
def addProc (m : Mapping) (args : ProcessorArgs) : Script Mapping := do
  assertThat (m.inSize args.x args.y)
  let cluster ← m.clusterAt args.x args.y
  let proc : Processor := ⟨args, m.totalProcs⟩
  return { m with
    clusters := m.clusters.modify cluster (·.appendProc proc)
    totalProcs := m.totalProcs + 1 }

/-- The assertions of `Vseg.__init__`. -/
def checkVseg (args : VsegArgs) : Script Unit := do
  assertThat (lowBits args.vbase 32 = args.vbase)
  assertThat (lowBits args.length 32 = args.length)
  assertThat (args.vtype ≠ .elf ∨ args.binpath ≠ [])

/-- The test of `addGlobal`: two global vsegs overlap, and their names differ. -/
def overlaps (prev args : VsegArgs) : Prop :=
  prev.vbase + prev.length > args.vbase ∧ args.vbase + args.length > prev.vbase ∧
    prev.name.take 15 ≠ args.name.take 15

instance (prev args : VsegArgs) : Decidable (overlaps prev args) :=
  inferInstanceAs (Decidable (_ ∧ _ ∧ _))

/-- `addGlobal` -/
def addGlobal (m : Mapping) (args : VsegArgs) : Script Mapping := do
  m.globs.forM fun prev => require (¬overlaps prev.toVsegArgs args) (.overlap args.name prev.name)
  checkVseg args
  return { m with
    globs := m.globs ++ [⟨args, m.totalVsegs⟩]
    totalGlobals := m.totalGlobals + 1
    totalVsegs := m.totalVsegs + 1 }

/-- `addVspace` -/
def addVspace (m : Mapping) (args : VspaceArgs) : Script Mapping :=
  return { m with
    vspaces := m.vspaces ++ [⟨args, m.totalVspaces, [], []⟩]
    totalVspaces := m.totalVspaces + 1 }

/-- `addVseg`. The method has no argument for `identity`. -/
def addVseg (m : Mapping) (vspace : ℕ) (args : VsegArgs) : Script Mapping := do
  require (vspace < m.vspaces.length) .indexError
  assertThat (m.inSize args.x args.y)
  checkVseg args
  let vseg : Vseg := ⟨{ args with identity := false }, m.totalVsegs⟩
  return { m with
    vspaces := m.vspaces.modify vspace (·.appendVseg vseg)
    totalVsegs := m.totalVsegs + 1 }

/-- `addTask` -/
def addTask (m : Mapping) (vspace : ℕ) (args : TaskArgs) : Script Mapping := do
  require (vspace < m.vspaces.length) .indexError
  assertThat (m.inSize args.x args.y)
  assertThat (args.p < m.nprocs)
  let task : Task := ⟨args, m.totalTasks⟩
  return { m with
    vspaces := m.vspaces.modify vspace (·.appendTask task)
    totalTasks := m.totalTasks + 1 }

end Mapping

/-- A call of a method. -/
inductive Call
  | addRam (name : Text) (base size : ℤ)
  | addPeriph (name : Text) (base size : ℤ) (args : PeriphArgs)
  | addIrq (periph : ℕ) (index : ℤ) (src : ℕ) (isrtype : IsrType) (channel : ℤ)
  | addProc (args : ProcessorArgs)
  | addGlobal (args : VsegArgs)
  | addVspace (args : VspaceArgs)
  | addVseg (vspace : ℕ) (args : VsegArgs)
  | addTask (vspace : ℕ) (args : TaskArgs)
  deriving DecidableEq

/-- A call is made. -/
def Mapping.call (m : Mapping) : Call → Script Mapping
  | .addRam name base size => m.addRam name base size
  | .addPeriph name base size args => m.addPeriph name base size args
  | .addIrq periph index src isrtype channel => m.addIrq periph index src isrtype channel
  | .addProc args => m.addProc args
  | .addGlobal args => m.addGlobal args
  | .addVspace args => m.addVspace args
  | .addVseg vspace args => m.addVseg vspace args
  | .addTask vspace args => m.addTask vspace args

/-- A script: the mapping is created, and the calls are made one after the other. -/
def buildMapping (a : MappingArgs) (calls : List Call) : Script Mapping := do
  let m ← Mapping.init a
  calls.foldlM Mapping.call m

end GietVm.Genmap
