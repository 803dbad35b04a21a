import GietVm.Library.Word
import Mathlib.Data.List.Basic
import Mathlib.Logic.Function.Basic
import Mathlib.Tactic.Common

/-!
# The schedulers of a cluster

`boot_scheduler_init` runs in each cluster. Step 1 initialises the schedulers of the processors of
the cluster: their words, the context of the idle task, the interrupt vectors and the masks of the
XCU. Step 2 scans the tasks of all the vspaces, and appends a context for each one that is placed on
a processor of the cluster. Nothing bounds the number of contexts: behind the context of the idle
task are the other words of the scheduler, and behind them the next scheduler.

The memory of a cluster is a function from the indices of words, counted from the base of its
schedulers, to words. A scheduler has 2048 words.
-/

namespace GietVm.Boot.Sched

open Library

/-! ## The mapping -/

/-- `mapping_cluster_t` -/
structure Cluster where
  x : ℕ
  y : ℕ
  procs : ℕ
  periphs : ℕ
  periphOffset : ℕ

/-- `mapping_vspace_t` -/
structure Vspace where
  startVsegId : ℕ
  tasks : ℕ
  taskOffset : ℕ
  active : ℕ
  deriving DecidableEq

/-- `mapping_vseg_t` -/
structure Vseg where
  vbase : ℕ
  length : ℕ
  psegid : ℕ
  type : ℕ

/-- `mapping_task_t` -/
structure Task where
  clusterid : ℕ
  proclocid : ℕ
  trdid : ℕ
  stackVsegId : ℕ
  startid : ℕ

/-- `mapping_periph_t` -/
structure Periph where
  type : ℕ
  channels : ℕ
  arg0 : ℕ
  arg1 : ℕ
  arg2 : ℕ
  irqs : ℕ
  irqOffset : ℕ

/-- `mapping_irq_t` -/
structure Irq where
  srctype : ℕ
  srcid : ℕ
  isr : ℕ
  channel : ℕ
  deriving DecidableEq

/-- The mapping: `irq_per_proc`, `tasks` and `vsegs` of the header, and the arrays. The vspaces are
those of the header. -/
structure Mapping where
  irqPerProc : ℕ
  nbTasks : ℕ
  nbVsegs : ℕ
  cluster : ℕ → Cluster
  vspace : List Vspace
  vseg : ℕ → Vseg
  psegCluster : ℕ → ℕ
  task : ℕ → Task
  periph : ℕ → Periph
  irq : ℕ → Irq

/-- The constants of the platform, and the addresses of the page tables. -/
structure Config where
  xSize : ℕ
  ySize : ℕ
  nbProcsMax : ℕ
  irqPerProcessor : ℕ
  srInitValue : ℕ
  isrTick : ℕ
  isrWakup : ℕ
  ptabPaddr : ℕ → ℕ → ℕ → ℕ
  ptabVaddr : ℕ → ℕ → ℕ → ℕ

/-! ## The words of the schedulers -/

/-- The words of a cluster. -/
abbrev Words := ℕ → ℕ

/-- `IDLE_TASK_INDEX` -/
def idleTaskIndex : ℕ := 13

/-- The word of a slot of a context. -/
def contextWord (lpid ltid slot : ℕ) : ℕ := 2048 * lpid + 64 * ltid + slot

/-- `tasks` -/
def tasksWord (lpid : ℕ) : ℕ := 2048 * lpid + 896

/-- `current` -/
def currentWord (lpid : ℕ) : ℕ := 2048 * lpid + 897

/-- `hwi_vector` -/
def hwiWord (lpid slot : ℕ) : ℕ := 2048 * lpid + 898 + slot

/-- `pti_vector` -/
def ptiWord (lpid slot : ℕ) : ℕ := 2048 * lpid + 930 + slot

/-- `wti_vector` -/
def wtiWord (lpid slot : ℕ) : ℕ := 2048 * lpid + 962 + slot

/-- Write slots of a context, one after the other. -/
def writeSlots (w : Words) (lpid ltid : ℕ) (slots : List (ℕ × ℕ)) : Words :=
  slots.foldl (fun w s => Function.update w (contextWord lpid ltid s.1) s.2) w

/-- `CTX_LTID_ID` -/
def ctxLtid : ℕ := 37

/-- `CTX_GTID_ID` -/
def ctxGtid : ℕ := 49

/-! ## Step 1 -/

/-- `boot_get_sched_vaddr`: the length of the vseg of the schedulers of a cluster; none when it
exits. -/
def bootGetSchedLength (m : Mapping) (clusterId : ℕ) : Option ℕ :=
  ((List.range m.nbVsegs).find? fun id =>
    (m.vseg id).type = 5 ∧ m.psegCluster (m.vseg id).psegid = clusterId).map fun id =>
      (m.vseg id).length

/-- The first loop on the local processors: the words of a scheduler and the context of its idle
task. -/
def initScheduler (c : Config) (x y : ℕ) (w : Words) (lpid : ℕ) : Words :=
  let w := Function.update w (tasksWord lpid) 0
  let w := Function.update w (currentWord lpid) idleTaskIndex
  let w := (List.range 32).foldl (fun w slot =>
    Function.update (Function.update (Function.update w (hwiWord lpid slot) 0) (ptiWord lpid slot) 0)
      (wtiWord lpid slot) 0) w
  writeSlots w lpid idleTaskIndex [(33, 0), (34, 0xFF03), (39, c.ptabPaddr 0 x y >>> 13),
    (36, c.ptabVaddr 0 x y), (40, 0), (ctxLtid, idleTaskIndex), (38, 0), (50, 0), (53, 0)]

/-- The checks of a XCU: HWI inputs, PTI inputs, WTI inputs, and outputs. -/
def xcuOk (m : Mapping) (nprocs : ℕ) (xcu : Periph) : Prop :=
  xcu.irqs ≤ xcu.arg0 ∧ nprocs ≤ xcu.arg2 ∧ 4 * nprocs ≤ xcu.arg1 ∧
    nprocs * m.irqPerProc ≤ xcu.channels

instance (m : Mapping) (nprocs : ℕ) (xcu : Periph) : Decidable (xcuOk m nprocs xcu) :=
  inferInstanceAs (Decidable (_ ∧ _))

/-- The scan of the local peripherals: the last XCU; none when it exits. -/
def scanXcu (m : Mapping) (nprocs : ℕ) : List Periph → Option Periph → Option (Option Periph)
  | [], xcu => some xcu
  | periph :: rest, xcu =>
    if periph.type = 12 then
      if xcuOk m nprocs periph then scanXcu m nprocs rest (some periph) else none
    else scanXcu m nprocs rest xcu

/-- The peripherals of a cluster. -/
def Mapping.periphs (m : Mapping) (clusterId : ℕ) : List Periph :=
  (List.range' (m.cluster clusterId).periphOffset (m.cluster clusterId).periphs).map m.periph

/-- The IRQs of a peripheral. -/
def Mapping.irqs (m : Mapping) (periph : Periph) : List Irq :=
  (List.range' periph.irqOffset periph.irqs).map m.irq

/-- The entry of an interrupt vector for an IRQ. -/
def hwiEntry (irq : Irq) : ℕ := (irq.isr &&& 0xFFFF) ||| shl32 irq.channel 16

/-- The loop on the HWI inputs of the XCU, from the next processor on: the words and the masks; none
when it exits. -/
def hwiLoop (nprocs : ℕ) : List Irq → ℕ → Words → (ℕ → ℕ) → Option (Words × (ℕ → ℕ))
  | [], _, w, mask => some (w, mask)
  | irq :: rest, lpid, w, mask =>
    if irq.srctype ≠ 0 ∨ 31 < irq.srcid then none
    else hwiLoop nprocs rest ((lpid + 1) % nprocs)
      (Function.update w (hwiWord lpid irq.srcid) (hwiEntry irq))
      (Function.update mask lpid (mask lpid ||| 1 <<< irq.srcid))

/-- What a cluster has after the boot: its words, the masks of the HWI inputs given to its XCU for
its processors, and the `ltid` fields of the mapping that it has written. -/
structure Booted where
  words : Words
  hwiMask : ℕ → ℕ
  ltid : ℕ → Option ℕ

/-- Step 1; none when it exits. The last test is the one of `_xcu_set_mask`. -/
def schedulerInit1 (c : Config) (m : Mapping) (x y : ℕ) (w : Words) : Option Booted :=
  let clusterId := x * c.ySize + y
  let nprocs := (m.cluster clusterId).procs
  if 8 < nprocs then none
  else match bootGetSchedLength m clusterId with
    | none => none
    | some length =>
      if length < nprocs * 2 ^ 13 then none
      else
        let w := (List.range nprocs).foldl (initScheduler c x y) w
        match scanXcu m nprocs (m.periphs clusterId) none with
        | none => none
        | some none => none
        | some (some xcu) => match hwiLoop nprocs (m.irqs xcu) 0 w (fun _ => 0) with
          | none => none
          | some (w, mask) =>
            let w := (List.range nprocs).foldl (fun w lpid =>
              Function.update w (ptiWord lpid lpid) c.isrTick) w
            let w := (List.range nprocs).foldl (fun w lpid =>
              Function.update w (wtiWord lpid lpid) c.isrWakup) w
            if x < c.xSize ∧ y < c.ySize ∧
                ∀ lpid < nprocs, lpid * c.irqPerProcessor < c.nbProcsMax * c.irqPerProcessor then
              some ⟨w, mask, fun _ => none⟩
            else none

/-! ## Step 2 -/

/-- A turn of the loops of step 2: a vspace, its index, and the index of a task. -/
structure Turn where
  vspaceId : ℕ
  vspace : Vspace
  taskId : ℕ
  deriving DecidableEq

/-- The turns of the loops on the vspaces and on their tasks. -/
def Mapping.turns (m : Mapping) : List Turn :=
  m.vspace.zipIdx.flatMap fun v =>
    (List.range' v.1.taskOffset v.1.tasks).map fun taskId => ⟨v.2, v.1, taskId⟩

/-- The slots of the context of a task. -/
def contextSlots (c : Config) (m : Mapping) (t : Turn) (ltid : ℕ) : List (ℕ × ℕ) :=
  let task := m.task t.taskId
  let reqX := (m.cluster task.clusterid).x
  let reqY := (m.cluster task.clusterid).y
  let ctxPtpr := c.ptabPaddr t.vspaceId reqX reqY >>> 13
  let ctxPtab := c.ptabVaddr t.vspaceId reqX reqY
  let ctxEntry := add32 (m.vseg t.vspace.startVsegId).vbase (mul32 task.startid 4)
  let ctxSp := add32 (m.vseg task.stackVsegId).vbase (m.vseg task.stackVsegId).length
  [(33, 0), (34, c.srInitValue), (29, ctxSp), (32, ctxEntry), (52, ctxEntry), (39, ctxPtpr),
    (36, ctxPtab), (ctxLtid, ltid), (ctxGtid, t.taskId), (48, task.trdid), (38, t.vspaceId),
    (50, if t.vspace.active = 0 then 1 else 0), (53, 0), (40, 0xFFFFFFFF), (41, 0xFFFFFFFF),
    (42, 0xFFFFFFFF), (43, 0xFFFFFFFF), (44, 0xFFFFFFFF), (45, 0xFFFFFFFF), (46, 0xFFFFFFFF),
    (47, 0xFFFFFFFF)]

/-- The context of a task is appended to a scheduler. -/
def appendTask (c : Config) (m : Mapping) (t : Turn) (lpid : ℕ) (b : Booted) : Booted :=
  let ltid := b.words (tasksWord lpid)
  let w := Function.update b.words (tasksWord lpid) (ltid + 1)
  { b with
    words := writeSlots w lpid ltid (contextSlots c m t ltid)
    ltid := Function.update b.ltid t.taskId (some ltid) }

/-- The task of a turn is placed on the processor. -/
def Fit (m : Mapping) (x y lpid : ℕ) (t : Turn) : Prop :=
  x = (m.cluster (m.task t.taskId).clusterid).x ∧ y = (m.cluster (m.task t.taskId).clusterid).y ∧
    (m.task t.taskId).proclocid = lpid

instance (m : Mapping) (x y lpid : ℕ) (t : Turn) : Decidable (Fit m x y lpid t) :=
  inferInstanceAs (Decidable (_ ∧ _))

/-- Step 2: the loops on the tasks and on the local processors. -/
def schedulerInit2 (c : Config) (m : Mapping) (x y nprocs : ℕ) (b : Booted) : Booted :=
  m.turns.foldl (fun b t => (List.range nprocs).foldl (fun b lpid =>
    if Fit m x y lpid t then appendTask c m t lpid b else b) b) b

/-- `boot_scheduler_init`; none when it exits. -/
def bootSchedulerInit (c : Config) (m : Mapping) (x y : ℕ) (w : Words) : Option Booted :=
  (schedulerInit1 c m x y w).map (schedulerInit2 c m x y (m.cluster (x * c.ySize + y)).procs)

end GietVm.Boot.Sched
