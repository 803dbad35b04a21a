import GietVm.Drivers.Sched
import GietVm.Library.TicketLock

/-!
# The block device driver in descheduling mode

`_bdv_access` of `bdv_driver.c` with `use_irq` set, for any number of tasks on any
processors, with the device and the handler `_bdv_isr`. A step is one access to a device
register, one access to a shared word, or one turn of the scheduler loop. The handler may
start on any processor at any time, also on several processors at once and without an
interrupt; it preempts nothing in this model, which only adds interleavings.

The software coherence of the caches and the traces have no effect on this state.
-/

namespace GietVm.Drivers.Bdv

open GietVm.Library

/-- `BDV_status`, without the value for an operation that is neither a read nor a write. -/
inductive Status
  | idle
  | busy
  | readSuccess
  | writeSuccess
  | readError
  | writeError
  deriving DecidableEq, Repr

/-- The status of a completed transfer. -/
def Status.Final (st : Status) : Prop := st ≠ .idle ∧ st ≠ .busy

/-- The value that the driver returns for a status. -/
def Status.error (st : Status) : ℕ := if st = .readError ∨ st = .writeError then 1 else 0

/-- `BDV_operations`. -/
inductive Operation
  | noop
  | read
  | write
  deriving DecidableEq, Repr

/-- The registers of the device, its status and its interrupt line. -/
structure Device where
  buffer : ℕ
  bufferExt : ℕ
  count : ℕ
  lba : ℕ
  op : Operation
  irqEnable : ℕ
  status : Status
  irq : Bool

/-- A write to the register `BLOCK_DEVICE_OP` launches a transfer. -/
def Device.launch (d : Device) (op : Operation) : Device := { d with op, status := .busy }

/-- The status of a completed operation. -/
def completedStatus (op : Operation) (failed : Bool) : Status :=
  if op = .read then if failed then .readError else .readSuccess
  else if failed then .writeError else .writeSuccess

/-- The transfer completes, and raises the interrupt when it is enabled. -/
def Device.complete (d : Device) (failed : Bool) : Device :=
  { d with status := completedStatus d.op failed, irq := d.irqEnable ≠ 0 }

/-- A read of the register `BLOCK_DEVICE_STATUS` of a completed transfer resets the status
and the interrupt. -/
def Device.acknowledge (d : Device) : Device :=
  if d.status = .idle ∨ d.status = .busy then d else { d with status := .idle, irq := false }

/-- The arguments of `_bdv_access`. -/
structure Args where
  toMem : ℕ
  lba : ℕ
  bufPaddr : ℕ
  count : ℕ

/-- The buffer passes the alignment check. -/
def Args.Aligned (a : Args) : Prop := a.bufPaddr &&& 0x3F = 0

/-- The operation written to the device. -/
def Args.op (a : Args) : Operation := if a.toMem = 0 then .write else .read

/-- The steps of a task between the lock and the descheduling point, in their order. -/
inductive SetUp
  | buffer
  | bufferExt
  | count
  | lba
  | irqEnable
  | gtid
  | itDisable
  | norun
  | launch
  deriving DecidableEq, Repr

/-- The number of the steps before this one. -/
def SetUp.index : SetUp → ℕ
  | .buffer => 0
  | .bufferExt => 1
  | .count => 2
  | .lba => 3
  | .irqEnable => 4
  | .gtid => 5
  | .itDisable => 6
  | .norun => 7
  | .launch => 8

/-- The points of a task. -/
inductive Pc
  | out
  | entered (a : Args)
  | acquire (a : Args)
  | waiting (a : Args) (ticket : ℕ)
  | setUp (a : Args) (k : SetUp)
  /-- The transfer is launched and `_ctx_switch` is to be called. -/
  | switch (a : Args)
  /-- The task is in `_ctx_switch`, its descheduling point. -/
  | switched (a : Args)
  | itRestore (a : Args)
  | testReadError (a : Args)
  | testWriteError (a : Args)
  | release (a : Args) (error : ℕ)
  | giveLock (a : Args) (error current : ℕ)
  | returned (a : Args) (v : ℕ)

/-- The task has masked the interrupts. -/
def Pc.Masked : Pc → Prop
  | .setUp _ k => 7 ≤ k.index
  | .switch _ | .switched _ | .itRestore _ => True
  | _ => False

/-- The points of an execution of `_bdv_isr`. -/
inductive IsrPc
  | none
  | entered
  | setStatus (status : Status)
  | readProcid
  | readLtid (procid : ℕ)
  | clearNorun (procid ltid : ℕ)
  | sendWti (procid : ℕ)
  deriving DecidableEq, Repr

/-- The device, the global words of the driver, the executions of the handler on the
processors, and two histories: the task whose transfer was launched last, and the status
with which the device completed the last transfer of each task. -/
structure Shared where
  device : Device
  gtid : ℕ
  status : Status
  isr : ℕ → IsrPc
  job : TaskId
  outcome : TaskId → Option Status

/-- The state of the system. The lists are the histories of the lock `_bdv_lock`. -/
structure State where
  sched : Sched
  shared : Shared
  lockCurrent : ℕ
  lockFree : ℕ
  drawn : List TaskId
  served : List TaskId
  given : ℕ
  pc : TaskId → Pc

/-- The task goes on to another point. -/
def State.goto (s : State) (t : TaskId) (pc : Pc) : State :=
  { s with pc := Function.update s.pc t pc }

/-- The task goes on to another point after an access to the device or to a global word. -/
def State.access (s : State) (t : TaskId) (shared : Shared) (pc : Pc) : State :=
  { s with shared, pc := Function.update s.pc t pc }

/-- A write to a device register. -/
def Shared.setDevice (sh : Shared) (device : Device) : Shared := { sh with device }

/-- The steps of a task in `_bdv_access`. Polling a lock that shows another ticket changes
nothing and is left out. -/
inductive TaskStep (c : Platform) (t : TaskId) (s : State) : State → Prop
  | call (a : Args) (hpc : s.pc t = .out ∨ ∃ a' v, s.pc t = .returned a' v) :
      TaskStep c t s (s.goto t (.entered a))
  | misaligned (a : Args) (hpc : s.pc t = .entered a) (ha : ¬a.Aligned) :
      TaskStep c t s (s.goto t (.returned a 0xFFFFFFFF))
  | aligned (a : Args) (hpc : s.pc t = .entered a) (ha : a.Aligned) :
      TaskStep c t s (s.goto t (.acquire a))
  | draw (a : Args) (hpc : s.pc t = .acquire a) :
      TaskStep c t s { s.goto t (.waiting a s.lockFree) with
        lockFree := add32 s.lockFree 1, drawn := s.drawn ++ [t] }
  | serve (a : Args) (hpc : s.pc t = .waiting a s.lockCurrent) :
      TaskStep c t s { s.goto t (.setUp a .buffer) with served := s.served ++ [t] }
  | setBuffer (a : Args) (hpc : s.pc t = .setUp a .buffer) :
      TaskStep c t s (s.access t
        (s.shared.setDevice { s.shared.device with buffer := a.bufPaddr % 0x100000000 })
        (.setUp a .bufferExt))
  | setBufferExt (a : Args) (hpc : s.pc t = .setUp a .bufferExt) :
      TaskStep c t s (s.access t
        (s.shared.setDevice
          { s.shared.device with bufferExt := (a.bufPaddr >>> 32) % 0x100000000 })
        (.setUp a .count))
  | setCount (a : Args) (hpc : s.pc t = .setUp a .count) :
      TaskStep c t s (s.access t
        (s.shared.setDevice { s.shared.device with count := a.count }) (.setUp a .lba))
  | setLba (a : Args) (hpc : s.pc t = .setUp a .lba) :
      TaskStep c t s (s.access t
        (s.shared.setDevice { s.shared.device with lba := a.lba }) (.setUp a .irqEnable))
  | setIrqEnable (a : Args) (hpc : s.pc t = .setUp a .irqEnable) :
      TaskStep c t s (s.access t
        (s.shared.setDevice { s.shared.device with irqEnable := 1 }) (.setUp a .gtid))
  | setGtid (a : Args) (hpc : s.pc t = .setUp a .gtid) :
      TaskStep c t s (s.access t { s.shared with gtid := gtidOf t } (.setUp a .itDisable))
  | itDisable (a : Args) (hpc : s.pc t = .setUp a .itDisable) :
      TaskStep c t s (s.goto t (.setUp a .norun))
  | setNorun (a : Args) (hpc : s.pc t = .setUp a .norun) :
      TaskStep c t s { s.goto t (.setUp a .launch) with sched := s.sched.block (c.context t) }
  | launch (a : Args) (hpc : s.pc t = .setUp a .launch) :
      TaskStep c t s (s.access t
        { s.shared with
          device := s.shared.device.launch a.op
          job := t
          outcome := Function.update s.shared.outcome t none }
        (.switch a))
  | switch (a : Args) (hpc : s.pc t = .switch a) :
      TaskStep c t s { s.goto t (.switched a) with sched := s.sched.enterSwitch t.procid }
  | resume (a : Args) (hpc : s.pc t = .switched a) : TaskStep c t s (s.goto t (.itRestore a))
  | itRestore (a : Args) (hpc : s.pc t = .itRestore a) :
      TaskStep c t s (s.goto t (.testReadError a))
  | readError (a : Args) (hpc : s.pc t = .testReadError a) (hst : s.shared.status = .readError) :
      TaskStep c t s (s.goto t (.release a 1))
  | noReadError (a : Args) (hpc : s.pc t = .testReadError a)
      (hst : s.shared.status ≠ .readError) : TaskStep c t s (s.goto t (.testWriteError a))
  | writeError (a : Args) (hpc : s.pc t = .testWriteError a) :
      TaskStep c t s (s.goto t (.release a (if s.shared.status = .writeError then 1 else 0)))
  | release (a : Args) (error : ℕ) (hpc : s.pc t = .release a error) :
      TaskStep c t s (s.goto t (.giveLock a error s.lockCurrent))
  | giveLock (a : Args) (error current : ℕ) (hpc : s.pc t = .giveLock a error current) :
      TaskStep c t s { s.goto t (.returned a error) with
        lockCurrent := add32 current 1, given := s.given + 1 }

/-- The execution of the handler on a processor goes on to another point. -/
def Shared.gotoIsr (sh : Shared) (procid : ℕ) (pc : IsrPc) : Shared :=
  { sh with isr := Function.update sh.isr procid pc }

/-- The steps of `_bdv_isr` on a processor. The wake-up interrupt at its end lets the
scheduler of the addressed processor switch, which it may do at any time. -/
inductive IsrStep (c : Platform) (q : ℕ) (s : State) : State → Prop
  | enter (hpc : s.shared.isr q = .none) :
      IsrStep c q s { s with shared := s.shared.gotoIsr q .entered }
  | ignore (hpc : s.shared.isr q = .entered)
      (hst : s.shared.device.status = .idle ∨ s.shared.device.status = .busy) :
      IsrStep c q s { s with shared := s.shared.gotoIsr q .none }
  | readStatus (hpc : s.shared.isr q = .entered)
      (hst : s.shared.device.status ≠ .idle ∧ s.shared.device.status ≠ .busy) :
      IsrStep c q s { s with shared :=
        { s.shared.gotoIsr q (.setStatus s.shared.device.status) with
          device := s.shared.device.acknowledge } }
  | setStatus (status : Status) (hpc : s.shared.isr q = .setStatus status) :
      IsrStep c q s { s with shared := { s.shared.gotoIsr q .readProcid with status } }
  | readProcid (hpc : s.shared.isr q = .readProcid) :
      IsrStep c q s { s with shared := s.shared.gotoIsr q (.readLtid (s.shared.gtid >>> 16)) }
  | readLtid (procid : ℕ) (hpc : s.shared.isr q = .readLtid procid) :
      IsrStep c q s { s with
        shared := s.shared.gotoIsr q (.clearNorun procid (s.shared.gtid &&& 0xFFFF)) }
  | clearNorun (procid ltid : ℕ) (hpc : s.shared.isr q = .clearNorun procid ltid) :
      IsrStep c q s { s with
        shared := s.shared.gotoIsr q (.sendWti procid)
        sched := s.sched.unblock (c.isrContext procid ltid) }
  | sendWti (procid : ℕ) (hpc : s.shared.isr q = .sendWti procid) :
      IsrStep c q s { s with shared := s.shared.gotoIsr q .none }

/-- The device completes the launched transfer. -/
def Shared.complete (sh : Shared) (failed : Bool) : Shared :=
  { sh with
    device := sh.device.complete failed
    outcome := Function.update sh.outcome sh.job (some (completedStatus sh.device.op failed)) }

/-- The steps of the system, in any order. -/
inductive Step (c : Platform) (s : State) : State → Prop
  | task (t : TaskId) {s' : State} (ht : c.Task t) (hrun : s.sched.Running t)
      (hstep : TaskStep c t s s') : Step c s s'
  | sched {sched' : Sched} (hstep : SchedStep c (fun t => (s.pc t).Masked) s.sched sched') :
      Step c s { s with sched := sched' }
  | complete (failed : Bool) (hbusy : s.shared.device.status = .busy) :
      Step c s { s with shared := s.shared.complete failed }
  | isr (procid : ℕ) {s' : State} (hstep : IsrStep c procid s s') : Step c s s'

/-- The states before the first call: the device is idle, the lock is free, and no task
waits for a transfer. -/
structure Initial (c : Platform) (s : State) : Prop where
  pc : ∀ t, s.pc t = .out
  lock : s.lockCurrent = 0 ∧ s.lockFree = 0
  histories : s.drawn = [] ∧ s.served = [] ∧ s.given = 0
  status : s.shared.device.status = .idle
  irq : s.shared.device.irq = false
  isr : ∀ q, s.shared.isr q = .none
  blocked : ∀ t, c.Task t → ¬s.sched.Blocked c t

/-- The states that the system reaches. -/
inductive Reachable (c : Platform) : State → Prop
  | init {s : State} (h : Initial c s) : Reachable c s
  | step {s s' : State} (h : Reachable c s) (hstep : Step c s s') : Reachable c s'

end GietVm.Drivers.Bdv
