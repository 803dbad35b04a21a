import GietVm.Drivers.Sched

/-!
# The AHCI driver

`_hba_access` of `hba_driver.c` in both modes, for any number of tasks on any processors,
with the device and the handler `_hba_isr`. The device interrupt is routed to one processor,
so at most one execution of the handler is in progress; it interleaves with all tasks, also
with those of its own processor, which only adds interleavings.

A step is one access to a device register or to a shared table, or one turn of a loop. The
lock `_hba_allocator_lock` is taken and given in one step each: it is an SQT lock, which one
task owns at a time. The bit-vectors of the commands are functions of the command index. The
command list and the command tables belong to the owner of their slot and are left out, as
are the coherence of the caches and the traces. The driver is not in boot mode.
-/

namespace GietVm.Drivers.Hba

open GietVm.Library

/-- The error bit of the register PXIS. -/
def errorMask : BitVec 32 := 0x40000000

/-- The error bit is set. -/
def Failed (w : BitVec 32) : Prop := w &&& errorMask ≠ 0

instance (w : BitVec 32) : Decidable (Failed w) := inferInstanceAs (Decidable (_ ≠ _))

/-- The arguments of `_hba_access`. -/
structure Args where
  useIrq : ℕ
  toMem : ℕ
  lba : ℕ
  bufPaddr : ℕ
  count : ℕ

/-- The buffer passes the alignment check. -/
def Args.Aligned (a : Args) : Prop := a.bufPaddr &&& 0x3F = 0

/-- The registers PXCI, PXIS and PXIE. -/
structure Device where
  pxci : ℕ → Bool
  pxis : BitVec 32
  pxie : ℕ

/-- The interrupt line. -/
def Device.irq (d : Device) : Prop := d.pxis ≠ 0 ∧ d.pxie ≠ 0

/-- The points of a task that owns a command slot. -/
inductive Phase
  | unlock
  | command
  -- descheduling mode
  | irqEnable
  | setGtid
  | itDisable
  | setNorun
  | launch
  | setActive
  | switch
  | switched
  | itRestore
  | getStatus
  -- polling mode
  | pollLaunch
  | irqDisable
  | poll
  | readPxis
  | resetPxis (pxis : BitVec 32)
  -- both modes
  | release (pxis : BitVec 32)
  | clearSlot (pxis : BitVec 32)
  deriving DecidableEq

/-- The points of a task. -/
inductive Pc
  | out
  | entered (a : Args)
  | lockAlloc (a : Args)
  | scanSlot (a : Args) (slot : ℕ)
  | takeSlot (a : Args) (slot : ℕ)
  | unlockAlloc (a : Args)
  | own (a : Args) (slot : ℕ) (k : Phase)
  | returned (a : Args) (v : BitVec 32)

/-- The task has masked the interrupts. -/
def Pc.Masked : Pc → Prop
  | .own _ _ k => k = .setNorun ∨ k = .launch ∨ k = .setActive ∨ k = .switch ∨ k = .switched ∨
      k = .itRestore
  | _ => False

/-- The points of the handler, with its local variables: the list of active commands and the
value of PXCI that it has saved, and the index of its loops. -/
inductive IsrPc
  | none
  | testStatus
  | readPxis
  | setStatus (pxis : BitVec 32)
  | resetPxis
  | snapshot (slot : ℕ) (active : ℕ → Bool)
  | loop (slot : ℕ) (active pxci : ℕ → Bool)
  | readProcid (slot : ℕ) (active pxci : ℕ → Bool)
  | readLtid (slot : ℕ) (active pxci : ℕ → Bool) (procid : ℕ)
  | clearNorun (slot : ℕ) (active pxci : ℕ → Bool) (procid ltid : ℕ)
  | sendWti (slot : ℕ) (active pxci : ℕ → Bool) (procid : ℕ)

/-- The state of the system, with two histories: the task that launched the last command of
each slot, and whether the last command of each task has failed, once it is completed. -/
structure State where
  sched : Sched
  device : Device
  lock : Option TaskId
  allocated : ℕ → Bool
  active : ℕ → Bool
  gtid : ℕ → ℕ
  status : BitVec 32
  isr : IsrPc
  pc : TaskId → Pc
  issuer : ℕ → TaskId
  outcome : TaskId → Option Bool

/-- The task goes on to another point. -/
def State.goto (s : State) (t : TaskId) (pc : Pc) : State :=
  { s with pc := Function.update s.pc t pc }

/-- A write of the register PXCI by a task. -/
def State.start (s : State) (t : TaskId) (slot : ℕ) : State :=
  { s with
    device := { s.device with pxci := Function.update s.device.pxci slot true }
    issuer := Function.update s.issuer slot t
    outcome := Function.update s.outcome t none }

/-- The steps of a task after its call. -/
inductive TaskStep (c : Platform) (t : TaskId) (s : State) : State → Prop
  | misaligned (a : Args) (hpc : s.pc t = .entered a) (ha : ¬a.Aligned) :
      TaskStep c t s (s.goto t (.returned a 0xFFFFFFFF))
  | aligned (a : Args) (hpc : s.pc t = .entered a) (ha : a.Aligned) :
      TaskStep c t s (s.goto t (.lockAlloc a))
  | lockAlloc (a : Args) (hpc : s.pc t = .lockAlloc a) (hfree : s.lock = none) :
      TaskStep c t s { s.goto t (.scanSlot a 0) with lock := some t }
  | scanFree (a : Args) (slot : ℕ) (hpc : s.pc t = .scanSlot a slot) (hslot : slot < 32)
      (hfree : s.allocated slot = false) : TaskStep c t s (s.goto t (.takeSlot a slot))
  | scanUsed (a : Args) (slot : ℕ) (hpc : s.pc t = .scanSlot a slot) (hslot : slot < 32)
      (hused : s.allocated slot = true) : TaskStep c t s (s.goto t (.scanSlot a (slot + 1)))
  | scanEnd (a : Args) (slot : ℕ) (hpc : s.pc t = .scanSlot a slot) (hslot : ¬slot < 32) :
      TaskStep c t s (s.goto t (.unlockAlloc a))
  | takeSlot (a : Args) (slot : ℕ) (hpc : s.pc t = .takeSlot a slot) :
      TaskStep c t s { s.goto t (.own a slot .unlock) with
        allocated := Function.update s.allocated slot true }
  | retry (a : Args) (hpc : s.pc t = .unlockAlloc a) :
      TaskStep c t s { s.goto t (.lockAlloc a) with lock := none }
  | unlock (a : Args) (slot : ℕ) (hpc : s.pc t = .own a slot .unlock) :
      TaskStep c t s { s.goto t (.own a slot .command) with lock := none }
  | command (a : Args) (slot : ℕ) (hpc : s.pc t = .own a slot .command) :
      TaskStep c t s
        (s.goto t (.own a slot (if a.useIrq = 0 then .pollLaunch else .irqEnable)))
  | irqEnable (a : Args) (slot : ℕ) (hpc : s.pc t = .own a slot .irqEnable) :
      TaskStep c t s { s.goto t (.own a slot .setGtid) with
        device := { s.device with pxie := 1 } }
  | setGtid (a : Args) (slot : ℕ) (hpc : s.pc t = .own a slot .setGtid) :
      TaskStep c t s { s.goto t (.own a slot .itDisable) with
        gtid := Function.update s.gtid slot (gtidOf t) }
  | itDisable (a : Args) (slot : ℕ) (hpc : s.pc t = .own a slot .itDisable) :
      TaskStep c t s (s.goto t (.own a slot .setNorun))
  | setNorun (a : Args) (slot : ℕ) (hpc : s.pc t = .own a slot .setNorun) :
      TaskStep c t s { s.goto t (.own a slot .launch) with sched := s.sched.block (c.context t) }
  | launch (a : Args) (slot : ℕ) (hpc : s.pc t = .own a slot .launch) :
      TaskStep c t s ((s.start t slot).goto t (.own a slot .setActive))
  | setActive (a : Args) (slot : ℕ) (hpc : s.pc t = .own a slot .setActive) :
      TaskStep c t s { s.goto t (.own a slot .switch) with
        active := Function.update s.active slot true }
  | switch (a : Args) (slot : ℕ) (hpc : s.pc t = .own a slot .switch) :
      TaskStep c t s { s.goto t (.own a slot .switched) with
        sched := s.sched.enterSwitch t.procid }
  | resume (a : Args) (slot : ℕ) (hpc : s.pc t = .own a slot .switched) :
      TaskStep c t s (s.goto t (.own a slot .itRestore))
  | itRestore (a : Args) (slot : ℕ) (hpc : s.pc t = .own a slot .itRestore) :
      TaskStep c t s (s.goto t (.own a slot .getStatus))
  | getStatus (a : Args) (slot : ℕ) (hpc : s.pc t = .own a slot .getStatus) :
      TaskStep c t s (s.goto t (.own a slot (.release s.status)))
  | pollLaunch (a : Args) (slot : ℕ) (hpc : s.pc t = .own a slot .pollLaunch) :
      TaskStep c t s ((s.start t slot).goto t (.own a slot .irqDisable))
  | irqDisable (a : Args) (slot : ℕ) (hpc : s.pc t = .own a slot .irqDisable) :
      TaskStep c t s { s.goto t (.own a slot .poll) with device := { s.device with pxie := 0 } }
  | poll (a : Args) (slot : ℕ) (hpc : s.pc t = .own a slot .poll)
      (hdone : s.device.pxci slot = false) : TaskStep c t s (s.goto t (.own a slot .readPxis))
  | readPxis (a : Args) (slot : ℕ) (hpc : s.pc t = .own a slot .readPxis) :
      TaskStep c t s (s.goto t (.own a slot (.resetPxis s.device.pxis)))
  | resetPxis (a : Args) (slot : ℕ) (pxis : BitVec 32)
      (hpc : s.pc t = .own a slot (.resetPxis pxis)) :
      TaskStep c t s { s.goto t (.own a slot (.release pxis)) with
        device := { s.device with pxis := 0 } }
  | releaseError (a : Args) (slot : ℕ) (pxis : BitVec 32)
      (hpc : s.pc t = .own a slot (.release pxis)) (hfree : s.allocated slot = false) :
      TaskStep c t s (s.goto t (.returned a 0xFFFFFFFF))
  | release (a : Args) (slot : ℕ) (pxis : BitVec 32)
      (hpc : s.pc t = .own a slot (.release pxis)) (hused : s.allocated slot = true) :
      TaskStep c t s (s.goto t (.own a slot (.clearSlot pxis)))
  | clearSlot (a : Args) (slot : ℕ) (pxis : BitVec 32)
      (hpc : s.pc t = .own a slot (.clearSlot pxis)) :
      TaskStep c t s { s.goto t (.returned a (if Failed pxis then pxis else 0)) with
        allocated := Function.update s.allocated slot false }

/-- The steps of `_hba_isr`. The wake-up interrupt lets the scheduler of the addressed
processor switch, which it may do at any time. -/
inductive IsrStep (c : Platform) (s : State) : State → Prop
  | enter (hpc : s.isr = .none) (hirq : s.device.irq) : IsrStep c s { s with isr := .testStatus }
  | keepStatus (hpc : s.isr = .testStatus) (hst : Failed s.status) :
      IsrStep c s { s with isr := .resetPxis }
  | newStatus (hpc : s.isr = .testStatus) (hst : ¬Failed s.status) :
      IsrStep c s { s with isr := .readPxis }
  | readPxis (hpc : s.isr = .readPxis) : IsrStep c s { s with isr := .setStatus s.device.pxis }
  | setStatus (pxis : BitVec 32) (hpc : s.isr = .setStatus pxis) :
      IsrStep c s { s with isr := .resetPxis, status := pxis }
  | resetPxis (hpc : s.isr = .resetPxis) :
      IsrStep c s { s with
        isr := .snapshot 0 fun _ => false
        device := { s.device with pxis := 0 } }
  | snapshot (slot : ℕ) (active : ℕ → Bool) (hpc : s.isr = .snapshot slot active)
      (hslot : slot < 32) :
      IsrStep c s { s with
        isr := .snapshot (slot + 1) (Function.update active slot (s.active slot)) }
  | readPxci (slot : ℕ) (active : ℕ → Bool) (hpc : s.isr = .snapshot slot active)
      (hslot : ¬slot < 32) : IsrStep c s { s with isr := .loop 0 active s.device.pxci }
  | deactivate (slot : ℕ) (active pxci : ℕ → Bool) (hpc : s.isr = .loop slot active pxci)
      (hslot : slot < 32) (hdone : active slot = true ∧ pxci slot = false) :
      IsrStep c s { s with
        isr := .readProcid slot active pxci
        active := Function.update s.active slot false }
  | skip (slot : ℕ) (active pxci : ℕ → Bool) (hpc : s.isr = .loop slot active pxci)
      (hslot : slot < 32) (hdone : ¬(active slot = true ∧ pxci slot = false)) :
      IsrStep c s { s with isr := .loop (slot + 1) active pxci }
  | exit (slot : ℕ) (active pxci : ℕ → Bool) (hpc : s.isr = .loop slot active pxci)
      (hslot : ¬slot < 32) : IsrStep c s { s with isr := .none }
  | readProcid (slot : ℕ) (active pxci : ℕ → Bool) (hpc : s.isr = .readProcid slot active pxci) :
      IsrStep c s { s with isr := .readLtid slot active pxci (s.gtid slot >>> 16) }
  | readLtid (slot : ℕ) (active pxci : ℕ → Bool) (procid : ℕ)
      (hpc : s.isr = .readLtid slot active pxci procid) :
      IsrStep c s { s with
        isr := .clearNorun slot active pxci procid (s.gtid slot &&& 0xFFFF) }
  | clearNorun (slot : ℕ) (active pxci : ℕ → Bool) (procid ltid : ℕ)
      (hpc : s.isr = .clearNorun slot active pxci procid ltid) :
      IsrStep c s { s with
        isr := .sendWti slot active pxci procid
        sched := s.sched.unblock (c.isrContext procid ltid) }
  | sendWti (slot : ℕ) (active pxci : ℕ → Bool) (procid : ℕ)
      (hpc : s.isr = .sendWti slot active pxci procid) :
      IsrStep c s { s with isr := .loop (slot + 1) active pxci }

/-- The device completes the command of a slot: it clears the PXCI bit and reports the result
in PXIS. -/
def State.complete (s : State) (slot : ℕ) (result : BitVec 32) : State :=
  { s with
    device := { s.device with
      pxci := Function.update s.device.pxci slot false
      pxis := s.device.pxis ||| result }
    outcome := Function.update s.outcome (s.issuer slot) (some (decide (Failed result))) }

/-- The party that makes a step. -/
inductive Action
  | call (t : TaskId) (a : Args)
  | task (t : TaskId)
  | sched
  | complete (slot : ℕ) (result : BitVec 32)
  | isr

/-- The steps of the system, in any order. A result is not zero: it raises the interrupt. -/
inductive Step (c : Platform) (s : State) : Action → State → Prop
  | call (t : TaskId) (a : Args) (ht : c.Task t) (hrun : s.sched.Running t)
      (hpc : s.pc t = .out ∨ ∃ a' v, s.pc t = .returned a' v) :
      Step c s (.call t a) (s.goto t (.entered a))
  | task (t : TaskId) {s' : State} (ht : c.Task t) (hrun : s.sched.Running t)
      (hstep : TaskStep c t s s') : Step c s (.task t) s'
  | sched {sched' : Sched} (hstep : SchedStep c (fun t => (s.pc t).Masked) s.sched sched') :
      Step c s .sched { s with sched := sched' }
  | complete (slot : ℕ) (result : BitVec 32) (hbusy : s.device.pxci slot = true)
      (hresult : result ≠ 0) : Step c s (.complete slot result) (s.complete slot result)
  | isr {s' : State} (hstep : IsrStep c s s') : Step c s .isr s'

/-- The states before the first call, as `_hba_init` leaves them. -/
structure Initial (c : Platform) (s : State) : Prop where
  pc : ∀ t, s.pc t = .out
  pxci : ∀ slot, s.device.pxci slot = false
  pxis : s.device.pxis = 0
  pxie : s.device.pxie = 0
  lock : s.lock = none
  allocated : ∀ slot, s.allocated slot = false
  active : ∀ slot, s.active slot = false
  status : s.status = 0
  isr : s.isr = .none
  blocked : ∀ t, c.Task t → ¬s.sched.Blocked c t

/-- The states reached by runs all of whose steps meet a condition on the state before the
step and the party that makes it. -/
inductive Run (c : Platform) (ok : State → Action → Prop) : State → Prop
  | init {s : State} (h : Initial c s) : Run c ok s
  | step {s s' : State} {action : Action} (h : Run c ok s) (hok : ok s action)
      (hstep : Step c s action s') : Run c ok s'

end GietVm.Drivers.Hba
