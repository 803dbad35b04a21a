import GietVm.Drivers.Hba

/-!
# The SD card driver

`_sdc_access` of `sdc_driver.c` in both modes, for any number of tasks on any processors, with
the device and the handler `_sdc_isr`. The controller has the registers of an AHCI controller.
The device interrupt is routed to one processor, so at most one execution of the handler is in
progress; it interleaves with all tasks.

A task reserves a slot of the command list by an atomic increment of `_ahci_cmd_ptw`, of which
the five low bits are the slot. The handler goes through the slots from `_ahci_cmd_ptr` on, up to
the last one reserved or the first one whose PXCI bit is set.

A step is one access to a device register or to a shared variable, or one turn of a loop. The
increment of `_ahci_cmd_ptr` is one step, since only the handler writes this variable. The
command list and the command tables belong to the owner of their slot and are left out, as are
the coherence of the caches and the traces.
-/

namespace GietVm.Drivers.Sdc

open GietVm.Library
open Hba (Args Device Failed)

/-- `SDC_POLLING_TIMEOUT` -/
def pollingTimeout : ℕ := 1000000

/-- The slot of a value of `_ahci_cmd_ptw` or `_ahci_cmd_ptr`: its five low bits. -/
def slotOf (n : BitVec 32) : ℕ := (n &&& 0x1F).toNat

/-- What `_sdc_access` returns for a value of PXIS. -/
def statusOf (pxis : BitVec 32) : BitVec 32 := if Failed pxis then pxis else 0

/-- The points of a task that has reserved a slot. -/
inductive Phase
  | pollSlot (iter : ℕ)
  | command
  -- descheduling mode
  | irqEnable
  | setGtid
  | itDisable
  | setNorun
  | launch
  | switch
  | switched
  | itRestore
  | getStatus
  -- polling mode
  | pollLaunch
  | irqDisable
  | poll (iter : ℕ)
  | readPxis
  | resetPxis (pxis : BitVec 32)

/-- The points of a task. -/
inductive Pc
  | out
  | entered (a : Args)
  | reserve (a : Args)
  | own (a : Args) (slot : ℕ) (k : Phase)
  | returned (a : Args) (v : BitVec 32)

/-- The task has reserved a slot and not returned. -/
def Pc.Owns : Pc → Prop
  | .own _ _ _ => True
  | _ => False

/-- The task has masked the interrupts. -/
def Pc.Masked : Pc → Prop
  | .own _ _ k => k = .setNorun ∨ k = .launch ∨ k = .switch ∨ k = .switched ∨ k = .itRestore
  | _ => False

/-- The points of the handler, with its local variables: the value of PXCI that it has read and
the variable of its loop. -/
inductive IsrPc
  | none
  | readPxci
  | readPtr (pxci : ℕ → Bool)
  | loop (current : BitVec 32) (pxci : ℕ → Bool)
  | incPtr (current : BitVec 32) (pxci : ℕ → Bool)
  | readPxis (current : BitVec 32) (pxci : ℕ → Bool)
  | setStatus (current : BitVec 32) (pxci : ℕ → Bool) (pxis : BitVec 32)
  | resetPxis (current : BitVec 32) (pxci : ℕ → Bool)
  | readProcid (current : BitVec 32) (pxci : ℕ → Bool)
  | readLtid (current : BitVec 32) (pxci : ℕ → Bool) (procid : ℕ)
  | clearNorun (current : BitVec 32) (pxci : ℕ → Bool) (procid ltid : ℕ)
  | sendWti (current : BitVec 32) (pxci : ℕ → Bool) (procid : ℕ)

/-- The command of a call: not launched, in progress, or completed with a result. -/
inductive Command
  | none
  | pending
  | done (result : BitVec 32)

/-- The state of the system, with two histories: the task that launched the last command of
each slot, and the command of the last call of each task. -/
structure State where
  sched : Sched
  device : Device
  cmdPtr : BitVec 32
  cmdPtw : BitVec 32
  gtid : ℕ → ℕ
  status : ℕ → BitVec 32
  isr : IsrPc
  pc : TaskId → Pc
  issuer : ℕ → TaskId
  command : TaskId → Command

/-- The task goes on to another point. -/
def State.goto (s : State) (t : TaskId) (pc : Pc) : State :=
  { s with pc := Function.update s.pc t pc }

/-- A write of the register PXCI by a task. -/
def State.start (s : State) (t : TaskId) (slot : ℕ) : State :=
  { s with
    device := { s.device with pxci := Function.update s.device.pxci slot true }
    issuer := Function.update s.issuer slot t
    command := Function.update s.command t .pending }

/-- The steps of a task after its call. The loops on PXCI test their timeout first. -/
inductive TaskStep (c : Platform) (t : TaskId) (s : State) : State → Prop
  | misaligned (a : Args) (hpc : s.pc t = .entered a) (ha : ¬a.Aligned) :
      TaskStep c t s (s.goto t (.returned a 1))
  | aligned (a : Args) (hpc : s.pc t = .entered a) (ha : a.Aligned) :
      TaskStep c t s (s.goto t (.reserve a))
  | reserve (a : Args) (hpc : s.pc t = .reserve a) :
      TaskStep c t s { s.goto t (.own a (slotOf s.cmdPtw) (.pollSlot pollingTimeout)) with
        cmdPtw := s.cmdPtw + 1 }
  | slotTimeout (a : Args) (slot iter : ℕ) (hpc : s.pc t = .own a slot (.pollSlot iter))
      (hiter : iter = 1) : TaskStep c t s (s.goto t (.returned a 1))
  | slotBusy (a : Args) (slot iter : ℕ) (hpc : s.pc t = .own a slot (.pollSlot iter))
      (hiter : iter ≠ 1) (hbusy : s.device.pxci slot = true) :
      TaskStep c t s (s.goto t (.own a slot (.pollSlot (iter - 1))))
  | slotFree (a : Args) (slot iter : ℕ) (hpc : s.pc t = .own a slot (.pollSlot iter))
      (hiter : iter ≠ 1) (hfree : s.device.pxci slot = false) :
      TaskStep c t s (s.goto t (.own a slot .command))
  | command (a : Args) (slot : ℕ) (hpc : s.pc t = .own a slot .command) :
      TaskStep c t s
        (s.goto t (.own a slot (if a.useIrq = 0 then .pollLaunch else .irqEnable)))
  | irqEnable (a : Args) (slot : ℕ) (hpc : s.pc t = .own a slot .irqEnable) :
      TaskStep c t s { s.goto t (.own a slot .setGtid) with
        device := { s.device with pxie := 1 } }
  | setGtid (a : Args) (slot : ℕ) (hpc : s.pc t = .own a slot .setGtid) :
      TaskStep c t s { s.goto t (.own a slot .itDisable) with
        gtid := Function.update s.gtid slot (gtidOf t) }
  | itDisable (a : Args) (slot : ℕ) (hpc : s.pc t = .own a slot .itDisable) :
      TaskStep c t s (s.goto t (.own a slot .setNorun))
  | setNorun (a : Args) (slot : ℕ) (hpc : s.pc t = .own a slot .setNorun) :
      TaskStep c t s { s.goto t (.own a slot .launch) with sched := s.sched.block (c.context t) }
  | launch (a : Args) (slot : ℕ) (hpc : s.pc t = .own a slot .launch) :
      TaskStep c t s ((s.start t slot).goto t (.own a slot .switch))
  | switch (a : Args) (slot : ℕ) (hpc : s.pc t = .own a slot .switch) :
      TaskStep c t s { s.goto t (.own a slot .switched) with
        sched := s.sched.enterSwitch t.procid }
  | resume (a : Args) (slot : ℕ) (hpc : s.pc t = .own a slot .switched) :
      TaskStep c t s (s.goto t (.own a slot .itRestore))
  | itRestore (a : Args) (slot : ℕ) (hpc : s.pc t = .own a slot .itRestore) :
      TaskStep c t s (s.goto t (.own a slot .getStatus))
  | getStatus (a : Args) (slot : ℕ) (hpc : s.pc t = .own a slot .getStatus) :
      TaskStep c t s (s.goto t (.returned a (statusOf (s.status slot))))
  | pollLaunch (a : Args) (slot : ℕ) (hpc : s.pc t = .own a slot .pollLaunch) :
      TaskStep c t s ((s.start t slot).goto t (.own a slot .irqDisable))
  | irqDisable (a : Args) (slot : ℕ) (hpc : s.pc t = .own a slot .irqDisable) :
      TaskStep c t s { s.goto t (.own a slot (.poll pollingTimeout)) with
        device := { s.device with pxie := 0 } }
  | pollTimeout (a : Args) (slot iter : ℕ) (hpc : s.pc t = .own a slot (.poll iter))
      (hiter : iter = 1) : TaskStep c t s (s.goto t (.returned a 1))
  | pollBusy (a : Args) (slot iter : ℕ) (hpc : s.pc t = .own a slot (.poll iter))
      (hiter : iter ≠ 1) (hbusy : s.device.pxci slot = true) :
      TaskStep c t s (s.goto t (.own a slot (.poll (iter - 1))))
  | pollDone (a : Args) (slot iter : ℕ) (hpc : s.pc t = .own a slot (.poll iter))
      (hiter : iter ≠ 1) (hdone : s.device.pxci slot = false) :
      TaskStep c t s (s.goto t (.own a slot .readPxis))
  | readPxis (a : Args) (slot : ℕ) (hpc : s.pc t = .own a slot .readPxis) :
      TaskStep c t s (s.goto t (.own a slot (.resetPxis s.device.pxis)))
  | resetPxis (a : Args) (slot : ℕ) (pxis : BitVec 32)
      (hpc : s.pc t = .own a slot (.resetPxis pxis)) :
      TaskStep c t s { s.goto t (.returned a (statusOf pxis)) with
        device := { s.device with pxis := 0 } }

/-- The steps of `_sdc_isr`. The wake-up interrupt lets the scheduler of the addressed
processor switch, which it may do at any time. -/
inductive IsrStep (c : Platform) (s : State) : State → Prop
  | enter (hpc : s.isr = .none) (hirq : s.device.irq) : IsrStep c s { s with isr := .readPxci }
  | readPxci (hpc : s.isr = .readPxci) : IsrStep c s { s with isr := .readPtr s.device.pxci }
  | readPtr (pxci : ℕ → Bool) (hpc : s.isr = .readPtr pxci) :
      IsrStep c s { s with isr := .loop s.cmdPtr pxci }
  | exit (current : BitVec 32) (pxci : ℕ → Bool) (hpc : s.isr = .loop current pxci)
      (hend : current = s.cmdPtw) : IsrStep c s { s with isr := .none }
  | break (current : BitVec 32) (pxci : ℕ → Bool) (hpc : s.isr = .loop current pxci)
      (hend : current ≠ s.cmdPtw) (hbusy : pxci (slotOf current) = true) :
      IsrStep c s { s with isr := .none }
  | completed (current : BitVec 32) (pxci : ℕ → Bool) (hpc : s.isr = .loop current pxci)
      (hend : current ≠ s.cmdPtw) (hdone : pxci (slotOf current) = false) :
      IsrStep c s { s with isr := .incPtr current pxci }
  | incPtr (current : BitVec 32) (pxci : ℕ → Bool) (hpc : s.isr = .incPtr current pxci) :
      IsrStep c s { s with isr := .readPxis current pxci, cmdPtr := s.cmdPtr + 1 }
  | readPxis (current : BitVec 32) (pxci : ℕ → Bool) (hpc : s.isr = .readPxis current pxci) :
      IsrStep c s { s with isr := .setStatus current pxci s.device.pxis }
  | setStatus (current : BitVec 32) (pxci : ℕ → Bool) (pxis : BitVec 32)
      (hpc : s.isr = .setStatus current pxci pxis) :
      IsrStep c s { s with
        isr := .resetPxis current pxci
        status := Function.update s.status (slotOf current) pxis }
  | resetPxis (current : BitVec 32) (pxci : ℕ → Bool) (hpc : s.isr = .resetPxis current pxci) :
      IsrStep c s { s with
        isr := .readProcid current pxci
        device := { s.device with pxis := 0 } }
  | readProcid (current : BitVec 32) (pxci : ℕ → Bool) (hpc : s.isr = .readProcid current pxci) :
      IsrStep c s { s with isr := .readLtid current pxci (s.gtid (slotOf current) >>> 16) }
  | readLtid (current : BitVec 32) (pxci : ℕ → Bool) (procid : ℕ)
      (hpc : s.isr = .readLtid current pxci procid) :
      IsrStep c s { s with
        isr := .clearNorun current pxci procid (s.gtid (slotOf current) &&& 0xFFFF) }
  | clearNorun (current : BitVec 32) (pxci : ℕ → Bool) (procid ltid : ℕ)
      (hpc : s.isr = .clearNorun current pxci procid ltid) :
      IsrStep c s { s with
        isr := .sendWti current pxci procid
        sched := s.sched.unblock (c.isrContext procid ltid) }
  | sendWti (current : BitVec 32) (pxci : ℕ → Bool) (procid : ℕ)
      (hpc : s.isr = .sendWti current pxci procid) :
      IsrStep c s { s with isr := .loop (current + 1) pxci }

/-- The device completes the command of a slot: it clears the PXCI bit and reports the result
in PXIS. -/
def State.complete (s : State) (slot : ℕ) (result : BitVec 32) : State :=
  { s with
    device := { s.device with
      pxci := Function.update s.device.pxci slot false
      pxis := s.device.pxis ||| result }
    command := Function.update s.command (s.issuer slot) (.done result) }

/-- The party that makes a step. -/
inductive Action
  | call (t : TaskId) (a : Args)
  | task (t : TaskId)
  | sched
  | complete (slot : ℕ) (result : BitVec 32)
  | isr

/-- The steps of the system, in any order. A result is not zero: it raises the interrupt. -/
inductive Step (c : Platform) (s : State) : Action → State → Prop
  | call (t : TaskId) (a : Args) (ht : c.Task t) (hrun : s.sched.Running t)
      (hpc : s.pc t = .out ∨ ∃ a' v, s.pc t = .returned a' v) :
      Step c s (.call t a)
        { s.goto t (.entered a) with command := Function.update s.command t .none }
  | task (t : TaskId) {s' : State} (ht : c.Task t) (hrun : s.sched.Running t)
      (hstep : TaskStep c t s s') : Step c s (.task t) s'
  | sched {sched' : Sched} (hstep : SchedStep c (fun t => (s.pc t).Masked) s.sched sched') :
      Step c s .sched { s with sched := sched' }
  | complete (slot : ℕ) (result : BitVec 32) (hbusy : s.device.pxci slot = true)
      (hresult : result ≠ 0) : Step c s (.complete slot result) (s.complete slot result)
  | isr {s' : State} (hstep : IsrStep c s s') : Step c s .isr s'

/-- The states before the first call, as `_sdc_init` leaves them. -/
structure Initial (c : Platform) (s : State) : Prop where
  pc : ∀ t, s.pc t = .out
  pxci : ∀ slot, s.device.pxci slot = false
  pxis : s.device.pxis = 0
  pxie : s.device.pxie = 0
  cmdPtr : s.cmdPtr = 0
  cmdPtw : s.cmdPtw = 0
  isr : s.isr = .none
  blocked : ∀ t, c.Task t → ¬s.sched.Blocked c t

/-- The states reached by runs all of whose steps meet a condition on the state before the
step and the party that makes it. -/
inductive Run (c : Platform) (ok : State → Action → Prop) : State → Prop
  | init {s : State} (h : Initial c s) : Run c ok s
  | step {s s' : State} {action : Action} (h : Run c ok s) (hok : ok s action)
      (hstep : Step c s action s') : Run c ok s'

/-! ## What the driver promises -/

/-- The command of the task is completed. -/
def State.Completed (s : State) (t : TaskId) : Prop := ∃ result, s.command t = .done result

/-- What holds of the tasks, of the handler and of the interrupt. -/
structure Valid (c : Platform) (s : State) : Prop where
  /-- A task leaves its descheduling point after its command. -/
  leaves : ∀ t a slot k, s.pc t = .own a slot k → k = .itRestore ∨ k = .getStatus → s.Completed t
  /-- A call that has launched a command returns its status. -/
  returns : ∀ t a v, s.pc t = .returned a v →
    (s.command t = .none ∧ v = 1) ∨ ∃ result, s.command t = .done result ∧ v = statusOf result
  /-- The handler wakes no task whose command is not completed. -/
  wakes : ∀ current pxci procid ltid, s.isr = .clearNorun current pxci procid ltid →
    ∀ t, c.Task t → c.context t = c.isrContext procid ltid → (s.pc t).Owns → s.Completed t
  /-- When no command is in progress and no execution of the handler is pending, no task sleeps
  whose command is completed. -/
  rests : (∀ slot, s.device.pxci slot = false) → s.isr = .none → ¬s.device.irq →
    ∀ t, c.Task t → (s.pc t).Owns → s.Completed t → ¬s.sched.Blocked c t

/-- A step keeps the accesses apart when a slot is reserved only while no other task owns one, no
execution of the handler is in progress and, for a call in descheduling mode, the handler has
gone through all the slots; when a command polled is completed while the interrupt is disabled;
and when the loop of the polling mode does not reach its timeout. -/
def Apart (s : State) : Action → Prop
  | .task t => match s.pc t with
    | .reserve a => (∀ u, ¬(s.pc u).Owns) ∧ s.isr = .none ∧ (a.useIrq ≠ 0 → s.cmdPtr = s.cmdPtw)
    | .own _ _ (.poll iter) => iter ≠ 1
    | _ => True
  | .complete slot _ => ∀ t a k, s.pc t = .own a slot k → a.useIrq = 0 → s.device.pxie = 0
  | _ => True

end GietVm.Drivers.Sdc
