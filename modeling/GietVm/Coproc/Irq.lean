import GietVm.Coproc.Calls

/-!
# Runs of a coprocessor in `MODE_DMA_IRQ`

The tasks that own the coprocessor of a cluster one after the other, its channels, and the
handler `_mwr_isr` of `mwr_driver.c`. A step of `_sys_coproc_run` or of the handler is one
access to a register or to a shared word. The device may end a channel that runs at any time. It
asserts its interrupt as soon as a channel reports an error, or when all channels have completed;
the interrupt of a cluster is routed to one processor, so the handler runs once at a time.

The modes of all channels are `MODE_DMA_IRQ`, so their test always succeeds. Other parts of the
kernel may change the other bits of the NORUN words at any time.
-/

namespace GietVm.Coproc

open GietVm.Drivers (Platform TaskId Context gtidOf)
open GietVm.Kernel (norunMaskCoproc)

/-- The points of `_sys_coproc_run`. -/
inductive Pc
  /-- outside of the call -/
  | user
  /-- a channel is to be started -/
  | start (channel : ℕ)
  /-- `_coproc_gtid` is to be set -/
  | register
  /-- `NORUN_MASK_COPROC` is to be set -/
  | norun
  /-- the coprocessor is to be started -/
  | launch
  /-- `_ctx_switch` is to be called -/
  | switch
  /-- in `_ctx_switch`, the descheduling point -/
  | switched
  /-- `_coproc_error` is to be returned -/
  | ret
  deriving DecidableEq, Repr

/-- The task has set `NORUN_MASK_COPROC` and has not gone on since. -/
def Pc.Armed (p : Pc) : Prop := p = .launch ∨ p = .switch ∨ p = .switched

/-- The points of `_mwr_isr`, with its local variables. -/
inductive IsrPc
  | out
  /-- the status of a channel is to be read -/
  | status (channel : ℕ) (error : Bool)
  /-- a channel is to be stopped -/
  | reset (channel : ℕ) (error : Bool)
  /-- `_coproc_error` is to be written -/
  | error (error : Bool)
  /-- `_coproc_gtid` is to be read -/
  | gtid
  /-- the NORUN word of a task is to be changed -/
  | norun (gtid : ℕ)
  deriving DecidableEq, Repr

/-- The number of the channels of the coprocessor. -/
structure Device where
  nb : ℕ
  nb_pos : 0 < nb

/-- The channels (none when a channel does not run), the owner of the coprocessor, the kernel
variables, the NORUN words, and the points of the tasks and of the handler. It is recorded
whether a channel of the current run has reported an error. -/
structure IrqState where
  channel : ℕ → Option Status
  owner : Option TaskId
  coprocGtid : ℕ
  coprocError : ℕ
  norun : Context → BitVec 32
  pc : TaskId → Pc
  isr : IsrPc
  reported : Bool

namespace IrqState

variable (d : Device) (c : Platform) (s : IrqState)

/-- A channel reports an error. -/
def Failed (i : ℕ) : Prop := ∃ st, s.channel i = some st ∧ st.Error

/-- A channel has completed its transfer. -/
def Completed (i : ℕ) : Prop := ∃ st, s.channel i = some st ∧ st ≠ .busy

/-- The interrupt line of the device. -/
def Irq : Prop := (∃ i, i < d.nb ∧ s.Failed i) ∨ ∀ i, i < d.nb → s.Completed i

/-- The value of the status register of a channel. -/
def statusReg (i : ℕ) : Status := (s.channel i).getD .success

/-- The task is blocked on the coprocessor. -/
def Blocked (t : TaskId) : Prop := s.norun (c.context t) &&& norunMaskCoproc ≠ 0

/-- A step of a task to another point. -/
def goto (t : TaskId) (p : Pc) : IrqState := { s with pc := Function.update s.pc t p }

/-- A channel ends. -/
def finish (i : ℕ) (st : Status) : IrqState :=
  { s with
    channel := Function.update s.channel i (some st)
    reported := s.reported || decide st.Error }

end IrqState

open IrqState

/-- The steps of the tasks and of the handler. -/
inductive IrqStep (d : Device) (c : Platform) (s : IrqState) : IrqState → Prop
  | alloc (t : TaskId) (ht : c.Task t) (hpc : s.pc t = .user) (hlock : s.owner = none) :
      IrqStep d c s { s with owner := some t }
  | release (t : TaskId) (hpc : s.pc t = .user) (howner : s.owner = some t) :
      IrqStep d c s
        { s with owner := none, channel := fun i => if i < d.nb then none else s.channel i }
  | enter (t : TaskId) (hpc : s.pc t = .user) (howner : s.owner = some t) :
      IrqStep d c s { s.goto t (.start 0) with reported := false }
  | start (t : TaskId) (i : ℕ) (hpc : s.pc t = .start i) :
      IrqStep d c s
        { s.goto t (if i + 1 < d.nb then .start (i + 1) else .register) with
          channel := Function.update s.channel i (some .busy) }
  | register (t : TaskId) (hpc : s.pc t = .register) :
      IrqStep d c s { s.goto t .norun with coprocGtid := gtidOf t }
  | norun (t : TaskId) (hpc : s.pc t = .norun) :
      IrqStep d c s
        { s.goto t .launch with
          norun := Function.update s.norun (c.context t)
            (s.norun (c.context t) ||| norunMaskCoproc) }
  | launch (t : TaskId) (hpc : s.pc t = .launch) : IrqStep d c s (s.goto t .switch)
  | switch (t : TaskId) (hpc : s.pc t = .switch) : IrqStep d c s (s.goto t .switched)
  | selected (t : TaskId) (hpc : s.pc t = .switched) (hnorun : s.norun (c.context t) = 0) :
      IrqStep d c s (s.goto t .ret)
  | ret (t : TaskId) (hpc : s.pc t = .ret) : IrqStep d c s (s.goto t .user)
  | isrEnter (hisr : s.isr = .out) (hirq : s.Irq d) :
      IrqStep d c s { s with isr := .status 0 false }
  | isrStatus (i : ℕ) (error : Bool) (hisr : s.isr = .status i error) :
      IrqStep d c s
        { s with
          isr := .reset i (error || decide (s.statusReg i = .busy ∨ (s.statusReg i).Error)) }
  | isrReset (i : ℕ) (error : Bool) (hisr : s.isr = .reset i error) :
      IrqStep d c s
        { s with
          channel := Function.update s.channel i none
          isr := if i + 1 < d.nb then .status (i + 1) error else .error error }
  | isrError (error : Bool) (hisr : s.isr = .error error) :
      IrqStep d c s { s with coprocError := if error then 1 else 0, isr := .gtid }
  | isrGtid (hisr : s.isr = .gtid) : IrqStep d c s { s with isr := .norun s.coprocGtid }
  | isrNorun (gtid : ℕ) (hisr : s.isr = .norun gtid) :
      IrqStep d c s
        { s with
          norun := Function.update s.norun (c.isrContext (gtid >>> 16) (gtid &&& 0xFFFF))
            (s.norun (c.isrContext (gtid >>> 16) (gtid &&& 0xFFFF)) &&& ~~~norunMaskCoproc)
          isr := .out }
  | other (ctx : Context) (w : BitVec 32)
      (hcoproc : w &&& norunMaskCoproc = s.norun ctx &&& norunMaskCoproc) :
      IrqStep d c s { s with norun := Function.update s.norun ctx w }

/-- The state after the boot. -/
structure IrqInitial (c : Platform) (s : IrqState) : Prop where
  channel : ∀ i, s.channel i = none
  owner : s.owner = none
  norun : ∀ t, c.Task t → ¬s.Blocked c t
  pc : ∀ t, s.pc t = .user
  isr : s.isr = .out

/-- The states reached when each end of a channel meets a condition on the state before. -/
inductive IrqRun (d : Device) (c : Platform) (ok : IrqState → ℕ → Status → Prop) : IrqState → Prop
  | init {s : IrqState} (h : IrqInitial c s) : IrqRun d c ok s
  | step {s s' : IrqState} (h : IrqRun d c ok s) (hstep : IrqStep d c s s') : IrqRun d c ok s'
  | finish {s : IrqState} (h : IrqRun d c ok s) (i : ℕ) (st : Status) (hi : i < d.nb)
      (hbusy : s.channel i = some .busy) (hst : st ≠ .busy) (hok : ok s i st) :
      IrqRun d c ok (s.finish i st)

/-- What a run should do: the handler wakes up the owner of the run only, after the owner has
blocked itself; an owner is blocked only while a channel runs, the interrupt is asserted or the
handler is at work; and the result tells whether a channel of the run has reported an error. -/
structure Completes (d : Device) (c : Platform) (s : IrqState) : Prop where
  wakes : ∀ gtid, s.isr = .norun gtid → ∃ t, s.owner = some t ∧ (s.pc t).Armed ∧
    c.isrContext (gtid >>> 16) (gtid &&& 0xFFFF) = c.context t
  awake : ∀ t, c.Task t → s.Blocked c t → s.owner = some t ∧
    ((∃ i, i < d.nb ∧ s.channel i = some .busy) ∨ s.Irq d ∨ s.isr ≠ .out)
  result : ∀ t, s.pc t = .ret → (s.coprocError ≠ 0 ↔ s.reported = true)

/-- The condition on the end of a channel: it does not assert the interrupt before the owner of
the coprocessor has set its bit. -/
def Late (d : Device) (s : IrqState) (i : ℕ) (st : Status) : Prop :=
  (s.finish i st).Irq d → ∃ t, s.owner = some t ∧ (s.pc t).Armed

end GietVm.Coproc
