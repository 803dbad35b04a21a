import GietVm.Library.Owners
import GietVm.Library.Word

/-!
# Channels of the peripherals

The allocators of the TTY, TIM, NIC and CMA channels in `sys_handler.c`, and `_ctx_kill_task`
of `ctx_handler.c`, which releases the channels of a task. A TTY or CMA channel is marked in a
table; the TIM and NIC channels are counted. A channel is recorded in slots of the context of
the task that has obtained it, and a shared TTY channel in those of the tasks of its vspace.

Each call is atomic. The platform has no external PIC (`USE_PIC` is 0), so no mailbox is
allocated with a TTY channel. The contents of the buffers and the registers of the
peripherals are left out: whether the kernel heap has containers for all clusters is a
parameter of `_sys_nic_alloc`.
-/

namespace GietVm.Kernel

open GietVm.Library

/-- The slots of a task context that record channels. -/
inductive Slot
  | tty
  | cmaFb
  | cmaRx
  | cmaTx
  | nicRx
  | nicTx
  | tim
  deriving DecidableEq, Repr

/-- The kinds of channels. -/
inductive Kind
  | tty
  | cma
  | nicRx
  | nicTx
  | tim
  deriving DecidableEq, Repr

/-- The kind of the channel that a slot records. -/
def Slot.kind : Slot → Kind
  | .tty => .tty
  | .cmaFb | .cmaRx | .cmaTx => .cma
  | .nicRx => .nicRx
  | .nicTx => .nicTx
  | .tim => .tim

/-- The parameters of the platform, and the vspace of each task. -/
structure Config (T : Type) where
  nbTty : ℕ
  nbTim : ℕ
  nbNic : ℕ
  nbCma : ℕ
  xSize : ℕ
  ySize : ℕ
  vspace : T → ℕ
  nbTty_lt : nbTty < 0xFFFFFFFF
  nbTim_lt : nbTim < 0xFFFFFFFF
  nbNic_lt : nbNic < 0xFFFFFFFF
  nbCma_lt : nbCma < 0xFFFFFFFF

/-- The number of channels of a kind. -/
def Config.channels {T : Type} (c : Config T) : Kind → ℕ
  | .tty => c.nbTty
  | .cma => c.nbCma
  | .nicRx | .nicTx => c.nbNic
  | .tim => c.nbTim

/-- The value -1 of a slot that records no channel. -/
def noChannel : ℕ := 0xFFFFFFFF

theorem one_lt_noChannel : 1 < 0xFFFFFFFF := by decide

theorem three_lt_noChannel : 3 < 0xFFFFFFFF := by decide

/-- The tables and counters of the allocators, and the tasks: their contexts, and whether
they are not killed. -/
structure State (T : Type) where
  ttyChannel : ℕ → Bool
  timAllocator : ℕ
  cmaChannel : ℕ → Bool
  nicRxAllocator : ℕ
  nicTxAllocator : ℕ
  context : T → Slot → ℕ
  live : T → Bool

variable {T : Type} [DecidableEq T]

/-- `_set_context_slot` for a task. -/
def State.setSlot (s : State T) (t : T) (k : Slot) (value : ℕ) : State T :=
  { s with context := Function.update s.context t (Function.update (s.context t) k value) }

section Handlers

variable (c : Config T) (t : T)

/-- The test of the scan over the tasks of a vspace in `_sys_tty_alloc`. -/
def TakesTty (s : State T) (u : T) : Prop :=
  c.vspace u = c.vspace t ∧ ¬s.context u .tty < c.nbTty

/-- The test of the scan over the tasks of a vspace in `_sys_tty_release`. -/
def LosesTty (s : State T) (u : T) : Prop :=
  c.vspace u = c.vspace t ∧ s.context u .tty = s.context t .tty

instance (s : State T) (u : T) : Decidable (TakesTty c t s u) :=
  inferInstanceAs (Decidable (_ ∧ _))

instance (s : State T) (u : T) : Decidable (LosesTty c t s u) :=
  inferInstanceAs (Decidable (_ ∧ _))

/-- `_sys_tty_alloc`. -/
def sysTtyAlloc (shared : Bool) (s : State T) : State T × ℤ :=
  if s.context t .tty < c.nbTty then (s, 0)
  else
    let channel := firstFree s.ttyChannel c.nbTty 0
    if channel < c.nbTty then
      let s := { s with ttyChannel := Function.update s.ttyChannel channel true }
      if shared then
        ({ s with context := fun u =>
            if TakesTty c t s u then Function.update (s.context u) .tty channel
            else s.context u }, 0)
      else (s.setSlot t .tty channel, 0)
    else (s, -1)

/-- `_sys_tty_release`. -/
def sysTtyRelease (s : State T) : State T × ℤ :=
  let channel := s.context t .tty
  if channel = noChannel then (s, -1)
  else
    ({ s with
      context := fun u =>
        if LosesTty c t s u then Function.update (s.context u) .tty noChannel else s.context u
      ttyChannel := Function.update s.ttyChannel channel false }, 0)

/-- `_sys_tim_alloc`. -/
def sysTimAlloc (s : State T) : State T × ℤ :=
  let channel := s.timAllocator
  let s := { s with timAllocator := add32 s.timAllocator 1 }
  if channel ≥ c.nbTim then (s, -1) else (s.setSlot t .tim channel, 0)

/-- `_sys_tim_release`. -/
def sysTimRelease (s : State T) : State T × ℤ :=
  ({ s with timAllocator := add32 s.timAllocator 0xFFFFFFFF }, 0)

/-- The counter of a direction of the NIC. -/
def State.nicAllocator (s : State T) (isRx : Bool) : ℕ :=
  if isRx then s.nicRxAllocator else s.nicTxAllocator

/-- `_atomic_increment` of the counter of a direction of the NIC. -/
def State.addNic (s : State T) (isRx : Bool) (increment : ℕ) : State T :=
  if isRx then { s with nicRxAllocator := add32 s.nicRxAllocator increment }
  else { s with nicTxAllocator := add32 s.nicTxAllocator increment }

/-- The slots that a direction of the NIC uses. -/
def nicSlot (isRx : Bool) : Slot := if isRx then .nicRx else .nicTx

/-- The slots that a direction of the NIC uses for its CMA channel. -/
def nicCmaSlot (isRx : Bool) : Slot := if isRx then .cmaRx else .cmaTx

/-- `_sys_nic_alloc`. The last parameter is false when the kernel heap lacks memory for a
container or a status, or one is not aligned. -/
def sysNicAlloc (isRx : Bool) (xmax ymax : ℕ) (filled : Bool) (s : State T) : State T × ℤ :=
  if xmax > c.xSize then (s, -1)
  else if ymax > c.ySize then (s, -1)
  else
    let nicChannel := s.nicAllocator isRx
    let s := s.addNic isRx 1
    if nicChannel ≥ c.nbNic then (s, -1)
    else
      let cmaChannel := firstFree s.cmaChannel c.nbCma 0
      if cmaChannel < c.nbCma then
        let s := { s with cmaChannel := Function.update s.cmaChannel cmaChannel true }
        let s := (s.setSlot t (nicSlot isRx) nicChannel).setSlot t (nicCmaSlot isRx) cmaChannel
        if filled then (s, nicChannel) else (s, -1)
      else (s, -1)

/-- `_sys_nic_release`. -/
def sysNicRelease (isRx : Bool) (s : State T) : State T × ℤ := (s.addNic isRx 0xFFFFFFFF, 0)

/-- `_sys_fbf_cma_alloc`. -/
def sysFbfCmaAlloc (s : State T) : State T × ℤ :=
  if s.context t .cmaFb < c.nbCma then (s, 0)
  else
    let channel := firstFree s.cmaChannel c.nbCma 0
    if channel < c.nbCma then
      (({ s with cmaChannel := Function.update s.cmaChannel channel true }).setSlot t .cmaFb
        channel, 0)
    else (s, -1)

/-- `_sys_fbf_cma_release`. -/
def sysFbfCmaRelease (s : State T) : State T × ℤ :=
  let channel := s.context t .cmaFb
  if channel ≥ c.nbCma then (s, -1)
  else
    let s := s.setSlot t .cmaFb noChannel
    ({ s with cmaChannel := Function.update s.cmaChannel channel false }, 0)

/-- One of the releases of `_ctx_kill_task`: of the channel that a slot of the task records. -/
def releaseSlot (k : Slot) (release : State T → State T × ℤ) (s : State T) : State T :=
  if s.context t k < c.channels k.kind then (release s).1.setSlot t k noChannel else s

/-- `_ctx_kill_task`. -/
def ctxKillTask (s : State T) : State T :=
  let s := releaseSlot c t .tty (sysTtyRelease c t) s
  let s := releaseSlot c t .tim sysTimRelease s
  let s := releaseSlot c t .nicRx (sysNicRelease true) s
  let s := releaseSlot c t .nicTx (sysNicRelease false) s
  let s := releaseSlot c t .cmaFb (sysFbfCmaRelease c t) s
  { s with live := Function.update s.live t false }

/-- `_ctx_exec_task`: the task starts again. -/
def ctxExecTask (s : State T) : State T := { s with live := Function.update s.live t true }

end Handlers

/-- The calls of the tasks, and the signals that kill and start them. -/
inductive Action (T : Type)
  | ttyAlloc (t : T) (shared : Bool)
  | timAlloc (t : T)
  | nicAlloc (t : T) (isRx : Bool) (xmax ymax : ℕ) (filled : Bool)
  | fbfCmaAlloc (t : T)
  | kill (t : T)
  | exec (t : T)

/-- Calls are made by live tasks, and an empty mesh needs no memory. -/
def Enabled (s : State T) : Action T → Prop
  | .ttyAlloc t _ | .timAlloc t | .fbfCmaAlloc t => s.live t = true
  | .nicAlloc t _ xmax ymax filled => s.live t = true ∧ (xmax = 0 ∨ ymax = 0 → filled = true)
  | .kill _ | .exec _ => True

/-- The state after an action. -/
def act (c : Config T) : Action T → State T → State T
  | .ttyAlloc t shared, s => (sysTtyAlloc c t shared s).1
  | .timAlloc t, s => (sysTimAlloc c t s).1
  | .nicAlloc t isRx xmax ymax filled, s => (sysNicAlloc c t isRx xmax ymax filled s).1
  | .fbfCmaAlloc t, s => (sysFbfCmaAlloc c t s).1
  | .kill t, s => ctxKillTask c t s
  | .exec t, s => ctxExecTask t s

/-- The state of the allocators as they are initialised: TTY channel 0 is reserved for the
kernel. -/
structure Unused (c : Config T) (s : State T) : Prop where
  tty : ∀ channel, channel < c.nbTty → (s.ttyChannel channel = true ↔ channel = 0)
  tim : s.timAllocator = 0
  cma : ∀ channel, channel < c.nbCma → s.cmaChannel channel = false
  nicRx : s.nicRxAllocator = 0
  nicTx : s.nicTxAllocator = 0

/-- The states after the boot: no context records a channel. -/
structure Initial (c : Config T) (s : State T) : Prop where
  unused : Unused c s
  context : ∀ t k, s.context t k = noChannel

/-- The states reached by runs all of whose actions meet a condition on the state before the
action. -/
inductive Run (c : Config T) (ok : State T → Action T → Prop) : State T → Prop
  | init {s : State T} (h : Initial c s) : Run c ok s
  | step {s : State T} (h : Run c ok s) (action : Action T) (hok : ok s action)
      (henabled : Enabled s action) : Run c ok (act c action s)

end GietVm.Kernel
