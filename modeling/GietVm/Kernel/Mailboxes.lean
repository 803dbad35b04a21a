import GietVm.Kernel.Channels
import GietVm.Library.Bits

/-!
# Mailboxes of the external interrupts

When the platform has an external PIC (`USE_PIC` is 1), `_sys_tty_alloc` routes the interrupt of
the terminal to the processor of the caller: `_ext_irq_alloc` takes one of the three WTI mailboxes
of this processor, writes its address in the PIC, and registers the interrupt in the vector of the
scheduler. `_sys_tty_release` calls `_ext_irq_release` on the processor of the killed task: it looks
for the interrupt in the vector of this processor, masks the PIC input and frees the mailbox found.

Each call is atomic. A call that ends in `_exit`, or that waits forever for a mailbox, has no
result.
-/

namespace GietVm.Kernel

open GietVm.Library

/-- A processor: the coordinates of its cluster, and its local index. -/
structure Proc (nbProcsMax : ℕ) where
  x : ℕ
  y : ℕ
  p : ℕ
  lt : p < nbProcsMax
  deriving DecidableEq

/-- An interrupt: the type of its ISR and the channel of the peripheral. -/
structure Irq where
  isrType : ℕ
  isrChannel : ℕ
  deriving DecidableEq

/-- `ISR_TTY_RX`. -/
def isrTtyRx : ℕ := 2

/-- `ISR_WAKUP`. -/
def isrWakup : ℕ := 6

/-- `GIET_ISR_TYPE_MAX`. -/
def isrTypeMax : ℕ := 32

/-- `GIET_ISR_CHANNEL_MAX`. -/
def isrChannelMax : ℕ := 8

/-- The interrupt of a terminal. -/
def ttyIrq (channel : ℕ) : Irq := ⟨isrTtyRx, channel⟩

/-- The entry of an interrupt vector: `isr_channel<<16 | isr_type`. -/
def Irq.entry (irq : Irq) : ℕ := irq.isrChannel * 2 ^ 16 ||| irq.isrType

/-- The registers of a PIC input: the mailbox to which it is routed, the cluster of this mailbox,
and whether the input is active. -/
structure PicInput where
  address : ℕ
  extend : ℕ × ℕ
  mask : Bool
  deriving DecidableEq

/-- The parameters of a platform with a PIC: the mapping gives each terminal, and the IOC
controller, a PIC input of its own, and the XCU of a cluster has four mailboxes for each of at most
eight processors. -/
structure Platform (T : Type) extends Config T where
  nbProcsMax : ℕ
  nbProcsMax_le : nbProcsMax ≤ 8
  /-- The processor of each task. -/
  place : T → Proc nbProcsMax
  /-- The processor that initialises the kernel. -/
  boot : Proc nbProcsMax
  /-- The interrupt of the IOC controller. -/
  ioc : Option Irq
  /-- `_ext_irq_index`: the PIC input of an interrupt. -/
  extIrqIndex : Irq → ℕ
  ioc_type : ∀ irq ∈ ioc, irq.isrType < 2 ^ 16 ∧ irq.isrType ≠ isrTtyRx
  ioc_index : ∀ irq ∈ ioc, ∀ channel < nbTty, extIrqIndex irq ≠ extIrqIndex (ttyIrq channel)
  tty_index : ∀ channel < nbTty, ∀ channel' < nbTty,
    extIrqIndex (ttyIrq channel) = extIrqIndex (ttyIrq channel') → channel = channel'

/-- The kernel with its mailboxes. -/
structure Board {T : Type} (c : Platform T) where
  /-- The channels and the task contexts. -/
  kernel : State T
  /-- `_wti_alloc_one`, `_wti_alloc_two` and `_wti_alloc_ter`. -/
  wtiAlloc : Proc c.nbProcsMax → ℕ → Bool
  /-- `wti_vector` of the scheduler of each processor. -/
  wtiVector : Proc c.nbProcsMax → ℕ → ℕ
  /-- The inputs of the PIC. -/
  pic : ℕ → PicInput

/-- The index in the XCU of a mailbox of a processor. -/
def Proc.wtiId {nbProcsMax : ℕ} (proc : Proc nbProcsMax) (k : ℕ) : ℕ :=
  proc.p + (k + 1) * nbProcsMax

/-- The cluster of a processor. -/
def Proc.cluster {nbProcsMax : ℕ} (proc : Proc nbProcsMax) : ℕ × ℕ := (proc.x, proc.y)

section Handlers

variable {T : Type} {c : Platform T}

/-- `_pic_init`. -/
def Board.picInit (b : Board c) (irqId address : ℕ) (extend : ℕ × ℕ) : Board c :=
  { b with pic := Function.update b.pic irqId ⟨address, extend, true⟩ }

/-- `_pic_set_register` of `IOPIC_MASK` with 0. -/
def Board.picMask (b : Board c) (irqId : ℕ) : Board c :=
  { b with pic := Function.update b.pic irqId { b.pic irqId with mask := false } }

/-- Mark a mailbox of a processor. -/
def Board.setWti (b : Board c) (proc : Proc c.nbProcsMax) (k : ℕ) (v : Bool) : Board c :=
  { b with wtiAlloc :=
      Function.update b.wtiAlloc proc (Function.update (b.wtiAlloc proc) k v) }

/-- Register an interrupt in the vector of a processor. -/
def Board.setVector (b : Board c) (proc : Proc c.nbProcsMax) (wtiId entry : ℕ) : Board c :=
  { b with wtiVector :=
      Function.update b.wtiVector proc (Function.update (b.wtiVector proc) wtiId entry) }

/-- `_ext_irq_alloc` on a processor. It takes the first free mailbox of three. -/
def extIrqAlloc (proc : Proc c.nbProcsMax) (irq : Irq) (b : Board c) : Option (Board c) :=
  if irq.isrType ≥ isrTypeMax then none
  else if irq.isrChannel ≥ isrChannelMax then none
  else
    let k := firstFree (b.wtiAlloc proc) 3 0
    if k < 3 then
      let wtiId := proc.wtiId k
      some (((b.setWti proc k true).picInit (c.extIrqIndex irq) wtiId proc.cluster).setVector proc
        wtiId irq.entry)
    else none

/-- `_ext_irq_release` on a processor. Without the interrupt in the vector, nothing is done. -/
def extIrqRelease (proc : Proc c.nbProcsMax) (irq : Irq) (b : Board c) : Option (Board c) :=
  if irq.isrType ≥ isrTypeMax then none
  else if irq.isrChannel ≥ isrChannelMax then none
  else
    let wtiId := firstFree (fun id => decide (b.wtiVector proc id ≠ irq.entry)) 32 0
    if wtiId = 32 then some b
    else
      let b := b.picMask (c.extIrqIndex irq)
      if wtiId = proc.p + c.nbProcsMax then some (b.setWti proc 0 false)
      else if wtiId = proc.p + 2 * c.nbProcsMax then some (b.setWti proc 1 false)
      else if wtiId = proc.p + 3 * c.nbProcsMax then some (b.setWti proc 2 false)
      else none

variable [DecidableEq T]

/-- `_sys_tty_alloc` with a PIC, by a task on its processor. -/
def ttyAlloc (t : T) (shared : Bool) (b : Board c) : Option (Board c) :=
  if b.kernel.context t .tty < c.nbTty then some b
  else
    let channel := firstFree b.kernel.ttyChannel c.nbTty 0
    if channel < c.nbTty then
      (extIrqAlloc (c.place t) (ttyIrq channel) b).map fun b =>
        { b with kernel := (sysTtyAlloc c.toConfig t shared b.kernel).1 }
    else some b

/-- `_sys_tty_release` with a PIC, for a killed task on its processor. -/
def ttyRelease (t : T) (b : Board c) : Option (Board c) :=
  let channel := b.kernel.context t .tty
  if channel = noChannel then some b
  else
    (extIrqRelease (c.place t) (ttyIrq channel) b).map fun b =>
      { b with kernel := (sysTtyRelease c.toConfig t b.kernel).1 }

end Handlers

/-! ## Runs -/

/-- The mailboxes before the kernel is initialised: only the mailbox that wakes a processor is in
its vector. -/
structure Board.Blank {T : Type} {c : Platform T} (b : Board c) : Prop where
  kernel : Initial c.toConfig b.kernel
  wtiAlloc : ∀ proc k, b.wtiAlloc proc k = false
  wtiVector : ∀ proc id, b.wtiVector proc id = if id = proc.p then isrWakup else 0
  pic : ∀ i, (b.pic i).mask = false

/-- The state after the kernel is initialised: the interrupt of the IOC controller, if there is
one, is routed to the boot processor. -/
inductive Booted {T : Type} {c : Platform T} : Board c → Prop
  | alone {b : Board c} (hblank : b.Blank) (hioc : c.ioc = none) : Booted b
  | ioc {b b' : Board c} (hblank : b.Blank) {irq : Irq} (hioc : c.ioc = some irq)
      (halloc : extIrqAlloc c.boot irq b = some b') : Booted b'

/-- The calls: `_sys_tty_alloc` by a task, and `_sys_tty_release` for a killed task that has a
terminal. -/
inductive Call (T : Type)
  | alloc (t : T) (shared : Bool)
  | release (t : T)

/-- The result of a call. -/
def Call.result {T : Type} [DecidableEq T] {c : Platform T} (b : Board c) :
    Call T → Option (Board c)
  | .alloc t shared => ttyAlloc t shared b
  | .release t => if b.kernel.context t .tty < c.nbTty then ttyRelease t b else some b

/-- The states reached by sequences of calls each of which meets a condition on the state before
it. -/
inductive Calls {T : Type} [DecidableEq T] {c : Platform T} (ok : Board c → Call T → Prop) :
    Board c → Prop
  | init {b : Board c} (h : Booted b) : Calls ok b
  | call {b b' : Board c} (h : Calls ok b) (call : Call T) (hok : ok b call)
      (hresult : call.result b = some b') : Calls ok b'

end GietVm.Kernel
