import GietVm.Drivers.Sdc

/-!
# The SD card driver with the accesses kept apart

When a slot is reserved only while no other task owns one and the handler is not running, at most
one command is in progress. The task that owns the slot prepares its command while the device and
the handler are at rest, waits while the device executes it, then while the handler records its
status, and is woken. The invariant says in which of these stages the task at a given point can
be, with what the handler has done so far.
-/

namespace GietVm.Drivers.Sdc

open GietVm.Library
open Hba (Args Device Failed)

variable {c : Platform} {s s' : State} {t u : TaskId} {a : Args} {slot : ℕ}

/-! ## The stages of a command -/

/-- No command is in progress and no result is reported. -/
def State.Still (s : State) : Prop := s.device.pxis = 0 ∧ ∀ slot, s.device.pxci slot = false

/-- The handler is at rest, or has handled the last slot reserved. -/
def State.Tail (s : State) : Prop :=
  match s.isr with
  | .none => True
  | .sendWti current _ _ => current + 1 = s.cmdPtw
  | .loop current _ => current = s.cmdPtw
  | _ => False

/-- The slot is the next one that the handler looks at, and the last one reserved. -/
def State.Next (s : State) (slot : ℕ) : Prop := s.cmdPtr + 1 = s.cmdPtw ∧ slot = slotOf s.cmdPtr

/-- The command is being prepared. -/
structure Ready (c : Platform) (s : State) (t : TaskId) (a : Args) (slot : ℕ) : Prop where
  still : s.Still
  isr : s.isr = .none
  command : s.command t = .none
  next : a.useIrq ≠ 0 → s.Next slot

/-- The handler finds the task. -/
def State.Armed (s : State) (t : TaskId) (slot : ℕ) : Prop :=
  s.device.pxie = 1 ∧ s.gtid slot = gtidOf t

/-- The command is in progress. -/
structure Flying (s : State) (t : TaskId) (slot : ℕ) : Prop where
  pxci : s.device.pxci = Function.update (fun _ => false) slot true
  pxis : s.device.pxis = 0
  isr : s.isr = .none
  command : s.command t = .pending
  issuer : s.issuer slot = t

/-- The handler has not yet counted the command, whose result is reported. -/
def State.Uncounted (s : State) (slot : ℕ) (result : BitVec 32) : Prop :=
  s.device.pxis = result ∧ s.Next slot

/-- The handler has counted the command. -/
def State.Counted (s : State) (slot : ℕ) (current : BitVec 32) : Prop :=
  current + 1 = s.cmdPtw ∧ slot = slotOf current

/-- What the handler has done for a completed command whose task is not woken. -/
def State.Handling (s : State) (t : TaskId) (slot : ℕ) (result : BitVec 32) : Prop :=
  match s.isr with
  | .none | .readPxci => s.Uncounted slot result
  | .readPtr pxci => s.Uncounted slot result ∧ pxci slot = false
  | .loop current pxci | .incPtr current pxci =>
    s.Uncounted slot result ∧ pxci slot = false ∧ current = s.cmdPtr
  | .readPxis current _ => s.Counted slot current ∧ s.device.pxis = result
  | .setStatus current _ pxis => s.Counted slot current ∧ pxis = result
  | .resetPxis current _ => s.Counted slot current ∧ s.status slot = result
  | .readProcid current _ => s.Counted slot current ∧ s.status slot = result ∧ s.device.pxis = 0
  | .readLtid current _ procid =>
    s.Counted slot current ∧ s.status slot = result ∧ s.device.pxis = 0 ∧ procid = t.procid
  | .clearNorun current _ procid ltid =>
    s.Counted slot current ∧ s.status slot = result ∧ s.device.pxis = 0 ∧ procid = t.procid ∧
      ltid = t.ltid
  | .sendWti _ _ _ => False

/-- The command is completed and the task has been woken. -/
structure Woken (c : Platform) (s : State) (t : TaskId) (slot : ℕ) : Prop where
  command : s.command t = .done (s.status slot)
  still : s.Still
  tail : s.Tail
  free : ¬s.sched.Blocked c t

/-- The task waits for its command in descheduling mode. -/
def Waits (c : Platform) (s : State) (t : TaskId) (slot : ℕ) : Prop :=
  (s.Armed t slot ∧ s.sched.Blocked c t ∧
    ((Flying s t slot ∧ s.Next slot) ∨
      ∃ result, result ≠ 0 ∧ s.command t = .done result ∧ (∀ n, s.device.pxci n = false) ∧
        s.Handling t slot result)) ∨
  Woken c s t slot

/-- The command is completed in polling mode. -/
structure Polled (s : State) (t : TaskId) (result : BitVec 32) : Prop where
  command : s.command t = .done result
  pxci : ∀ n, s.device.pxci n = false
  isr : s.isr = .none
  pxie : s.device.pxie = 0

/-- The task polls its command. -/
def Polls (s : State) (t : TaskId) (slot : ℕ) : Prop :=
  Flying s t slot ∨ ∃ result, Polled s t result ∧ s.device.pxis = result

/-- The stage of the command at each point of a task that owns a slot. -/
def PhaseOk (c : Platform) (s : State) (t : TaskId) (a : Args) (slot : ℕ) : Phase → Prop
  | .pollSlot iter => Ready c s t a slot ∧ ¬s.sched.Blocked c t ∧ iter = pollingTimeout
  | .command => Ready c s t a slot ∧ ¬s.sched.Blocked c t
  | .irqEnable => Ready c s t a slot ∧ ¬s.sched.Blocked c t ∧ a.useIrq ≠ 0
  | .setGtid => Ready c s t a slot ∧ ¬s.sched.Blocked c t ∧ a.useIrq ≠ 0 ∧ s.device.pxie = 1
  | .itDisable | .setNorun =>
    Ready c s t a slot ∧ ¬s.sched.Blocked c t ∧ a.useIrq ≠ 0 ∧ s.Armed t slot
  | .launch => Ready c s t a slot ∧ s.sched.Blocked c t ∧ a.useIrq ≠ 0 ∧ s.Armed t slot
  | .switch => Waits c s t slot ∧ a.useIrq ≠ 0
  | .switched =>
    Waits c s t slot ∧ a.useIrq ≠ 0 ∧ (s.sched.Blocked c t → ¬s.sched.Running t)
  | .itRestore | .getStatus => Woken c s t slot ∧ a.useIrq ≠ 0
  | .pollLaunch => Ready c s t a slot ∧ ¬s.sched.Blocked c t ∧ a.useIrq = 0
  | .irqDisable => Polls s t slot ∧ ¬s.sched.Blocked c t ∧ a.useIrq = 0
  | .poll _ => Polls s t slot ∧ ¬s.sched.Blocked c t ∧ a.useIrq = 0 ∧ s.device.pxie = 0
  | .readPxis =>
    (∃ result, Polled s t result ∧ s.device.pxis = result) ∧ ¬s.sched.Blocked c t ∧ a.useIrq = 0
  | .resetPxis pxis => Polled s t pxis ∧ ¬s.sched.Blocked c t ∧ a.useIrq = 0

/-! ## The invariant -/

/-- No task owns a slot. -/
structure Free (s : State) : Prop where
  none : ∀ u, ¬(s.pc u).Owns
  still : s.Still
  tail : s.Tail

/-- A task owns the only slot in use. -/
structure Held (c : Platform) (s : State) (t : TaskId) (a : Args) (slot : ℕ) (k : Phase) : Prop where
  task : c.Task t
  pc : s.pc t = .own a slot k
  others : ∀ u, u ≠ t → ¬(s.pc u).Owns
  phase : PhaseOk c s t a slot k

/-- What holds of the tasks that own no slot. -/
def OutOk (s : State) (t : TaskId) : Pc → Prop
  | .entered _ | .reserve _ => s.command t = .none
  | .returned _ v =>
    (s.command t = .none ∧ v = 1) ∨ ∃ result, s.command t = .done result ∧ v = statusOf result
  | .out | .own _ _ _ => True

/-- The invariant of the runs that keep the accesses apart. -/
structure Inv (c : Platform) (s : State) : Prop where
  out : ∀ t, OutOk s t (s.pc t)
  blocked : ∀ t, c.Task t → s.sched.Blocked c t → (s.pc t).Owns
  stage : Free s ∨ ∃ t a slot k, Held c s t a slot k

theorem Initial.inv (h : Initial c s) : Inv c s where
  out := fun t => by
    rw [h.pc t]
    trivial
  blocked := fun t ht hblocked => absurd hblocked (h.blocked t ht)
  stage := Or.inl
    { none := fun u => by
        rw [h.pc u]
        exact id
      still := ⟨h.pxis, h.pxci⟩
      tail := by
        rw [State.Tail, h.isr]
        trivial }

end GietVm.Drivers.Sdc
