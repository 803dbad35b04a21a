import GietVm.Library.Word
import Mathlib.Logic.Function.Basic

/-!
# Processors, their schedulers and the NORUN words

Each processor runs one of its tasks, or its idle task. A task that waits for a device sets
a bit of the word `CTX_NORUN_ID` of its context and calls `_ctx_switch`, which selects the
next task of the processor whose word is zero. A tick or a wake-up interrupt also makes the
processor switch, unless the running task has masked the interrupts. Interrupt handlers on
any processor and tasks of other processors change the words at the same time, so the loop
of `_ctx_switch` reads the words one at a time.

The tasks considered receive no KILL and no EXEC signal.
-/

namespace GietVm.Drivers

open GietVm.Library

/-- `IDLE_TASK_INDEX`: the context of the idle task, after those of the tasks. -/
def idleTaskIndex : ℕ := 13

/-- `NORUN_MASK_IOC`: the task is blocked on a transfer of the disk controller. -/
def norunMaskIoc : BitVec 32 := 0x2

/-- What the hardware and the mapping fix: the widths of the fields of a processor
identifier, the number of identifiers, and the number of tasks of each processor. -/
structure Platform where
  yWidth : ℕ
  pWidth : ℕ
  procs : ℕ
  tasks : ℕ → ℕ
  procs_le : procs ≤ 0x10000
  tasks_le : ∀ procid, tasks procid ≤ idleTaskIndex

/-- A task: its processor and its index in the scheduler of this processor. -/
structure TaskId where
  procid : ℕ
  ltid : ℕ
  deriving DecidableEq, Repr

/-- The address of a task context: `_schedulers[x][y][p]->context[ltid]`. -/
structure Context where
  x : ℕ
  y : ℕ
  p : ℕ
  ltid : ℕ
  deriving DecidableEq, Repr

namespace Platform

variable (c : Platform)

/-- The tasks of the platform. -/
def Task (t : TaskId) : Prop := t.procid < c.procs ∧ t.ltid < c.tasks t.procid

/-- The context of a task, as the task computes it from its processor identifier. -/
def context (t : TaskId) : Context where
  x := t.procid >>> (c.yWidth + c.pWidth)
  y := (t.procid >>> c.pWidth) &&& ((1 <<< c.yWidth) - 1)
  p := t.procid &&& ((1 <<< c.pWidth) - 1)
  ltid := t.ltid

/-- The context of a task, as an interrupt handler computes it through the cluster. -/
def isrContext (procid ltid : ℕ) : Context where
  x := procid >>> c.pWidth >>> c.yWidth
  y := (procid >>> c.pWidth) &&& ((1 <<< c.yWidth) - 1)
  p := procid &&& ((1 <<< c.pWidth) - 1)
  ltid := ltid

/-- Both computations agree. -/
theorem isrContext_eq (t : TaskId) : c.isrContext t.procid t.ltid = c.context t := by
  rw [isrContext, context, ← Nat.shiftRight_add, Nat.add_comm]

/-- Different tasks have different contexts. -/
theorem context_inj {t u : TaskId} (h : c.context t = c.context u) : t = u := by
  obtain ⟨hx, hy, hp, hl⟩ := Context.mk.injEq .. ▸ h
  have hmask (a n : ℕ) : a &&& ((1 <<< n) - 1) = a % 2 ^ n := by
    rw [Nat.one_shiftLeft, Nat.and_two_pow_sub_one_eq_mod]
  simp only [hmask, Nat.shiftRight_eq_div_pow, Nat.add_comm c.yWidth, pow_add] at hx hy hp
  rw [← Nat.div_div_eq_div_mul, ← Nat.div_div_eq_div_mul] at hx
  have hcluster : t.procid / 2 ^ c.pWidth = u.procid / 2 ^ c.pWidth := by
    rw [← Nat.div_add_mod (t.procid / 2 ^ c.pWidth) (2 ^ c.yWidth), hx, hy, Nat.div_add_mod]
  have hproc : t.procid = u.procid := by
    rw [← Nat.div_add_mod t.procid (2 ^ c.pWidth), hcluster, hp, Nat.div_add_mod]
  obtain ⟨tp, tl⟩ := t
  obtain ⟨up, ul⟩ := u
  exact TaskId.mk.injEq .. ▸ ⟨hproc, hl⟩

end Platform

/-- The global index `(procid<<16) + ltid` by which a handler finds a waiting task. -/
def gtidOf (t : TaskId) : ℕ := add32 (shl32 t.procid 16) t.ltid

/-- A handler finds the two parts of a global index. -/
theorem gtidOf_parts {c : Platform} {t : TaskId} (ht : c.Task t) :
    gtidOf t >>> 16 = t.procid ∧ gtidOf t &&& 0xFFFF = t.ltid := by
  have hproc := lt_of_lt_of_le ht.1 c.procs_le
  have hltid := lt_of_lt_of_le ht.2 (c.tasks_le t.procid)
  rw [idleTaskIndex] at hltid
  have hshift : shl32 t.procid 16 = t.procid * 0x10000 := shl32_eq (by omega)
  rw [gtidOf, hshift, add32_eq (by omega), Nat.shiftRight_eq_div_pow,
    show 0xFFFF = 2 ^ 16 - 1 from rfl, Nat.and_two_pow_sub_one_eq_mod]
  omega

/-! ## The schedulers -/

/-- The NORUN words, the task that each processor runs, and the loop variable of a
`_ctx_switch` in progress on it. -/
structure Sched where
  norun : Context → BitVec 32
  current : ℕ → ℕ
  scan : ℕ → Option ℕ

namespace Sched

/-- The processor of the task executes it. -/
def Running (s : Sched) (t : TaskId) : Prop :=
  s.current t.procid = t.ltid ∧ s.scan t.procid = none

/-- The task waits for a transfer of the disk controller. -/
def Blocked (c : Platform) (s : Sched) (t : TaskId) : Prop :=
  s.norun (c.context t) &&& norunMaskIoc ≠ 0

/-- The call of `_ctx_switch`: the loop starts after the current task. -/
def enterSwitch (s : Sched) (procid : ℕ) : Sched :=
  { s with scan := Function.update s.scan procid (some (s.current procid + 1)) }

/-- One turn of the loop of `_ctx_switch`: select a task that is runnable, go on with the
next one, or select the idle task when none is. -/
def scanTask (c : Platform) (s : Sched) (procid tid : ℕ) : Sched :=
  if tid < s.current procid + 1 + c.tasks procid then
    let nextTaskId := tid % c.tasks procid
    if s.norun (c.context ⟨procid, nextTaskId⟩) = 0 then
      { s with
        current := Function.update s.current procid nextTaskId
        scan := Function.update s.scan procid none }
    else { s with scan := Function.update s.scan procid (some (tid + 1)) }
  else
    { s with
      current := Function.update s.current procid idleTaskIndex
      scan := Function.update s.scan procid none }

/-- `_atomic_or` of `NORUN_MASK_IOC` into the word of a context. -/
def block (s : Sched) (ctx : Context) : Sched :=
  { s with norun := Function.update s.norun ctx (s.norun ctx ||| norunMaskIoc) }

/-- `_atomic_and` of `~NORUN_MASK_IOC` into the word of a context. -/
def unblock (s : Sched) (ctx : Context) : Sched :=
  { s with norun := Function.update s.norun ctx (s.norun ctx &&& ~~~norunMaskIoc) }

end Sched

/-- The steps of the schedulers: a tick or a wake-up interrupt on a processor whose running
task does not mask the interrupts, a turn of a loop, and a change of the other bits of a
NORUN word by other parts of the kernel. -/
inductive SchedStep (c : Platform) (masked : TaskId → Prop) (s : Sched) : Sched → Prop
  | tick (procid : ℕ) (hscan : s.scan procid = none)
      (hmask : ¬masked ⟨procid, s.current procid⟩) : SchedStep c masked s (s.enterSwitch procid)
  | scan (procid tid : ℕ) (hscan : s.scan procid = some tid) :
      SchedStep c masked s (s.scanTask c procid tid)
  | other (ctx : Context) (w : BitVec 32) (hioc : w &&& norunMaskIoc = s.norun ctx &&& norunMaskIoc) :
      SchedStep c masked s { s with norun := Function.update s.norun ctx w }

section Lemmas

variable {c : Platform} {masked : TaskId → Prop} {s s' : Sched} {t u : TaskId}

theorem block_blocked : (s.block (c.context t)).Blocked c t := by
  rw [Sched.Blocked, Sched.block]
  simp only [Function.update_self, BitVec.and_comm, BitVec.and_or_distrib_left]
  intro h
  have hbit := congrArg (BitVec.getLsbD · 1) h
  simp [norunMaskIoc] at hbit

theorem block_blocked_of_ne (h : u ≠ t) :
    (s.block (c.context t)).Blocked c u ↔ s.Blocked c u := by
  have hne : c.context u ≠ c.context t := fun heq => h (c.context_inj heq)
  rw [Sched.Blocked, Sched.Blocked, Sched.block]
  simp only [Function.update_of_ne hne]

theorem unblock_not_blocked : ¬(s.unblock (c.context t)).Blocked c t := by
  rw [Sched.Blocked, Sched.unblock]
  simp only [Function.update_self, BitVec.and_assoc, not_not]
  rw [show ~~~norunMaskIoc &&& norunMaskIoc = 0 by decide]
  exact BitVec.and_zero

theorem unblock_blocked_of_ne (h : u ≠ t) :
    (s.unblock (c.context t)).Blocked c u ↔ s.Blocked c u := by
  have hne : c.context u ≠ c.context t := fun heq => h (c.context_inj heq)
  rw [Sched.Blocked, Sched.Blocked, Sched.unblock]
  simp only [Function.update_of_ne hne]

/-- The schedulers change no `NORUN_MASK_IOC` bit. -/
theorem SchedStep.blocked (h : SchedStep c masked s s') : s'.Blocked c t ↔ s.Blocked c t := by
  cases h with
  | tick procid => rfl
  | scan procid tid =>
    rw [Sched.scanTask]
    split
    · simp only
      split <;> rfl
    · rfl
  | other ctx w hioc =>
    rw [Sched.Blocked, Sched.Blocked]
    by_cases heq : c.context t = ctx
    · subst heq
      simp only [Function.update_self, hioc]
    · simp only [Function.update_of_ne heq]

/-- A scheduler selects no blocked task. -/
theorem SchedStep.selected (h : SchedStep c masked s s') (ht : c.Task t) (hrun : s'.Running t) :
    s.Running t ∨ ¬s.Blocked c t := by
  by_cases hold : s.Running t
  · exact Or.inl hold
  refine Or.inr fun hblocked => ?_
  cases h with
  | tick procid hscan hmask =>
    obtain ⟨hcur, hnone⟩ := hrun
    by_cases hp : t.procid = procid
    · simp [Sched.enterSwitch, hp] at hnone
    · exact hold ⟨hcur, by simpa [Sched.enterSwitch, Function.update_of_ne hp] using hnone⟩
  | scan procid tid hscan =>
    by_cases hp : t.procid = procid
    · subst hp
      rw [Sched.scanTask] at hrun
      split at hrun
      · simp only at hrun
        split at hrun
        · rename_i hzero
          have hcur : tid % c.tasks t.procid = t.ltid := by simpa using hrun.1
          rw [hcur] at hzero
          refine hblocked ?_
          change s.norun (c.context ⟨t.procid, t.ltid⟩) &&& norunMaskIoc = 0
          rw [hzero]
          exact BitVec.zero_and
        · simp [Sched.Running] at hrun
      · have hcur : idleTaskIndex = t.ltid := by simpa using hrun.1
        have hlt := lt_of_lt_of_le ht.2 (c.tasks_le t.procid)
        omega
    · have hsame : (s.scanTask c procid tid).Running t ↔ s.Running t := by
        rw [Sched.scanTask, Sched.Running, Sched.Running]
        split
        · simp only
          split <;> simp [Function.update_of_ne hp]
        · simp [Function.update_of_ne hp]
      exact hold (hsame.mp hrun)
  | other ctx w hioc => exact hold hrun

/-- The task that calls `_ctx_switch` does not run until it is selected. -/
theorem enterSwitch_not_running : ¬(s.enterSwitch t.procid).Running t := by
  simp [Sched.Running, Sched.enterSwitch]

theorem Sched.Running.of_enterSwitch {procid : ℕ} (h : (s.enterSwitch procid).Running u) :
    s.Running u := by
  by_cases hp : u.procid = procid
  · subst hp
    exact absurd h enterSwitch_not_running
  · obtain ⟨hcur, hscan⟩ := h
    exact ⟨hcur, by simpa [Sched.enterSwitch, Function.update_of_ne hp] using hscan⟩

/-- The schedulers after a task has blocked itself, has been unblocked and is selected again. -/
def Sched.resched (c : Platform) (s : Sched) (t : TaskId) : Sched :=
  (((s.block (c.context t)).enterSwitch t.procid).unblock (c.context t)).scanTask c t.procid
    (t.ltid + 1)

/-- The only task of a processor is selected again. -/
theorem Sched.resched_lone (hone : c.tasks t.procid = 1) (ht : c.Task t) (hrun : s.Running t)
    (hnorun : s.norun (c.context t) = 0) :
    (s.resched c t).Running t ∧ (s.resched c t).norun (c.context t) = 0 := by
  obtain ⟨procid, ltid⟩ := t
  have hltid : ltid = 0 := by
    have hlt : ltid < c.tasks procid := ht.2
    have hone' : c.tasks procid = 1 := hone
    omega
  subst hltid
  have hcur : s.current procid = 0 := hrun.1
  have hword : (((s.block (c.context ⟨procid, 0⟩)).enterSwitch procid).unblock
      (c.context ⟨procid, 0⟩)).norun (c.context ⟨procid, 0⟩) = 0 := by
    simp only [Sched.block, Sched.enterSwitch, Sched.unblock, Function.update_self, hnorun]
    decide
  rw [Sched.resched, Sched.scanTask]
  simp only [show c.tasks procid = 1 from hone, Nat.mod_one, hword]
  rw [if_pos (by simp [Sched.block, Sched.enterSwitch, Sched.unblock, hcur])]
  exact ⟨⟨Function.update_self .., Function.update_self ..⟩, hword⟩

end Lemmas

end GietVm.Drivers
