import GietVm.Library.RoundRobin
import GietVm.Drivers.Sched

/-!
# Context switches and signals

`_ctx_switch` of `ctx_handler.c`, with the handling of the KILL and EXEC signals in its loop,
and `_task_switch` of `switch.s`, which saves the registers of the running task in its context
and loads those of the next one. Another processor posts a signal by setting a bit of the word
`CTX_SIG_ID`, and the loop handles the signals of the tasks that it reaches.

A context is an array of words, and a register is named by the slot in which it is saved. The
tables and counters of the channels that `_ctx_kill_task` releases are those of `Channels`;
only the effect of the releases on the contexts of this scheduler appears here. Each call of
`_ctx_switch` is atomic.
-/

namespace GietVm.Kernel

open GietVm.Library
open GietVm.Drivers (idleTaskIndex norunMaskIoc)

/-! ## Slots and masks -/

def ctxSpId : ℕ := 29
def ctxRaId : ℕ := 31
def ctxEpcId : ℕ := 32
def ctxSrId : ℕ := 34
def ctxVsidId : ℕ := 38
def ctxTtyId : ℕ := 40
def ctxCmaFbId : ℕ := 41
def ctxNicRxId : ℕ := 44
def ctxNicTxId : ℕ := 45
def ctxTimId : ℕ := 46
def ctxGtidId : ℕ := 49
def ctxNorunId : ℕ := 50
def ctxEntryId : ℕ := 52
def ctxSigId : ℕ := 53

/-- `NORUN_MASK_TASK`: the task is not active. -/
def norunMaskTask : BitVec 32 := 0x1

/-- `NORUN_MASK_COPROC`: the task is blocked on a run of a coprocessor. -/
def norunMaskCoproc : BitVec 32 := 0x4

def sigMaskKill : BitVec 32 := 0x1
def sigMaskExec : BitVec 32 := 0x2

/-- `GIET_SR_INIT_VALUE`. -/
def srInitValue : BitVec 32 := 0x2000FF13

/-- The slots of the registers that `_task_switch` saves and loads. -/
def Saved (slot : ℕ) : Prop := 1 ≤ slot ∧ slot ≤ 35 ∨ slot = 39

instance (slot : ℕ) : Decidable (Saved slot) := inferInstanceAs (Decidable (_ ∨ _))

/-- The slots that record channels. -/
def ChannelSlot (slot : ℕ) : Prop := 40 ≤ slot ∧ slot ≤ 46

instance (slot : ℕ) : Decidable (ChannelSlot slot) := inferInstanceAs (Decidable (_ ∧ _))

/-- The signals. -/
inductive Signal
  | kill
  | exec
  deriving DecidableEq, Repr

/-! ## The scheduler -/

/-- What the mapping and the platform fix: the stack of each task of the system, the tasks of
this scheduler that belong to a vspace, the numbers of channels, and the address of
`_ctx_eret`. -/
structure Mapping where
  stackVsegId : ℕ → ℕ
  vbase : ℕ → BitVec 32
  length : ℕ → BitVec 32
  inVspace : BitVec 32 → ℕ → Bool
  nbTty : ℕ
  nbTim : ℕ
  nbNic : ℕ
  nbCma : ℕ
  ctxEret : BitVec 32

/-- A scheduler and the registers of its processor. The calls of `_ctx_kill_task` and
`_ctx_exec_task` that the last `_ctx_switch` has made are recorded. -/
structure Psched where
  context : ℕ → ℕ → BitVec 32
  tasks : ℕ
  current : ℕ
  regs : ℕ → BitVec 32
  applied : List (ℕ × Signal)

namespace Psched

/-- `psched->context[ltid][slot] = value`. -/
def setSlot (s : Psched) (ltid slot : ℕ) (value : BitVec 32) : Psched :=
  { s with
    context := Function.update s.context ltid (Function.update (s.context ltid) slot value) }

/-- A signal of a task is pending. -/
def Pending (s : Psched) (ltid : ℕ) (mask : BitVec 32) : Prop :=
  s.context ltid ctxSigId &&& mask ≠ 0

instance (s : Psched) (ltid : ℕ) (mask : BitVec 32) : Decidable (s.Pending ltid mask) :=
  inferInstanceAs (Decidable (_ ≠ _))

end Psched

section Functions

variable (m : Mapping)

/-- `_sys_tty_release`, called for the current task. -/
def schedTtyRelease (s : Psched) : Psched :=
  let channel := s.context s.current ctxTtyId
  if channel = -1 then s
  else
    let vspaceId := s.context s.current ctxVsidId
    { s with context := fun ltid =>
        if m.inVspace vspaceId ltid = true ∧ s.context ltid ctxTtyId = channel then
          Function.update (s.context ltid) ctxTtyId (-1)
        else s.context ltid }

/-- `_sys_fbf_cma_release`, called for the current task. -/
def schedFbfCmaRelease (s : Psched) : Psched :=
  if (s.context s.current ctxCmaFbId).toNat ≥ m.nbCma then s
  else s.setSlot s.current ctxCmaFbId (-1)

/-- One of the releases of `_ctx_kill_task`. -/
def releaseChannel (ltid slot bound : ℕ) (release : Psched → Psched) (s : Psched) : Psched :=
  if (s.context ltid slot).toNat < bound then (release s).setSlot ltid slot (-1) else s

/-- The releases of `_ctx_kill_task`. Those of the timer and of the NIC channels change no
context. -/
def releaseChannels (ltid : ℕ) (s : Psched) : Psched :=
  let s := releaseChannel ltid ctxTtyId m.nbTty (schedTtyRelease m) s
  let s := releaseChannel ltid ctxTimId m.nbTim id s
  let s := releaseChannel ltid ctxNicRxId m.nbNic id s
  let s := releaseChannel ltid ctxNicTxId m.nbNic id s
  releaseChannel ltid ctxCmaFbId m.nbCma (schedFbfCmaRelease m) s

/-- `_ctx_kill_task`: the task is scheduled while its channels are released. -/
def schedKillTask (ltid : ℕ) (s : Psched) : Psched :=
  let curTask := s.current
  let s := releaseChannels m ltid { s with current := ltid }
  let s := { s with current := curTask, applied := (ltid, .kill) :: s.applied }
  s.setSlot ltid ctxNorunId (s.context ltid ctxNorunId ||| norunMaskTask)

/-- The top of the stack vseg of a task. -/
def Mapping.stackTop (taskId : BitVec 32) : BitVec 32 :=
  let vsegId := m.stackVsegId taskId.toNat
  m.vbase vsegId + m.length vsegId

/-- `_ctx_exec_task`. -/
def schedExecTask (ltid : ℕ) (s : Psched) : Psched :=
  let spValue := m.stackTop (s.context ltid ctxGtidId)
  let s := { s with applied := (ltid, .exec) :: s.applied }
  let s := s.setSlot ltid ctxRaId m.ctxEret
  let s := s.setSlot ltid ctxSrId srInitValue
  let s := s.setSlot ltid ctxSpId spValue
  let s := s.setSlot ltid ctxEpcId (s.context ltid ctxEntryId)
  s.setSlot ltid ctxNorunId 0

/-- The signals that the loop of `_ctx_switch` handles for a task. -/
def handleSignals (ltid : ℕ) (s : Psched) : Psched :=
  let s :=
    if s.Pending ltid sigMaskKill then
      let s := schedKillTask m ltid s
      s.setSlot ltid ctxSigId (s.context ltid ctxSigId &&& ~~~sigMaskKill)
    else s
  if s.Pending ltid sigMaskExec then
    let s := schedExecTask m ltid s
    s.setSlot ltid ctxSigId (s.context ltid ctxSigId &&& ~~~sigMaskExec)
  else s

/-- The task is runnable. -/
def runnable (ltid : ℕ) (s : Psched) : Bool := s.context ltid ctxNorunId = 0

/-- `_task_switch`: the registers are saved in a context and loaded from another one. -/
def taskSwitch (currTaskId nextTaskId : ℕ) (s : Psched) : Psched :=
  let context := Function.update s.context currTaskId fun slot =>
    if Saved slot then s.regs slot else s.context currTaskId slot
  { s with
    context := context
    regs := fun slot => if Saved slot then context nextTaskId slot else s.regs slot }

/-- The loop of `_ctx_switch`. -/
def selectTask (s : Psched) : Psched × Option ℕ :=
  scanFrom s.tasks (handleSignals m) runnable s.tasks (s.current + 1) s

/-- `_ctx_switch`. -/
def ctxSwitch (s : Psched) : Psched :=
  let currTaskId := s.current
  let (s, found) := selectTask m { s with applied := [] }
  let nextTaskId := found.getD idleTaskIndex
  if currTaskId ≠ nextTaskId then
    taskSwitch currTaskId nextTaskId { s with current := nextTaskId }
  else s

/-- The word `CTX_NORUN_ID` of a task when the loop tests it. -/
def norunTested (s : Psched) (ltid : ℕ) : BitVec 32 :=
  (turns s.tasks (handleSignals m) (s.current + 1) (ahead s.tasks (s.current + 1) ltid + 1)
    { s with applied := [] }).context ltid ctxNorunId

/-- The loop reaches a task: it has found no runnable one before. -/
def Met (s : Psched) (ltid : ℕ) : Prop :=
  ltid < s.tasks ∧ ∀ u, u < s.tasks →
    ahead s.tasks (s.current + 1) u < ahead s.tasks (s.current + 1) ltid → norunTested m s u ≠ 0

end Functions

/-! ## One turn of the loop -/

section Turn

variable {m : Mapping} {s s' : Psched} {ltid t slot : ℕ} {value : BitVec 32}

/-- The words of a context that record no channel. -/
def Psched.words (s : Psched) (ltid : ℕ) : ℕ → BitVec 32 :=
  fun slot => if ChannelSlot slot then 0 else s.context ltid slot

theorem words_apply (h : ¬ChannelSlot slot) : s.words ltid slot = s.context ltid slot := if_neg h

/-- A part of the kernel that changes channel slots only. -/
structure Quiet (s s' : Psched) : Prop where
  words : s'.words = s.words
  tasks : s'.tasks = s.tasks
  current : s'.current = s.current
  regs : s'.regs = s.regs
  applied : s'.applied = s.applied

theorem Quiet.refl (s : Psched) : Quiet s s := ⟨rfl, rfl, rfl, rfl, rfl⟩

theorem Quiet.trans {s'' : Psched} (h : Quiet s s') (h' : Quiet s' s'') : Quiet s s'' :=
  ⟨h'.words.trans h.words, h'.tasks.trans h.tasks, h'.current.trans h.current,
    h'.regs.trans h.regs, h'.applied.trans h.applied⟩

theorem Quiet.setSlot (h : ChannelSlot slot) : Quiet s (s.setSlot ltid slot value) := by
  refine ⟨?_, rfl, rfl, rfl, rfl⟩
  funext u i
  rw [Psched.words, Psched.words]
  split
  · rfl
  · rename_i hi
    have hne : i ≠ slot := fun heq => hi (heq ▸ h)
    rw [Psched.setSlot]
    by_cases hu : u = ltid
    · subst hu
      simp only [Function.update_self, Function.update_of_ne hne]
    · simp only [Function.update_of_ne hu]

theorem Quiet.ttyRelease (m : Mapping) (s : Psched) : Quiet s (schedTtyRelease m s) := by
  rw [schedTtyRelease]
  split
  · exact Quiet.refl s
  · refine ⟨?_, rfl, rfl, rfl, rfl⟩
    funext u i
    rw [Psched.words, Psched.words]
    split
    · rfl
    · rename_i hi
      have hne : i ≠ ctxTtyId := by
        rintro rfl
        exact hi (by decide)
      change (if _ then _ else _ : ℕ → BitVec 32) i = _
      split
      · exact Function.update_of_ne hne _ _
      · rfl

theorem Quiet.fbfCmaRelease (m : Mapping) (s : Psched) : Quiet s (schedFbfCmaRelease m s) := by
  rw [schedFbfCmaRelease]
  split
  · exact Quiet.refl s
  · exact Quiet.setSlot (by decide)

theorem Quiet.releaseChannel {bound : ℕ} {release : Psched → Psched} (hslot : ChannelSlot slot)
    (h : ∀ s, Quiet s (release s)) (s : Psched) :
    Quiet s (releaseChannel ltid slot bound release s) := by
  rw [Kernel.releaseChannel]
  split
  · exact (h s).trans (Quiet.setSlot hslot)
  · exact Quiet.refl s

/-- The releases change channel slots only. -/
theorem Quiet.releaseChannels (m : Mapping) (ltid : ℕ) (s : Psched) :
    Quiet s (releaseChannels m ltid s) := by
  rw [Kernel.releaseChannels]
  have htty : Quiet s (Kernel.releaseChannel ltid ctxTtyId m.nbTty (schedTtyRelease m) s) :=
    Quiet.releaseChannel (by decide) (Quiet.ttyRelease m) s
  exact (((htty.trans (Quiet.releaseChannel (by decide) Quiet.refl _)).trans
    (Quiet.releaseChannel (by decide) Quiet.refl _)).trans
    (Quiet.releaseChannel (by decide) Quiet.refl _)).trans
    (Quiet.releaseChannel (by decide) (Quiet.fbfCmaRelease m) _)

theorem setSlot_words_self (h : ¬ChannelSlot slot) :
    (s.setSlot ltid slot value).words ltid = Function.update (s.words ltid) slot value := by
  funext i
  rw [Psched.words, Psched.setSlot]
  simp only [Function.update_self]
  by_cases hi : i = slot
  · subst hi
    rw [if_neg h, Function.update_self, Function.update_self]
  · rw [Function.update_of_ne hi, Function.update_of_ne hi]
    rfl

theorem setSlot_words_of_ne (h : t ≠ ltid) :
    (s.setSlot ltid slot value).words t = s.words t := by
  funext i
  rw [Psched.words, Psched.words, Psched.setSlot]
  simp only [Function.update_of_ne h]

theorem killTask_words_self : (schedKillTask m ltid s).words ltid =
    Function.update (s.words ltid) ctxNorunId (s.words ltid ctxNorunId ||| norunMaskTask) := by
  have hquiet := (Quiet.releaseChannels m ltid { s with current := ltid }).words
  rw [schedKillTask, setSlot_words_self (by decide),
    ← words_apply (s := { Kernel.releaseChannels m ltid { s with current := ltid } with
      current := s.current
      applied := (ltid, Signal.kill) :: (Kernel.releaseChannels m ltid
        { s with current := ltid }).applied }) (by decide)]
  change Function.update ((Kernel.releaseChannels m ltid { s with current := ltid }).words ltid) _
    ((Kernel.releaseChannels m ltid { s with current := ltid }).words ltid ctxNorunId ||| _) = _
  rw [hquiet]
  rfl

theorem killTask_words_of_ne (h : t ≠ ltid) : (schedKillTask m ltid s).words t = s.words t := by
  rw [schedKillTask, setSlot_words_of_ne h]
  change (Kernel.releaseChannels m ltid { s with current := ltid }).words t = _
  rw [(Quiet.releaseChannels m ltid { s with current := ltid }).words]
  rfl

/-- What `_ctx_exec_task` writes. -/
def execWords (m : Mapping) (w : ℕ → BitVec 32) : ℕ → BitVec 32 :=
  Function.update (Function.update (Function.update (Function.update (Function.update w
    ctxRaId m.ctxEret) ctxSrId srInitValue) ctxSpId (m.stackTop (w ctxGtidId))) ctxEpcId
    (w ctxEntryId)) ctxNorunId 0

theorem execTask_words_self :
    (schedExecTask m ltid s).words ltid = execWords m (s.words ltid) := by
  rw [schedExecTask, execWords]
  simp only [setSlot_words_self (show ¬ChannelSlot ctxNorunId by decide),
    setSlot_words_self (show ¬ChannelSlot ctxEpcId by decide),
    setSlot_words_self (show ¬ChannelSlot ctxSpId by decide),
    setSlot_words_self (show ¬ChannelSlot ctxSrId by decide),
    setSlot_words_self (show ¬ChannelSlot ctxRaId by decide)]
  simp only [Psched.setSlot, Function.update_self, words_apply (show ¬ChannelSlot ctxGtidId by decide),
    words_apply (show ¬ChannelSlot ctxEntryId by decide)]
  rw [Function.update_of_ne (show ctxEntryId ≠ ctxSpId by decide),
    Function.update_of_ne (show ctxEntryId ≠ ctxSrId by decide),
    Function.update_of_ne (show ctxEntryId ≠ ctxRaId by decide)]
  rfl

theorem execTask_words_of_ne (h : t ≠ ltid) : (schedExecTask m ltid s).words t = s.words t := by
  rw [schedExecTask]
  simp only [setSlot_words_of_ne h]
  rfl

/-! ## The loop -/

/-- What a turn of the loop changes for a task: its words, and how often it has been killed and
started by the call. -/
@[ext] structure View where
  words : ℕ → BitVec 32
  kills : ℕ
  execs : ℕ

def Psched.view (s : Psched) (ltid : ℕ) : View where
  words := s.words ltid
  kills := s.applied.count (ltid, .kill)
  execs := s.applied.count (ltid, .exec)

/-- The acknowledgement of a signal. -/
def ackWords (mask : BitVec 32) (w : ℕ → BitVec 32) : ℕ → BitVec 32 :=
  Function.update w ctxSigId (w ctxSigId &&& ~~~mask)

/-- The KILL signal is handled when it is pending. -/
def View.afterKill (v : View) : View :=
  if v.words ctxSigId &&& sigMaskKill ≠ 0 then
    { v with
      words := ackWords sigMaskKill
        (Function.update v.words ctxNorunId (v.words ctxNorunId ||| norunMaskTask))
      kills := v.kills + 1 }
  else v

/-- The EXEC signal is handled when it is pending. -/
def View.afterExec (m : Mapping) (v : View) : View :=
  if v.words ctxSigId &&& sigMaskExec ≠ 0 then
    { v with words := ackWords sigMaskExec (execWords m v.words), execs := v.execs + 1 }
  else v

/-- A turn of the loop for its own task. -/
def View.handled (m : Mapping) (v : View) : View := v.afterKill.afterExec m

/-- The first part of a turn. -/
def handleKill (m : Mapping) (ltid : ℕ) (s : Psched) : Psched :=
  if s.Pending ltid sigMaskKill then
    let s := schedKillTask m ltid s
    s.setSlot ltid ctxSigId (s.context ltid ctxSigId &&& ~~~sigMaskKill)
  else s

/-- The second part of a turn. -/
def handleExec (m : Mapping) (ltid : ℕ) (s : Psched) : Psched :=
  if s.Pending ltid sigMaskExec then
    let s := schedExecTask m ltid s
    s.setSlot ltid ctxSigId (s.context ltid ctxSigId &&& ~~~sigMaskExec)
  else s

theorem handleSignals_eq : handleSignals m ltid s = handleExec m ltid (handleKill m ltid s) := rfl

theorem ack_words (mask : BitVec 32) :
    (s.setSlot ltid ctxSigId (s.context ltid ctxSigId &&& ~~~mask)).words ltid =
      ackWords mask (s.words ltid) := by
  rw [setSlot_words_self (by decide), ackWords, words_apply (show ¬ChannelSlot ctxSigId by decide)]

theorem pending_iff (mask : BitVec 32) :
    s.Pending ltid mask ↔ (s.view ltid).words ctxSigId &&& mask ≠ 0 := by
  change _ ↔ s.words ltid ctxSigId &&& mask ≠ 0
  rw [Psched.Pending, words_apply (by decide)]

theorem killTask_applied : (schedKillTask m ltid s).applied = (ltid, .kill) :: s.applied := by
  change (ltid, Signal.kill) :: (Kernel.releaseChannels m ltid { s with current := ltid }).applied = _
  rw [(Quiet.releaseChannels m ltid { s with current := ltid }).applied]

theorem handleKill_view_self : (handleKill m ltid s).view ltid = (s.view ltid).afterKill := by
  by_cases hpending : s.Pending ltid sigMaskKill
  swap
  · rw [handleKill, View.afterKill, if_neg hpending, if_neg ((pending_iff _).not.mp hpending)]
  rw [handleKill, View.afterKill, if_pos hpending, if_pos ((pending_iff _).mp hpending)]
  ext1
  · change ((schedKillTask m ltid s).setSlot ltid ctxSigId _).words ltid = _
    rw [ack_words, killTask_words_self]
    rfl
  · change (schedKillTask m ltid s).applied.count (ltid, .kill) = _
    rw [killTask_applied, List.count_cons_self]
    rfl
  · change (schedKillTask m ltid s).applied.count (ltid, .exec) = _
    rw [killTask_applied, List.count_cons_of_ne (by simp)]
    rfl

theorem handleExec_view_self : (handleExec m ltid s).view ltid = (s.view ltid).afterExec m := by
  by_cases hpending : s.Pending ltid sigMaskExec
  swap
  · rw [handleExec, View.afterExec, if_neg hpending, if_neg ((pending_iff _).not.mp hpending)]
  rw [handleExec, View.afterExec, if_pos hpending, if_pos ((pending_iff _).mp hpending)]
  ext1
  · change ((schedExecTask m ltid s).setSlot ltid ctxSigId _).words ltid = _
    rw [ack_words, execTask_words_self]
    rfl
  · change ((ltid, Signal.exec) :: s.applied).count (ltid, .kill) = _
    rw [List.count_cons_of_ne (by simp)]
    rfl
  · change ((ltid, Signal.exec) :: s.applied).count (ltid, .exec) = _
    rw [List.count_cons_self]
    rfl

theorem handleKill_view_of_ne (h : t ≠ ltid) : (handleKill m ltid s).view t = s.view t := by
  rw [handleKill]
  split
  · ext1
    · change ((schedKillTask m ltid s).setSlot ltid ctxSigId _).words t = _
      rw [setSlot_words_of_ne h, killTask_words_of_ne h]
      rfl
    · change (schedKillTask m ltid s).applied.count (t, .kill) = _
      rw [killTask_applied, List.count_cons_of_ne (by simp [Ne.symm h])]
      rfl
    · change (schedKillTask m ltid s).applied.count (t, .exec) = _
      rw [killTask_applied, List.count_cons_of_ne (by simp)]
      rfl
  · rfl

theorem handleExec_view_of_ne (h : t ≠ ltid) : (handleExec m ltid s).view t = s.view t := by
  rw [handleExec]
  split
  · ext1
    · change ((schedExecTask m ltid s).setSlot ltid ctxSigId _).words t = _
      rw [setSlot_words_of_ne h, execTask_words_of_ne h]
      rfl
    · change ((ltid, Signal.exec) :: s.applied).count (t, .kill) = _
      rw [List.count_cons_of_ne (by simp)]
      rfl
    · change ((ltid, Signal.exec) :: s.applied).count (t, .exec) = _
      rw [List.count_cons_of_ne (by simp [Ne.symm h])]
      rfl
  · rfl

/-- What no turn changes. -/
def Psched.fixed (s : Psched) : ℕ × ℕ × (ℕ → BitVec 32) := (s.tasks, s.current, s.regs)

theorem handleSignals_fixed : (handleSignals m ltid s).fixed = s.fixed := by
  have hkill : (handleKill m ltid s).fixed = s.fixed := by
    rw [handleKill]
    split
    · have hquiet := Quiet.releaseChannels m ltid { s with current := ltid }
      change (_, s.current, _) = _
      exact Prod.ext hquiet.tasks (Prod.ext rfl hquiet.regs)
    · rfl
  rw [handleSignals_eq, ← hkill, handleExec]
  split
  · rfl
  · rfl

theorem handleSignals_view_of_ne (h : t ≠ ltid) : (handleSignals m ltid s).view t = s.view t := by
  rw [handleSignals_eq, handleExec_view_of_ne h, handleKill_view_of_ne h]

/-- The views after some turns of the loop. -/
theorem turns_view_eq (start : ℕ) {count : ℕ} (ht : t < s.tasks) (hcount : count ≤ s.tasks) (s' : Psched) :
    (turns s.tasks (handleSignals m) start count s').view t =
      if ahead s.tasks start t < count then (s'.view t).handled m else s'.view t :=
  turns_view Psched.view (fun _ => View.handled m)
    (fun i s _ => by rw [handleSignals_eq, handleExec_view_self, handleKill_view_self]; rfl)
    (fun _ _ _ _ h => handleSignals_view_of_ne h) ht hcount s'

/-- The loop changes no context that is not one of a task. -/
theorem turns_view_eq_of_le (start count : ℕ) (htasks : 0 < s.tasks) (ht : s.tasks ≤ t)
    (s' : Psched) :
    (turns s.tasks (handleSignals m) start count s').view t = s'.view t :=
  turns_view_of_le Psched.view (fun _ _ _ _ h => handleSignals_view_of_ne h) htasks ht s'

end Turn

end GietVm.Kernel
