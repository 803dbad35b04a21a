import GietVm.Kernel.Selection

/-!
# Restarted, killed and undisturbed tasks

The runs of one scheduler: its tasks execute, start transfers of devices, take exceptions and
exit; the devices complete the transfers; other processors post signals; and `_ctx_switch` is
called at any time. The history of a run says which tasks wait for their restart, which ones
have been killed, and with which registers a task has been switched out.

An EXEC signal restarts a task through its context. That works for a task that is switched out
and has no transfer in progress. When the loop of `_ctx_switch` reaches the signal of the
running task, the task is selected again without a switch of the registers, and it goes on as
if nothing had happened. The zero that `_ctx_exec_task` writes to the NORUN word also wakes a
task up that waits for a device.
-/

namespace GietVm.Kernel

open GietVm.Library
open GietVm.Drivers (idleTaskIndex norunMaskIoc)

/-- The devices a task waits for. -/
inductive Device
  | ioc
  | coproc
  deriving DecidableEq, Repr

/-- The bit of the NORUN word of a task that waits for a device. -/
def Device.mask : Device → BitVec 32
  | .ioc => norunMaskIoc
  | .coproc => norunMaskCoproc

/-- The bit of the SIG word of a signal. -/
def Signal.mask : Signal → BitVec 32
  | .kill => sigMaskKill
  | .exec => sigMaskExec

/-- A scheduler and the history of its tasks. -/
structure Machine where
  sched : Psched
  /-- the tasks whose EXEC signal has been acknowledged and that have not executed since -/
  restarted : ℕ → Bool
  /-- the tasks whose KILL signal has been acknowledged, without an EXEC signal since -/
  killed : ℕ → Bool
  /-- the registers of the tasks at their last switch, if no signal was handled since and they
  have not executed since -/
  atSwitch : ℕ → Option (ℕ → BitVec 32)
  /-- the transfers in progress -/
  transfer : ℕ → Device → Bool

namespace Machine

variable (m : Mapping) (x : Machine)

/-- A call of `_ctx_switch`. -/
def contextSwitch : Machine :=
  let sched := ctxSwitch m x.sched
  { x with
    sched := sched
    restarted := fun t => decide ((t, Signal.exec) ∈ sched.applied) || x.restarted t
    killed := fun t =>
      if (t, Signal.exec) ∈ sched.applied then false
      else decide ((t, Signal.kill) ∈ sched.applied) || x.killed t
    atSwitch := fun t =>
      if t = x.sched.current ∧ sched.current ≠ t then some x.sched.regs
      else if (t, Signal.exec) ∈ sched.applied ∨ (t, Signal.kill) ∈ sched.applied then none
      else x.atSwitch t }

/-- The current task executes: its registers change. -/
def execute (regs : ℕ → BitVec 32) : Machine :=
  { x with
    sched := { x.sched with regs := regs }
    restarted := Function.update x.restarted x.sched.current false
    atSwitch := Function.update x.atSwitch x.sched.current none }

/-- A signal is posted: the bit is set in the SIG word. -/
def post (t : ℕ) (signal : Signal) : Machine :=
  { x with sched := x.sched.setSlot t ctxSigId (x.sched.context t ctxSigId ||| signal.mask) }

/-- The current task sets a bit of its NORUN word and starts a transfer. -/
def launch (d : Device) : Machine :=
  let t := x.sched.current
  { x with
    sched := x.sched.setSlot t ctxNorunId (x.sched.context t ctxNorunId ||| d.mask)
    transfer := Function.update x.transfer t (Function.update (x.transfer t) d true) }

/-- A transfer completes, and the interrupt handler of the device clears the bit. -/
def complete (t : ℕ) (d : Device) : Machine :=
  { x with
    sched := x.sched.setSlot t ctxNorunId (x.sched.context t ctxNorunId &&& ~~~d.mask)
    transfer := Function.update x.transfer t (Function.update (x.transfer t) d false) }

/-- The current task takes an exception (`_display_cause`) or exits (`_sys_task_exit`). -/
def deactivate (exception : Bool) : Machine :=
  let t := x.sched.current
  let norun := if exception then 1 else x.sched.context t ctxNorunId ||| norunMaskTask
  { x with sched := x.sched.setSlot t ctxNorunId norun }

end Machine

/-- The states reached when all calls of `_ctx_switch` meet a condition on the state before
the call. -/
inductive MachineRun (m : Mapping) (ok : Machine → Prop) : Machine → Prop
  | init {x : Machine} (hpos : 1 ≤ x.sched.tasks) (hmax : x.sched.tasks ≤ 13)
      (hcurrent : x.sched.current < x.sched.tasks ∨ x.sched.current = idleTaskIndex)
      (hrestarted : ∀ t, x.restarted t = false) (hkilled : ∀ t, x.killed t = false)
      (hswitch : ∀ t, x.atSwitch t = none) (htransfer : ∀ t d, x.transfer t d = false) :
      MachineRun m ok x
  | contextSwitch {x : Machine} (h : MachineRun m ok x) (hok : ok x) :
      MachineRun m ok (x.contextSwitch m)
  | execute {x : Machine} (h : MachineRun m ok x) (regs : ℕ → BitVec 32) :
      MachineRun m ok (x.execute regs)
  | post {x : Machine} (h : MachineRun m ok x) (t : ℕ) (signal : Signal)
      (ht : t < x.sched.tasks) : MachineRun m ok (x.post t signal)
  | launch {x : Machine} (h : MachineRun m ok x) (d : Device)
      (ht : x.sched.current < x.sched.tasks) : MachineRun m ok (x.launch d)
  | complete {x : Machine} (h : MachineRun m ok x) (t : ℕ) (d : Device)
      (ht : x.transfer t d = true) : MachineRun m ok (x.complete t d)
  | deactivate {x : Machine} (h : MachineRun m ok x) (exception : Bool)
      (ht : x.sched.current < x.sched.tasks) : MachineRun m ok (x.deactivate exception)
  | channels {x : Machine} (h : MachineRun m ok x) {sched : Psched}
      (hquiet : Quiet x.sched sched) : MachineRun m ok { x with sched := sched }

/-- The address of the first instruction after a switch to the current task: `_task_switch`
returns to the address in RA, and `_ctx_eret` jumps to the address in EPC. -/
def firstInstruction (m : Mapping) (s : Psched) : BitVec 32 :=
  if s.regs ctxRaId = m.ctxEret then s.regs ctxEpcId else s.regs ctxRaId

/-- The current task is about to start: at its entry point, with an empty stack. -/
def AtEntry (m : Mapping) (s : Psched) : Prop :=
  firstInstruction m s = s.context s.current ctxEntryId ∧
    s.regs ctxSpId = m.stackTop (s.context s.current ctxGtidId)

/-- What the signals should do, in a state of a run. -/
structure Respected (m : Mapping) (x : Machine) : Prop where
  restart : x.restarted x.sched.current = true → AtEntry m x.sched
  transfer : ∀ t d, x.transfer t d = true → x.sched.context t ctxNorunId ≠ 0
  killed : ∀ t, x.killed t = true → x.sched.current ≠ t
  resumed : ∀ regs, x.atSwitch x.sched.current = some regs →
    ∀ slot, Saved slot → x.sched.regs slot = regs slot

/-- The condition on a call of `_ctx_switch`: a task whose EXEC signal the loop reaches is not
the running one and has no transfer in progress. -/
def Restartable (m : Mapping) (x : Machine) : Prop :=
  ∀ t, Met m x.sched t → x.sched.Pending t sigMaskExec →
    t ≠ x.sched.current ∧ ∀ d, x.transfer t d = false

/-! ## The registers of the tasks -/

variable {m : Mapping} {x : Machine} {s s' : Psched} {t slot : ℕ}

/-- The registers of a task: in the processor or in its context. -/
def Psched.regsOf (s : Psched) (t : ℕ) : ℕ → BitVec 32 :=
  if t = s.current then s.regs else s.context t

theorem regsOf_current : s.regsOf s.current = s.regs := if_pos rfl

theorem saved_not_channel (h : Saved slot) : ¬ChannelSlot slot := by
  rw [ChannelSlot]
  rcases h with ⟨-, hle⟩ | rfl
  · omega
  · omega

/-- A call of `_ctx_switch` moves the registers between the processor and the contexts. -/
theorem ctxSwitch_regsOf (hslot : Saved slot) : (ctxSwitch m s).regsOf t slot =
    if t = s.current then s.regs slot else ((selectTask m s.cleared).1.view t).words slot := by
  have hregs : (selectTask m s.cleared).1.fixed = s.fixed := selectTask_fixed
  have hcurrent : (selectTask m s.cleared).1.current = s.current := congrArg (·.2.1) hregs
  replace hregs : (selectTask m s.cleared).1.regs = s.regs := congrArg (·.2.2) hregs
  have hword : ((selectTask m s.cleared).1.view t).words slot =
      (selectTask m s.cleared).1.context t slot := words_apply (saved_not_channel hslot)
  have hsaved (t' : ℕ) (s₁ : Psched) (next : ℕ) (hne : s.current ≠ next) :
      (taskSwitch s.current next { s₁ with current := next }).regsOf t' slot =
        if t' = s.current then s₁.regs slot else s₁.context t' slot := by
    rw [Psched.regsOf]
    by_cases ht : t' = s.current
    · subst ht
      rw [if_neg (show s.current ≠ (taskSwitch s.current next { s₁ with current := next }).current
        from hne), if_pos rfl, taskSwitch]
      simp only [Function.update_self, if_pos hslot]
    · rw [if_neg ht]
      split
      · rename_i hnext
        change t' = next at hnext
        subst hnext
        rw [taskSwitch]
        simp only [if_pos hslot, Function.update_of_ne ht]
      · rw [taskSwitch]
        simp only [Function.update_of_ne ht]
  rw [hword, ctxSwitch, ← Psched.cleared]
  dsimp only
  split
  · rename_i hne
    rw [hsaved t _ _ hne, hregs]
  · rw [Psched.regsOf, hcurrent, hregs]
    split <;> rfl

/-! ## The words that a turn changes -/

theorem afterKill_words {v : View} (hnorun : slot ≠ ctxNorunId) (hsig : slot ≠ ctxSigId) :
    v.afterKill.words slot = v.words slot := by
  rw [View.afterKill]
  split
  · change ackWords sigMaskKill _ slot = _
    rw [ackWords, Function.update_of_ne hsig, Function.update_of_ne hnorun]
  · rfl

/-- Without an EXEC signal a turn changes no register. -/
theorem handled_words {v : View} (hnorun : slot ≠ ctxNorunId) (hsig : slot ≠ ctxSigId)
    (h : v.words ctxSigId &&& sigMaskExec = 0) : (v.handled m).words slot = v.words slot := by
  rw [View.handled, View.afterExec, afterKill_exec, if_neg (not_not.mpr h)]
  exact afterKill_words hnorun hsig

/-- With an EXEC signal a turn writes the registers for a start at the entry point. -/
theorem handled_exec {v : View} (h : v.words ctxSigId &&& sigMaskExec ≠ 0) :
    (v.handled m).words ctxRaId = m.ctxEret ∧
      (v.handled m).words ctxEpcId = v.words ctxEntryId ∧
      (v.handled m).words ctxSpId = m.stackTop (v.words ctxGtidId) := by
  have hentry : v.afterKill.words ctxEntryId = v.words ctxEntryId :=
    afterKill_words (by decide) (by decide)
  have hgtid : v.afterKill.words ctxGtidId = v.words ctxGtidId :=
    afterKill_words (by decide) (by decide)
  rw [View.handled, View.afterExec, afterKill_exec, if_pos h]
  dsimp only
  rw [ackWords, execWords, hentry, hgtid]
  simp [ctxSigId, ctxNorunId, ctxEpcId, ctxSpId, ctxSrId, ctxRaId]

/-- A turn keeps the entry point and the global index of the task. -/
theorem handled_const {v : View} (hslot : slot = ctxEntryId ∨ slot = ctxGtidId) :
    (v.handled m).words slot = v.words slot := by
  have hne : slot ≠ ctxNorunId ∧ slot ≠ ctxSigId ∧ slot ≠ ctxRaId ∧ slot ≠ ctxSrId ∧
      slot ≠ ctxSpId ∧ slot ≠ ctxEpcId := by
    rcases hslot with rfl | rfl <;> decide
  obtain ⟨hnorun, hsig, hra, hsr, hsp, hepc⟩ := hne
  rw [View.handled, View.afterExec]
  split
  · change ackWords sigMaskExec (execWords m v.afterKill.words) slot = _
    rw [ackWords, Function.update_of_ne hsig, execWords, Function.update_of_ne hnorun,
      Function.update_of_ne hepc, Function.update_of_ne hsp, Function.update_of_ne hsr,
      Function.update_of_ne hra, afterKill_words hnorun hsig]
  · exact afterKill_words hnorun hsig

/-- A bit stays set when other bits are set. -/
theorem or_and_ne_zero {w w' mask : BitVec 32} (h : w &&& mask ≠ 0) : (w ||| w') &&& mask ≠ 0 := by
  intro hzero
  rw [BitVec.and_comm, BitVec.and_or_distrib_left] at hzero
  have hw := (BitVec.or_eq_zero_iff.mp hzero).1
  rw [BitVec.and_comm] at hw
  exact h hw

/-- Bits stay set when bits outside the mask are cleared. -/
theorem and_not_and_ne_zero {w mask mask' : BitVec 32} (h : w &&& mask ≠ 0)
    (hmask : ~~~mask' &&& mask = mask) : w &&& ~~~mask' &&& mask ≠ 0 := by
  rw [BitVec.and_assoc, hmask]
  exact h

/-! ## A call of `_ctx_switch` -/

section Call

variable (htasks : 0 < s.tasks)
include htasks

theorem ctxSwitch_const (hslot : slot = ctxEntryId ∨ slot = ctxGtidId) (t : ℕ) :
    (ctxSwitch m s).context t slot = s.context t slot := by
  have hkind : ¬Saved slot ∧ ¬ChannelSlot slot := by
    rcases hslot with rfl | rfl <;> decide
  rw [← words_apply hkind.2, (ctxSwitch_view t).1 slot hkind.1, ← words_apply (s := s) hkind.2]
  by_cases hmet : Met m s t
  · rw [selectTask_view hmet, handled_const hslot]
    rfl
  · rw [selectTask_view_of_not_met htasks hmet]
    rfl

/-- A task without a handled EXEC signal keeps its registers. -/
theorem ctxSwitch_regsOf_keep (hslot : Saved slot)
    (h : ¬(Met m s t ∧ s.Pending t sigMaskExec) ∨ t = s.current) :
    (ctxSwitch m s).regsOf t slot = s.regsOf t slot := by
  have hne : slot ≠ ctxNorunId ∧ slot ≠ ctxSigId := by
    constructor
    · rintro rfl
      exact absurd hslot (by decide)
    · rintro rfl
      exact absurd hslot (by decide)
  rw [ctxSwitch_regsOf hslot, Psched.regsOf]
  by_cases ht : t = s.current
  · rw [if_pos ht, if_pos ht]
  · rw [if_neg ht, if_neg ht, ← words_apply (saved_not_channel hslot)]
    by_cases hmet : Met m s t
    · have hexec : ¬s.Pending t sigMaskExec := fun hexec => h.resolve_right ht ⟨hmet, hexec⟩
      rw [selectTask_view hmet, handled_words hne.1 hne.2
        (not_not.mp ((pending_before _).not.mp hexec))]
      rfl
    · rw [selectTask_view_of_not_met htasks hmet]
      rfl

omit htasks in
/-- A task that is switched out gets the registers for a start at its entry point. -/
theorem ctxSwitch_regsOf_exec (hmet : Met m s t) (hexec : s.Pending t sigMaskExec)
    (ht : t ≠ s.current) :
    (ctxSwitch m s).regsOf t ctxRaId = m.ctxEret ∧
      (ctxSwitch m s).regsOf t ctxEpcId = s.context t ctxEntryId ∧
      (ctxSwitch m s).regsOf t ctxSpId = m.stackTop (s.context t ctxGtidId) := by
  have hwords := handled_exec (m := m) ((pending_before sigMaskExec).mp hexec)
  rw [ctxSwitch_regsOf (by decide), ctxSwitch_regsOf (by decide), ctxSwitch_regsOf (by decide),
    if_neg ht, if_neg ht, if_neg ht, selectTask_view hmet]
  rw [← words_apply (s := s) (show ¬ChannelSlot ctxEntryId by decide),
    ← words_apply (s := s) (show ¬ChannelSlot ctxGtidId by decide)]
  exact hwords

variable (hmax : s.tasks ≤ idleTaskIndex)
include hmax

/-- The signals that a call applies. -/
theorem mem_applied (signal : Signal) : (t, signal) ∈ (ctxSwitch m s).applied ↔
    Met m s t ∧ s.Pending t signal.mask := by
  have hselects := ctxSwitch_selects (m := m) htasks hmax
  have hiff {count : ℕ} {p : Prop} [Decidable p] (h : count = if p then 1 else 0) :
      0 < count ↔ p := by
    by_cases hp : p
    · rw [if_pos hp] at h
      exact iff_of_true (by omega) hp
    · rw [if_neg hp] at h
      exact iff_of_false (by omega) hp
  rw [← List.count_pos_iff]
  by_cases hmet : Met m s t
  · cases signal with
    | kill => exact (hiff (hselects.killed t hmet)).trans (iff_and_self.mpr fun _ => hmet)
    | exec => exact (hiff (hselects.started t hmet)).trans (iff_and_self.mpr fun _ => hmet)
  · have hnone := hselects.pending t hmet
    cases signal with
    | kill =>
      rw [hnone.2.2.1]
      exact iff_of_false (lt_irrefl 0) fun h => hmet h.1
    | exec =>
      rw [hnone.2.2.2]
      exact iff_of_false (lt_irrefl 0) fun h => hmet h.1

/-- A task that is selected is runnable after the call. -/
theorem ctxSwitch_norun_of_current (ht : t < s.tasks) (hcurrent : (ctxSwitch m s).current = t) :
    (ctxSwitch m s).context t ctxNorunId = 0 := by
  have hselects := ctxSwitch_selects (m := m) htasks hmax
  obtain ⟨hmet, hzero, -⟩ := hselects.task t ht hcurrent
  rw [hselects.norun t hmet, ← norunTested_cases ht, hzero]

/-- A call clears no bit of a NORUN word without an EXEC signal. -/
theorem ctxSwitch_norun {mask : BitVec 32} (h : ¬(Met m s t ∧ s.Pending t sigMaskExec))
    (hbit : s.context t ctxNorunId &&& mask ≠ 0) :
    (ctxSwitch m s).context t ctxNorunId &&& mask ≠ 0 := by
  have hselects := ctxSwitch_selects (m := m) htasks hmax
  by_cases hmet : Met m s t
  · rw [hselects.norun t hmet, if_neg fun hexec => h ⟨hmet, hexec⟩]
    split
    · exact or_and_ne_zero hbit
    · exact hbit
  · rw [(hselects.pending t hmet).2.1]
    exact hbit

end Call

/-! ## The invariant -/

/-- The registers of a task that waits for its restart. -/
structure Starting (m : Mapping) (s : Psched) (t : ℕ) : Prop where
  ra : s.regsOf t ctxRaId = m.ctxEret
  epc : s.regsOf t ctxEpcId = s.context t ctxEntryId
  sp : s.regsOf t ctxSpId = m.stackTop (s.context t ctxGtidId)

/-- The invariant of the runs. -/
structure MachineInv (m : Mapping) (x : Machine) : Prop where
  tasks : 1 ≤ x.sched.tasks ∧ x.sched.tasks ≤ idleTaskIndex
  current : x.sched.current < x.sched.tasks ∨ x.sched.current = idleTaskIndex
  restart : ∀ t, x.restarted t = true → Starting m x.sched t
  killed : ∀ t, x.killed t = true → t < x.sched.tasks ∧ t ≠ x.sched.current ∧
    x.sched.context t ctxNorunId &&& norunMaskTask ≠ 0
  resumed : ∀ t regs, x.atSwitch t = some regs →
    ∀ slot, Saved slot → x.sched.regsOf t slot = regs slot
  transfer : ∀ t d, x.transfer t d = true → t < x.sched.tasks ∧
    x.sched.context t ctxNorunId &&& (d.mask ||| norunMaskTask) ≠ 0

theorem MachineInv.respected (h : MachineInv m x) : Respected m x := by
  refine ⟨fun hrestarted => ?_, fun t d htransfer hzero => ?_, fun t hkilled heq => ?_,
    fun regs hswitch slot hslot => ?_⟩
  · obtain ⟨hra, hepc, hsp⟩ := h.restart _ hrestarted
    rw [regsOf_current] at hra hepc hsp
    exact ⟨by rw [firstInstruction, if_pos hra, hepc], hsp⟩
  · have hbits := (h.transfer t d htransfer).2
    rw [hzero] at hbits
    exact hbits BitVec.zero_and
  · exact (h.killed t hkilled).2.1 heq.symm
  · have hregs := h.resumed _ regs hswitch slot hslot
    rwa [regsOf_current] at hregs

/-- Parts of the kernel that keep the registers of all tasks and the history of the signals. -/
theorem MachineInv.of_regs (h : MachineInv m x) {sched : Psched} {transfer : ℕ → Device → Bool}
    (htasks : sched.tasks = x.sched.tasks) (hcurrent : sched.current = x.sched.current)
    (hregs : ∀ t slot, Saved slot → sched.regsOf t slot = x.sched.regsOf t slot)
    (hconst : ∀ t slot, slot = ctxEntryId ∨ slot = ctxGtidId →
      sched.context t slot = x.sched.context t slot)
    (hnorun : ∀ t, t ≠ x.sched.current → x.sched.context t ctxNorunId &&& norunMaskTask ≠ 0 →
      sched.context t ctxNorunId &&& norunMaskTask ≠ 0)
    (htransfer : ∀ t d, transfer t d = true → t < sched.tasks ∧
      sched.context t ctxNorunId &&& (d.mask ||| norunMaskTask) ≠ 0) :
    MachineInv m { x with sched := sched, transfer := transfer } := by
  refine ⟨?_, ?_, fun t hrestarted => ?_, fun t hkilled => ?_, fun t regs hswitch slot hslot => ?_,
    htransfer⟩
  · rw [htasks]
    exact h.tasks
  · rw [htasks, hcurrent]
    exact h.current
  · obtain ⟨hra, hepc, hsp⟩ := h.restart t hrestarted
    refine ⟨?_, ?_, ?_⟩
    · rw [hregs t _ (by decide), hra]
    · rw [hregs t _ (by decide), hepc, hconst t _ (Or.inl rfl)]
    · rw [hregs t _ (by decide), hsp, hconst t _ (Or.inr rfl)]
  · obtain ⟨ht, hne, hbit⟩ := h.killed t hkilled
    rw [htasks, hcurrent]
    exact ⟨ht, hne, hnorun t hne hbit⟩
  · rw [hregs t slot hslot]
    exact h.resumed t regs hswitch slot hslot

/-- A call of `_ctx_switch` that meets the condition keeps the invariant. -/
theorem MachineInv.contextSwitch (h : MachineInv m x) (hok : Restartable m x) :
    MachineInv m (x.contextSwitch m) := by
  obtain ⟨hpos, hmax⟩ := h.tasks
  have hmem (t : ℕ) (signal : Signal) := mem_applied (m := m) (t := t) hpos hmax signal
  have hkeep (t : ℕ) (hexec : (t, Signal.exec) ∉ (ctxSwitch m x.sched).applied) {slot : ℕ}
      (hslot : Saved slot) : (ctxSwitch m x.sched).regsOf t slot = x.sched.regsOf t slot :=
    ctxSwitch_regsOf_keep hpos hslot (Or.inl ((hmem t .exec).not.mp hexec))
  have hconst {slot : ℕ} (hslot : slot = ctxEntryId ∨ slot = ctxGtidId) (t : ℕ) :=
    ctxSwitch_const (m := m) hpos hslot t
  refine ⟨?_, ?_, fun t hrestarted => ?_, fun t hkilled => ?_, fun t regs hswitch slot hslot => ?_,
    fun t d htransfer => ?_⟩
  · change 1 ≤ (ctxSwitch m x.sched).tasks ∧ (ctxSwitch m x.sched).tasks ≤ idleTaskIndex
    rw [ctxSwitch_tasks]
    exact h.tasks
  · change (ctxSwitch m x.sched).current < (ctxSwitch m x.sched).tasks ∨ _
    rw [ctxSwitch_tasks]
    rcases ctxSwitch_current_cases (m := m) hpos with ⟨t, hmet, -, heq⟩ | ⟨-, heq⟩
    · exact Or.inl (heq ▸ hmet.1)
    · exact Or.inr heq
  · change Starting m (ctxSwitch m x.sched) t
    by_cases hexec : (t, Signal.exec) ∈ (ctxSwitch m x.sched).applied
    · obtain ⟨hmet, hpending⟩ := (hmem t .exec).mp hexec
      obtain ⟨hra, hepc, hsp⟩ := ctxSwitch_regsOf_exec hmet hpending (hok t hmet hpending).1
      exact ⟨hra, hepc.trans (hconst (Or.inl rfl) t).symm,
        by rw [hsp, hconst (Or.inr rfl) t]⟩
    · have hold : x.restarted t = true := by
        simpa [Machine.contextSwitch, hexec] using hrestarted
      obtain ⟨hra, hepc, hsp⟩ := h.restart t hold
      refine ⟨?_, ?_, ?_⟩
      · rw [hkeep t hexec (by decide), hra]
      · rw [hkeep t hexec (by decide), hepc, hconst (Or.inl rfl) t]
      · rw [hkeep t hexec (by decide), hsp, hconst (Or.inr rfl) t]
  · by_cases hexec : (t, Signal.exec) ∈ (ctxSwitch m x.sched).applied
    · simp [Machine.contextSwitch, hexec] at hkilled
    have hnot := (hmem t .exec).not.mp hexec
    have hbit : t < x.sched.tasks ∧
        (ctxSwitch m x.sched).context t ctxNorunId &&& norunMaskTask ≠ 0 := by
      by_cases hkill : (t, Signal.kill) ∈ (ctxSwitch m x.sched).applied
      · obtain ⟨hmet, hpending⟩ := (hmem t .kill).mp hkill
        have hstart : ¬x.sched.Pending t sigMaskExec := fun hp => hnot ⟨hmet, hp⟩
        refine ⟨hmet.1, ?_⟩
        rw [(ctxSwitch_selects hpos hmax).norun t hmet, if_neg hstart,
          if_pos (show x.sched.Pending t sigMaskKill from hpending), BitVec.or_comm]
        exact or_and_ne_zero (by decide)
      · have hold : x.killed t = true := by
          simpa [Machine.contextSwitch, hexec, hkill] using hkilled
        obtain ⟨ht, -, hold⟩ := h.killed t hold
        exact ⟨ht, ctxSwitch_norun hpos hmax hnot hold⟩
    refine ⟨hbit.1.trans_eq ctxSwitch_tasks.symm, fun heq => ?_, hbit.2⟩
    have hzero := ctxSwitch_norun_of_current (m := m) hpos hmax hbit.1 heq.symm
    rw [hzero] at hbit
    exact hbit.2 BitVec.zero_and
  · change (ctxSwitch m x.sched).regsOf t slot = regs slot
    change (if t = x.sched.current ∧ (ctxSwitch m x.sched).current ≠ t then _ else _) = some regs
      at hswitch
    split at hswitch
    · rename_i hout
      rw [ctxSwitch_regsOf hslot, if_pos hout.1]
      exact congrFun (Option.some.inj hswitch) slot
    · split at hswitch
      · cases hswitch
      · rename_i hnone
        rw [hkeep t (fun hexec => hnone (Or.inl hexec)) hslot]
        exact h.resumed t regs hswitch slot hslot
  · obtain ⟨ht, hbits⟩ := h.transfer t d htransfer
    refine ⟨ht.trans_eq ctxSwitch_tasks.symm, ctxSwitch_norun hpos hmax (fun hexec => ?_) hbits⟩
    have hnone := (hok t hexec.1 hexec.2).2 d
    change x.transfer t d = true at htransfer
    rw [hnone] at htransfer
    cases htransfer

/-! ## The other steps -/

theorem setSlot_context (ltid slot' : ℕ) (value : BitVec 32) (u : ℕ) :
    (s.setSlot ltid slot' value).context u slot =
      if u = ltid ∧ slot = slot' then value else s.context u slot := by
  rw [Psched.setSlot]
  by_cases hu : u = ltid
  · subst hu
    by_cases hslot : slot = slot'
    · subst hslot
      rw [if_pos ⟨rfl, rfl⟩]
      simp only [Function.update_self]
    · rw [if_neg fun h => hslot h.2]
      simp only [Function.update_self, Function.update_of_ne hslot]
  · rw [if_neg fun h => hu h.1]
    simp only [Function.update_of_ne hu]

theorem setSlot_context_of_ne_slot {ltid slot' : ℕ} {value : BitVec 32} {u : ℕ}
    (h : slot ≠ slot') : (s.setSlot ltid slot' value).context u slot = s.context u slot := by
  rw [setSlot_context, if_neg fun heq => h heq.2]

/-- A change of a word that holds no register. -/
theorem setSlot_regsOf {ltid slot' : ℕ} {value : BitVec 32} (h : ¬Saved slot') (u : ℕ)
    (hslot : Saved slot) : (s.setSlot ltid slot' value).regsOf u slot = s.regsOf u slot := by
  have hne : slot ≠ slot' := by
    rintro rfl
    exact h hslot
  rw [Psched.regsOf, Psched.regsOf]
  change (if u = s.current then s.regs else (s.setSlot ltid slot' value).context u) slot = _
  split
  · rfl
  · exact setSlot_context_of_ne_slot hne

/-- A change of the NORUN or the SIG word of a task, with the transfers that go with it. -/
theorem MachineInv.setSlot (h : MachineInv m x) {ltid slot' : ℕ} {value : BitVec 32}
    {transfer : ℕ → Device → Bool} (hslot : slot' = ctxNorunId ∨ slot' = ctxSigId)
    (hnorun : slot' = ctxNorunId → ltid ≠ x.sched.current →
      x.sched.context ltid ctxNorunId &&& norunMaskTask ≠ 0 → value &&& norunMaskTask ≠ 0)
    (htransfer : ∀ t d, transfer t d = true → t < x.sched.tasks ∧
      (x.sched.setSlot ltid slot' value).context t ctxNorunId &&& (d.mask ||| norunMaskTask) ≠ 0) :
    MachineInv m { x with sched := x.sched.setSlot ltid slot' value, transfer := transfer } := by
  have hsaved : ¬Saved slot' := by
    rcases hslot with rfl | rfl <;> decide
  refine h.of_regs rfl rfl (fun t slot hs => setSlot_regsOf hsaved t hs) (fun t slot hs => ?_)
    (fun t ht hbit => ?_) htransfer
  · refine setSlot_context_of_ne_slot ?_
    rcases hs with rfl | rfl <;> rcases hslot with rfl | rfl <;> decide
  · rw [setSlot_context]
    split
    · rename_i heq
      obtain ⟨rfl, rfl⟩ := heq
      exact hnorun rfl ht hbit
    · exact hbit

theorem MachineInv.execute (h : MachineInv m x) (regs : ℕ → BitVec 32) :
    MachineInv m (x.execute regs) := by
  have hother {t : ℕ} (ht : t ≠ x.sched.current) :
      (x.execute regs).sched.regsOf t = x.sched.regsOf t := by
    rw [Psched.regsOf, Psched.regsOf, if_neg ht, if_neg (show t ≠ (x.execute regs).sched.current
      from ht)]
    rfl
  refine ⟨h.tasks, h.current, fun t hrestarted => ?_, h.killed, fun t regs' hswitch slot hslot => ?_,
    h.transfer⟩
  · change Function.update x.restarted x.sched.current false t = true at hrestarted
    by_cases ht : t = x.sched.current
    · subst ht
      rw [Function.update_self] at hrestarted
      cases hrestarted
    · rw [Function.update_of_ne ht] at hrestarted
      obtain ⟨hra, hepc, hsp⟩ := h.restart t hrestarted
      exact ⟨by rw [hother ht]; exact hra, by rw [hother ht]; exact hepc,
        by rw [hother ht]; exact hsp⟩
  · change Function.update x.atSwitch x.sched.current none t = some regs' at hswitch
    by_cases ht : t = x.sched.current
    · subst ht
      rw [Function.update_self] at hswitch
      cases hswitch
    · rw [Function.update_of_ne ht] at hswitch
      rw [hother ht]
      exact h.resumed t regs' hswitch slot hslot

theorem MachineInv.post (h : MachineInv m x) (t : ℕ) (signal : Signal) :
    MachineInv m (x.post t signal) := by
  refine h.setSlot (Or.inr rfl) nofun fun u d htransfer => ?_
  rw [setSlot_context_of_ne_slot (by decide)]
  exact h.transfer u d htransfer

theorem MachineInv.launch (h : MachineInv m x) (d : Device)
    (ht : x.sched.current < x.sched.tasks) : MachineInv m (x.launch d) := by
  refine h.setSlot (Or.inl rfl) (fun _ hne => absurd rfl hne) fun u d' htransfer => ?_
  rw [setSlot_context]
  by_cases hu : u = x.sched.current
  · subst hu
    rw [if_pos ⟨rfl, rfl⟩]
    refine ⟨ht, ?_⟩
    rw [Function.update_self] at htransfer
    by_cases hd : d' = d
    · subst hd
      rw [BitVec.or_comm]
      exact or_and_ne_zero (by cases d' <;> decide)
    · rw [Function.update_of_ne hd] at htransfer
      exact or_and_ne_zero (h.transfer _ d' htransfer).2
  · rw [Function.update_of_ne hu] at htransfer
    rw [if_neg fun heq => hu heq.1]
    exact h.transfer u d' htransfer

theorem MachineInv.complete (h : MachineInv m x) (t : ℕ) (d : Device) :
    MachineInv m (x.complete t d) := by
  refine h.setSlot (Or.inl rfl) (fun _ _ hbit => ?_) fun u d' htransfer => ?_
  · exact and_not_and_ne_zero hbit (by cases d <;> decide)
  · rw [setSlot_context]
    by_cases hu : u = t
    · subst hu
      rw [if_pos ⟨rfl, rfl⟩]
      rw [Function.update_self] at htransfer
      have hd : d' ≠ d := by
        rintro rfl
        rw [Function.update_self] at htransfer
        cases htransfer
      rw [Function.update_of_ne hd] at htransfer
      obtain ⟨hu, hbits⟩ := h.transfer u d' htransfer
      refine ⟨hu, and_not_and_ne_zero hbits ?_⟩
      cases d <;> cases d' <;> first | exact absurd rfl hd | decide
    · rw [Function.update_of_ne hu] at htransfer
      rw [if_neg fun heq => hu heq.1]
      exact h.transfer u d' htransfer

theorem MachineInv.deactivate (h : MachineInv m x) (exception : Bool) :
    MachineInv m (x.deactivate exception) := by
  refine h.setSlot (Or.inl rfl) (fun _ hne => absurd rfl hne) fun u d htransfer => ?_
  rw [setSlot_context]
  obtain ⟨hu, hbits⟩ := h.transfer u d htransfer
  refine ⟨hu, ?_⟩
  split
  · cases exception with
    | true =>
      rw [if_pos rfl]
      cases d <;> decide
    | false =>
      rename_i heq
      rw [heq.1] at hbits
      exact or_and_ne_zero hbits
  · exact hbits

theorem MachineInv.channels (h : MachineInv m x) {sched : Psched}
    (hquiet : Quiet x.sched sched) : MachineInv m { x with sched := sched } := by
  have hword {slot : ℕ} (hslot : ¬ChannelSlot slot) (t : ℕ) :
      sched.context t slot = x.sched.context t slot := by
    rw [← words_apply hslot, ← words_apply hslot, hquiet.words]
  refine h.of_regs hquiet.tasks hquiet.current (fun t slot hslot => ?_)
    (fun t slot hslot => hword ?_ t) (fun t _ hbit => ?_) fun t d htransfer => ?_
  · rw [Psched.regsOf, Psched.regsOf, hquiet.current, hquiet.regs]
    split
    · rfl
    · exact hword (saved_not_channel hslot) t
  · rcases hslot with rfl | rfl <;> decide
  · rw [hword (by decide)]
    exact hbit
  · rw [hquiet.tasks, hword (by decide)]
    exact h.transfer t d htransfer

theorem MachineRun.inv (h : MachineRun m (Restartable m) x) : MachineInv m x := by
  induction h with
  | init hpos hmax hcurrent hrestarted hkilled hswitch htransfer =>
    refine ⟨⟨hpos, hmax⟩, hcurrent, fun t ht => ?_, fun t ht => ?_, fun t regs ht => ?_,
      fun t d ht => ?_⟩
    · cases (hrestarted t).symm.trans ht
    · cases (hkilled t).symm.trans ht
    · cases (hswitch t).symm.trans ht
    · cases (htransfer t d).symm.trans ht
  | contextSwitch _ hok ih => exact ih.contextSwitch hok
  | execute _ regs ih => exact ih.execute regs
  | post _ t signal _ ih => exact ih.post t signal
  | launch _ d ht ih => exact ih.launch d ht
  | complete _ t d _ ih => exact ih.complete t d
  | deactivate _ exception _ ih => exact ih.deactivate exception
  | channels _ hquiet ih => exact ih.channels hquiet

/-- In every run whose calls of `_ctx_switch` meet the condition, a restarted task begins at its
entry point with an empty stack, no task is made runnable while one of its transfers is in
progress, a killed task does not execute, and a task that no signal has touched goes on with
the registers it had at its last switch. -/
theorem signals_respected (h : MachineRun m (Restartable m) x) : Respected m x :=
  h.inv.respected

/-- A scheduler with two tasks, of which the first one runs, at 0x400100 in its code. -/
def runningTask (tasks : ℕ) : Machine where
  sched :=
    { context := fun _ slot => if slot = ctxEntryId then 0x400000 else 0
      tasks := tasks
      current := 0
      regs := fun slot => if slot = ctxEpcId then 0x400100 else 0x80004000
      applied := [] }
  restarted := fun _ => false
  killed := fun _ => false
  atSwitch := fun _ => none
  transfer := fun _ _ => false

/-- An EXEC signal of the second task: it is selected, and begins at its entry point. -/
theorem signals_respected_exec :
    let x := ((runningTask 2).post 1 .exec).contextSwitch emptyMapping
    x.sched.current = 1 ∧ x.restarted 1 = true ∧ Respected emptyMapping x := by
  have hrun : MachineRun emptyMapping (Restartable emptyMapping) (runningTask 2) :=
    .init (by decide) (by decide) (Or.inl (by decide)) (fun _ => rfl) (fun _ => rfl) (fun _ => rfl)
      fun _ _ => rfl
  have hok : Restartable emptyMapping ((runningTask 2).post 1 .exec) := by
    rintro t ⟨ht, -⟩ hpending
    refine ⟨?_, fun _ => rfl⟩
    rintro rfl
    exact absurd hpending (by decide)
  exact ⟨by decide, by decide, signals_respected ((hrun.post 1 .exec (by decide)).contextSwitch hok)⟩

/-- An EXEC signal of the only task, which is running: the signal is acknowledged, and the task
goes on where it was. -/
theorem running_task_not_restarted :
    ∃ m x, MachineRun m (fun _ => True) x ∧ x.restarted x.sched.current = true ∧
      ¬AtEntry m x.sched := by
  have hrun : MachineRun emptyMapping (fun _ => True) (runningTask 1) :=
    .init (by decide) (by decide) (Or.inl (by decide)) (fun _ => rfl) (fun _ => rfl) (fun _ => rfl)
      fun _ _ => rfl
  refine ⟨emptyMapping, _, (hrun.post 0 .exec (by decide)).contextSwitch trivial, by decide,
    fun h => ?_⟩
  exact absurd h.1 (by decide)

end GietVm.Kernel
