import GietVm.Drivers.HbaInvariant

/-!
# Undisturbed executions of the AHCI driver

What `_hba_access` does up to the launch of its command, and what `_hba_isr` does, when no
other party makes a step meanwhile. The handler acknowledges the interrupt, keeps a previous
error status or takes the new one, and wakes the task whose command is flagged and completed.
-/

namespace GietVm.Drivers.Hba

variable {c : Platform} {s : State} {ok : State → Action → Prop} {t : TaskId}

/-- The state after a call in descheduling mode that has taken the first slot and launched its
command. -/
def State.launched (c : Platform) (s : State) (t : TaskId) (a : Args) : State :=
  { s with
    sched := s.sched.block (c.context t)
    device := ⟨Function.update s.device.pxci 0 true, s.device.pxis, 1⟩
    lock := none
    allocated := Function.update s.allocated 0 true
    gtid := Function.update s.gtid 0 (gtidOf t)
    pc := Function.update s.pc t (.own a 0 .setActive)
    issuer := Function.update s.issuer 0 t
    outcome := Function.update s.outcome t none }

/-- A call in descheduling mode up to the launch of its command. -/
theorem Run.launched (h : Run c ok s) {a : Args} (hcall : ok s (.call t a))
    (htask : ∀ s', ok s' (.task t)) (ht : c.Task t) (hrun : s.sched.Running t)
    (hpc : s.pc t = .out ∨ ∃ a' v, s.pc t = .returned a' v) (ha : a.Aligned)
    (hirq : a.useIrq ≠ 0) (hlock : s.lock = none) (hfree : s.allocated 0 = false) :
    Run c ok (s.launched c t a) := by
  have hself {f : TaskId → Pc} {pc : Pc} : Function.update f t pc t = pc := Function.update_self ..
  have hlocked : Run c ok { s with
      lock := some t
      pc := Function.update s.pc t (.takeSlot a 0) } := by
    have hstep := (((h.step hcall (.call t a ht hrun hpc)).step (htask _)
      (.task t ht hrun (.aligned a hself ha))).step (htask _)
      (.task t ht hrun (.lockAlloc a hself hlock))).step (htask _)
      (.task t ht hrun (.scanFree a 0 hself (by decide) hfree))
    simpa only [State.goto, Function.update_idem] using hstep
  have hslot : Run c ok { s with
      lock := none
      allocated := Function.update s.allocated 0 true
      pc := Function.update s.pc t (.own a 0 .command) } := by
    have hstep := (hlocked.step (htask _) (.task t ht hrun (.takeSlot a 0 hself))).step (htask _)
      (.task t ht hrun (.unlock a 0 hself))
    simpa only [State.goto, Function.update_idem] using hstep
  have hgtid : Run c ok { s with
      device := { s.device with pxie := 1 }
      lock := none
      allocated := Function.update s.allocated 0 true
      gtid := Function.update s.gtid 0 (gtidOf t)
      pc := Function.update s.pc t (.own a 0 .itDisable) } := by
    have hcommand := hslot.step (htask _) (.task t ht hrun (.command a 0 hself))
    rw [if_neg hirq] at hcommand
    have hstep := (hcommand.step (htask _) (.task t ht hrun (.irqEnable a 0 hself))).step (htask _)
      (.task t ht hrun (.setGtid a 0 hself))
    simpa only [State.goto, Function.update_idem] using hstep
  have hnorun := (hgtid.step (htask _) (.task t ht hrun (.itDisable a 0 hself))).step (htask _)
    (.task t ht hrun (.setNorun a 0 hself))
  have hlaunch := hnorun.step (htask _) (.task t ht hrun (.launch a 0 hself))
  simpa only [State.launched, State.goto, State.start, Function.update_idem] using hlaunch

/-- The state after a call in descheduling mode that has taken the first slot and sleeps. -/
def State.asleep (c : Platform) (s : State) (t : TaskId) (a : Args) : State :=
  { s.launched c t a with
    sched := (s.sched.block (c.context t)).enterSwitch t.procid
    active := Function.update s.active 0 true
    pc := Function.update s.pc t (.own a 0 .switched) }

/-- A call in descheduling mode up to its descheduling point. -/
theorem Run.asleep {a : Args} (h : Run c ok (s.launched c t a)) (htask : ∀ s', ok s' (.task t))
    (ht : c.Task t) (hrun : s.sched.Running t) : Run c ok (s.asleep c t a) := by
  have hself {f : TaskId → Pc} {pc : Pc} : Function.update f t pc t = pc := Function.update_self ..
  have hactive := h.step (htask _) (.task t ht hrun (.setActive a 0 hself))
  have hswitch := hactive.step (htask _) (.task t ht hrun (.switch a 0 hself))
  simpa only [State.asleep, State.launched, State.goto, Function.update_idem] using hswitch

/-- The end of a call in descheduling mode, once the task is selected. -/
theorem Run.finished (h : Run c ok s) {a : Args} {slot : ℕ} (htask : ∀ s', ok s' (.task t))
    (ht : c.Task t) (hrun : s.sched.Running t) (hpc : s.pc t = .own a slot .switched)
    (hused : s.allocated slot = true) :
    Run c ok { s with
      allocated := Function.update s.allocated slot false
      pc := Function.update s.pc t
        (.returned a (if Failed s.status then s.status else 0)) } := by
  have hself {f : TaskId → Pc} {pc : Pc} : Function.update f t pc t = pc := Function.update_self ..
  have hstatus := ((h.step (htask _) (.task t ht hrun (.resume a slot hpc))).step (htask _)
    (.task t ht hrun (.itRestore a slot hself))).step (htask _)
    (.task t ht hrun (.getStatus a slot hself))
  have hreturn := (hstatus.step (htask _) (.task t ht hrun (.release a slot _ hself hused))).step
    (htask _) (.task t ht hrun (.clearSlot a slot _ hself))
  simpa only [State.goto, Function.update_idem] using hreturn

/-- The handler saves the flags one by one. -/
theorem Run.snapshots (h : Run c ok s) (hok : ∀ isr, ok { s with isr } .isr) {n m : ℕ}
    {active : ℕ → Bool} (hpc : s.isr = .snapshot n active) (hnm : n + m ≤ 32) :
    ∃ active', Run c ok { s with isr := .snapshot (n + m) active' } ∧
      ∀ slot, active' slot = if n ≤ slot ∧ slot < n + m then s.active slot else active slot := by
  induction m with
  | zero =>
    refine ⟨active, ?_, fun slot => (if_neg (by omega)).symm⟩
    rw [Nat.add_zero, ← hpc]
    exact h
  | succ m ih =>
    obtain ⟨active', hrun, hactive⟩ := ih (by omega)
    refine ⟨_, hrun.step (hok _) (.isr (.snapshot (n + m) active' rfl (by omega))), fun slot => ?_⟩
    rw [Function.update_apply, hactive slot]
    by_cases hslot : slot = n + m
    · rw [if_pos hslot, if_pos (by omega), hslot]
    · rw [if_neg hslot]
      exact if_congr (by omega) rfl rfl

/-- The handler passes over the commands that are not flagged or not completed. -/
theorem Run.skips (h : Run c ok s) (hok : ∀ isr, ok { s with isr } .isr) {n m : ℕ}
    {active pxci : ℕ → Bool} (hpc : s.isr = .loop n active pxci) (hnm : n + m ≤ 32)
    (hskip : ∀ slot, n ≤ slot → slot < n + m → ¬(active slot = true ∧ pxci slot = false)) :
    Run c ok { s with isr := .loop (n + m) active pxci } := by
  induction m with
  | zero =>
    rw [Nat.add_zero, ← hpc]
    exact h
  | succ m ih =>
    have hrun := ih (by omega) fun slot hn hm => hskip slot hn (by omega)
    exact hrun.step (hok _) (.isr (.skip (n + m) active pxci rfl (by omega)
      (hskip (n + m) (by omega) (by omega))))

/-- The status word after the handler has read PXIS. -/
def State.newStatus (s : State) : BitVec 32 := if Failed s.status then s.status else s.device.pxis

/-- The handler up to its loop over the commands. -/
theorem Run.handlerStart (h : Run c ok s) (hok : ∀ s', s'.pc = s.pc → ok s' .isr)
    (hpc : s.isr = .none) (hirq : s.device.irq) :
    ∃ active, (∀ slot, slot < 32 → active slot = s.active slot) ∧
      Run c ok { s with
        isr := .loop 0 active s.device.pxci
        status := s.newStatus
        device := { s.device with pxis := 0 } } := by
  have hread : Run c ok { s with isr := .resetPxis, status := s.newStatus } := by
    have henter := h.step (hok _ rfl) (.isr (.enter hpc hirq))
    rw [State.newStatus]
    split
    · rename_i hst
      exact henter.step (hok _ rfl) (.isr (.keepStatus rfl hst))
    · rename_i hst
      exact ((henter.step (hok _ rfl) (.isr (.newStatus rfl hst))).step (hok _ rfl)
        (.isr (.readPxis rfl))).step (hok _ rfl) (.isr (.setStatus s.device.pxis rfl))
  have hreset := hread.step (hok _ rfl) (.isr (.resetPxis rfl))
  obtain ⟨active, hsnapshot, hactive⟩ := hreset.snapshots (n := 0) (m := 32)
    (fun _ => hok _ rfl) rfl le_rfl
  refine ⟨active, fun slot hslot => ?_, ?_⟩
  · rw [hactive slot, if_pos (by omega)]
  · exact hsnapshot.step (hok _ rfl) (.isr (.readPxci (0 + 32) active rfl (by omega)))

/-- An execution that finds no flagged command completed. -/
theorem Run.handlerIdle (h : Run c ok s) (hok : ∀ s', s'.pc = s.pc → ok s' .isr)
    (hpc : s.isr = .none) (hirq : s.device.irq)
    (hnone : ∀ slot, slot < 32 → ¬(s.active slot = true ∧ s.device.pxci slot = false)) :
    Run c ok { s with
      isr := .none
      status := s.newStatus
      device := { s.device with pxis := 0 } } := by
  obtain ⟨active, hactive, hrun⟩ := h.handlerStart hok hpc hirq
  have hskip := hrun.skips (n := 0) (m := 32) (fun _ => hok _ rfl) rfl le_rfl
    fun slot _ hslot => by
      rw [hactive slot (by omega)]
      exact hnone slot (by omega)
  exact hskip.step (hok _ rfl) (.isr (.exit (0 + 32) active _ rfl (by omega)))

/-- An execution that finds one flagged command completed, and wakes the task that owns its
slot. -/
theorem Run.handlerWake (h : Run c ok s) (hok : ∀ s', s'.pc = s.pc → ok s' .isr)
    (hpc : s.isr = .none) (hirq : s.device.irq) {n : ℕ} (hn : n < 32) (ht : c.Task t)
    (hgtid : s.gtid n = gtidOf t) (hdone : s.active n = true ∧ s.device.pxci n = false)
    (hothers : ∀ slot, slot ≠ n → ¬(s.active slot = true ∧ s.device.pxci slot = false)) :
    Run c ok { s with
      isr := .none
      status := s.newStatus
      device := { s.device with pxis := 0 }
      active := Function.update s.active n false
      sched := s.sched.unblock (c.context t) } := by
  obtain ⟨active, hactive, hrun⟩ := h.handlerStart hok hpc hirq
  have hskip := hrun.skips (n := 0) (m := n) (fun _ => hok _ rfl) rfl (by omega)
    fun slot _ hslot => by
      rw [hactive slot (by omega)]
      exact hothers slot (by omega)
  rw [Nat.zero_add] at hskip
  have hwake := (((hskip.step (hok _ rfl)
    (.isr (.deactivate n active _ rfl hn ⟨(hactive n hn).trans hdone.1, hdone.2⟩))).step (hok _ rfl)
    (.isr (.readProcid n active _ rfl))).step (hok _ rfl)
    (.isr (.readLtid n active _ _ rfl))).step (hok _ rfl)
    (.isr (.clearNorun n active _ _ _ rfl))
  obtain ⟨hproc, hltid⟩ := gtidOf_parts ht
  simp only [hgtid, hproc, hltid, c.isrContext_eq t] at hwake
  have hsend := hwake.step (hok _ rfl) (.isr (.sendWti n active _ _ rfl))
  have hrest := hsend.skips (n := n + 1) (m := 31 - n) (fun _ => hok _ rfl) rfl (by omega)
    fun slot hlow hslot => by
      rw [hactive slot (by omega)]
      exact hothers slot (by omega)
  exact hrest.step (hok _ rfl) (.isr (.exit (n + 1 + (31 - n)) active _ rfl (by omega)))

/-- The state after an undisturbed call in descheduling mode whose command has the given
result. -/
def State.called (c : Platform) (s : State) (t : TaskId) (a : Args) (result : BitVec 32) : State :=
  let status := if Failed s.status then s.status else s.device.pxis ||| result
  { s with
    sched := s.sched.resched c t
    device := ⟨Function.update s.device.pxci 0 false, 0, 1⟩
    lock := none
    allocated := Function.update s.allocated 0 false
    active := Function.update s.active 0 false
    gtid := Function.update s.gtid 0 (gtidOf t)
    status
    isr := .none
    pc := Function.update s.pc t (.returned a (if Failed status then status else 0))
    issuer := Function.update s.issuer 0 t
    outcome := Function.update s.outcome t (some (decide (Failed result))) }

@[simp] theorem State.called_outcome (a : Args) (result : BitVec 32) :
    (s.called c t a result).outcome t = some (decide (Failed result)) := by
  simp [State.called]

/-- An undisturbed call returns a previous error, or its own. -/
theorem State.called_pc (a : Args) (result : BitVec 32) :
    (s.called c t a result).pc t =
      .returned a (if Failed s.status then s.status
        else if Failed (s.device.pxis ||| result) then s.device.pxis ||| result else 0) := by
  by_cases hst : Failed s.status <;> simp [State.called, hst]

/-- An undisturbed call in descheduling mode of the only task of a processor. -/
theorem Run.called (h : Run c ok s) (a : Args) (result : BitVec 32) (hcall : ok s (.call t a))
    (htask : ∀ s', ok s' (.task t)) (hsched : ∀ s', ok s' .sched) (hisr : ∀ s', ok s' .isr)
    (hcomplete : ok (s.asleep c t a) (.complete 0 result)) (hresult : result ≠ 0)
    (hone : c.tasks t.procid = 1) (ht : c.Task t) (hrun : s.sched.Running t)
    (hnorun : s.sched.norun (c.context t) = 0)
    (hpc : s.pc t = .out ∨ ∃ a' v, s.pc t = .returned a' v) (ha : a.Aligned)
    (hirq : a.useIrq ≠ 0) (hlock : s.lock = none) (hfree : s.allocated 0 = false)
    (hidle : s.isr = .none) (hactive : ∀ slot, s.active slot = false) :
    Run c ok (s.called c t a result) := by
  have hbusy : (s.asleep c t a).device.pxci 0 = true := by
    simp [State.asleep, State.launched]
  have hflag : (s.asleep c t a).active 0 = true := by
    simp [State.asleep, State.launched]
  have hgtid : (s.asleep c t a).gtid 0 = gtidOf t := by
    simp [State.asleep, State.launched]
  have hused : (s.asleep c t a).allocated 0 = true := by
    simp [State.asleep, State.launched]
  have hissuer : (s.asleep c t a).issuer 0 = t := by
    simp [State.asleep, State.launched]
  have hsleep := (h.launched hcall htask ht hrun hpc ha hirq hlock hfree).asleep htask ht hrun
  have hdone := hsleep.step hcomplete (.complete 0 result hbusy hresult)
  have hpoint : ((s.asleep c t a).complete 0 result).pc t = .own a 0 .switched := by
    simp [State.complete, State.asleep]
  have hcleared : ((s.asleep c t a).complete 0 result).device.pxci 0 = false := by
    simp [State.complete]
  have hpending : ((s.asleep c t a).complete 0 result).device.irq :=
    ⟨fun hzero => hresult (BitVec.or_eq_zero_iff.mp hzero).2, one_ne_zero⟩
  have hwake := hdone.handlerWake (n := 0) (t := t) (fun s' _ => hisr s') hidle hpending
    (by decide) ht hgtid ⟨hflag, hcleared⟩ fun slot hne hdone => by
      have hset : s.active slot = true := (Function.update_of_ne hne _ _).symm.trans hdone.1
      cases (hactive slot).symm.trans hset
  have hscan : (((s.sched.block (c.context t)).enterSwitch t.procid).unblock
      (c.context t)).scan t.procid = some (t.ltid + 1) := by
    rw [← hrun.1]
    exact Function.update_self ..
  have hselect := hwake.step (hsched _) (.sched (.scan t.procid (t.ltid + 1) hscan))
  have hreturn := hselect.finished htask ht (Sched.resched_lone hone ht hrun hnorun).1
    hpoint hused
  simpa only [State.called, Sched.resched, State.asleep, State.launched, State.complete,
    State.newStatus, Function.update_idem, Function.update_self] using hreturn

end GietVm.Drivers.Hba
