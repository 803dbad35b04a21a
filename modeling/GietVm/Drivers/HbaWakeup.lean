import GietVm.Drivers.HbaExecutions

/-!
# Lost wake-ups of the AHCI driver

A task launches its command and then, in a separate step, sets the flag of its slot in
`_hba_active_cmd`. The handler acknowledges the interrupt, saves the flags and treats the
flagged commands that it then finds completed. When a command completes and the handler
reads the flag of its slot between the two steps of the task, the completion is acknowledged
and not treated: unless another command completes later, the task sleeps forever. Masking the
interrupts does not close this window when the handler runs on another processor.

Outside this window no completion is lost. A task that sleeps on a completed command is one
that the handler will treat in its present execution, or an interrupt is pending.
-/

namespace GietVm.Drivers.Hba

variable {c : Platform} {s s' : State} {t u : TaskId} {slot : ℕ}

/-! ## Waiting tasks -/

theorem TaskStep.pxie (h : TaskStep c t s s') (hpc : ∀ a slot, s.pc t ≠ .own a slot .irqDisable)
    (hpxie : s.device.pxie ≠ 0) : s'.device.pxie ≠ 0 := by
  cases h with
  | irqDisable a slot hpc' => exact absurd hpc' (hpc a slot)
  | irqEnable => exact one_ne_zero
  | _ => exact hpxie

/-- A task that waits for a completed command has waited for it before its step. -/
theorem TaskStep.waits (h : TaskStep c t s s') {a : Args} {k : Phase}
    (hpc : s'.pc t = .own a slot k) (hk : k.Waits) (hdone : s'.outcome t ≠ none) :
    ∃ k', s.pc t = .own a slot k' ∧ k'.Waits ∧ s'.outcome t = s.outcome t ∧
      (s'.sched.Blocked c t ↔ s.sched.Blocked c t) := by
  cases h with
  | launch => exact absurd (Function.update_self ..) hdone
  | setActive a' slot' hpc' =>
    cases (Function.update_self ..).symm.trans hpc
    exact ⟨_, hpc', Or.inl rfl, rfl, Iff.rfl⟩
  | switch a' slot' hpc' =>
    cases (Function.update_self ..).symm.trans hpc
    exact ⟨_, hpc', Or.inr (Or.inl rfl), rfl, Iff.rfl⟩
  | command a' slot' hpc' =>
    cases (Function.update_self ..).symm.trans hpc
    split at hk <;> rcases hk with hk | hk | hk <;> cases hk
  | misaligned | aligned | lockAlloc | scanFree | scanUsed | scanEnd | retry | releaseError
  | clearSlot => cases (Function.update_self ..).symm.trans hpc
  | _ =>
    cases (Function.update_self ..).symm.trans hpc
    rcases hk with hk | hk | hk <;> cases hk

/-- The part of a call in descheduling mode that runs before it enables the interrupts of the
device. -/
def Phase.Early (k : Phase) : Prop := k = .unlock ∨ k = .command ∨ k = .irqEnable

/-- A task that has enabled the interrupts of the device has done so before its step or by
it. -/
theorem TaskStep.enabled (h : TaskStep c t s s') {a : Args} {k : Phase}
    (hpc : s'.pc t = .own a slot k) (hk : ¬k.Early) (ha : a.useIrq ≠ 0) :
    s'.device.pxie ≠ 0 ∨ ∃ k', s.pc t = .own a slot k' ∧ ¬k'.Early := by
  cases h with
  | irqEnable => exact Or.inl one_ne_zero
  | takeSlot =>
    cases (Function.update_self ..).symm.trans hpc
    exact absurd (Or.inl rfl) hk
  | unlock =>
    cases (Function.update_self ..).symm.trans hpc
    exact absurd (Or.inr (Or.inl rfl)) hk
  | command =>
    cases (Function.update_self ..).symm.trans hpc
    rw [if_neg ha] at hk
    exact absurd (Or.inr (Or.inr rfl)) hk
  | misaligned | aligned | lockAlloc | scanFree | scanUsed | scanEnd | retry | releaseError
  | clearSlot => cases (Function.update_self ..).symm.trans hpc
  | _ =>
    cases (Function.update_self ..).symm.trans hpc
    refine Or.inr ⟨_, by assumption, ?_⟩
    rintro (hk' | hk' | hk') <;> cases hk'

/-! ## Completions that are not lost -/

/-- The handler is about to read the flag of a slot whose command is completed and
acknowledged, before the task that has launched the command sets the flag. -/
def State.Misses (s : State) : Prop :=
  ∃ slot active t a, s.isr = .snapshot slot active ∧ slot < 32 ∧
    s.pc t = .own a slot .setActive ∧ s.device.pxci slot = false ∧ s.device.pxis = 0

/-- All calls are in descheduling mode. -/
def Descheduling (_ : State) : Action → Prop
  | .call _ a => a.useIrq ≠ 0
  | _ => True

/-- All calls are in descheduling mode, and the handler reads no flag in the window between
the launch of a command and the step that sets its flag. -/
def NoMiss (s : State) (action : Action) : Prop :=
  Descheduling s action ∧ (action = .isr → ¬s.Misses)

/-- The present execution of the handler will clear the NORUN bit of the owner of the slot,
when its command is completed. -/
def IsrPc.Sees : IsrPc → ℕ → Prop
  | .snapshot n active, slot => n ≤ slot ∨ active slot = true
  | .loop n active pxci, slot => n ≤ slot ∧ active slot = true ∧ pxci slot = false
  | .readProcid n active pxci, slot | .readLtid n active pxci _, slot
  | .clearNorun n active pxci _ _, slot =>
    slot = n ∨ n < slot ∧ active slot = true ∧ pxci slot = false
  | .sendWti n active pxci _, slot => n < slot ∧ active slot = true ∧ pxci slot = false
  | _, _ => False

/-- A completion of the slot is announced or being treated. -/
def State.Pending (s : State) (slot : ℕ) : Prop := s.device.pxis ≠ 0 ∨ s.isr.Sees slot

/-- What holds, besides the invariant of the driver, where no completion is lost. -/
structure WakeInv (c : Platform) (s : State) : Prop where
  irq : ∀ t a, (s.pc t).args = some a → a.useIrq ≠ 0
  enabled : ∀ t a slot k, s.pc t = .own a slot k → ¬k.Early → s.device.pxie ≠ 0
  pending : ∀ t a slot k, s.pc t = .own a slot k → k.Waits → s.outcome t ≠ none →
    s.sched.Blocked c t → s.Pending slot

theorem Initial.wakeInv (h : Initial c s) : WakeInv c s where
  irq t a ha := by
    rw [h.pc t] at ha
    cases ha
  enabled t a slot k hpc := by cases (h.pc t).symm.trans hpc
  pending t a slot k hpc := by cases (h.pc t).symm.trans hpc

/-- The calls in descheduling mode never poll. -/
theorem WakeInv.mode (hw : WakeInv c s) (h : Inv c s) {a : Args} {k : Phase}
    (hpc : s.pc t = .own a slot k) (hk : k.Mode a → a.useIrq = 0) : False :=
  hw.irq t a (by rw [hpc]; rfl) (hk (h.phase t a slot k hpc).1)

theorem WakeInv.taskStep (hw : WakeInv c s) (h : Inv c s) (hstep : TaskStep c t s s') :
    WakeInv c s' := by
  have hpxis : s'.device.pxis = s.device.pxis :=
    hstep.pxis fun a slot pxis hpc => hw.mode h hpc id
  have hpxie : s.device.pxie ≠ 0 → s'.device.pxie ≠ 0 :=
    hstep.pxie fun a slot hpc => hw.mode h hpc id
  refine ⟨fun u a ha => ?_, fun u a slot k hpc hk => ?_, fun u a slot k hpc hk hdone hb => ?_⟩
  · by_cases hut : u = t
    · subst hut
      exact hw.irq u a (hstep.args.symm.trans ha)
    · exact hw.irq u a (hstep.pc_of_ne hut ▸ ha)
  · by_cases hut : u = t
    · subst hut
      have ha := hw.irq u a (hstep.args.symm.trans (by rw [hpc]; rfl))
      rcases hstep.enabled hpc hk ha with hon | ⟨k', hpc', hk'⟩
      · exact hon
      · exact hpxie (hw.enabled u a slot k' hpc' hk')
    · exact hpxie (hw.enabled u a slot k ((hstep.pc_of_ne hut).symm.trans hpc) hk)
  · rw [State.Pending, hpxis, hstep.isr]
    by_cases hut : u = t
    · subst hut
      obtain ⟨k', hpc', hk', hout, hblocked⟩ := hstep.waits hpc hk hdone
      exact hw.pending u a slot k' hpc' hk' (hout ▸ hdone) (hblocked.mp hb)
    · exact hw.pending u a slot k ((hstep.pc_of_ne hut).symm.trans hpc) hk
        (hstep.outcome_of_ne hut ▸ hdone) ((hstep.blocked_of_ne hut).mp hb)

theorem Inv.waits_done (h : Inv c s) {a : Args} {k : Phase} (hpc : s.pc t = .own a slot k)
    (hk : k.Waits) (hdone : s.outcome t ≠ none) : s.device.pxci slot = false := by
  by_contra hbusy
  exact hdone ((h.waits_launched hpc hk).2.mp (by simpa using hbusy))

/-- A task that sleeps has its flag set until the handler is about to wake it. -/
theorem Inv.flag_of_sleeps (h : Inv c s) {a : Args} {k : Phase} (hpc : s.pc t = .own a slot k)
    (hk : k.Sleeps) (hb : s.sched.Blocked c t) : s.active slot = true ∨ s.isr.Wakes slot := by
  have hok := (h.phase t a slot k hpc).2
  rcases hk with rfl | rfl
  · exact (hok.2.2.resolve_right fun hs => hs.1 hb).2
  · exact (hok.2.2.resolve_right fun hs => hs.1 hb).2

/-- A step that moves no task. -/
theorem WakeInv.sharedStep (hw : WakeInv c s) (hpc : s'.pc = s.pc)
    (hpxie : s'.device.pxie = s.device.pxie)
    (hpending : ∀ t a slot k, s.pc t = .own a slot k → k.Waits → s'.outcome t ≠ none →
      s'.sched.Blocked c t → s'.Pending slot) : WakeInv c s' := by
  refine ⟨?_, ?_, ?_⟩
  · rw [hpc]
    exact hw.irq
  · rw [hpc, hpxie]
    exact hw.enabled
  · rw [hpc]
    exact hpending

/-- A step of the handler that keeps the NORUN bits and PXIS. -/
theorem WakeInv.isrMove (hw : WakeInv c s) (h : Inv c s) {isr : IsrPc} {active : ℕ → Bool}
    {status : BitVec 32}
    (hsees : ∀ t a slot k, s.pc t = .own a slot k → k.Waits → s.sched.Blocked c t →
      s.device.pxci slot = false → s.device.pxis = 0 → s.isr.Sees slot → isr.Sees slot) :
    WakeInv c { s with isr, active, status } := by
  refine hw.sharedStep rfl rfl fun t a slot k hpc hk hdone hb => ?_
  by_cases hpxis : s.device.pxis = 0
  · refine Or.inr (hsees t a slot k hpc hk hb (h.waits_done hpc hk hdone) hpxis ?_)
    exact (hw.pending t a slot k hpc hk hdone hb).resolve_left fun hne => hne hpxis
  · exact Or.inl hpxis

/-- A step of the handler without a miss. -/
theorem WakeInv.isrStep (hw : WakeInv c s) (h : Inv c s) (hmiss : ¬s.Misses)
    (hstep : IsrStep c s s') : WakeInv c s' := by
  have hlt {t : TaskId} {a : Args} {slot : ℕ} {k : Phase} (hpc : s.pc t = .own a slot k) :
      slot < 32 := (h.allocated t slot (Pc.own_owns hpc)).1
  cases hstep with
  | enter hpc hirq => exact hw.isrMove h fun t a slot k _ _ _ _ _ hs => by rw [hpc] at hs; exact hs
  | keepStatus hpc hst => exact hw.isrMove h fun t a slot k _ _ _ _ _ hs => by rw [hpc] at hs; exact hs
  | newStatus hpc hst => exact hw.isrMove h fun t a slot k _ _ _ _ _ hs => by rw [hpc] at hs; exact hs
  | readPxis hpc => exact hw.isrMove h fun t a slot k _ _ _ _ _ hs => by rw [hpc] at hs; exact hs
  | setStatus pxis hpc => exact hw.isrMove h fun t a slot k _ _ _ _ _ hs => by rw [hpc] at hs; exact hs
  | resetPxis hpc =>
    exact hw.sharedStep rfl rfl fun _ _ slot _ _ _ _ _ => Or.inr (Or.inl (Nat.zero_le slot))
  | snapshot n active hpc hslot =>
    refine hw.isrMove h fun t a slot k hown hk hb hdone hpxis hs => ?_
    rw [hpc] at hs
    by_cases hn : slot = n
    · subst hn
      refine Or.inr ((Function.update_self ..).trans ?_)
      have hflag : k.Sleeps → s.active slot = true := fun hsleeps =>
        (h.flag_of_sleeps hown hsleeps hb).resolve_right (by rw [hpc]; exact id)
      -- before its flag is set the task is in the window
      rcases hk with rfl | hsleeps
      · exact absurd ⟨slot, active, t, a, hpc, hslot, hown, hdone, hpxis⟩ hmiss
      · exact hflag hsleeps
    · rcases hs with hs | hs
      · exact Or.inl (by omega)
      · exact Or.inr ((Function.update_of_ne hn _ _).trans hs)
  | readPxci n active hpc hslot =>
    refine hw.isrMove h fun t a slot k hown hk _ hdone _ hs => ?_
    rw [hpc] at hs
    have hslot' := hlt hown
    exact ⟨Nat.zero_le slot, hs.resolve_left (by omega), hdone⟩
  | deactivate n active pxci hpc hslot hdone =>
    refine hw.isrMove h fun t a slot k hown hk _ _ _ hs => ?_
    rw [hpc] at hs
    by_cases hn : slot = n
    · exact Or.inl hn
    · exact Or.inr ⟨lt_of_le_of_ne hs.1 (Ne.symm hn), hs.2⟩
  | skip n active pxci hpc hslot hdone =>
    refine hw.isrMove h fun t a slot k hown hk _ _ _ hs => ?_
    rw [hpc] at hs
    have hn : slot ≠ n := by
      rintro rfl
      exact hdone hs.2
    exact ⟨lt_of_le_of_ne hs.1 (Ne.symm hn), hs.2⟩
  | exit n active pxci hpc hslot =>
    refine hw.isrMove h fun t a slot k hown hk _ _ _ hs => ?_
    rw [hpc] at hs
    have hslot' := hlt hown
    exact absurd hs.1 (by omega)
  | readProcid n active pxci hpc =>
    exact hw.isrMove h fun t a slot k _ _ _ _ _ hs => by rw [hpc] at hs; exact hs
  | readLtid n active pxci procid hpc =>
    exact hw.isrMove h fun t a slot k _ _ _ _ _ hs => by rw [hpc] at hs; exact hs
  | clearNorun n active pxci procid ltid hpc =>
    have hisr := h.isr
    rw [hpc] at hisr
    obtain ⟨-, u, hwake, rfl, rfl⟩ := hisr
    obtain ⟨a', k', hown', -⟩ := hwake.sleeps
    rw [c.isrContext_eq u]
    refine hw.sharedStep rfl rfl fun t a slot k hown hk hdone hb => ?_
    have htu : t ≠ u := by
      rintro rfl
      exact unblock_not_blocked hb
    refine (hw.pending t a slot k hown hk hdone ((unblock_blocked_of_ne htu).mp hb)).imp_right
      fun hs => ?_
    rw [hpc] at hs
    refine hs.resolve_left ?_
    rintro rfl
    exact htu (h.owner t u slot (Pc.own_owns hown) (Pc.own_owns hown'))
  | sendWti n active pxci procid hpc =>
    exact hw.isrMove h fun t a slot k _ _ _ _ _ hs => by rw [hpc] at hs; exact hs

theorem WakeInv.complete (hw : WakeInv c s) {result : BitVec 32} (hresult : result ≠ 0) :
    WakeInv c (s.complete slot result) := by
  refine hw.sharedStep rfl rfl fun t a slot' k hpc hk _ hb => Or.inl ?_
  intro hzero
  exact hresult (BitVec.or_eq_zero_iff.mp hzero).2

theorem WakeInv.call (hw : WakeInv c s) {a : Args} (ha : a.useIrq ≠ 0) :
    WakeInv c (s.goto t (.entered a)) := by
  refine ⟨?_, ?_, ?_⟩
  · refine forall_update (P := fun u pc => ∀ a, pc.args = some a → a.useIrq ≠ 0) ?_
      fun u _ => hw.irq u
    intro a' ha'
    cases ha'
    exact ha
  · exact forall_update (P := fun u pc => ∀ a slot k, pc = .own a slot k → ¬k.Early →
      s.device.pxie ≠ 0) nofun fun u _ => hw.enabled u
  · exact forall_update (P := fun u pc => ∀ a slot k, pc = .own a slot k → k.Waits →
      s.outcome u ≠ none → s.sched.Blocked c u → s.Pending slot) nofun fun u _ => hw.pending u

theorem WakeInv.schedStep (hw : WakeInv c s) {masked : TaskId → Prop} {sched : Sched}
    (hstep : SchedStep c masked s.sched sched) : WakeInv c { s with sched } :=
  hw.sharedStep rfl rfl fun t a slot k hpc hk hdone hb =>
    hw.pending t a slot k hpc hk hdone (hstep.blocked.mp hb)

/-- Every step that is no miss keeps the invariant. -/
theorem WakeInv.step (hw : WakeInv c s) (h : Inv c s) {action : Action} (hok : NoMiss s action)
    (hstep : Step c s action s') : WakeInv c s' := by
  cases hstep with
  | call t a ht hrun hpc => exact hw.call hok.1
  | task t ht hrun hstep => exact hw.taskStep h hstep
  | sched hstep => exact hw.schedStep hstep
  | complete slot result hbusy hresult => exact hw.complete hresult
  | isr hstep => exact hw.isrStep h (hok.2 rfl) hstep

theorem Run.wakeInv (h : Run c NoMiss s) : WakeInv c s := by
  induction h with
  | init h => exact h.wakeInv
  | step hrun hok hstep ih => exact ih.step hrun.inv hok hstep

/-! ## The property of the driver -/

/-- The completion of the command of a task is lost: the command is completed, the task that
has launched it is still blocked, no command is in progress, no interrupt is pending and the
handler does not run. -/
structure Lost (c : Platform) (s : State) (t : TaskId) : Prop where
  waits : ∃ a slot k, s.pc t = .own a slot k ∧ k.Waits
  completed : s.outcome t ≠ none
  blocked : s.sched.Blocked c t
  pxci : ∀ slot, s.device.pxci slot = false
  irq : ¬s.device.irq
  isr : s.isr = .none

/-- In runs without a miss no completion is lost, and a task is selected at its descheduling
point only after its own command has completed. -/
theorem hbaAccess_wakes (h : Run c NoMiss s) :
    (∀ t, ¬Lost c s t) ∧
    (∀ t a slot, s.pc t = .own a slot .switched → s.sched.Running t →
      s.outcome t ≠ none ∧ s.device.pxci slot = false) := by
  refine ⟨fun t hlost => ?_, fun t a slot hpc hrun => ?_⟩
  · obtain ⟨⟨a, slot, k, hpc, hk⟩, hdone, hb, -, hirq, hisr⟩ := hlost
    have hearly : ¬k.Early := by
      rcases hk with rfl | rfl | rfl
      · exact fun hk => by rcases hk with hk | hk | hk <;> cases hk
      · exact fun hk => by rcases hk with hk | hk | hk <;> cases hk
      · exact fun hk => by rcases hk with hk | hk | hk <;> cases hk
    rcases h.wakeInv.pending t a slot k hpc hk hdone hb with hpxis | hsees
    · exact hirq ⟨hpxis, h.wakeInv.enabled t a slot k hpc hearly⟩
    · rw [hisr] at hsees
      exact hsees
  · have hnot := h.inv.selected t a slot hpc hrun
    obtain ⟨-, -, hb | hfree⟩ := (h.inv.phase t a slot _ hpc).2
    · exact absurd hb.1 hnot
    · exact ⟨hfree.2.2, hfree.2.1.1⟩

/-- One task, whose command is completed while it sleeps: the handler wakes it, and it is
selected after the completion. -/
theorem hbaAccess_wakes_selected : ∃ (c : Platform) (s : State) (t : TaskId) (a : Args),
    Run c NoMiss s ∧ s.pc t = .own a 0 .switched ∧ s.sched.Running t ∧ s.outcome t ≠ none := by
  let c : Platform := ⟨0, 0, 1, fun _ => 1, by decide, fun _ => by decide⟩
  let t : TaskId := ⟨0, 0⟩
  let a : Args := ⟨1, 1, 7, 0x1000, 2⟩
  let s : State := ⟨⟨fun _ => 0, fun _ => 0, fun _ => none⟩, ⟨fun _ => false, 0, 0⟩, none,
    fun _ => false, fun _ => false, fun _ => 0, 0, .none, fun _ => .out, fun _ => t, fun _ => none⟩
  have ht : c.Task t := ⟨by decide, by decide⟩
  have ha : a.Aligned := show 0x1000 &&& 0x3F = 0 by decide
  have hrun : s.sched.Running t := ⟨rfl, rfl⟩
  have hinit : Run c NoMiss s := .init ⟨fun _ => rfl, fun _ => rfl, rfl, rfl, rfl, fun _ => rfl,
    fun _ => rfl, rfl, rfl, fun _ _ h => h BitVec.zero_and⟩
  have htask (s : State) : NoMiss s (.task t) := ⟨trivial, nofun⟩
  have hsched (s : State) : NoMiss s .sched := ⟨trivial, nofun⟩
  have hdevice (s : State) : NoMiss s (.complete 0 1) := ⟨trivial, nofun⟩
  have hlaunch := hinit.launched (t := t) (a := a) ⟨Nat.one_ne_zero, nofun⟩ htask ht hrun
    (Or.inl rfl) ha Nat.one_ne_zero rfl rfl
  have hdone := (hlaunch.asleep htask ht hrun).step (hdevice _) (.complete 0 1 rfl (by decide))
  have hwake := hdone.handlerWake (n := 0) (t := t) (fun s' hpcs => ⟨trivial, ?_⟩) rfl
    ⟨by decide, by decide⟩ (by decide) ht rfl ⟨rfl, rfl⟩ ?_
  · have hselect := hwake.step (hsched _) (.sched (.scan 0 1 rfl))
    refine ⟨c, _, t, a, hselect, rfl, ⟨by decide +kernel, by decide +kernel⟩, ?_⟩
    exact ((hbaAccess_wakes hselect).2 t a 0 rfl ⟨by decide +kernel, by decide +kernel⟩).1
  · rintro - ⟨slot, active, u, a', -, -, hpc, -⟩
    rw [hpcs] at hpc
    by_cases hut : u = t
    · subst hut
      have hswitched : Pc.own a 0 .switched = .own a' slot .setActive := hpc
      cases hswitched
    · simp [State.asleep, State.complete, hut, s] at hpc
  · intro slot hslot hactive
    simp [State.asleep, State.complete, hslot, s] at hactive

/-- Two processors, and a task on the second one, whose command is completed before it sets
its flag. The handler, on the first processor, finds no flag, and the task sleeps forever. -/
theorem hbaAccess_loses_wakeup : ∃ (c : Platform) (s : State) (t : TaskId) (a : Args),
    Run c Descheduling s ∧ s.pc t = .own a 0 .switched ∧ Lost c s t := by
  let c : Platform := ⟨0, 1, 2, fun _ => 1, by decide, fun _ => by decide⟩
  let t : TaskId := ⟨1, 0⟩
  let a : Args := ⟨1, 1, 7, 0x1000, 2⟩
  let s : State := ⟨⟨fun _ => 0, fun _ => 0, fun _ => none⟩, ⟨fun _ => false, 0, 0⟩, none,
    fun _ => false, fun _ => false, fun _ => 0, 0, .none, fun _ => .out, fun _ => t, fun _ => none⟩
  have ht : c.Task t := ⟨by decide, by decide⟩
  have ha : a.Aligned := show 0x1000 &&& 0x3F = 0 by decide
  have hrun : s.sched.Running t := ⟨rfl, rfl⟩
  have hinit : Run c Descheduling s := .init ⟨fun _ => rfl, fun _ => rfl, rfl, rfl, rfl,
    fun _ => rfl, fun _ => rfl, rfl, rfl, fun _ _ h => h BitVec.zero_and⟩
  have htask (s : State) : Descheduling s (.task t) := trivial
  have hdevice (s : State) : Descheduling s (.complete 0 1) := trivial
  have hlaunch := hinit.launched (t := t) (a := a) Nat.one_ne_zero htask ht hrun
    (Or.inl rfl) ha Nat.one_ne_zero rfl rfl
  -- the handler overtakes the task
  have hisr := (hlaunch.step (hdevice _) (.complete 0 1 rfl (by decide))).handlerIdle
    (fun _ _ => trivial) rfl ⟨by decide, by decide⟩ fun _ _ hactive => Bool.noConfusion hactive.1
  have hsleep := (hisr.step (htask _) (.task t ht hrun (.setActive a 0 rfl))).step (htask _)
    (.task t ht hrun (.switch a 0 rfl))
  refine ⟨c, _, t, a, hsleep, rfl, ⟨a, 0, .switched, rfl, Or.inr (Or.inr rfl)⟩, ?_,
    block_blocked (s := s.sched), fun slot => ?_, fun hirq => hirq.1 rfl, rfl⟩
  · exact Option.some_ne_none _
  · change Function.update (Function.update (fun _ => false) 0 true) 0 false slot = false
    rw [Function.update_idem, Function.update_apply, ite_self]

end GietVm.Drivers.Hba
