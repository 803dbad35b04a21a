import GietVm.Drivers.HbaExecutions

/-!
# Results of the commands of the AHCI driver

All commands share the register PXIS and the word `_hba_status`. A call in polling mode
returns the error bit that it finds in PXIS, and a call in descheduling mode the one that it
finds in `_hba_status`, where the handler saves PXIS unless an error is saved already. No
step clears an error from `_hba_status`, so one failed command makes all later calls in
descheduling mode fail. An error also reaches the calls that are in progress with the failed
one, and it is lost when it is reported between the two accesses of the handler to PXIS, or
when another party resets PXIS first.

A result is attributed to its own call when the commands that fail are alone: no other call
is in progress, the handler does not run and cannot take the error of a polled command, and
the calls after the failure do not depend on the word that still holds it.
-/

namespace GietVm.Drivers.Hba

variable {c : Platform} {s s' : State} {t u : TaskId} {slot : ℕ}

/-- The call uses PXIS or `_hba_status` at the present point or later. -/
def Pc.Active : Pc → Prop
  | .entered a => a.Aligned
  | .lockAlloc _ | .scanSlot _ _ | .takeSlot _ _ | .unlockAlloc _ => True
  | .own _ _ (.release _) | .own _ _ (.clearSlot _) => False
  | .own _ _ _ => True
  | _ => False

/-- The condition under which the results are attributed. A command fails only when no other
call uses the status words, the handler does not run, and the interrupts of the device are
disabled if the command is polled. No call starts while PXIS holds an error, and none in
descheduling mode once `_hba_status` holds one. -/
def Separate (s : State) : Action → Prop
  | .call _ a => a.Aligned → ¬Failed s.device.pxis ∧ (a.useIrq ≠ 0 → ¬Failed s.status)
  | .complete slot result => Failed result →
    (∀ u, u ≠ s.issuer slot → ¬(s.pc u).Active) ∧ s.isr = .none ∧
      ∀ a k, s.pc (s.issuer slot) = .own a slot k → a.useIrq = 0 → s.device.pxie = 0
  | _ => True

/-- A polled command is launched and its status is not read yet. -/
def Phase.Polls (k : Phase) : Prop := k = .irqDisable ∨ k = .poll ∨ k = .readPxis

/-- The handler has not reset PXIS yet. -/
def IsrPc.Announces : IsrPc → Prop
  | .none | .testStatus | .readPxis | .setStatus _ | .resetPxis => True
  | _ => False

/-- The handler saves an error that PXIS holds, when `_hba_status` holds none. -/
def IsrPc.Saves : IsrPc → Prop
  | .none | .testStatus | .readPxis => True
  | .setStatus pxis => Failed pxis
  | _ => False

/-- An error is saved, or the handler will save it. -/
def State.Announced (s : State) : Prop := Failed s.status ∨ Failed s.device.pxis ∧ s.isr.Saves

/-- The task to which the error in PXIS belongs. -/
structure Failing (c : Platform) (s : State) (t : TaskId) : Prop where
  outcome : s.outcome t = some true
  alone : ∀ u, u ≠ t → ¬(s.pc u).Active
  point : ∃ a slot k, s.pc t = .own a slot k ∧
    (k.Waits ∧ s.sched.Blocked c t ∧ s.isr.Announces ∨
      (k.Polls ∨ ∃ pxis, k = .resetPxis pxis) ∧ s.device.pxie = 0 ∧ s.isr = .none)

/-- What holds of the results when a call is at a point. -/
def PcStatus (s : State) (t : TaskId) : Pc → Prop
  | .out => True
  | .entered a => a.Aligned → a.useIrq ≠ 0 → ¬Failed s.status
  | .lockAlloc a | .scanSlot a _ | .takeSlot a _ | .unlockAlloc a => a.useIrq ≠ 0 → ¬Failed s.status
  | .own a _ k =>
    match k with
    | .unlock | .command => a.useIrq ≠ 0 → ¬Failed s.status
    | .irqEnable | .setGtid | .itDisable | .setNorun | .launch => ¬Failed s.status
    | .setActive | .switch | .switched | .itRestore | .getStatus =>
      (s.outcome t = some true → s.Announced) ∧ (Failed s.status → s.outcome t = some true)
    | .pollLaunch => True
    | .irqDisable | .poll | .readPxis => s.outcome t = some true → Failed s.device.pxis
    | .resetPxis pxis | .release pxis | .clearSlot pxis =>
      Failed pxis ↔ s.outcome t = some true
  | .returned a v => a.Aligned → ∃ failed, s.outcome t = some failed ∧ (v = 0 ↔ failed = false)

/-- What holds, besides the invariant of the driver, where the results are attributed. -/
structure StatusInv (c : Platform) (s : State) : Prop where
  task : ∀ t, PcStatus s t (s.pc t)
  failing : Failed s.device.pxis → ∃ t, Failing c s t
  saved : ∀ pxis, s.isr = .setStatus pxis → Failed pxis → Failed s.device.pxis
  unset : s.isr = .readPxis ∨ (∃ pxis, s.isr = .setStatus pxis) → ¬Failed s.status

theorem not_failed_zero : ¬Failed 0 := by decide

theorem failed_or {v w : BitVec 32} : Failed (v ||| w) ↔ Failed v ∨ Failed w := by
  have hmask : (v ||| w) &&& errorMask = (v &&& errorMask) ||| (w &&& errorMask) := by
    simp only [BitVec.and_comm _ errorMask, BitVec.and_or_distrib_left]
  rw [Failed, hmask]
  exact (not_congr BitVec.or_eq_zero_iff).trans not_and_or

theorem Initial.statusInv (h : Initial c s) : StatusInv c s where
  task t := by
    rw [h.pc t]
    trivial
  failing hf := by
    rw [h.pxis] at hf
    exact absurd hf not_failed_zero
  saved pxis hisr := by cases h.isr.symm.trans hisr
  unset hisr := by
    rw [h.status]
    exact not_failed_zero

/-! ## Frames -/

/-- A call that no longer uses the status words. -/
theorem PcStatus.of_not_active {pc : Pc} (h : PcStatus s t pc) (hpc : ¬pc.Active)
    (hout : s'.outcome t = s.outcome t) : PcStatus s' t pc := by
  cases pc with
  | out => trivial
  | entered a => exact fun ha => absurd ha hpc
  | lockAlloc | scanSlot | takeSlot | unlockAlloc => exact absurd trivial hpc
  | own a slot k =>
    cases k with
    | release | clearSlot =>
      simp only [PcStatus, hout]
      exact h
    | _ => exact absurd trivial hpc
  | returned a v =>
    simp only [PcStatus, hout]
    exact h

/-- What a call relies on: errors stay until they are saved, and no error is saved. -/
theorem PcStatus.mono {pc : Pc} (h : PcStatus s t pc) (hout : s'.outcome t = s.outcome t)
    (hannounced : s.Announced → s'.Announced) (hstatus : Failed s'.status → Failed s.status)
    (hpxis : Failed s.device.pxis → Failed s'.device.pxis) : PcStatus s' t pc := by
  cases pc with
  | out => trivial
  | entered a => exact fun ha hirq hf => h ha hirq (hstatus hf)
  | lockAlloc | scanSlot | takeSlot | unlockAlloc => exact fun hirq hf => h hirq (hstatus hf)
  | own a slot k =>
    cases k with
    | unlock | command => exact fun hirq hf => h hirq (hstatus hf)
    | irqEnable | setGtid | itDisable | setNorun | launch => exact fun hf => h (hstatus hf)
    | setActive | switch | switched | itRestore | getStatus =>
      simp only [PcStatus, hout]
      exact ⟨fun hfailed => hannounced (h.1 hfailed), fun hf => h.2 (hstatus hf)⟩
    | pollLaunch => trivial
    | irqDisable | poll | readPxis =>
      simp only [PcStatus, hout]
      exact fun hfailed => hpxis (h hfailed)
    | resetPxis | release | clearSlot =>
      simp only [PcStatus, hout]
      exact h
  | returned a v =>
    simp only [PcStatus, hout]
    exact h

/-- The error in PXIS belongs to the only call that uses the status words. -/
theorem StatusInv.failing_of_active (h : StatusInv c s) (hf : Failed s.device.pxis)
    (ht : (s.pc t).Active) : Failing c s t := by
  obtain ⟨u, hu⟩ := h.failing hf
  by_cases hut : t = u
  · exact hut ▸ hu
  · exact absurd ht (hu.alone t hut)

/-! ## Steps of the tasks -/

/-- A step makes no call use the status words. -/
theorem TaskStep.active (h : TaskStep c t s s') (hpc : (s'.pc t).Active) : (s.pc t).Active := by
  have hself {pc : Pc} (heq : s'.pc t = pc) : pc.Active := heq ▸ hpc
  cases h with
  | misaligned | releaseError | clearSlot => exact (hself (Function.update_self ..)).elim
  | release => exact (hself (Function.update_self ..)).elim
  | aligned a hpc' ha => exact hpc' ▸ ha
  | lockAlloc _ hpc' | scanFree _ _ hpc' | scanUsed _ _ hpc' | scanEnd _ _ hpc'
  | takeSlot _ _ hpc' | retry _ hpc' => exact hpc' ▸ trivial
  | _ => simp only [*, Pc.Active]

/-- A call that no longer uses the status words leaves the interrupts of the device as they
are. -/
theorem TaskStep.pxie_of_not_active (h : TaskStep c t s s') (hpc : ¬(s.pc t).Active) :
    s'.device.pxie = s.device.pxie := by
  cases h with
  | irqEnable _ _ hpc' | irqDisable _ _ hpc' =>
    rw [hpc'] at hpc
    exact absurd trivial hpc
  | _ => rfl

/-- The call to which the error in PXIS belongs goes on. -/
theorem Failing.self (hf : Failing c s t) (h : Inv c s) (hrun : s.sched.Running t)
    (hstep : TaskStep c t s s') (hpxis : Failed s'.device.pxis) : Failing c s' t := by
  obtain ⟨hout, halone, a, slot, k, hpc, hpoint⟩ := hf
  have halone' (u : TaskId) (hut : u ≠ t) : ¬(s'.pc u).Active := by
    rw [hstep.pc_of_ne hut]
    exact halone u hut
  have hnext {k' : Phase} (hpc' : s'.pc t = .own a slot k')
      (hpoint' : (k'.Waits ∧ s'.sched.Blocked c t ∧ s'.isr.Announces ∨
        (k'.Polls ∨ ∃ pxis, k' = .resetPxis pxis) ∧ s'.device.pxie = 0 ∧ s'.isr = .none))
      (hout' : s'.outcome t = s.outcome t) : Failing c s' t :=
    ⟨hout'.trans hout, halone', a, slot, k', hpc', hpoint'⟩
  cases hstep with
  | setActive a' slot' hpc' =>
    cases hpc.symm.trans hpc'
    obtain ⟨-, hpoint⟩ | ⟨(hk | hk | hk) | ⟨w, hk⟩, -⟩ := hpoint
    · exact hnext (Function.update_self ..) (Or.inl ⟨Or.inr (Or.inl rfl), hpoint⟩) rfl
    all_goals cases hk
  | switch a' slot' hpc' =>
    cases hpc.symm.trans hpc'
    obtain ⟨-, hpoint⟩ | ⟨(hk | hk | hk) | ⟨w, hk⟩, -⟩ := hpoint
    · exact hnext (Function.update_self ..) (Or.inl ⟨Or.inr (Or.inr rfl), hpoint⟩) rfl
    all_goals cases hk
  | resume a' slot' hpc' =>
    cases hpc.symm.trans hpc'
    obtain ⟨-, hb, -⟩ | ⟨(hk | hk | hk) | ⟨w, hk⟩, -⟩ := hpoint
    · exact absurd hb (h.selected t a slot hpc hrun)
    all_goals cases hk
  | irqDisable a' slot' hpc' =>
    cases hpc.symm.trans hpc'
    obtain ⟨hk | hk | hk, -⟩ | ⟨-, -, hisr⟩ := hpoint
    iterate 3 cases hk
    exact hnext (Function.update_self ..) (Or.inr ⟨Or.inl (Or.inr (Or.inl rfl)), rfl, hisr⟩) rfl
  | poll a' slot' hpc' =>
    cases hpc.symm.trans hpc'
    obtain ⟨hk | hk | hk, -⟩ | ⟨-, hpoint⟩ := hpoint
    iterate 3 cases hk
    exact hnext (Function.update_self ..) (Or.inr ⟨Or.inl (Or.inr (Or.inr rfl)), hpoint⟩) rfl
  | readPxis a' slot' hpc' =>
    cases hpc.symm.trans hpc'
    obtain ⟨hk | hk | hk, -⟩ | ⟨-, hpoint⟩ := hpoint
    iterate 3 cases hk
    exact hnext (Function.update_self ..) (Or.inr ⟨Or.inr ⟨_, rfl⟩, hpoint⟩) rfl
  | resetPxis => exact absurd hpxis not_failed_zero
  | misaligned | aligned | lockAlloc | scanFree | scanUsed | scanEnd | takeSlot | retry =>
    cases hpc.symm.trans (by assumption)
  | _ =>
    cases hpc.symm.trans (by assumption)
    obtain ⟨hk | hk | hk, -⟩ | ⟨(hk | hk | hk) | ⟨w, hk⟩, -⟩ := hpoint <;> cases hk

/-- The error in PXIS goes on belonging to its call. -/
theorem StatusInv.failing_taskStep (hs : StatusInv c s) (h : Inv c s) (hrun : s.sched.Running t)
    (hstep : TaskStep c t s s') (hold : Failed s.device.pxis) (hpxis : Failed s'.device.pxis) :
    ∃ u, Failing c s' u := by
  obtain ⟨u, hu⟩ := hs.failing hold
  by_cases hut : u = t
  · subst hut
    exact ⟨u, hu.self h hrun hstep hpxis⟩
  · have hnot := hu.alone t (Ne.symm hut)
    obtain ⟨a, slot, k, hpc, hpoint⟩ := hu.point
    refine ⟨u, (hstep.outcome_of_ne hut).trans hu.outcome, fun v hvu hv => ?_, a, slot, k,
      (hstep.pc_of_ne hut).trans hpc, ?_⟩
    · by_cases hvt : v = t
      · subst hvt
        exact hnot (hstep.active hv)
      · rw [hstep.pc_of_ne hvt] at hv
        exact hu.alone v hvu hv
    · rw [hstep.blocked_of_ne hut, hstep.isr, hstep.pxie_of_not_active hnot]
      exact hpoint

/-- A descheduling call whose task is selected finds its own error announced only if it is
saved. -/
theorem StatusInv.saved_of_announced (hs : StatusInv c s) {a : Args} {k : Phase}
    (hpc : s.pc t = .own a slot k) (hk : k = .getStatus) (hannounced : s.Announced) :
    Failed s.status := by
  subst hk
  rcases hannounced with hst | ⟨hpxis, -⟩
  · exact hst
  · obtain ⟨a', slot', k, hpc', hpoint⟩ :=
      (hs.failing_of_active hpxis (by rw [hpc]; trivial)).point
    cases hpc.symm.trans hpc'
    obtain ⟨hk | hk | hk, -⟩ | ⟨(hk | hk | hk) | ⟨w, hk⟩, -⟩ := hpoint <;> cases hk

/-- A step of a task keeps what holds of its own call. -/
theorem StatusInv.self (hs : StatusInv c s) (h : Inv c s) (hstep : TaskStep c t s s') :
    PcStatus s' t (s'.pc t) := by
  have hold {pc : Pc} (heq : s.pc t = pc) : PcStatus s t pc := heq ▸ hs.task t
  have hnew {pc : Pc} (heq : s'.pc t = pc) (hok : PcStatus s' t pc) : PcStatus s' t (s'.pc t) :=
    heq ▸ hok
  have hmode {a : Args} {slot : ℕ} {k : Phase} (hpc : s.pc t = .own a slot k) : k.Mode a :=
    (h.phase t a slot k hpc).1
  cases hstep with
  | misaligned a hpc ha => exact hnew (Function.update_self ..) fun ha' => absurd ha' ha
  | aligned a hpc ha => exact hnew (Function.update_self ..) (hold hpc ha)
  | lockAlloc a hpc => exact hnew (Function.update_self ..) (hold hpc)
  | scanFree a slot hpc => exact hnew (Function.update_self ..) (hold hpc)
  | scanUsed a slot hpc => exact hnew (Function.update_self ..) (hold hpc)
  | scanEnd a slot hpc => exact hnew (Function.update_self ..) (hold hpc)
  | takeSlot a slot hpc => exact hnew (Function.update_self ..) (hold hpc)
  | retry a hpc => exact hnew (Function.update_self ..) (hold hpc)
  | unlock a slot hpc => exact hnew (Function.update_self ..) (hold hpc)
  | command a slot hpc =>
    refine hnew (Function.update_self ..) ?_
    split
    · trivial
    · rename_i hirq
      exact hold hpc hirq
  | irqEnable a slot hpc => exact hnew (Function.update_self ..) (hold hpc)
  | setGtid a slot hpc => exact hnew (Function.update_self ..) (hold hpc)
  | itDisable a slot hpc => exact hnew (Function.update_self ..) (hold hpc)
  | setNorun a slot hpc => exact hnew (Function.update_self ..) (hold hpc)
  | launch a slot hpc =>
    refine hnew (Function.update_self ..) ⟨fun hout => ?_, fun hf => absurd hf (hold hpc)⟩
    cases (Function.update_self ..).symm.trans hout
  | setActive a slot hpc => exact hnew (Function.update_self ..) (hold hpc)
  | switch a slot hpc => exact hnew (Function.update_self ..) (hold hpc)
  | resume a slot hpc => exact hnew (Function.update_self ..) (hold hpc)
  | itRestore a slot hpc => exact hnew (Function.update_self ..) (hold hpc)
  | getStatus a slot hpc =>
    obtain ⟨hannounced, hst⟩ := hold hpc
    exact hnew (Function.update_self ..)
      ⟨hst, fun hout => hs.saved_of_announced hpc rfl (hannounced hout)⟩
  | pollLaunch a slot hpc =>
    refine hnew (Function.update_self ..) fun hout => ?_
    cases (Function.update_self ..).symm.trans hout
  | irqDisable a slot hpc => exact hnew (Function.update_self ..) (hold hpc)
  | poll a slot hpc => exact hnew (Function.update_self ..) (hold hpc)
  | readPxis a slot hpc =>
    exact hnew (Function.update_self ..)
      ⟨fun hf => (hs.failing_of_active hf (by rw [hpc]; trivial)).outcome, hold hpc⟩
  | resetPxis a slot pxis hpc => exact hnew (Function.update_self ..) (hold hpc)
  | releaseError a slot pxis hpc hfree =>
    cases (h.allocated t slot (Pc.own_owns hpc)).2.symm.trans hfree
  | release a slot pxis hpc => exact hnew (Function.update_self ..) (hold hpc)
  | clearSlot a slot pxis hpc =>
    refine hnew (Function.update_self ..) fun ha => ?_
    have hdone : s.outcome t ≠ none := (h.phase t a slot _ hpc).2.2
    obtain ⟨failed, hout⟩ := Option.ne_none_iff_exists'.mp hdone
    refine ⟨failed, hout, ?_⟩
    have hvalue : Failed pxis ↔ s.outcome t = some true := hold hpc
    rw [hout, Option.some.injEq] at hvalue
    cases failed with
    | true =>
      rw [if_pos (hvalue.mpr rfl)]
      exact iff_of_false (fun hzero => not_failed_zero (hzero ▸ hvalue.mpr rfl)) nofun
    | false =>
      rw [if_neg fun hf => Bool.noConfusion (hvalue.mp hf)]
      exact iff_of_true rfl rfl

/-- A task that resets PXIS after it has polled a command. -/
theorem StatusInv.resetPxis (hs : StatusInv c s) (h : Inv c s) {a : Args} {pxis : BitVec 32}
    (hpc : s.pc t = .own a slot (.resetPxis pxis)) (hstep : TaskStep c t s s') :
    StatusInv c s' := by
  have hzero : s'.device.pxis = 0 := by
    cases hstep with
    | resetPxis => rfl
    | _ => cases hpc.symm.trans (by assumption)
  have hfailing (hf : Failed s.device.pxis) : Failing c s t ∧ s.isr = .none := by
    have ht := hs.failing_of_active hf (by rw [hpc]; trivial)
    refine ⟨ht, ?_⟩
    obtain ⟨a', slot', k, hpc', hpoint⟩ := ht.point
    cases hpc.symm.trans hpc'
    obtain ⟨hk | hk | hk, -⟩ | ⟨-, -, hisr⟩ := hpoint
    iterate 3 cases hk
    exact hisr
  refine ⟨fun u => ?_, fun hf => ?_, ?_, ?_⟩
  · by_cases hut : u = t
    · subst hut
      exact hs.self h hstep
    · rw [hstep.pc_of_ne hut]
      by_cases hf : Failed s.device.pxis
      · exact (hs.task u).of_not_active ((hfailing hf).1.alone u hut) (hstep.outcome_of_ne hut)
      · refine (hs.task u).mono (hstep.outcome_of_ne hut) ?_ ?_ fun hf' => absurd hf' hf
        · rw [State.Announced, State.Announced, hstep.status]
          exact fun hannounced => Or.inl (hannounced.resolve_right fun hp => hf hp.1)
        · rw [hstep.status]
          exact id
  · rw [hzero] at hf
    exact absurd hf not_failed_zero
  · rw [hstep.isr]
    intro w hisr hw
    cases (hfailing (hs.saved w hisr hw)).2.symm.trans hisr
  · rw [hstep.isr, hstep.status]
    exact hs.unset

/-- Every step of a task keeps the invariant. -/
theorem StatusInv.taskStep (hs : StatusInv c s) (h : Inv c s) (hrun : s.sched.Running t)
    (hstep : TaskStep c t s s') : StatusInv c s' := by
  by_cases hreset : ∃ a slot pxis, s.pc t = .own a slot (.resetPxis pxis)
  · obtain ⟨a, slot, pxis, hpc⟩ := hreset
    exact hs.resetPxis h hpc hstep
  · have hpxis : s'.device.pxis = s.device.pxis :=
      hstep.pxis fun a slot pxis hpc => hreset ⟨a, slot, pxis, hpc⟩
    refine ⟨fun u => ?_, fun hf => ?_, ?_, ?_⟩
    · by_cases hut : u = t
      · subst hut
        exact hs.self h hstep
      · rw [hstep.pc_of_ne hut]
        refine (hs.task u).mono (hstep.outcome_of_ne hut) ?_ ?_ ?_
        · rw [State.Announced, State.Announced, hstep.status, hpxis, hstep.isr]
          exact id
        · rw [hstep.status]
          exact id
        · rw [hpxis]
          exact id
    · exact hs.failing_taskStep h hrun hstep (hpxis ▸ hf) hf
    · rw [hstep.isr, hpxis]
      exact hs.saved
    · rw [hstep.isr, hstep.status]
      exact hs.unset

/-! ## Steps of the other parties -/

/-- A call starts. -/
theorem StatusInv.call (hs : StatusInv c s) {a : Args} (hok : Separate s (.call t a))
    (hpc : s.pc t = .out ∨ ∃ a' v, s.pc t = .returned a' v) :
    StatusInv c (s.goto t (.entered a)) := by
  have hown (a' : Args) (slot : ℕ) (k : Phase) : s.pc t ≠ .own a' slot k := by
    intro heq
    rcases hpc with hpc | ⟨a'', v, hpc⟩ <;> cases hpc.symm.trans heq
  refine ⟨?_, fun hf => ?_, hs.saved, hs.unset⟩
  · exact forall_update (P := fun u pc => PcStatus s u pc) (fun ha => (hok ha).2)
      fun u _ => hs.task u
  · obtain ⟨u, hu⟩ := hs.failing hf
    obtain ⟨a', slot, k, hpc', hpoint⟩ := hu.point
    have hut : u ≠ t := by
      rintro rfl
      exact hown a' slot k hpc'
    refine ⟨u, hu.outcome, ?_, a', slot, k, (Function.update_of_ne hut _ _).trans hpc', hpoint⟩
    exact forall_update (P := fun v pc => v ≠ u → ¬pc.Active) (fun _ ha => (hok ha).1 hf)
      fun v _ => hu.alone v

/-- A step of the schedulers. -/
theorem StatusInv.schedStep (hs : StatusInv c s) {masked : TaskId → Prop} {sched : Sched}
    (hstep : SchedStep c masked s.sched sched) : StatusInv c { s with sched } := by
  refine ⟨hs.task, fun hf => ?_, hs.saved, hs.unset⟩
  obtain ⟨t, ht⟩ := hs.failing hf
  obtain ⟨a, slot, k, hpc, hpoint⟩ := ht.point
  refine ⟨t, ht.outcome, ht.alone, a, slot, k, hpc, hpoint.imp_left fun hw => ?_⟩
  exact ⟨hw.1, hstep.blocked.mpr hw.2.1, hw.2.2⟩

/-- The device completes a command without an error. -/
theorem StatusInv.completeDone (hs : StatusInv c s) (h : Inv c s) {result : BitVec 32}
    (hbusy : s.device.pxci slot = true) (hresult : ¬Failed result) :
    StatusInv c (s.complete slot result) := by
  obtain ⟨t, a, k, hpc, ⟨hissuer, hlaunched⟩, hk⟩ := h.exists_launched hbusy
  have hnone : s.outcome t = none := hlaunched.mp hbusy
  have hactive : (s.pc t).Active := by
    rw [hpc]
    rcases hk with rfl | (rfl | rfl) | rfl | rfl <;> trivial
  -- an error in PXIS would belong to this command, which is in progress
  have hclear : ¬Failed s.device.pxis := by
    intro hf
    cases hnone.symm.trans (hs.failing_of_active hf hactive).outcome
  have hclear' : ¬Failed (s.complete slot result).device.pxis :=
    fun hf => (failed_or.mp hf).elim hclear hresult
  refine ⟨fun u => ?_, fun hf => absurd hf hclear',
    fun w hisr hw => absurd (hs.saved w hisr hw) hclear, hs.unset⟩
  by_cases hut : u = t
  · subst hut
    have hout : (s.complete slot result).outcome u ≠ some true := by
      simp [State.complete, hissuer, hresult]
    have hok := hs.task u
    change PcStatus _ u (s.pc u)
    rw [hpc] at hok ⊢
    rcases hk with rfl | (rfl | rfl) | rfl | rfl
    iterate 3
      refine ⟨fun heq => absurd heq hout, fun hf => ?_⟩
      cases hnone.symm.trans (hok.2 hf)
    all_goals exact fun heq => absurd heq hout
  · refine (hs.task u).mono (Function.update_of_ne (hissuer ▸ hut) _ _) (fun hannounced => ?_) id
      fun hf => absurd hf hclear
    exact Or.inl (hannounced.resolve_right fun hp => hclear hp.1)

/-- The device completes a command with an error. -/
theorem StatusInv.completeFailed (hs : StatusInv c s) (h : Inv c s) {result : BitVec 32}
    (hbusy : s.device.pxci slot = true) (hresult : Failed result)
    (hok : Separate s (.complete slot result)) : StatusInv c (s.complete slot result) := by
  obtain ⟨t, a, k, hpc, ⟨hissuer, hlaunched⟩, hk⟩ := h.exists_launched hbusy
  obtain ⟨halone, hisr, hpolled⟩ := hok hresult
  rw [hissuer] at halone hpolled
  have hpxis : Failed (s.complete slot result).device.pxis := failed_or.mpr (Or.inr hresult)
  have hout : (s.complete slot result).outcome t = some true := by
    simp [State.complete, hissuer, hresult]
  have hannounced : (s.complete slot result).Announced := by
    refine Or.inr ⟨hpxis, ?_⟩
    change s.isr.Saves
    rw [hisr]
    trivial
  refine ⟨fun u => ?_, fun _ => ⟨t, hout, halone, a, slot, k, hpc, ?_⟩,
    fun w hisr' => ?_, hs.unset⟩
  · by_cases hut : u = t
    · subst hut
      change PcStatus _ u (s.pc u)
      rw [hpc]
      rcases hk with rfl | (rfl | rfl) | rfl | rfl
      iterate 3 exact ⟨fun _ => hannounced, fun _ => hout⟩
      all_goals exact fun _ => hpxis
    · exact (hs.task u).of_not_active (halone u hut) (Function.update_of_ne (hissuer ▸ hut) _ _)
  · obtain ⟨hmode, hphase⟩ := h.phase t a slot k hpc
    have hnot : ¬s.Idle slot := fun hidle => by cases hidle.1.symm.trans hbusy
    have hannounces : (s.complete slot result).isr.Announces := by
      change s.isr.Announces
      rw [hisr]
      trivial
    rcases hk with rfl | hk | hk
    · exact Or.inl ⟨Or.inl rfl, hphase.2.2.2, hannounces⟩
    · refine Or.inl ⟨Or.inr hk, ?_, hannounces⟩
      rcases hk with rfl | rfl
      · exact (hphase.2.2.resolve_right fun hw => hnot hw.2.1).1
      · exact (hphase.2.2.resolve_right fun hw => hnot hw.2.1).1
    · refine Or.inr ⟨Or.inl ?_, hpolled a k hpc ?_, hisr⟩
      · rcases hk with rfl | rfl
        · exact Or.inl rfl
        · exact Or.inr (Or.inl rfl)
      · rcases hk with rfl | rfl
        · exact hmode
        · exact hmode
  · cases hisr.symm.trans hisr'

/-- A step of the handler before it resets PXIS. -/
theorem StatusInv.isrMove (hs : StatusInv c s) {isr : IsrPc} (hannounces : isr.Announces)
    (hnone : s.isr = .none → s.device.pxie ≠ 0)
    (hsaves : Failed s.device.pxis → s.isr.Saves → Failed s.status ∨ isr.Saves)
    (hsaved : ∀ pxis, isr = .setStatus pxis → Failed pxis → Failed s.device.pxis)
    (hunset : isr = .readPxis ∨ (∃ pxis, isr = .setStatus pxis) → ¬Failed s.status) :
    StatusInv c { s with isr } := by
  refine ⟨fun u => ?_, fun hf => ?_, hsaved, hunset⟩
  · refine (hs.task u).mono rfl (fun hannounced => ?_) id id
    rcases hannounced with hst | ⟨hpxis, hold⟩
    · exact Or.inl hst
    · exact (hsaves hpxis hold).imp_right fun hnew => ⟨hpxis, hnew⟩
  · obtain ⟨t, hout, halone, a, slot, k, hpc, hw | hp⟩ := hs.failing hf
    · exact ⟨t, hout, halone, a, slot, k, hpc, Or.inl ⟨hw.1, hw.2.1, hannounces⟩⟩
    · exact absurd hp.2.1 (hnone hp.2.2)

/-- A step of the handler after it has reset PXIS. -/
theorem StatusInv.isrRest (hs : StatusInv c s) {isr : IsrPc} {active : ℕ → Bool} {sched : Sched}
    (hold : ¬s.isr.Announces) (hnew : isr = .none ∨ ¬isr.Announces) :
    StatusInv c { s with isr, active, sched } := by
  have hclear : ¬Failed s.device.pxis := by
    intro hf
    obtain ⟨t, -, -, a, slot, k, -, hw | hp⟩ := hs.failing hf
    · exact hold hw.2.2
    · exact hold (hp.2.2 ▸ trivial)
  refine ⟨fun u => ?_, fun hf => absurd hf hclear, fun w hisr => ?_, fun hisr => ?_⟩
  · refine (hs.task u).mono rfl (fun hannounced => ?_) id id
    exact Or.inl (hannounced.resolve_right fun hp => hclear hp.1)
  · obtain rfl : isr = .setStatus w := hisr
    rcases hnew with hnew | hnew
    · cases hnew
    · exact absurd trivial hnew
  · obtain rfl | ⟨w, rfl⟩ : isr = .readPxis ∨ ∃ w, isr = .setStatus w := hisr
    · rcases hnew with hnew | hnew
      · cases hnew
      · exact absurd trivial hnew
    · rcases hnew with hnew | hnew
      · cases hnew
      · exact absurd trivial hnew

/-- The handler saves PXIS. -/
theorem StatusInv.setStatus (hs : StatusInv c s) {pxis : BitVec 32}
    (hpc : s.isr = .setStatus pxis) :
    StatusInv c { s with isr := .resetPxis, status := pxis } := by
  refine ⟨fun u => ?_, fun hf => ?_, nofun, fun hisr => ?_⟩
  · by_cases hf : Failed pxis
    · obtain ⟨t, hout, halone, a, slot, k, hown, hw | hp⟩ := hs.failing (hs.saved pxis hpc hf)
      · by_cases hut : u = t
        · subst hut
          change PcStatus _ u (s.pc u)
          rw [hown]
          rcases hw.1 with rfl | rfl | rfl
          all_goals exact ⟨fun _ => Or.inl hf, fun _ => hout⟩
        · exact (hs.task u).of_not_active (halone u hut) rfl
      · cases hpc.symm.trans hp.2.2
    · refine (hs.task u).mono rfl (fun hannounced => ?_) (fun hst => absurd hst hf) id
      rcases hannounced with hst | ⟨-, hsaves⟩
      · exact absurd hst (hs.unset (Or.inr ⟨pxis, hpc⟩))
      · rw [hpc] at hsaves
        exact absurd hsaves hf
  · obtain ⟨t, hout, halone, a, slot, k, hpc', hw | hp⟩ := hs.failing hf
    · exact ⟨t, hout, halone, a, slot, k, hpc', Or.inl ⟨hw.1, hw.2.1, trivial⟩⟩
    · cases hpc.symm.trans hp.2.2
  · rcases hisr with hisr | ⟨w, hisr⟩ <;> cases hisr

/-- The handler resets PXIS. -/
theorem StatusInv.isrReset (hs : StatusInv c s) (hpc : s.isr = .resetPxis) {active : ℕ → Bool} :
    StatusInv c { s with
      isr := .snapshot 0 active
      device := { s.device with pxis := 0 } } := by
  have hannounced (h : s.Announced) : Failed s.status :=
    h.resolve_right fun hp => by
      rw [hpc] at hp
      exact hp.2
  refine ⟨fun u => ?_, fun hf => absurd hf not_failed_zero, nofun, fun hisr => ?_⟩
  · by_cases hf : Failed s.device.pxis
    · by_cases hactive : (s.pc u).Active
      · obtain ⟨hout, -, a, slot, k, hown, hw | hp⟩ := hs.failing_of_active hf hactive
        · have hok := hs.task u
          change PcStatus _ u (s.pc u)
          rw [hown] at hok ⊢
          rcases hw.1 with rfl | rfl | rfl
          all_goals exact ⟨fun heq => Or.inl (hannounced (hok.1 heq)), hok.2⟩
        · cases hpc.symm.trans hp.2.2
      · exact (hs.task u).of_not_active hactive rfl
    · exact (hs.task u).mono rfl (fun h => Or.inl (hannounced h)) id fun hf' => absurd hf' hf
  · rcases hisr with hisr | ⟨w, hisr⟩ <;> cases hisr

/-- Every step of the handler keeps the invariant. -/
theorem StatusInv.isrStep (hs : StatusInv c s) (hstep : IsrStep c s s') : StatusInv c s' := by
  have hne {pc : IsrPc} (h : s.isr = pc) (hpc : pc ≠ .none) (hnone : s.isr = .none) :
      s.device.pxie ≠ 0 := absurd (h.symm.trans hnone) hpc
  cases hstep with
  | enter hpc hirq =>
    exact hs.isrMove trivial (fun _ => hirq.2) (fun _ _ => Or.inr trivial) nofun
      (by rintro (hisr | ⟨w, hisr⟩) <;> cases hisr)
  | keepStatus hpc hst =>
    exact hs.isrMove trivial (hne hpc nofun) (fun _ _ => Or.inl hst) nofun
      (by rintro (hisr | ⟨w, hisr⟩) <;> cases hisr)
  | newStatus hpc hst =>
    exact hs.isrMove trivial (hne hpc nofun) (fun _ _ => Or.inr trivial) nofun fun _ => hst
  | readPxis hpc =>
    refine hs.isrMove trivial (hne hpc nofun) (fun hf _ => Or.inr hf) (fun w hw hf => ?_)
      fun _ => hs.unset (Or.inl hpc)
    cases hw
    exact hf
  | setStatus pxis hpc => exact hs.setStatus hpc
  | resetPxis hpc => exact hs.isrReset hpc
  | exit slot active pxci hpc => exact hs.isrRest (by rw [hpc]; exact id) (Or.inl rfl)
  | snapshot slot active hpc | readPxci slot active hpc | deactivate slot active pxci hpc
  | skip slot active pxci hpc | readProcid slot active pxci hpc
  | readLtid slot active pxci procid hpc | clearNorun slot active pxci procid ltid hpc
  | sendWti slot active pxci procid hpc =>
    exact hs.isrRest (by rw [hpc]; exact id) (Or.inr id)

/-- Every step that meets the condition keeps the invariant. -/
theorem StatusInv.step (hs : StatusInv c s) (h : Inv c s) {action : Action}
    (hok : Separate s action) (hstep : Step c s action s') : StatusInv c s' := by
  cases hstep with
  | call t a ht hrun hpc => exact hs.call hok hpc
  | task t ht hrun hstep => exact hs.taskStep h hrun hstep
  | sched hstep => exact hs.schedStep hstep
  | complete slot result hbusy =>
    by_cases hresult : Failed result
    · exact hs.completeFailed h hbusy hresult hok
    · exact hs.completeDone h hbusy hresult
  | isr hstep => exact hs.isrStep hstep

theorem Run.statusInv (h : Run c Separate s) : StatusInv c s := by
  induction h with
  | init h => exact h.statusInv
  | step hrun hok hstep ih => exact ih.step hrun.inv hok hstep

/-! ## The property of the driver -/

/-- In runs whose failed commands are separate from the other calls, each call returns 0 if
and only if its own command has succeeded. -/
theorem hbaAccess_attributes (h : Run c Separate s) {a : Args} {v : BitVec 32}
    (hpc : s.pc t = .returned a v) (ha : a.Aligned) :
    ∃ failed, s.outcome t = some failed ∧ (v = 0 ↔ failed = false) := by
  have hok := h.statusInv.task t
  rw [hpc] at hok
  exact hok ha

/-- One task and a command that fails: the call returns the error. -/
theorem hbaAccess_attributes_error : ∃ (c : Platform) (s : State) (t : TaskId) (a : Args),
    Run c Separate s ∧ s.pc t = .returned a errorMask ∧
      ∃ failed, s.outcome t = some failed ∧ (errorMask = 0 ↔ failed = false) := by
  let c : Platform := ⟨0, 0, 1, fun _ => 1, by decide, fun _ => by decide⟩
  let t : TaskId := ⟨0, 0⟩
  let a : Args := ⟨1, 1, 7, 0x1000, 2⟩
  let s : State := ⟨⟨fun _ => 0, fun _ => 0, fun _ => none⟩, ⟨fun _ => false, 0, 0⟩, none,
    fun _ => false, fun _ => false, fun _ => 0, 0, .none, fun _ => .out, fun _ => t, fun _ => none⟩
  have ht : c.Task t := ⟨by decide, by decide⟩
  have ha : a.Aligned := show 0x1000 &&& 0x3F = 0 by decide
  have hrun : s.sched.Running t := ⟨rfl, rfl⟩
  have hinit : Run c Separate s := .init ⟨fun _ => rfl, fun _ => rfl, rfl, rfl, rfl, fun _ => rfl,
    fun _ => rfl, rfl, rfl, fun _ _ h => h BitVec.zero_and⟩
  have hcomplete : Separate (s.asleep c t a) (.complete 0 errorMask) := by
    refine fun _ => ⟨fun u hut => ?_, rfl, fun a' k hpc hirq => ?_⟩
    · rw [show (s.asleep c t a).pc u = .out from Function.update_of_ne hut _ _]
      exact id
    · cases hpc
      cases hirq
  have hcall := hinit.called a errorMask (t := t) (fun _ => ⟨by decide, fun _ => by decide⟩)
    (fun _ => trivial) (fun _ => trivial) (fun _ => trivial) hcomplete (by decide) rfl ht hrun rfl
    (Or.inl rfl) ha Nat.one_ne_zero rfl rfl rfl fun _ => rfl
  have hpc : (s.called c t a errorMask).pc t = .returned a errorMask := by
    rw [State.called_pc, if_neg (by decide), if_pos (by decide)]
    exact congrArg (Pc.returned a) BitVec.zero_or
  exact ⟨c, _, t, a, hcall, hpc, hbaAccess_attributes hcall hpc ha⟩

/-- One task and two commands: the first one fails, and the second one succeeds and its call
returns the error of the first one. -/
theorem hbaAccess_keeps_error : ∃ (c : Platform) (s : State) (t : TaskId) (a : Args),
    Run c (fun _ _ => True) s ∧ a.Aligned ∧ s.pc t = .returned a errorMask ∧
      s.outcome t = some false := by
  let c : Platform := ⟨0, 0, 1, fun _ => 1, by decide, fun _ => by decide⟩
  let t : TaskId := ⟨0, 0⟩
  let a : Args := ⟨1, 1, 7, 0x1000, 2⟩
  let s : State := ⟨⟨fun _ => 0, fun _ => 0, fun _ => none⟩, ⟨fun _ => false, 0, 0⟩, none,
    fun _ => false, fun _ => false, fun _ => 0, 0, .none, fun _ => .out, fun _ => t, fun _ => none⟩
  have ht : c.Task t := ⟨by decide, by decide⟩
  have ha : a.Aligned := show 0x1000 &&& 0x3F = 0 by decide
  have hrun : s.sched.Running t := ⟨rfl, rfl⟩
  have hinit : Run c (fun _ _ => True) s := .init ⟨fun _ => rfl, fun _ => rfl, rfl, rfl, rfl,
    fun _ => rfl, fun _ => rfl, rfl, rfl, fun _ _ h => h BitVec.zero_and⟩
  have hfirst := hinit.called a errorMask (t := t) trivial (fun _ => trivial)
    (fun _ => trivial) (fun _ => trivial) trivial (by decide) rfl ht hrun rfl (Or.inl rfl) ha
    Nat.one_ne_zero rfl rfl rfl fun _ => rfl
  obtain ⟨hrun', hnorun⟩ := Sched.resched_lone (s := s.sched) rfl ht hrun rfl
  have hsecond := hfirst.called a 1 (t := t) trivial (fun _ => trivial)
    (fun _ => trivial) (fun _ => trivial) trivial (by decide) rfl ht hrun' hnorun
    (Or.inr ⟨a, _, State.called_pc a errorMask⟩) ha Nat.one_ne_zero rfl rfl rfl fun slot => by
      exact congrFun (Function.update_eq_self 0 s.active) slot
  have herror : (s.called c t a errorMask).status = errorMask := by decide
  refine ⟨c, _, t, a, hsecond, ha, ?_, State.called_outcome a 1⟩
  rw [State.called_pc, herror, if_pos (by decide)]

end GietVm.Drivers.Hba
