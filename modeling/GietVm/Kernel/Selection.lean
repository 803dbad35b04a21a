import GietVm.Kernel.CtxSwitch

/-!
# The selection of the next task

A call of `_ctx_switch` tests the tasks in cyclic order from the one after the current task,
and handles the signals of each task before its test. The words of a task are changed by its own turn
only, so the outcome of the loop can be read off the state before the call.
-/

namespace GietVm.Kernel

open GietVm.Library
open GietVm.Drivers (idleTaskIndex)

variable {m : Mapping} {s s' : Psched} {t u : ℕ}

/-! ## The words after a turn -/

/-- A word without the bits of a mask is not changed when they are cleared. -/
theorem and_not_of_and_eq_zero {w mask : BitVec 32} (h : w &&& mask = 0) : w &&& ~~~mask = w := by
  ext i hi
  have hbit := congrArg (BitVec.getLsbD · i) h
  simp only [BitVec.getLsbD_and] at hbit
  rw [BitVec.getElem_and, BitVec.getElem_not, ← BitVec.getLsbD_eq_getElem hi,
    ← BitVec.getLsbD_eq_getElem hi]
  cases hw : w.getLsbD i with
  | false => rfl
  | true =>
    rw [hw, Bool.true_and] at hbit
    rw [hbit]
    simp

/-- The KILL signal is no longer pending after its handling. -/
theorem afterKill_sig (v : View) :
    v.afterKill.words ctxSigId = v.words ctxSigId &&& ~~~sigMaskKill := by
  rw [View.afterKill]
  split
  · change ackWords sigMaskKill _ ctxSigId = _
    rw [ackWords, Function.update_self, Function.update_of_ne (by decide)]
  · rename_i hkill
    exact (and_not_of_and_eq_zero (not_not.mp hkill)).symm

/-- The handling of the KILL signal does not change whether EXEC is pending. -/
theorem afterKill_exec (v : View) :
    v.afterKill.words ctxSigId &&& sigMaskExec = v.words ctxSigId &&& sigMaskExec := by
  rw [afterKill_sig, BitVec.and_assoc, show ~~~sigMaskKill &&& sigMaskExec = sigMaskExec by decide]

theorem afterExec_sig (v : View) :
    (v.afterExec m).words ctxSigId = v.words ctxSigId &&& ~~~sigMaskExec := by
  rw [View.afterExec]
  split
  · change ackWords sigMaskExec (execWords m v.words) ctxSigId = _
    have hexec : execWords m v.words ctxSigId = v.words ctxSigId := by
      simp [execWords, ctxSigId, ctxNorunId, ctxEpcId, ctxSpId, ctxSrId, ctxRaId]
    rw [ackWords, Function.update_self, hexec]
  · rename_i hexec
    exact (and_not_of_and_eq_zero (not_not.mp hexec)).symm

/-- A turn acknowledges both signals. -/
theorem handled_sig (v : View) : (v.handled m).words ctxSigId =
    v.words ctxSigId &&& ~~~sigMaskKill &&& ~~~sigMaskExec := by
  rw [View.handled, afterExec_sig, afterKill_sig]

/-- The NORUN word after a turn. -/
theorem handled_norun (v : View) : (v.handled m).words ctxNorunId =
    if v.words ctxSigId &&& sigMaskExec ≠ 0 then 0
    else if v.words ctxSigId &&& sigMaskKill ≠ 0 then v.words ctxNorunId ||| norunMaskTask
    else v.words ctxNorunId := by
  rw [View.handled, View.afterExec, afterKill_exec]
  split
  · change ackWords sigMaskExec (execWords m v.afterKill.words) ctxNorunId = 0
    rw [ackWords, Function.update_of_ne (by decide)]
    exact Function.update_self ..
  · rw [View.afterKill]
    split
    · change ackWords sigMaskKill _ ctxNorunId = _
      rw [ackWords, Function.update_of_ne (by decide)]
      exact Function.update_self ctxNorunId _ v.words
    · rfl

theorem handled_kills (v : View) : (v.handled m).kills =
    if v.words ctxSigId &&& sigMaskKill ≠ 0 then v.kills + 1 else v.kills := by
  have hexec : (v.handled m).kills = v.afterKill.kills := by
    rw [View.handled, View.afterExec]
    split <;> rfl
  rw [hexec, View.afterKill]
  split <;> rfl

theorem handled_execs (v : View) : (v.handled m).execs =
    if v.words ctxSigId &&& sigMaskExec ≠ 0 then v.execs + 1 else v.execs := by
  have hkill : v.afterKill.execs = v.execs := by
    rw [View.afterKill]
    split <;> rfl
  rw [View.handled, View.afterExec, afterKill_exec]
  split
  · change v.afterKill.execs + 1 = _
    rw [hkill]
  · exact hkill

/-- A task that is killed and not started again is not runnable. -/
theorem or_norunMaskTask_ne_zero (w : BitVec 32) : w ||| norunMaskTask ≠ 0 := by
  intro h
  have hbit := congrArg (BitVec.getLsbD · 0) h
  simp [norunMaskTask] at hbit

/-! ## The outcome of the loop -/

/-- The state in which the loop starts. -/
def Psched.cleared (s : Psched) : Psched := { s with applied := [] }

/-- The view of a task when the loop starts. -/
def Psched.before (s : Psched) (t : ℕ) : View := ⟨s.words t, 0, 0⟩

theorem pending_before (mask : BitVec 32) :
    s.Pending t mask ↔ (s.before t).words ctxSigId &&& mask ≠ 0 := pending_iff mask

/-- The word that is tested, in terms of the state before the call. -/
theorem norunTested_eq (ht : t < s.tasks) :
    norunTested m s t = ((s.before t).handled m).words ctxNorunId := by
  have hlt : ahead s.tasks (s.current + 1) t + 1 ≤ s.tasks := ahead_lt _ _ (Nat.zero_lt_of_lt ht)
  have hview := turns_view_eq (m := m) (s.current + 1) ht hlt s.cleared
  rw [if_pos (Nat.lt_succ_self _)] at hview
  have hwords := congrFun (congrArg View.words hview) ctxNorunId
  rw [norunTested, ← words_apply (s := turns _ _ _ _ _) (by decide)]
  exact hwords

theorem norunTested_cases (ht : t < s.tasks) : norunTested m s t =
    if s.Pending t sigMaskExec then 0
    else if s.Pending t sigMaskKill then s.context t ctxNorunId ||| norunMaskTask
    else s.context t ctxNorunId := by
  rw [norunTested_eq ht, handled_norun]
  simp only [pending_iff]
  rw [← words_apply (show ¬ChannelSlot ctxNorunId by decide)]
  rfl

/-- The loop stops at the first task whose word is zero at its test. -/
theorem selectTask_cases (htasks : 0 < s.tasks) :
    (∃ t, Met m s t ∧ norunTested m s t = 0 ∧ selectTask m s.cleared =
      (turns s.tasks (handleSignals m) (s.current + 1) (ahead s.tasks (s.current + 1) t + 1)
        s.cleared, some t)) ∨
    ((∀ t, t < s.tasks → norunTested m s t ≠ 0) ∧ selectTask m s.cleared =
      (turns s.tasks (handleSignals m) (s.current + 1) s.tasks s.cleared, none)) := by
  have htested {i : ℕ} (hi : i < s.tasks) (t : ℕ) (ht : (s.current + 1 + i) % s.tasks = t) :
      norunTested m s t = (turns s.tasks (handleSignals m) (s.current + 1) (i + 1)
        s.cleared).context t ctxNorunId := by
    rw [norunTested, ahead_eq hi ht]
    rfl
  have hfails {i : ℕ} (hi : i < s.tasks)
      (hfail : Fails s.tasks (handleSignals m) runnable (s.current + 1) i s.cleared) :
      norunTested m s ((s.current + 1 + i) % s.tasks) ≠ 0 := by
    rw [htested hi _ rfl]
    rw [Fails, runnable, decide_eq_false_iff_not] at hfail
    exact hfail
  rcases scanFrom_cases s.tasks (handleSignals m) runnable s.tasks (s.current + 1) s.cleared with
    ⟨j, hj, hbefore, hpass, heq⟩ | ⟨hall, heq⟩
  · refine Or.inl ⟨(s.current + 1 + j) % s.tasks, ⟨Nat.mod_lt _ htasks, fun u hu hahead => ?_⟩,
      ?_, ?_⟩
    · rw [ahead_eq hj rfl] at hahead
      have hne := hfails (ahead_lt _ _ htasks) (hbefore _ hahead)
      rwa [add_ahead hu] at hne
    · rw [htested hj _ rfl]
      exact of_decide_eq_true hpass
    · rw [ahead_eq hj rfl]
      exact heq
  · refine Or.inr ⟨fun t ht => ?_, heq⟩
    have hlt := ahead_lt (s.current + 1) t htasks
    have hne := hfails hlt (hall _ hlt)
    rwa [add_ahead ht] at hne

/-- The signals of a task that the loop reaches are handled. -/
theorem selectTask_view (h : Met m s t) :
    (selectTask m s.cleared).1.view t = (s.before t).handled m := by
  have htasks := Nat.zero_lt_of_lt h.1
  rcases selectTask_cases (m := m) htasks with ⟨u, hmet, hzero, heq⟩ | ⟨-, heq⟩
  · have hlt : ahead s.tasks (s.current + 1) u + 1 ≤ s.tasks := ahead_lt _ _ htasks
    have hnear : ahead s.tasks (s.current + 1) t < ahead s.tasks (s.current + 1) u + 1 := by
      by_contra hfar
      exact h.2 u hmet.1 (by omega) hzero
    have hview := turns_view_eq (m := m) (s.current + 1) h.1 hlt s.cleared
    rw [if_pos hnear] at hview
    rw [heq]
    exact hview
  · have hview := turns_view_eq (m := m) (s.current + 1) h.1 le_rfl s.cleared
    rw [if_pos (ahead_lt _ _ htasks)] at hview
    rw [heq]
    exact hview

/-- A task that the loop does not reach keeps its words. -/
theorem selectTask_view_of_not_met (htasks : 0 < s.tasks) (h : ¬Met m s t) :
    (selectTask m s.cleared).1.view t = s.before t := by
  by_cases ht : t < s.tasks
  · rcases selectTask_cases (m := m) htasks with ⟨u, hmet, -, heq⟩ | ⟨hall, -⟩
    · have hlt : ahead s.tasks (s.current + 1) u + 1 ≤ s.tasks := ahead_lt _ _ htasks
      have hfar : ¬ahead s.tasks (s.current + 1) t < ahead s.tasks (s.current + 1) u + 1 := by
        intro hnear
        exact h ⟨ht, fun v hv hahead => hmet.2 v hv (by omega)⟩
      have hview := turns_view_eq (m := m) (s.current + 1) ht hlt s.cleared
      rw [if_neg hfar] at hview
      rw [heq]
      exact hview
    · exact absurd ⟨ht, fun v hv _ => hall v hv⟩ h
  · have hview (count : ℕ) := turns_view_eq_of_le (m := m) (s.current + 1) count htasks
      (not_lt.mp ht) s.cleared
    rcases selectTask_cases (m := m) htasks with ⟨u, -, -, heq⟩ | ⟨-, heq⟩
    · rw [heq]
      exact hview _
    · rw [heq]
      exact hview _

/-- The loop changes neither the current task nor the registers. -/
theorem selectTask_fixed : (selectTask m s.cleared).1.fixed = s.fixed := by
  have hfixed (count : ℕ) := turns_const
    (fun i s => @handleSignals_fixed m s i) (n := s.tasks)
    (s.current + 1) count s.cleared
  rcases scanFrom_cases s.tasks (handleSignals m) runnable s.tasks (s.current + 1) s.cleared
    with ⟨j, -, -, -, heq⟩ | ⟨-, heq⟩
  · exact (congrArg (fun r => r.1.fixed) heq).trans (hfixed (j + 1))
  · exact (congrArg (fun r => r.1.fixed) heq).trans (hfixed s.tasks)

/-! ## A call -/

/-- The task that a call selects: the first one that is runnable at its test. -/
theorem ctxSwitch_current_cases (htasks : 0 < s.tasks) :
    (∃ t, Met m s t ∧ norunTested m s t = 0 ∧ (ctxSwitch m s).current = t) ∨
      ((∀ t, t < s.tasks → norunTested m s t ≠ 0) ∧ (ctxSwitch m s).current = idleTaskIndex) := by
  have hcurrent : (selectTask m s.cleared).1.current = s.current :=
    congrArg (·.2.1) selectTask_fixed
  -- the current task is the selected one with and without a switch of the registers
  have hselected : (ctxSwitch m s).current = (selectTask m s.cleared).2.getD idleTaskIndex := by
    rw [ctxSwitch, ← Psched.cleared]
    dsimp only
    split
    · rfl
    · rename_i hsame
      exact hcurrent.trans (not_not.mp hsame)
  rcases selectTask_cases (m := m) htasks with ⟨t, hmet, hzero, heq⟩ | ⟨hall, heq⟩
  · exact Or.inl ⟨t, hmet, hzero, by rw [hselected, heq]; rfl⟩
  · exact Or.inr ⟨hall, by rw [hselected, heq]; rfl⟩

/-- The switch of the registers changes no word outside their slots. -/
theorem ctxSwitch_view (t : ℕ) :
    (∀ slot, ¬Saved slot → (ctxSwitch m s).words t slot =
      ((selectTask m s.cleared).1.view t).words slot) ∧
    (ctxSwitch m s).applied = (selectTask m s.cleared).1.applied := by
  rw [ctxSwitch, Psched.cleared]
  dsimp only
  split
  · refine ⟨fun slot hslot => ?_, rfl⟩
    rw [Psched.words, taskSwitch]
    by_cases ht : t = s.current
    · subst ht
      simp only [Function.update_self, if_neg hslot]
      rfl
    · simp only [Function.update_of_ne ht]
      rfl
  · exact ⟨fun _ _ => rfl, rfl⟩

/-- What a call of `_ctx_switch` does. The idle task is selected only when no task is runnable
at its test, and a task only when it is, with a KILL signal only if it also has an EXEC signal.
The signals of the tasks that the loop reaches are applied once and acknowledged, and those of
the other tasks stay pending. -/
structure Selects (m : Mapping) (s : Psched) : Prop where
  idle : (ctxSwitch m s).current = idleTaskIndex →
    ∀ t, t < s.tasks → norunTested m s t ≠ 0
  task : ∀ t, t < s.tasks → (ctxSwitch m s).current = t → Met m s t ∧ norunTested m s t = 0 ∧
    (s.Pending t sigMaskKill → s.Pending t sigMaskExec)
  killed : ∀ t, Met m s t → (ctxSwitch m s).applied.count (t, .kill) =
    if s.Pending t sigMaskKill then 1 else 0
  started : ∀ t, Met m s t → (ctxSwitch m s).applied.count (t, .exec) =
    if s.Pending t sigMaskExec then 1 else 0
  norun : ∀ t, Met m s t → (ctxSwitch m s).context t ctxNorunId =
    if s.Pending t sigMaskExec then 0
    else if s.Pending t sigMaskKill then s.context t ctxNorunId ||| norunMaskTask
    else s.context t ctxNorunId
  acknowledged : ∀ t, Met m s t → (ctxSwitch m s).context t ctxSigId =
    s.context t ctxSigId &&& ~~~sigMaskKill &&& ~~~sigMaskExec
  pending : ∀ t, ¬Met m s t →
    (ctxSwitch m s).context t ctxSigId = s.context t ctxSigId ∧
      (ctxSwitch m s).context t ctxNorunId = s.context t ctxNorunId ∧
      (ctxSwitch m s).applied.count (t, .kill) = 0 ∧ (ctxSwitch m s).applied.count (t, .exec) = 0

theorem ctxSwitch_selects (htasks : 0 < s.tasks) (hmax : s.tasks ≤ idleTaskIndex) :
    Selects m s := by
  -- the words and the record of a call, read off the view after the loop
  have hword (t slot : ℕ) (hsaved : ¬Saved slot) (hchannel : ¬ChannelSlot slot) :
      (ctxSwitch m s).context t slot = ((selectTask m s.cleared).1.view t).words slot := by
    rw [← words_apply hchannel, (ctxSwitch_view t).1 slot hsaved]
  have hkills (t : ℕ) : (ctxSwitch m s).applied.count (t, .kill) =
      ((selectTask m s.cleared).1.view t).kills := by
    rw [(ctxSwitch_view t).2]
    rfl
  have hexecs (t : ℕ) : (ctxSwitch m s).applied.count (t, .exec) =
      ((selectTask m s.cleared).1.view t).execs := by
    rw [(ctxSwitch_view t).2]
    rfl
  have hnorun (t : ℕ) : (s.before t).words ctxNorunId = s.context t ctxNorunId := by
    change s.words t ctxNorunId = _
    exact words_apply (by decide)
  have hsig (t : ℕ) : (s.before t).words ctxSigId = s.context t ctxSigId := by
    change s.words t ctxSigId = _
    exact words_apply (by decide)
  refine ⟨fun hidle t ht => ?_, fun t ht hcurrent => ?_, fun t h => ?_, fun t h => ?_,
    fun t h => ?_, fun t h => ?_, fun t h => ?_⟩
  · rcases ctxSwitch_current_cases (m := m) htasks with ⟨u, hu, -, heq⟩ | ⟨hall, -⟩
    · have hlt := hu.1
      omega
    · exact hall t ht
  · rcases ctxSwitch_current_cases (m := m) htasks with ⟨u, hu, hzero, heq⟩ | ⟨-, heq⟩
    · obtain rfl : u = t := heq.symm.trans hcurrent
      refine ⟨hu, hzero, fun hkill => ?_⟩
      by_contra hexec
      rw [norunTested_cases ht, if_neg hexec, if_pos hkill] at hzero
      exact or_norunMaskTask_ne_zero _ hzero
    · omega
  · rw [hkills, selectTask_view h, handled_kills]
    simp only [← pending_before]
    rfl
  · rw [hexecs, selectTask_view h, handled_execs]
    simp only [← pending_before]
    rfl
  · rw [hword t ctxNorunId (by decide) (by decide), selectTask_view h, handled_norun]
    simp only [← pending_before, hnorun]
  · rw [hword t ctxSigId (by decide) (by decide), selectTask_view h, handled_sig, hsig]
  · have hview := selectTask_view_of_not_met htasks h
    rw [hword t ctxSigId (by decide) (by decide), hword t ctxNorunId (by decide) (by decide),
      hkills, hexecs, hview]
    exact ⟨hsig t, hnorun t, rfl, rfl⟩

/-! ## Sequences of calls -/

/-- Between two calls, tasks and other processors may change anything but which tasks the
scheduler has and which one is current. -/
def Updated (s s' : Psched) : Prop := s'.tasks = s.tasks ∧ s'.current = s.current

/-- The states of a scheduler with 1 to 13 tasks, over all sequences of calls and updates. -/
inductive SwitchRun (m : Mapping) : Psched → Prop
  | init {s : Psched} (hpos : 1 ≤ s.tasks) (hmax : s.tasks ≤ 13)
      (hcurrent : s.current < s.tasks ∨ s.current = idleTaskIndex) : SwitchRun m s
  | call {s : Psched} (h : SwitchRun m s) : SwitchRun m (ctxSwitch m s)
  | update {s s' : Psched} (h : SwitchRun m s) (hupdate : Updated s s') : SwitchRun m s'

/-- A call changes no number of tasks. -/
theorem ctxSwitch_tasks : (ctxSwitch m s).tasks = s.tasks := by
  have hselect : (selectTask m s.cleared).1.tasks = s.tasks :=
    congrArg Prod.fst selectTask_fixed
  refine Eq.trans ?_ hselect
  rw [ctxSwitch, Psched.cleared]
  dsimp only
  split <;> rfl

theorem SwitchRun.valid (h : SwitchRun m s) : (1 ≤ s.tasks ∧ s.tasks ≤ idleTaskIndex) ∧
    (s.current < s.tasks ∨ s.current = idleTaskIndex) := by
  induction h with
  | init hpos hmax hcurrent => exact ⟨⟨hpos, hmax⟩, hcurrent⟩
  | call h ih =>
    rw [ctxSwitch_tasks]
    refine ⟨ih.1, ?_⟩
    rcases ctxSwitch_current_cases (m := m) ih.1.1 with ⟨t, hmet, -, heq⟩ | ⟨-, heq⟩
    · exact Or.inl (heq ▸ hmet.1)
    · exact Or.inr heq
  | update h hupdate ih =>
    rw [hupdate.1, hupdate.2]
    exact ih

/-- A task that is runnable and has no KILL signal at each of `tasks` consecutive calls is
selected by one of them. -/
theorem calls_select {calls : ℕ → Psched} (htasks : 0 < (calls 0).tasks)
    (hcalls : ∀ k, k < (calls 0).tasks → Updated (ctxSwitch m (calls k)) (calls (k + 1)))
    (ht : t < (calls 0).tasks)
    (hrunnable : ∀ k, k < (calls 0).tasks →
      (calls k).context t ctxNorunId = 0 ∧ ¬(calls k).Pending t sigMaskKill) :
    ∃ k, k < (calls 0).tasks ∧ (ctxSwitch m (calls k)).current = t := by
  have hsame (k : ℕ) (hk : k ≤ (calls 0).tasks) : (calls k).tasks = (calls 0).tasks := by
    induction k with
    | zero => rfl
    | succ k ih => rw [(hcalls k hk).1, ctxSwitch_tasks, ih (by omega)]
  obtain ⟨k, hk, heq⟩ := selected_within ht (fun k => (calls k).current) fun k hk => by
    rw [← hsame k hk.le] at ht htasks ⊢
    have htested : norunTested m (calls k) t = 0 := by
      obtain ⟨hzero, hkill⟩ := hrunnable k hk
      rw [norunTested_cases ht, if_neg hkill, hzero, ite_self]
    rcases ctxSwitch_current_cases (m := m) htasks with ⟨u, hu, -, heq⟩ | ⟨hall, -⟩
    · refine ⟨ahead (calls k).tasks ((calls k).current + 1) u, ?_, ?_⟩
      · by_contra hfar
        exact hu.2 t ht (by omega) htested
      · rw [add_ahead hu.1]
        exact (hcalls k hk).2.trans heq
    · exact absurd htested (hall t ht)
  exact ⟨k, hk, (hcalls k hk).2.symm.trans heq⟩

/-- The selection in every run: the current index is valid, each call selects as it should, and
a task that stays runnable is selected within `tasks` calls. -/
theorem scheduler_selects (h : SwitchRun m s) :
    (s.current < s.tasks ∨ s.current = idleTaskIndex) ∧ Selects m s ∧
      ∀ calls : ℕ → Psched, calls 0 = s →
        (∀ k, k < s.tasks → Updated (ctxSwitch m (calls k)) (calls (k + 1))) →
        ∀ t, t < s.tasks → (∀ k, k < s.tasks →
          (calls k).context t ctxNorunId = 0 ∧ ¬(calls k).Pending t sigMaskKill) →
        ∃ k, k < s.tasks ∧ (ctxSwitch m (calls k)).current = t := by
  obtain ⟨⟨hpos, hmax⟩, hcurrent⟩ := h.valid
  refine ⟨hcurrent, ctxSwitch_selects hpos hmax, ?_⟩
  rintro calls rfl hcalls t ht hrunnable
  exact calls_select hpos hcalls ht hrunnable

/-- A mapping without vspaces and channels. -/
def emptyMapping : Mapping where
  stackVsegId := fun _ => 0
  vbase := fun _ => 0x10000000
  length := fun _ => 0x4000
  inVspace := fun _ _ => false
  nbTty := 0
  nbTim := 0
  nbNic := 0
  nbCma := 0
  ctxEret := 0x80000000

/-- Two runnable tasks on a processor that runs its idle task; a KILL signal is pending for the
second one. -/
def twoTasks : Psched where
  context := fun ltid slot => if ltid = 1 ∧ slot = ctxSigId then sigMaskKill else 0
  tasks := 2
  current := idleTaskIndex
  regs := fun _ => 0
  applied := []

/-- The first task is selected at once, and the loop does not reach the second one, whose
signal stays pending. -/
theorem scheduler_selects_twoTasks : (ctxSwitch emptyMapping twoTasks).current = 0 ∧
    Selects emptyMapping (ctxSwitch emptyMapping twoTasks) ∧
    (ctxSwitch emptyMapping twoTasks).Pending 1 sigMaskKill := by
  have hrun : SwitchRun emptyMapping twoTasks := .init (by decide) (by decide) (Or.inr rfl)
  exact ⟨by decide, (scheduler_selects hrun.call).2.1, by decide⟩

end GietVm.Kernel
