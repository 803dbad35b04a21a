import GietVm.Drivers.Hba

/-!
# The invariant of the AHCI driver

Each command slot has at most one owner, from the step that allocates it to the step that
releases it. The owner launches its command, sets the flag of its slot in `_hba_active_cmd`
and sleeps; only the handler clears the flag and then the NORUN bit of the owner, and it does
so for a command that it has seen completed. So a task is selected at its descheduling point
only after its own command has completed, in every run.

What the handler has saved stays valid while it works: a slot that it has seen active stays
active until the handler itself clears the flag, and a command that it has seen completed is
not launched again before the handler wakes its owner.
-/

namespace GietVm.Drivers.Hba

variable {c : Platform} {s s' : State} {t u : TaskId} {slot : ℕ}

/-! ## Points of the parties -/

/-- The task waits for the handler. -/
def Phase.Sleeps (k : Phase) : Prop := k = .switch ∨ k = .switched

/-- The task may have its NORUN bit set. -/
def Phase.MayBlock (k : Phase) : Prop := k = .launch ∨ k = .setActive ∨ k.Sleeps

/-- The task holds the lock of the allocator. -/
def Pc.InLock : Pc → Prop
  | .scanSlot _ _ | .takeSlot _ _ | .unlockAlloc _ => True
  | .own _ _ k => k = .unlock
  | _ => False

/-- The task owns the slot. -/
def Pc.Owns (pc : Pc) (slot : ℕ) : Prop := ∃ a k, pc = .own a slot k

/-- The handler has cleared the flag of the slot and not yet the NORUN bit of its owner. -/
def IsrPc.Wakes : IsrPc → ℕ → Prop
  | .readProcid n _ _, slot | .readLtid n _ _ _, slot | .clearNorun n _ _ _ _, slot => slot = n
  | _, _ => False

/-- No command of the slot is in progress or waits for the handler. -/
def State.Idle (s : State) (slot : ℕ) : Prop :=
  s.device.pxci slot = false ∧ s.active slot = false

/-- The task has launched the command of the slot, which is in progress until the device has
reported its result. -/
def State.Launched (s : State) (t : TaskId) (slot : ℕ) : Prop :=
  s.issuer slot = t ∧ (s.device.pxci slot = true ↔ s.outcome t = none)

/-- What holds of a slot when its owner is at a point. -/
def PhaseOk (s : State) (blocked : Prop) (t : TaskId) (slot : ℕ) : Phase → Prop
  | .unlock | .command | .irqEnable | .setGtid | .pollLaunch => s.Idle slot
  | .itDisable | .setNorun => s.Idle slot ∧ s.gtid slot = gtidOf t
  | .launch => s.Idle slot ∧ s.gtid slot = gtidOf t ∧ blocked
  | .setActive =>
    s.active slot = false ∧ s.Launched t slot ∧ s.gtid slot = gtidOf t ∧ blocked
  | .switch | .switched =>
    s.Launched t slot ∧ s.gtid slot = gtidOf t ∧
      (blocked ∧ (s.active slot = true ∨ s.isr.Wakes slot) ∨
        ¬blocked ∧ s.Idle slot ∧ s.outcome t ≠ none)
  | .irqDisable | .poll => s.active slot = false ∧ s.Launched t slot
  | .itRestore | .getStatus | .readPxis | .resetPxis _ | .release _ | .clearSlot _ =>
    s.Idle slot ∧ s.outcome t ≠ none

/-- The slots from `n` on that the handler has seen active are active, and their commands are
completed where it has seen them completed. -/
def State.Watches (s : State) (n : ℕ) (active pxci : ℕ → Bool) : Prop :=
  ∀ slot, n ≤ slot → active slot = true →
    s.active slot = true ∧ (pxci slot = false → s.device.pxci slot = false)

/-- The owner of a slot sleeps, its command is completed and its flag is cleared. -/
structure Wakeable (c : Platform) (s : State) (slot : ℕ) (t : TaskId) : Prop where
  sleeps : ∃ a k, s.pc t = .own a slot k ∧ k.Sleeps
  blocked : s.sched.Blocked c t
  idle : s.Idle slot

/-- What holds when the handler is at a point. -/
def IsrOk (c : Platform) (s : State) : IsrPc → Prop
  | .snapshot n active => ∀ slot, active slot = true → slot < n ∧ s.active slot = true
  | .loop n active pxci => s.Watches n active pxci
  | .readProcid n active pxci => s.Watches (n + 1) active pxci ∧ ∃ t, Wakeable c s n t
  | .readLtid n active pxci procid =>
    s.Watches (n + 1) active pxci ∧ ∃ t, Wakeable c s n t ∧ procid = t.procid
  | .clearNorun n active pxci procid ltid =>
    s.Watches (n + 1) active pxci ∧ ∃ t, Wakeable c s n t ∧ procid = t.procid ∧ ltid = t.ltid
  | .sendWti n active pxci _ => s.Watches (n + 1) active pxci
  | _ => True

/-- The phases of a call belong to its mode. -/
def Phase.Mode (a : Args) : Phase → Prop
  | .unlock | .command | .release _ | .clearSlot _ => True
  | .pollLaunch | .irqDisable | .poll | .readPxis | .resetPxis _ => a.useIrq = 0
  | _ => a.useIrq ≠ 0

/-- The invariant of the driver. -/
structure Inv (c : Platform) (s : State) : Prop where
  task : ∀ t, s.pc t ≠ .out → c.Task t
  lock : ∀ t, (s.pc t).InLock ↔ s.lock = some t
  owner : ∀ t u slot, (s.pc t).Owns slot → (s.pc u).Owns slot → t = u
  allocated : ∀ t slot, (s.pc t).Owns slot → slot < 32 ∧ s.allocated slot = true
  take : ∀ t a slot, s.pc t = .takeSlot a slot → slot < 32 ∧ s.allocated slot = false
  unowned : ∀ slot, (∀ t, ¬(s.pc t).Owns slot) → s.Idle slot
  phase : ∀ t a slot k, s.pc t = .own a slot k →
    k.Mode a ∧ PhaseOk s (s.sched.Blocked c t) t slot k
  blocked : ∀ t, c.Task t → s.sched.Blocked c t → ∃ a slot k, s.pc t = .own a slot k ∧ k.MayBlock
  selected : ∀ t a slot, s.pc t = .own a slot .switched → s.sched.Running t →
    ¬s.sched.Blocked c t
  isr : IsrOk c s s.isr

theorem Initial.inv (h : Initial c s) : Inv c s := by
  have hnone : ∀ t slot, ¬(s.pc t).Owns slot := by
    rintro t slot ⟨a, k, hpc⟩
    rw [h.pc t] at hpc
    cases hpc
  refine ⟨fun t hne => absurd (h.pc t) hne, fun t => ?_, fun t u slot ht => absurd ht (hnone t slot),
    fun t slot ht => absurd ht (hnone t slot), fun t a slot hpc => ?_,
    fun slot _ => ⟨h.pxci slot, h.active slot⟩, fun t a slot k hpc => ?_,
    fun t ht hb => absurd hb (h.blocked t ht), fun t a slot hpc => ?_, ?_⟩
  · rw [h.pc t, h.lock]
    exact iff_of_false id nofun
  · rw [h.pc t] at hpc
    cases hpc
  · rw [h.pc t] at hpc
    cases hpc
  · rw [h.pc t] at hpc
    cases hpc
  · rw [h.isr]
    trivial

theorem Pc.own_owns {pc : Pc} {a : Args} {k : Phase} (h : pc = .own a slot k) : pc.Owns slot :=
  ⟨a, k, h⟩

theorem Pc.Owns.ne_out {pc : Pc} (h : pc.Owns slot) : pc ≠ .out := by
  obtain ⟨a, k, hpc⟩ := h
  rw [hpc]
  exact Pc.noConfusion

/-- A task owns one slot. -/
theorem Pc.Owns.slot_eq {pc : Pc} {a : Args} {slot' : ℕ} {k : Phase} (h : pc.Owns slot')
    (hpc : pc = .own a slot k) : slot' = slot := by
  obtain ⟨a', k', hpc'⟩ := h
  cases hpc.symm.trans hpc'
  rfl

/-! ## Frames -/

/-- The tables of a slot are as they were. -/
structure SlotSame (s s' : State) (slot : ℕ) : Prop where
  pxci : s'.device.pxci slot = s.device.pxci slot
  active : s'.active slot = s.active slot
  gtid : s'.gtid slot = s.gtid slot
  issuer : s'.issuer slot = s.issuer slot

theorem SlotSame.idle (h : SlotSame s s' slot) : s'.Idle slot ↔ s.Idle slot := by
  rw [State.Idle, State.Idle, h.pxci, h.active]

/-- What the owner of a slot relies on. -/
theorem PhaseOk.congr {b b' : Prop} {k : Phase} (h : PhaseOk s b t slot k)
    (hslot : SlotSame s s' slot) (hout : s'.outcome t = s.outcome t) (hb : b' ↔ b)
    (hisr : s'.isr.Wakes slot ↔ s.isr.Wakes slot) : PhaseOk s' b' t slot k := by
  have hlaunched : s'.Launched t slot ↔ s.Launched t slot := by
    rw [State.Launched, State.Launched, hslot.issuer, hslot.pxci, hout]
  cases k <;>
    simpa only [PhaseOk, hslot.idle, hslot.gtid, hslot.active, hlaunched, hout, hb, hisr] using h

/-- What the handler relies on: no flag is cleared, no active command is launched again, and
a task that is being woken goes on sleeping. -/
theorem IsrOk.mono {pc : IsrPc} (h : IsrOk c s pc)
    (hactive : ∀ slot, s.active slot = true → s'.active slot = true)
    (hpxci : ∀ slot, s.active slot = true → s.device.pxci slot = false →
      s'.device.pxci slot = false)
    (hwake : ∀ slot t, pc.Wakes slot → Wakeable c s slot t → Wakeable c s' slot t) :
    IsrOk c s' pc := by
  have hwatch {n : ℕ} {active pxci : ℕ → Bool} (hw : s.Watches n active pxci) :
      s'.Watches n active pxci := by
    intro slot hn ha
    obtain ⟨hact, hdone⟩ := hw slot hn ha
    exact ⟨hactive slot hact, fun hp => hpxci slot hact (hdone hp)⟩
  cases pc with
  | none | testStatus | readPxis | setStatus | resetPxis => trivial
  | snapshot n active => exact fun slot ha => ⟨(h slot ha).1, hactive slot (h slot ha).2⟩
  | loop n active pxci => exact hwatch h
  | readProcid n active pxci =>
    obtain ⟨hw, t, ht⟩ := h
    exact ⟨hwatch hw, t, hwake n t rfl ht⟩
  | readLtid n active pxci procid =>
    obtain ⟨hw, t, ht, hp⟩ := h
    exact ⟨hwatch hw, t, hwake n t rfl ht, hp⟩
  | clearNorun n active pxci procid ltid =>
    obtain ⟨hw, t, ht, hp⟩ := h
    exact ⟨hwatch hw, t, hwake n t rfl ht, hp⟩
  | sendWti n active pxci procid => exact hwatch h

/-- The points of the tasks after one of them has moved. -/
theorem forall_update {f : TaskId → Pc} {x : Pc} {P : TaskId → Pc → Prop} (hself : P t x)
    (hother : ∀ u, u ≠ t → P u (f u)) (u : TaskId) : P u (Function.update f t x u) := by
  rw [Function.update_apply]
  split
  · rename_i hut
    exact hut ▸ hself
  · rename_i hut
    exact hother u hut

/-! ## What a step of a task leaves unchanged -/

theorem TaskStep.isr (h : TaskStep c t s s') : s'.isr = s.isr := by
  cases h <;> rfl

theorem TaskStep.status (h : TaskStep c t s s') : s'.status = s.status := by
  cases h <;> rfl

theorem TaskStep.pc_of_ne (h : TaskStep c t s s') (hut : u ≠ t) : s'.pc u = s.pc u := by
  cases h <;> exact Function.update_of_ne hut _ _

theorem TaskStep.outcome_of_ne (h : TaskStep c t s s') (hut : u ≠ t) :
    s'.outcome u = s.outcome u := by
  cases h with
  | launch | pollLaunch => exact Function.update_of_ne hut _ _
  | _ => rfl

theorem TaskStep.blocked_of_ne (h : TaskStep c t s s') (hut : u ≠ t) :
    s'.sched.Blocked c u ↔ s.sched.Blocked c u := by
  cases h with
  | setNorun => exact block_blocked_of_ne hut
  | _ => rfl

/-- The arguments of the call of a task. -/
def Pc.args : Pc → Option Args
  | .out => none
  | .entered a | .lockAlloc a | .scanSlot a _ | .takeSlot a _ | .unlockAlloc a | .own a _ _
  | .returned a _ => some a

theorem TaskStep.args (h : TaskStep c t s s') : (s'.pc t).args = (s.pc t).args := by
  cases h <;> simp only [State.goto, Function.update_self, Pc.args, *]

theorem TaskStep.pxis (h : TaskStep c t s s')
    (hpc : ∀ a slot pxis, s.pc t ≠ .own a slot (.resetPxis pxis)) :
    s'.device.pxis = s.device.pxis := by
  cases h with
  | resetPxis a slot pxis hpc' => exact absurd hpc' (hpc a slot pxis)
  | _ => rfl

/-! ## Steps of the tasks -/

/-- A step of the owner of a slot that keeps it: the tables of the other slots and the other
tasks stay, and so does what the handler relies on. -/
theorem Inv.ownStep (h : Inv c s) {a : Args} {k k' : Phase} (hpc : s.pc t = .own a slot k)
    (hpcs : s'.pc = Function.update s.pc t (.own a slot k'))
    (hlock : ∀ u, s'.lock = some u ↔ if u = t then k' = .unlock else s.lock = some u)
    (hallocated : s'.allocated = s.allocated)
    (hslots : ∀ slot', slot' ≠ slot → SlotSame s s' slot')
    (hout : ∀ u, u ≠ t → s'.outcome u = s.outcome u)
    (hblocked : ∀ u, u ≠ t → (s'.sched.Blocked c u ↔ s.sched.Blocked c u))
    (hrunning : ∀ u, s'.sched.Running u → s.sched.Running u) (hisr : s'.isr = s.isr)
    (hmode : k'.Mode a) (hself : PhaseOk s' (s'.sched.Blocked c t) t slot k')
    (hmay : s'.sched.Blocked c t → k'.MayBlock)
    (hswitched : k' = .switched → ¬s'.sched.Running t)
    (hactive : s.active slot = true → s'.active slot = true)
    (hpxci : s.active slot = true → s.device.pxci slot = false → s'.device.pxci slot = false)
    (hwake : Wakeable c s slot t → k'.Sleeps ∧ s'.sched.Blocked c t ∧ s'.Idle slot) :
    Inv c s' := by
  have ht := h.task t (Pc.own_owns hpc).ne_out
  have howns (u : TaskId) (slot' : ℕ) : (s'.pc u).Owns slot' ↔ (s.pc u).Owns slot' := by
    rw [hpcs]
    refine forall_update (P := fun u pc => pc.Owns slot' ↔ (s.pc u).Owns slot') ?_
      (fun _ _ => Iff.rfl) u
    constructor
    · rintro ⟨a', k₁, heq⟩
      cases heq
      exact Pc.own_owns hpc
    · intro hown
      cases hown.slot_eq hpc
      exact ⟨a, k', rfl⟩
  have hslot_ne {u : TaskId} {slot' : ℕ} (hut : u ≠ t) (hu : (s.pc u).Owns slot') : slot' ≠ slot := by
    rintro rfl
    exact hut (h.owner u t slot' hu (Pc.own_owns hpc))
  refine ⟨?_, ?_, ?_, ?_, ?_, ?_, ?_, ?_, ?_, ?_⟩
  · rw [hpcs]
    exact forall_update (P := fun u pc => pc ≠ .out → c.Task u) (fun _ => ht) fun u _ => h.task u
  · rw [hpcs]
    refine forall_update (P := fun u pc => pc.InLock ↔ s'.lock = some u) ?_ fun u hut => ?_
    · rw [hlock t, if_pos rfl]
      exact Iff.rfl
    · rw [hlock u, if_neg hut]
      exact h.lock u
  · intro u v slot' hu hv
    exact h.owner u v slot' ((howns u slot').mp hu) ((howns v slot').mp hv)
  · intro u slot' hu
    rw [hallocated]
    exact h.allocated u slot' ((howns u slot').mp hu)
  · rw [hpcs, hallocated]
    exact forall_update (P := fun u pc => ∀ a slot', pc = .takeSlot a slot' →
      slot' < 32 ∧ s.allocated slot' = false) nofun fun u _ => h.take u
  · intro slot' hnone
    have hnone' : ∀ u, ¬(s.pc u).Owns slot' := fun u hu => hnone u ((howns u slot').mpr hu)
    have hne : slot' ≠ slot := by
      rintro rfl
      exact hnone' t (Pc.own_owns hpc)
    exact (hslots slot' hne).idle.mpr (h.unowned slot' hnone')
  · rw [hpcs]
    refine forall_update (P := fun u pc => ∀ a slot' k, pc = .own a slot' k →
      k.Mode a ∧ PhaseOk s' (s'.sched.Blocked c u) u slot' k) ?_ fun u hut a' slot' k₁ hu => ?_
    · intro a' slot' k₁ heq
      cases heq
      exact ⟨hmode, hself⟩
    · have hne := hslot_ne hut (Pc.own_owns hu)
      obtain ⟨hm, hp⟩ := h.phase u a' slot' k₁ hu
      exact ⟨hm, hp.congr (hslots slot' hne) (hout u hut) (hblocked u hut) (by rw [hisr])⟩
  · rw [hpcs]
    refine forall_update (P := fun u pc => c.Task u → s'.sched.Blocked c u →
      ∃ a slot k, pc = .own a slot k ∧ k.MayBlock) ?_ fun u hut hu hb => ?_
    · exact fun _ hb => ⟨a, slot, k', rfl, hmay hb⟩
    · exact h.blocked u hu ((hblocked u hut).mp hb)
  · rw [hpcs]
    refine forall_update (P := fun u pc => ∀ a slot', pc = .own a slot' .switched →
      s'.sched.Running u → ¬s'.sched.Blocked c u) ?_ fun u hut a' slot' hu hrun hb => ?_
    · intro a' slot' heq hrun
      cases heq
      exact absurd hrun (hswitched rfl)
    · exact h.selected u a' slot' hu (hrunning u hrun) ((hblocked u hut).mp hb)
  · rw [hisr]
    refine h.isr.mono (fun slot' ha => ?_) (fun slot' ha hp => ?_) fun slot' u _ hw => ?_
    · by_cases hne : slot' = slot
      · exact hne ▸ hactive (hne ▸ ha)
      · rw [(hslots slot' hne).active, ha]
    · by_cases hne : slot' = slot
      · subst hne
        exact hpxci ha hp
      · rw [(hslots slot' hne).pxci, hp]
    · obtain ⟨⟨a', k₁, hu, hsleep⟩, hb, hidle⟩ := hw
      by_cases hut : u = t
      · subst hut
        obtain rfl : slot' = slot := (Pc.own_owns hu).slot_eq hpc
        obtain ⟨hsleep', hb', hidle'⟩ := hwake ⟨⟨a', k₁, hu, hsleep⟩, hb, hidle⟩
        exact ⟨⟨a, k', by rw [hpcs, Function.update_self], hsleep'⟩, hb', hidle'⟩
      · have hne := hslot_ne hut (Pc.own_owns hu)
        refine ⟨⟨a', k₁, by rw [hpcs, Function.update_of_ne hut]; exact hu, hsleep⟩,
          (hblocked u hut).mpr hb, (hslots slot' hne).idle.mpr hidle⟩

/-- A step of the owner of a slot that changes nothing but its point. -/
theorem Inv.ownGoto (h : Inv c s) {a : Args} {k k' : Phase} (hpc : s.pc t = .own a slot k)
    (hlock : k ≠ .unlock) (hlock' : k' ≠ .unlock) (hmode : k'.Mode a)
    (hself : PhaseOk s (s.sched.Blocked c t) t slot k')
    (hmay : s.sched.Blocked c t → k'.MayBlock) (hswitched : k' ≠ .switched)
    (hwake : k.Sleeps → s.sched.Blocked c t → k'.Sleeps) :
    Inv c (s.goto t (.own a slot k')) := by
  have hnot : s.lock ≠ some t := by
    intro hl
    have hin := (h.lock t).mpr hl
    rw [hpc] at hin
    exact hlock hin
  refine h.ownStep hpc rfl (fun u => ?_) rfl (fun _ _ => ⟨rfl, rfl, rfl, rfl⟩) (fun _ _ => rfl)
    (fun _ _ => Iff.rfl) (fun _ hrun => hrun) rfl hmode hself hmay (fun heq => absurd heq hswitched)
    id (fun _ hp => hp) fun hw => ?_
  · change s.lock = some u ↔ _
    by_cases hut : u = t
    · rw [if_pos hut, hut]
      exact iff_of_false hnot hlock'
    · rw [if_neg hut]
  · obtain ⟨⟨a', k₁, hu, hsleep⟩, hb, hidle⟩ := hw
    cases hpc.symm.trans hu
    exact ⟨hwake hsleep hb, hb, hidle⟩

/-- A task without a slot has no NORUN bit set. -/
theorem Inv.not_blocked (h : Inv c s) (ht : c.Task t) (hold : ∀ slot, ¬(s.pc t).Owns slot) :
    ¬s.sched.Blocked c t := by
  intro hb
  obtain ⟨a, slot, k, hpc, -⟩ := h.blocked t ht hb
  exact hold slot (Pc.own_owns hpc)

/-- A step of a task without a slot that takes none. -/
theorem Inv.outsideStep (h : Inv c s) (ht : c.Task t) {pc : Pc} {lock : Option TaskId}
    (hold : ∀ slot, ¬(s.pc t).Owns slot) (hnew : ∀ slot, ¬pc.Owns slot)
    (hlock : ∀ u, lock = some u ↔ if u = t then pc.InLock else s.lock = some u)
    (htake : ∀ a slot, pc = .takeSlot a slot → slot < 32 ∧ s.allocated slot = false) :
    Inv c { s.goto t pc with lock } := by
  have howns (u : TaskId) (slot : ℕ) :
      (Function.update s.pc t pc u).Owns slot ↔ (s.pc u).Owns slot :=
    forall_update (P := fun u pc => pc.Owns slot ↔ (s.pc u).Owns slot)
      (iff_of_false (hnew slot) (hold slot)) (fun _ _ => Iff.rfl) u
  have hown_ne {a : Args} {slot : ℕ} {k : Phase} (hpc : pc = .own a slot k) : False :=
    hnew slot (Pc.own_owns hpc)
  refine ⟨?_, ?_, ?_, ?_, ?_, ?_, ?_, ?_, ?_, ?_⟩
  · exact forall_update (P := fun u pc => pc ≠ .out → c.Task u) (fun _ => ht) fun u _ => h.task u
  · refine forall_update (P := fun u pc => pc.InLock ↔ lock = some u) ?_ fun u hut => ?_
    · rw [hlock t, if_pos rfl]
    · rw [hlock u, if_neg hut]
      exact h.lock u
  · exact fun u v slot hu hv => h.owner u v slot ((howns u slot).mp hu) ((howns v slot).mp hv)
  · exact fun u slot hu => h.allocated u slot ((howns u slot).mp hu)
  · exact forall_update (P := fun u pc => ∀ a slot, pc = .takeSlot a slot →
      slot < 32 ∧ s.allocated slot = false) htake fun u _ => h.take u
  · exact fun slot hnone => h.unowned slot fun u hu => hnone u ((howns u slot).mpr hu)
  · refine forall_update (P := fun u pc => ∀ a slot k, pc = .own a slot k →
      k.Mode a ∧ PhaseOk _ (s.sched.Blocked c u) u slot k) ?_ fun u _ a slot k hu => ?_
    · exact fun a slot k heq => (hown_ne heq).elim
    · obtain ⟨hm, hp⟩ := h.phase u a slot k hu
      exact ⟨hm, hp.congr ⟨rfl, rfl, rfl, rfl⟩ rfl Iff.rfl Iff.rfl⟩
  · exact forall_update (P := fun u pc => c.Task u → s.sched.Blocked c u →
      ∃ a slot k, pc = .own a slot k ∧ k.MayBlock)
      (fun _ hb => absurd hb (h.not_blocked ht hold)) fun u _ => h.blocked u
  · exact forall_update (P := fun u pc => ∀ a slot, pc = .own a slot .switched →
      s.sched.Running u → ¬s.sched.Blocked c u) (fun a slot heq => (hown_ne heq).elim)
      fun u _ => h.selected u
  · refine h.isr.mono (fun _ ha => ha) (fun _ _ hp => hp) fun slot u _ hw => ?_
    obtain ⟨⟨a, k, hu, hsleep⟩, hb, hidle⟩ := hw
    have hut : u ≠ t := by
      rintro rfl
      exact hold slot (Pc.own_owns hu)
    exact ⟨⟨a, k, (Function.update_of_ne hut _ _).trans hu, hsleep⟩, hb, hidle⟩

/-- A task without a slot takes a free one. -/
theorem Inv.takeSlot (h : Inv c s) {a : Args} (hpc : s.pc t = .takeSlot a slot) :
    Inv c { s.goto t (.own a slot .unlock) with
      allocated := Function.update s.allocated slot true } := by
  have ht : c.Task t := h.task t (by rw [hpc]; exact Pc.noConfusion)
  obtain ⟨hslot, hfree⟩ := h.take t a slot hpc
  have hold : ∀ slot', ¬(s.pc t).Owns slot' := by
    rintro slot' ⟨a', k, heq⟩
    cases hpc.symm.trans heq
  have hnone : ∀ u, ¬(s.pc u).Owns slot := by
    intro u hu
    cases (h.allocated u slot hu).2.symm.trans hfree
  have hin : s.lock = some t := (h.lock t).mp (by rw [hpc]; trivial)
  have hidle := h.unowned slot hnone
  refine ⟨?_, ?_, ?_, ?_, ?_, ?_, ?_, ?_, ?_, ?_⟩
  · exact forall_update (P := fun u pc => pc ≠ .out → c.Task u) (fun _ => ht) fun u _ => h.task u
  · exact forall_update (P := fun u pc => pc.InLock ↔ s.lock = some u)
      (iff_of_true rfl hin) fun u _ => h.lock u
  · intro u v slot' hu hv
    by_cases hut : u = t <;> by_cases hvt : v = t
    · rw [hut, hvt]
    · subst hut
      obtain rfl : slot' = slot := hu.slot_eq (a := a) (k := .unlock) (by simp [State.goto])
      exact absurd (by simpa [State.goto, hvt] using hv) (hnone v)
    · subst hvt
      obtain rfl : slot' = slot := hv.slot_eq (a := a) (k := .unlock) (by simp [State.goto])
      exact absurd (by simpa [State.goto, hut] using hu) (hnone u)
    · exact h.owner u v slot' (by simpa [State.goto, hut] using hu)
        (by simpa [State.goto, hvt] using hv)
  · refine forall_update (P := fun u pc => ∀ slot', pc.Owns slot' →
      slot' < 32 ∧ Function.update s.allocated slot true slot' = true) ?_ fun u _ slot' hu => ?_
    · rintro slot' ⟨a', k, heq⟩
      cases heq
      exact ⟨hslot, Function.update_self ..⟩
    · have hne : slot' ≠ slot := by
        rintro rfl
        exact hnone u hu
      rw [Function.update_of_ne hne]
      exact h.allocated u slot' hu
  · refine forall_update (P := fun u pc => ∀ a slot', pc = .takeSlot a slot' →
      slot' < 32 ∧ Function.update s.allocated slot true slot' = false) nofun
      fun u hut a' slot' hu => ?_
    have hlock := (h.lock u).mp (by rw [hu]; trivial)
    rw [hin] at hlock
    exact absurd (Option.some.inj hlock).symm hut
  · intro slot' hnone'
    refine h.unowned slot' fun u hu => hnone' u ?_
    have hut : u ≠ t := by
      rintro rfl
      exact hold slot' hu
    simpa [State.goto, hut] using hu
  · refine forall_update (P := fun u pc => ∀ a slot k, pc = .own a slot k →
      k.Mode a ∧ PhaseOk _ (s.sched.Blocked c u) u slot k) ?_ fun u _ a slot k hu => ?_
    · intro a' slot' k heq
      cases heq
      exact ⟨trivial, hidle⟩
    · obtain ⟨hm, hp⟩ := h.phase u a slot k hu
      exact ⟨hm, hp.congr ⟨rfl, rfl, rfl, rfl⟩ rfl Iff.rfl Iff.rfl⟩
  · exact forall_update (P := fun u pc => c.Task u → s.sched.Blocked c u →
      ∃ a slot k, pc = .own a slot k ∧ k.MayBlock)
      (fun _ hb => absurd hb (h.not_blocked ht hold)) fun u _ => h.blocked u
  · exact forall_update (P := fun u pc => ∀ a slot, pc = .own a slot .switched →
      s.sched.Running u → ¬s.sched.Blocked c u) nofun fun u _ => h.selected u
  · refine h.isr.mono (fun _ ha => ha) (fun _ _ hp => hp) fun slot u _ hw => ?_
    obtain ⟨⟨a, k, hu, hsleep⟩, hb, hidle⟩ := hw
    have hut : u ≠ t := by
      rintro rfl
      exact hold slot (Pc.own_owns hu)
    exact ⟨⟨a, k, (Function.update_of_ne hut _ _).trans hu, hsleep⟩, hb, hidle⟩

/-- The owner of a slot releases it. -/
theorem Inv.clearSlot (h : Inv c s) {a : Args} {pxis w : BitVec 32}
    (hpc : s.pc t = .own a slot (.clearSlot pxis)) :
    Inv c { s.goto t (.returned a w) with
      allocated := Function.update s.allocated slot false } := by
  have hown : (s.pc t).Owns slot := Pc.own_owns hpc
  have ht := h.task t hown.ne_out
  have hidle : s.Idle slot := (h.phase t a slot _ hpc).2.1
  have hother : ∀ u, u ≠ t → ¬(s.pc u).Owns slot := fun u hut hu => hut (h.owner u t slot hu hown)
  have hnot : ¬s.sched.Blocked c t := by
    intro hb
    obtain ⟨a', slot', k, hpc', hmay⟩ := h.blocked t ht hb
    cases hpc.symm.trans hpc'
    rcases hmay with hk | hk | hk | hk <;> cases hk
  refine ⟨?_, ?_, ?_, ?_, ?_, ?_, ?_, ?_, ?_, ?_⟩
  · exact forall_update (P := fun u pc => pc ≠ .out → c.Task u) (fun _ => ht) fun u _ => h.task u
  · refine forall_update (P := fun u pc => pc.InLock ↔ s.lock = some u) ?_ fun u _ => h.lock u
    refine iff_of_false id fun hl => ?_
    have hin := (h.lock t).mpr hl
    rw [hpc] at hin
    cases hin
  · intro u v slot' hu hv
    have hne {x : TaskId} (hx : (Function.update s.pc t (.returned a w) x).Owns slot') :
        (s.pc x).Owns slot' := by
      by_cases hxt : x = t
      · subst hxt
        obtain ⟨a', k, heq⟩ := hx
        rw [Function.update_self] at heq
        cases heq
      · simpa [hxt] using hx
    exact h.owner u v slot' (hne hu) (hne hv)
  · refine forall_update (P := fun u pc => ∀ slot', pc.Owns slot' →
      slot' < 32 ∧ Function.update s.allocated slot false slot' = true) ?_ fun u hut slot' hu => ?_
    · rintro slot' ⟨a', k, heq⟩
      cases heq
    · have hne : slot' ≠ slot := by
        rintro rfl
        exact hother u hut hu
      rw [Function.update_of_ne hne]
      exact h.allocated u slot' hu
  · refine forall_update (P := fun u pc => ∀ a slot', pc = .takeSlot a slot' →
      slot' < 32 ∧ Function.update s.allocated slot false slot' = false) nofun
      fun u _ a' slot' hu => ?_
    obtain ⟨hlt, hfree⟩ := h.take u a' slot' hu
    refine ⟨hlt, ?_⟩
    rw [Function.update_apply]
    split
    · rfl
    · exact hfree
  · intro slot' hnone
    by_cases hne : slot' = slot
    · exact hne ▸ hidle
    · refine h.unowned slot' fun u hu => ?_
      by_cases hut : u = t
      · subst hut
        exact hne (hu.slot_eq hpc)
      · exact hnone u (by simpa [State.goto, hut] using hu)
  · refine forall_update (P := fun u pc => ∀ a slot k, pc = .own a slot k →
      k.Mode a ∧ PhaseOk _ (s.sched.Blocked c u) u slot k) nofun fun u _ a slot k hu => ?_
    obtain ⟨hm, hp⟩ := h.phase u a slot k hu
    exact ⟨hm, hp.congr ⟨rfl, rfl, rfl, rfl⟩ rfl Iff.rfl Iff.rfl⟩
  · exact forall_update (P := fun u pc => c.Task u → s.sched.Blocked c u →
      ∃ a slot k, pc = .own a slot k ∧ k.MayBlock) (fun _ hb => absurd hb hnot)
      fun u _ => h.blocked u
  · exact forall_update (P := fun u pc => ∀ a slot, pc = .own a slot .switched →
      s.sched.Running u → ¬s.sched.Blocked c u) nofun fun u _ => h.selected u
  · refine h.isr.mono (fun _ ha => ha) (fun _ _ hp => hp) fun slot' u _ hw => ?_
    obtain ⟨⟨a', k, hu, hsleep⟩, hb, hidle⟩ := hw
    have hut : u ≠ t := by
      rintro rfl
      exact hnot hb
    exact ⟨⟨a', k, (Function.update_of_ne hut _ _).trans hu, hsleep⟩, hb, hidle⟩

/-- A step inside a phase keeps the lock of the allocator. -/
theorem Inv.lock_own (h : Inv c s) {a : Args} {k k' : Phase} (hpc : s.pc t = .own a slot k)
    (hlock : k ≠ .unlock) (hlock' : k' ≠ .unlock) (u : TaskId) :
    s.lock = some u ↔ if u = t then k' = .unlock else s.lock = some u := by
  have hnot : s.lock ≠ some t := by
    intro hl
    have hin := (h.lock t).mpr hl
    rw [hpc] at hin
    exact hlock hin
  by_cases hut : u = t
  · rw [if_pos hut, hut]
    exact iff_of_false hnot hlock'
  · rw [if_neg hut]

/-- The owner of a slot launches its command. -/
theorem Inv.start (h : Inv c s) {a : Args} {k k' : Phase} (hpc : s.pc t = .own a slot k)
    (hlock : k ≠ .unlock) (hlock' : k' ≠ .unlock) (hmode : k'.Mode a)
    (hidle : s.Idle slot) (hself : PhaseOk (s.start t slot) (s.sched.Blocked c t) t slot k')
    (hmay : s.sched.Blocked c t → k'.MayBlock) (hswitched : k' ≠ .switched)
    (hsleep : ¬k.Sleeps) : Inv c ((s.start t slot).goto t (.own a slot k')) := by
  refine h.ownStep hpc rfl (h.lock_own hpc hlock hlock') rfl
    (fun slot' hne => ⟨Function.update_of_ne hne _ _, rfl, rfl, Function.update_of_ne hne _ _⟩)
    (fun u hut => Function.update_of_ne hut _ _) (fun _ _ => Iff.rfl) (fun _ hrun => hrun) rfl hmode hself hmay (fun heq => absurd heq hswitched)
    id (fun ha => ?_) fun hw => ?_
  · cases hidle.2.symm.trans ha
  · obtain ⟨⟨a', k₁, hu, hs⟩, -, -⟩ := hw
    cases hpc.symm.trans hu
    exact absurd hs hsleep

/-- Where a NORUN bit may be set. -/
theorem Inv.may_block (h : Inv c s) {a : Args} {k : Phase} (ht : c.Task t)
    (hpc : s.pc t = .own a slot k) (hb : s.sched.Blocked c t) : k.MayBlock := by
  obtain ⟨a', slot', k', hpc', hmay⟩ := h.blocked t ht hb
  cases hpc.symm.trans hpc'
  exact hmay

theorem Phase.not_mayBlock {k : Phase} (h : k ≠ .launch ∧ k ≠ .setActive ∧ k ≠ .switch ∧ k ≠ .switched) :
    ¬k.MayBlock := by
  rintro (hk | hk | hk | hk)
  · exact h.1 hk
  · exact h.2.1 hk
  · exact h.2.2.1 hk
  · exact h.2.2.2 hk

/-- The owner of a slot whose point allows no NORUN bit. -/
theorem Inv.free_own (h : Inv c s) {a : Args} {k : Phase} (ht : c.Task t)
    (hpc : s.pc t = .own a slot k)
    (hk : k ≠ .launch ∧ k ≠ .setActive ∧ k ≠ .switch ∧ k ≠ .switched) :
    ¬s.sched.Blocked c t :=
  fun hb => Phase.not_mayBlock hk (h.may_block ht hpc hb)

/-- The flag of a slot is cleared when its owner does not sleep. -/
theorem Wakeable.sleeps_of {a : Args} {k : Phase} (h : Wakeable c s slot t)
    (hpc : s.pc t = .own a slot k) : k.Sleeps := by
  obtain ⟨⟨a', k', hu, hs⟩, -, -⟩ := h
  cases hpc.symm.trans hu
  exact hs

/-- Every step of a task after its call keeps the invariant. -/
theorem Inv.taskStep (h : Inv c s) (ht : c.Task t) (hrun : s.sched.Running t)
    (hstep : TaskStep c t s s') : Inv c s' := by
  have hout {pc : Pc} (hpc : s.pc t = pc) (hpc' : ∀ a slot k, pc ≠ .own a slot k) :
      ∀ slot, ¬(s.pc t).Owns slot := by
    rintro slot ⟨a, k, heq⟩
    exact hpc' a slot k (hpc.symm.trans heq)
  have hsame {pc pc' : Pc} (hpc : s.pc t = pc) (hin : pc'.InLock ↔ pc.InLock) (u : TaskId) :
      s.lock = some u ↔ if u = t then pc'.InLock else s.lock = some u := by
    by_cases hut : u = t
    · rw [if_pos hut, hin, ← hpc, hut]
      exact (h.lock t).symm
    · rw [if_neg hut]
  cases hstep with
  | misaligned a hpc ha =>
    exact h.outsideStep ht (hout hpc nofun) (fun _ ⟨_, _, heq⟩ => nomatch heq)
      (hsame hpc Iff.rfl) nofun
  | aligned a hpc ha =>
    exact h.outsideStep ht (hout hpc nofun) (fun _ ⟨_, _, heq⟩ => nomatch heq)
      (hsame hpc Iff.rfl) nofun
  | lockAlloc a hpc hfree =>
    refine h.outsideStep ht (hout hpc nofun) (fun _ ⟨_, _, heq⟩ => nomatch heq) (fun u => ?_) nofun
    by_cases hut : u = t
    · simp [hut, Pc.InLock]
    · simp [hut, Ne.symm hut, hfree]
  | scanFree a slot hpc hslot hfree =>
    refine h.outsideStep ht (hout hpc nofun) (fun _ ⟨_, _, heq⟩ => nomatch heq)
      (hsame hpc Iff.rfl) fun a' slot' heq => ?_
    cases heq
    exact ⟨hslot, hfree⟩
  | scanUsed a slot hpc hslot hused =>
    exact h.outsideStep ht (hout hpc nofun) (fun _ ⟨_, _, heq⟩ => nomatch heq)
      (hsame hpc Iff.rfl) nofun
  | scanEnd a slot hpc hslot =>
    exact h.outsideStep ht (hout hpc nofun) (fun _ ⟨_, _, heq⟩ => nomatch heq)
      (hsame hpc Iff.rfl) nofun
  | takeSlot a slot hpc => exact h.takeSlot hpc
  | retry a hpc =>
    have hin := (h.lock t).mp (by rw [hpc]; trivial)
    refine h.outsideStep ht (hout hpc nofun) (fun _ ⟨_, _, heq⟩ => nomatch heq) (fun u => ?_) nofun
    by_cases hut : u = t
    · simp [hut, Pc.InLock]
    · simp [hut, Ne.symm hut, hin]
  | unlock a slot hpc =>
    have hin := (h.lock t).mp (by rw [hpc]; rfl)
    have hok := (h.phase t a slot _ hpc).2
    have hnot := h.free_own ht hpc ⟨nofun, nofun, nofun, nofun⟩
    refine h.ownStep hpc rfl (fun u => ?_) rfl (fun _ _ => ⟨rfl, rfl, rfl, rfl⟩) (fun _ _ => rfl)
      (fun _ _ => Iff.rfl) (fun _ hrun => hrun) rfl trivial hok (fun hb => absurd hb hnot) nofun id
      (fun _ hp => hp) fun hw => absurd hw.blocked hnot
    by_cases hut : u = t
    · simp [hut]
    · simp [hut, Ne.symm hut, hin]
  | command a slot hpc =>
    have hok := (h.phase t a slot _ hpc).2
    have hnot := h.free_own ht hpc ⟨nofun, nofun, nofun, nofun⟩
    by_cases hirq : a.useIrq = 0
    · rw [if_pos hirq]
      exact h.ownGoto hpc nofun nofun hirq hok (fun hb => absurd hb hnot) nofun
        (fun _ hb => absurd hb hnot)
    · rw [if_neg hirq]
      exact h.ownGoto hpc nofun nofun hirq hok (fun hb => absurd hb hnot) nofun
        (fun _ hb => absurd hb hnot)
  | irqEnable a slot hpc =>
    obtain ⟨hmode, hok⟩ := h.phase t a slot _ hpc
    have hnot := h.free_own ht hpc ⟨nofun, nofun, nofun, nofun⟩
    exact h.ownStep hpc rfl (h.lock_own hpc nofun nofun) rfl (fun _ _ => ⟨rfl, rfl, rfl, rfl⟩)
      (fun _ _ => rfl) (fun _ _ => Iff.rfl) (fun _ hrun => hrun) rfl hmode hok
      (fun hb => absurd hb hnot) nofun id (fun _ hp => hp) fun hw => absurd hw.blocked hnot
  | setGtid a slot hpc =>
    obtain ⟨hmode, hok⟩ := h.phase t a slot _ hpc
    have hnot := h.free_own ht hpc ⟨nofun, nofun, nofun, nofun⟩
    exact h.ownStep hpc rfl (h.lock_own hpc nofun nofun) rfl
      (fun _ hne => ⟨rfl, rfl, Function.update_of_ne hne _ _, rfl⟩)
      (fun _ _ => rfl) (fun _ _ => Iff.rfl) (fun _ hrun => hrun) rfl hmode
      ⟨hok, Function.update_self ..⟩
      (fun hb => absurd hb hnot) nofun id (fun _ hp => hp) fun hw => absurd hw.blocked hnot
  | itDisable a slot hpc =>
    obtain ⟨hmode, hok⟩ := h.phase t a slot _ hpc
    have hnot := h.free_own ht hpc ⟨nofun, nofun, nofun, nofun⟩
    exact h.ownGoto hpc nofun nofun hmode hok (fun hb => absurd hb hnot) nofun
      (fun _ hb => absurd hb hnot)
  | setNorun a slot hpc =>
    obtain ⟨hmode, hidle, hgtid⟩ := h.phase t a slot _ hpc
    have hnot := h.free_own ht hpc ⟨nofun, nofun, nofun, nofun⟩
    exact h.ownStep hpc rfl (h.lock_own hpc nofun nofun) rfl (fun _ _ => ⟨rfl, rfl, rfl, rfl⟩)
      (fun _ _ => rfl) (fun u hut => block_blocked_of_ne hut) (fun _ hrun => hrun) rfl hmode
      ⟨hidle, hgtid, block_blocked⟩ (fun _ => Or.inl rfl) nofun id (fun _ hp => hp)
      fun hw => absurd hw.blocked hnot
  | launch a slot hpc =>
    obtain ⟨hmode, hidle, hgtid, hb⟩ := h.phase t a slot _ hpc
    exact h.start hpc nofun nofun hmode hidle
      ⟨hidle.2, ⟨Function.update_self .., iff_of_true (Function.update_self ..)
        (Function.update_self ..)⟩, hgtid, hb⟩ (fun _ => Or.inr (Or.inl rfl)) nofun (by rintro (hk | hk) <;> cases hk)
  | setActive a slot hpc =>
    obtain ⟨hmode, hactive, hlaunched, hgtid, hb⟩ := h.phase t a slot _ hpc
    refine h.ownStep hpc rfl (h.lock_own hpc nofun nofun) rfl
      (fun _ hne => ⟨rfl, Function.update_of_ne hne _ _, rfl, rfl⟩)
      (fun _ _ => rfl) (fun _ _ => Iff.rfl) (fun _ hrun => hrun) rfl hmode
      ⟨hlaunched, hgtid, Or.inl ⟨hb, Or.inl (Function.update_self ..)⟩⟩
      (fun _ => Or.inr (Or.inr (Or.inl rfl))) nofun (fun _ => Function.update_self ..)
      (fun _ hp => hp) fun hw => ?_
    rcases hw.sleeps_of hpc with hk | hk <;> cases hk
  | switch a slot hpc =>
    obtain ⟨hmode, hok⟩ := h.phase t a slot _ hpc
    exact h.ownStep hpc rfl (h.lock_own hpc nofun nofun) rfl (fun _ _ => ⟨rfl, rfl, rfl, rfl⟩)
      (fun _ _ => rfl) (fun _ _ => Iff.rfl) (fun _ hrun => hrun.of_enterSwitch) rfl hmode hok
      (fun _ => Or.inr (Or.inr (Or.inr rfl))) (fun _ => enterSwitch_not_running) id
      (fun _ hp => hp) fun hw => ⟨Or.inr rfl, hw.blocked, hw.idle⟩
  | resume a slot hpc =>
    obtain ⟨hmode, hlaunched, hgtid, hsleep⟩ := h.phase t a slot _ hpc
    have hnot := h.selected t a slot hpc hrun
    obtain ⟨-, hidle, hdone⟩ := hsleep.resolve_left fun hs => hnot hs.1
    exact h.ownGoto hpc nofun nofun hmode ⟨hidle, hdone⟩ (fun hb => absurd hb hnot) nofun
      (fun _ hb => absurd hb hnot)
  | itRestore a slot hpc =>
    obtain ⟨hmode, hok⟩ := h.phase t a slot _ hpc
    have hnot := h.free_own ht hpc ⟨nofun, nofun, nofun, nofun⟩
    exact h.ownGoto hpc nofun nofun hmode hok (fun hb => absurd hb hnot) nofun
      (fun _ hb => absurd hb hnot)
  | getStatus a slot hpc =>
    obtain ⟨hmode, hok⟩ := h.phase t a slot _ hpc
    have hnot := h.free_own ht hpc ⟨nofun, nofun, nofun, nofun⟩
    exact h.ownGoto hpc nofun nofun trivial hok (fun hb => absurd hb hnot) nofun
      (fun _ hb => absurd hb hnot)
  | pollLaunch a slot hpc =>
    obtain ⟨hmode, hidle⟩ := h.phase t a slot _ hpc
    have hnot := h.free_own ht hpc ⟨nofun, nofun, nofun, nofun⟩
    exact h.start hpc nofun nofun hmode hidle
      ⟨hidle.2, Function.update_self .., iff_of_true (Function.update_self ..)
        (Function.update_self ..)⟩ (fun hb => absurd hb hnot) nofun (by rintro (hk | hk) <;> cases hk)
  | irqDisable a slot hpc =>
    obtain ⟨hmode, hok⟩ := h.phase t a slot _ hpc
    have hnot := h.free_own ht hpc ⟨nofun, nofun, nofun, nofun⟩
    exact h.ownStep hpc rfl (h.lock_own hpc nofun nofun) rfl (fun _ _ => ⟨rfl, rfl, rfl, rfl⟩)
      (fun _ _ => rfl) (fun _ _ => Iff.rfl) (fun _ hrun => hrun) rfl hmode hok
      (fun hb => absurd hb hnot) nofun id (fun _ hp => hp) fun hw => absurd hw.blocked hnot
  | poll a slot hpc hdone =>
    obtain ⟨hmode, hactive, hissuer, hlaunched⟩ := h.phase t a slot _ hpc
    have hnot := h.free_own ht hpc ⟨nofun, nofun, nofun, nofun⟩
    refine h.ownGoto hpc nofun nofun hmode ⟨⟨hdone, hactive⟩, fun hnone => ?_⟩
      (fun hb => absurd hb hnot) nofun (fun _ hb => absurd hb hnot)
    cases hdone.symm.trans (hlaunched.mpr hnone)
  | readPxis a slot hpc =>
    obtain ⟨hmode, hok⟩ := h.phase t a slot _ hpc
    have hnot := h.free_own ht hpc ⟨nofun, nofun, nofun, nofun⟩
    exact h.ownGoto hpc nofun nofun hmode hok (fun hb => absurd hb hnot) nofun
      (fun _ hb => absurd hb hnot)
  | resetPxis a slot pxis hpc =>
    obtain ⟨hmode, hok⟩ := h.phase t a slot _ hpc
    have hnot := h.free_own ht hpc ⟨nofun, nofun, nofun, nofun⟩
    exact h.ownStep hpc rfl (h.lock_own hpc nofun nofun) rfl (fun _ _ => ⟨rfl, rfl, rfl, rfl⟩)
      (fun _ _ => rfl) (fun _ _ => Iff.rfl) (fun _ hrun => hrun) rfl trivial hok
      (fun hb => absurd hb hnot) nofun id (fun _ hp => hp) fun hw => absurd hw.blocked hnot
  | releaseError a slot pxis hpc hfree =>
    cases (h.allocated t slot (Pc.own_owns hpc)).2.symm.trans hfree
  | release a slot pxis hpc hused =>
    obtain ⟨hmode, hok⟩ := h.phase t a slot _ hpc
    have hnot := h.free_own ht hpc ⟨nofun, nofun, nofun, nofun⟩
    exact h.ownGoto hpc nofun nofun trivial hok (fun hb => absurd hb hnot) nofun
      (fun _ hb => absurd hb hnot)
  | clearSlot a slot pxis hpc => exact h.clearSlot hpc

/-! ## Steps of the schedulers, the device and the handler -/

/-- A step that moves no task. -/
theorem Inv.sharedStep (h : Inv c s) (hpc : s'.pc = s.pc) (hlock : s'.lock = s.lock)
    (hallocated : s'.allocated = s.allocated)
    (hidle : ∀ slot, (∀ t, ¬(s.pc t).Owns slot) → s.Idle slot → s'.Idle slot)
    (hphase : ∀ t a slot k, s.pc t = .own a slot k → PhaseOk s (s.sched.Blocked c t) t slot k →
      PhaseOk s' (s'.sched.Blocked c t) t slot k)
    (hblocked : ∀ t, s'.sched.Blocked c t → s.sched.Blocked c t)
    (hselected : ∀ t, c.Task t → s'.sched.Running t →
      s.sched.Running t ∨ ¬s.sched.Blocked c t)
    (hisr : IsrOk c s' s'.isr) : Inv c s' := by
  refine ⟨?_, ?_, ?_, ?_, ?_, ?_, ?_, ?_, ?_, hisr⟩
  · rw [hpc]
    exact h.task
  · rw [hpc, hlock]
    exact h.lock
  · rw [hpc]
    exact h.owner
  · rw [hpc, hallocated]
    exact h.allocated
  · rw [hpc, hallocated]
    exact h.take
  · rw [hpc]
    exact fun slot hnone => hidle slot hnone (h.unowned slot hnone)
  · rw [hpc]
    intro t a slot k hown
    obtain ⟨hmode, hok⟩ := h.phase t a slot k hown
    exact ⟨hmode, hphase t a slot k hown hok⟩
  · rw [hpc]
    exact fun t ht hb => h.blocked t ht (hblocked t hb)
  · rw [hpc]
    intro t a slot hown hrun hb
    have ht := h.task t (Pc.own_owns hown).ne_out
    rcases hselected t ht hrun with hrun' | hnot
    · exact h.selected t a slot hown hrun' (hblocked t hb)
    · exact hnot (hblocked t hb)

/-- Every step of the schedulers keeps the invariant. -/
theorem Inv.schedStep (h : Inv c s) {masked : TaskId → Prop} {sched : Sched}
    (hstep : SchedStep c masked s.sched sched) : Inv c { s with sched } := by
  refine h.sharedStep rfl rfl rfl (fun _ _ hidle => hidle) (fun t a slot k _ hok => ?_)
    (fun t => hstep.blocked.mp) (fun t ht hrun => hstep.selected ht hrun) ?_
  · exact hok.congr ⟨rfl, rfl, rfl, rfl⟩ rfl hstep.blocked Iff.rfl
  · exact h.isr.mono (fun _ ha => ha) (fun _ _ hp => hp) fun slot t _ hw =>
      ⟨hw.sleeps, hstep.blocked.mpr hw.blocked, hw.idle⟩

/-- A slot that is not idle has an owner. -/
theorem Inv.exists_owner (h : Inv c s) (hbusy : ¬s.Idle slot) :
    ∃ t a k, s.pc t = .own a slot k := by
  by_contra hnone
  exact hbusy (h.unowned slot fun t ⟨a, k, hpc⟩ => hnone ⟨t, a, k, hpc⟩)

/-- The owner of a slot whose command is in progress. -/
theorem Inv.exists_launched (h : Inv c s) (hbusy : s.device.pxci slot = true) :
    ∃ t a k, s.pc t = .own a slot k ∧ s.Launched t slot ∧
      (k = .setActive ∨ k.Sleeps ∨ k = .irqDisable ∨ k = .poll) := by
  have hnot : ¬s.Idle slot := fun hidle => by cases hidle.1.symm.trans hbusy
  obtain ⟨t, a, k, hpc⟩ := h.exists_owner hnot
  refine ⟨t, a, k, hpc, ?_⟩
  have hok := (h.phase t a slot k hpc).2
  cases k with
  | setActive => exact ⟨hok.2.1, Or.inl rfl⟩
  | switch => exact ⟨hok.1, Or.inr (Or.inl (Or.inl rfl))⟩
  | switched => exact ⟨hok.1, Or.inr (Or.inl (Or.inr rfl))⟩
  | irqDisable => exact ⟨hok.2, Or.inr (Or.inr (Or.inl rfl))⟩
  | poll => exact ⟨hok.2, Or.inr (Or.inr (Or.inr rfl))⟩
  | unlock | command | irqEnable | setGtid | pollLaunch => exact absurd hok hnot
  | _ => exact absurd hok.1 hnot

/-- The owner of a slot whose flag is set sleeps. -/
theorem Inv.exists_sleeper (h : Inv c s) (hactive : s.active slot = true) :
    ∃ t a k, s.pc t = .own a slot k ∧ k.Sleeps ∧ s.Launched t slot ∧ s.gtid slot = gtidOf t ∧
      s.sched.Blocked c t := by
  have hnot : ¬s.Idle slot := fun hidle => by cases hidle.2.symm.trans hactive
  obtain ⟨t, a, k, hpc⟩ := h.exists_owner hnot
  have hok := (h.phase t a slot k hpc).2
  refine ⟨t, a, k, hpc, ?_⟩
  have hsleep (hs : s.sched.Blocked c t ∧ (s.active slot = true ∨ s.isr.Wakes slot) ∨
      ¬s.sched.Blocked c t ∧ s.Idle slot ∧ s.outcome t ≠ none) : s.sched.Blocked c t := by
    rcases hs with hs | hs
    · exact hs.1
    · exact absurd hs.2.1 hnot
  cases k with
  | switch => exact ⟨Or.inl rfl, hok.1, hok.2.1, hsleep hok.2.2⟩
  | switched => exact ⟨Or.inr rfl, hok.1, hok.2.1, hsleep hok.2.2⟩
  | unlock | command | irqEnable | setGtid | pollLaunch => exact absurd hok hnot
  | setActive | irqDisable | poll => cases hok.1.symm.trans hactive
  | _ => exact absurd hok.1 hnot

/-- The device completes a command. -/
theorem Inv.complete (h : Inv c s) (result : BitVec 32) (hbusy : s.device.pxci slot = true) :
    Inv c (s.complete slot result) := by
  obtain ⟨t, a, k, hpc, hlaunched, -⟩ := h.exists_launched hbusy
  have hdone {slot' : ℕ} (hp : s.device.pxci slot' = false) :
      (s.complete slot result).device.pxci slot' = false := by
    change Function.update s.device.pxci slot false slot' = false
    rw [Function.update_apply, hp, ite_self]
  have hidle {slot' : ℕ} (hi : s.Idle slot') : (s.complete slot result).Idle slot' :=
    ⟨hdone hi.1, hi.2⟩
  have hnot : ¬s.Idle slot := fun hi => by cases hi.1.symm.trans hbusy
  refine h.sharedStep rfl rfl rfl (fun _ _ hi => hidle hi)
    (fun u a' slot' k' hu hok => ?_) (fun _ hb => hb) (fun _ _ hrun => Or.inl hrun) ?_
  · by_cases hslot : slot' = slot
    · subst hslot
      obtain rfl : u = t := h.owner u t slot' (Pc.own_owns hu) (Pc.own_owns hpc)
      have hnew : (s.complete slot' result).Launched u slot' := by
        refine ⟨hlaunched.1, ?_⟩
        simp [State.complete, hlaunched.1]
      cases k' with
      | setActive => exact ⟨hok.1, hnew, hok.2.2⟩
      | switch | switched =>
        obtain ⟨-, hgtid, hb | hb⟩ := hok
        · exact ⟨hnew, hgtid, Or.inl hb⟩
        · exact absurd hb.2.1 hnot
      | irqDisable | poll => exact ⟨hok.1, hnew⟩
      | unlock | command | irqEnable | setGtid | pollLaunch => exact absurd hok hnot
      | _ => exact absurd hok.1 hnot
    · have hut : u ≠ t := by
        rintro rfl
        exact hslot ((Pc.own_owns hu).slot_eq hpc)
      exact hok.congr ⟨Function.update_of_ne hslot _ _, rfl, rfl, rfl⟩
        (Function.update_of_ne (hlaunched.1 ▸ hut) _ _) Iff.rfl Iff.rfl
  · exact h.isr.mono (fun _ ha => ha) (fun _ _ hp => hdone hp) fun slot' u _ hw =>
      ⟨hw.sleeps, hw.blocked, hidle hw.idle⟩

/-- A step of the handler that changes the status words only. -/
theorem Inv.isrMove (h : Inv c s) {isr : IsrPc} {status pxis : BitVec 32}
    (hwakes : ∀ slot, isr.Wakes slot ↔ s.isr.Wakes slot)
    (hisr : IsrOk c s isr) :
    Inv c { s with isr, status, device := { s.device with pxis } } := by
  refine h.sharedStep rfl rfl rfl (fun _ _ hidle => hidle) (fun t a slot k _ hok => ?_)
    (fun _ hb => hb) (fun _ _ hrun => Or.inl hrun) ?_
  · exact hok.congr ⟨rfl, rfl, rfl, rfl⟩ rfl Iff.rfl (hwakes slot)
  · exact hisr.mono (fun _ ha => ha) (fun _ _ hp => hp) fun _ _ _ hw =>
      ⟨hw.sleeps, hw.blocked, hw.idle⟩

/-- The handler clears the flag of a command that it has seen completed. -/
theorem Inv.deactivate (h : Inv c s) {active pxci : ℕ → Bool} (hpc : s.isr = .loop slot active pxci)
    (hactive : active slot = true) (hdone : pxci slot = false) :
    Inv c { s with
      isr := .readProcid slot active pxci
      active := Function.update s.active slot false } := by
  have hwatch : s.Watches slot active pxci := by
    have hisr := h.isr
    rwa [hpc] at hisr
  obtain ⟨hact, hpxci⟩ := hwatch slot le_rfl hactive
  obtain ⟨t, a, k, hown, hsleeps, hlaunched, hgtid, hb⟩ := h.exists_sleeper hact
  refine h.sharedStep rfl rfl rfl (fun slot' _ hi => ?_) (fun u a' slot' k' hu hok => ?_)
    (fun _ hb => hb) (fun _ _ hrun => Or.inl hrun) ?_
  · refine ⟨hi.1, ?_⟩
    change Function.update s.active slot false slot' = false
    rw [Function.update_apply, hi.2, ite_self]
  · by_cases hslot : slot' = slot
    · subst hslot
      obtain rfl : u = t := h.owner u t slot' (Pc.own_owns hu) (Pc.own_owns hown)
      cases hown.symm.trans hu
      rcases hsleeps with rfl | rfl
      · exact ⟨hlaunched, hgtid, Or.inl ⟨hb, Or.inr rfl⟩⟩
      · exact ⟨hlaunched, hgtid, Or.inl ⟨hb, Or.inr rfl⟩⟩
    · refine hok.congr ⟨rfl, Function.update_of_ne hslot _ _, rfl, rfl⟩ rfl Iff.rfl ?_
      rw [hpc]
      exact iff_of_false hslot id
  · refine ⟨fun slot' hn ha => ?_, t, ⟨a, k, hown, hsleeps⟩, hb, hpxci hdone, Function.update_self ..⟩
    obtain ⟨hact', hpxci'⟩ := hwatch slot' (by omega) ha
    exact ⟨(Function.update_of_ne (by omega) _ _).trans hact', hpxci'⟩

/-- The global index that the handler reads is that of the owner. -/
theorem Inv.gtid_wakeable (h : Inv c s) (hw : Wakeable c s slot t) :
    c.Task t ∧ s.Launched t slot ∧ s.gtid slot = gtidOf t := by
  obtain ⟨⟨a, k, hpc, hs⟩, -, -⟩ := hw
  refine ⟨h.task t (Pc.own_owns hpc).ne_out, ?_⟩
  have hok := (h.phase t a slot k hpc).2
  rcases hs with rfl | rfl
  · exact ⟨hok.1, hok.2.1⟩
  · exact ⟨hok.1, hok.2.1⟩

/-- The handler wakes the owner of a slot. -/
theorem Inv.clearNorun (h : Inv c s) {active pxci : ℕ → Bool} {procid ltid : ℕ}
    (hpc : s.isr = .clearNorun slot active pxci procid ltid) :
    Inv c { s with
      isr := .sendWti slot active pxci procid
      sched := s.sched.unblock (c.isrContext procid ltid) } := by
  have hisr := h.isr
  rw [hpc] at hisr
  obtain ⟨hwatch, t, hw, rfl, rfl⟩ := hisr
  obtain ⟨a, k, hown, hsleeps⟩ := hw.sleeps
  rw [c.isrContext_eq t]
  refine h.sharedStep rfl rfl rfl (fun _ _ hi => hi) (fun u a' slot' k' hu hok => ?_)
    (fun u hb => ?_) (fun _ _ hrun => Or.inl hrun) hwatch
  · by_cases hut : u = t
    · subst hut
      cases hown.symm.trans hu
      obtain ⟨-, hlaunched, hgtid⟩ := h.gtid_wakeable hw
      have hdone : s.outcome u ≠ none := fun hnone => by
        cases hw.idle.1.symm.trans (hlaunched.2.mpr hnone)
      rcases hsleeps with rfl | rfl
      · exact ⟨hlaunched, hgtid, Or.inr ⟨unblock_not_blocked, hw.idle, hdone⟩⟩
      · exact ⟨hlaunched, hgtid, Or.inr ⟨unblock_not_blocked, hw.idle, hdone⟩⟩
    · refine hok.congr ⟨rfl, rfl, rfl, rfl⟩ rfl (unblock_blocked_of_ne hut) ?_
      rw [hpc]
      refine iff_of_false id fun hslot => hut ?_
      cases hslot
      exact h.owner u t slot (Pc.own_owns hu) (Pc.own_owns hown)
  · by_cases hut : u = t
    · exact absurd (hut ▸ hb) unblock_not_blocked
    · exact (unblock_blocked_of_ne hut).mp hb

/-- Every step of the handler keeps the invariant. -/
theorem Inv.isrStep (h : Inv c s) (hstep : IsrStep c s s') : Inv c s' := by
  have hisr := h.isr
  cases hstep with
  | enter hpc hirq => exact h.isrMove (fun _ => by rw [hpc]; exact Iff.rfl) trivial
  | keepStatus hpc hst => exact h.isrMove (fun _ => by rw [hpc]; exact Iff.rfl) trivial
  | newStatus hpc hst => exact h.isrMove (fun _ => by rw [hpc]; exact Iff.rfl) trivial
  | readPxis hpc => exact h.isrMove (fun _ => by rw [hpc]; exact Iff.rfl) trivial
  | setStatus pxis hpc => exact h.isrMove (fun _ => by rw [hpc]; exact Iff.rfl) trivial
  | resetPxis hpc => exact h.isrMove (fun _ => by rw [hpc]; exact Iff.rfl) nofun
  | snapshot slot active hpc hslot =>
    rw [hpc] at hisr
    refine h.isrMove (fun _ => by rw [hpc]; exact Iff.rfl) fun slot' ha => ?_
    rw [Function.update_apply] at ha
    split at ha
    · rename_i heq
      exact ⟨by omega, heq ▸ ha⟩
    · obtain ⟨hlt, hact⟩ := hisr slot' ha
      exact ⟨by omega, hact⟩
  | readPxci slot active hpc hslot =>
    rw [hpc] at hisr
    exact h.isrMove (fun _ => by rw [hpc]; exact Iff.rfl) fun slot' _ ha => ⟨(hisr slot' ha).2, id⟩
  | deactivate slot active pxci hpc hslot hdone => exact h.deactivate hpc hdone.1 hdone.2
  | skip slot active pxci hpc hslot hdone =>
    rw [hpc] at hisr
    exact h.isrMove (fun _ => by rw [hpc]; exact Iff.rfl) fun slot' hn => hisr slot' (by omega)
  | exit slot active pxci hpc hslot =>
    exact h.isrMove (fun _ => by rw [hpc]; exact Iff.rfl) trivial
  | readProcid slot active pxci hpc =>
    rw [hpc] at hisr
    obtain ⟨hwatch, t, hw⟩ := hisr
    obtain ⟨ht, -, hgtid⟩ := h.gtid_wakeable hw
    refine h.isrMove (fun _ => by rw [hpc]; exact Iff.rfl) ⟨hwatch, t, hw, ?_⟩
    rw [hgtid]
    exact (gtidOf_parts ht).1
  | readLtid slot active pxci procid hpc =>
    rw [hpc] at hisr
    obtain ⟨hwatch, t, hw, hproc⟩ := hisr
    obtain ⟨ht, -, hgtid⟩ := h.gtid_wakeable hw
    refine h.isrMove (fun _ => by rw [hpc]; exact Iff.rfl) ⟨hwatch, t, hw, hproc, ?_⟩
    rw [hgtid]
    exact (gtidOf_parts ht).2
  | clearNorun slot active pxci procid ltid hpc => exact h.clearNorun hpc
  | sendWti slot active pxci procid hpc =>
    rw [hpc] at hisr
    exact h.isrMove (fun _ => by rw [hpc]; exact Iff.rfl) hisr

/-- A task calls the driver. -/
theorem Inv.call (h : Inv c s) (ht : c.Task t) (a : Args)
    (hpc : s.pc t = .out ∨ ∃ a' v, s.pc t = .returned a' v) :
    Inv c (s.goto t (.entered a)) := by
  have hout : ∀ slot, ¬(s.pc t).Owns slot := by
    rintro slot ⟨a', k, heq⟩
    rcases hpc with hpc | ⟨a'', v, hpc⟩
    · cases hpc.symm.trans heq
    · cases hpc.symm.trans heq
  have hnot : ¬(s.pc t).InLock := by
    rcases hpc with hpc | ⟨a'', v, hpc⟩
    · rw [hpc]
      exact id
    · rw [hpc]
      exact id
  refine h.outsideStep ht hout (fun _ ⟨_, _, heq⟩ => nomatch heq) (fun u => ?_) nofun
  by_cases hut : u = t
  · rw [if_pos hut, hut]
    exact iff_of_false (fun hl => hnot ((h.lock t).mpr hl)) id
  · rw [if_neg hut]

/-- Every step keeps the invariant. -/
theorem Inv.step (h : Inv c s) {action : Action} (hstep : Step c s action s') : Inv c s' := by
  cases hstep with
  | call t a ht hrun hpc => exact h.call ht a hpc
  | task t ht hrun hstep => exact h.taskStep ht hrun hstep
  | sched hstep => exact h.schedStep hstep
  | complete slot result hbusy => exact h.complete result hbusy
  | isr hstep => exact h.isrStep hstep

/-- The invariant holds in every reachable state. -/
theorem Run.inv {ok : State → Action → Prop} (h : Run c ok s) : Inv c s := by
  induction h with
  | init h => exact h.inv
  | step _ _ hstep ih => exact ih.step hstep

/-! ## Waiting tasks -/

/-- The task has launched its command and has not been selected since. -/
def Phase.Waits (k : Phase) : Prop := k = .setActive ∨ k.Sleeps

/-- The command of a task that waits is in progress, or the task has its result. -/
theorem Inv.waits_launched (h : Inv c s) {a : Args} {k : Phase} (hpc : s.pc t = .own a slot k)
    (hk : k.Waits) : s.Launched t slot := by
  have hok := (h.phase t a slot k hpc).2
  rcases hk with rfl | rfl | rfl
  · exact hok.2.1
  · exact hok.1
  · exact hok.1

end GietVm.Drivers.Hba
