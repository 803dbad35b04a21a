import GietVm.Drivers.Bdv
import Mathlib.Data.Finset.Prod

/-!
# The invariant of the block device driver

The owner of `_bdv_lock` is the only task that touches the device and the global words. Until
it launches its transfer the device and the handler are at rest; afterwards the transfer goes
through four stages: in progress, completed with its interrupt raised, taken by one execution
of the handler, and announced to the task. The NORUN bit of the owner is set in the first
three stages, so that the task is not selected before the fourth.
-/

namespace GietVm.Drivers.Bdv

open GietVm.Library

variable {c : Platform} {s s' : State} {t u : TaskId}

/-! ## Points of the parties -/

/-- The task polls the lock for a ticket. -/
def Pc.Waits (pc : Pc) (ticket : ℕ) : Prop := ∃ a, pc = .waiting a ticket

/-- The task owns the lock. -/
def Pc.Owns : Pc → Prop
  | .setUp _ _ | .switch _ | .switched _ | .itRestore _ | .testReadError _ | .testWriteError _
  | .release _ _ | .giveLock _ _ _ => True
  | _ => False

/-- The task has launched its transfer and has not left the descheduling point. -/
def Pc.Transfers : Pc → Prop
  | .switch _ | .switched _ => True
  | _ => False

/-- The task may have its NORUN bit set. -/
def Pc.MayBlock : Pc → Prop
  | .setUp _ k => k = .launch
  | pc => pc.Transfers

/-- The execution of the handler has taken a completed transfer and not yet announced it. -/
def IsrPc.Active : IsrPc → Prop
  | .setStatus _ | .readProcid | .readLtid _ | .clearNorun _ _ => True
  | _ => False

/-- Nothing is in progress, completed, or being announced. -/
structure Shared.Rest (sh : Shared) : Prop where
  status : sh.device.status = .idle
  irq : sh.device.irq = false
  isr : ∀ q, ¬(sh.isr q).Active

/-- What the first `n` steps before a launch have written. -/
structure SetUpOk (sh : Shared) (t : TaskId) (a : Args) (n : ℕ) : Prop where
  buffer : 1 ≤ n → sh.device.buffer = a.bufPaddr % 0x100000000
  bufferExt : 2 ≤ n → sh.device.bufferExt = (a.bufPaddr >>> 32) % 0x100000000
  count : 3 ≤ n → sh.device.count = a.count
  lba : 4 ≤ n → sh.device.lba = a.lba
  irqEnable : 5 ≤ n → sh.device.irqEnable = 1
  gtid : 6 ≤ n → sh.gtid = gtidOf t

/-- An active execution of the handler announces the status `st` to the task. -/
def Shared.Announces (sh : Shared) (t : TaskId) (st : Status) : IsrPc → Prop
  | .setStatus status => status = st
  | .readProcid => sh.status = st
  | .readLtid procid => sh.status = st ∧ procid = t.procid
  | .clearNorun procid ltid => sh.status = st ∧ procid = t.procid ∧ ltid = t.ltid
  | _ => False

/-- The stages of the transfer of a task. -/
inductive Stage (sh : Shared) (blocked : Prop) (t : TaskId) : Prop
  | busy (status : sh.device.status = .busy) (irq : sh.device.irq = false)
      (isr : ∀ q, ¬(sh.isr q).Active) (gtid : sh.gtid = gtidOf t) (job : sh.job = t)
      (enable : sh.device.irqEnable = 1) (outcome : sh.outcome t = none) (blocked : blocked)
  | completed (st : Status) (final : st.Final) (status : sh.device.status = st)
      (irq : sh.device.irq = true) (isr : ∀ q, ¬(sh.isr q).Active) (gtid : sh.gtid = gtidOf t)
      (outcome : sh.outcome t = some st) (blocked : blocked)
  | taken (q : ℕ) (st : Status) (status : sh.device.status = .idle)
      (irq : sh.device.irq = false) (isr : sh.Announces t st (sh.isr q))
      (others : ∀ q', q' ≠ q → ¬(sh.isr q').Active) (gtid : sh.gtid = gtidOf t)
      (outcome : sh.outcome t = some st) (blocked : blocked)
  | announced (rest : sh.Rest) (outcome : sh.outcome t = some sh.status) (blocked : ¬blocked)

/-- What holds of the shared state when a task is at a point. -/
def PcOk (sh : Shared) (blocked : Prop) (t : TaskId) : Pc → Prop
  | .out | .entered _ => True
  | .acquire a | .waiting a _ => a.Aligned
  | .setUp a k => a.Aligned ∧ sh.Rest ∧ SetUpOk sh t a k.index ∧ (k = .launch → blocked)
  | .switch a | .switched a => a.Aligned ∧ Stage sh blocked t
  | .itRestore a | .testReadError a => a.Aligned ∧ sh.Rest ∧ sh.outcome t = some sh.status
  | .testWriteError a =>
    a.Aligned ∧ sh.Rest ∧ sh.outcome t = some sh.status ∧ sh.status ≠ .readError
  | .release a e | .giveLock a e _ =>
    a.Aligned ∧ sh.Rest ∧ ∃ st, sh.outcome t = some st ∧ e = st.error
  | .returned a v =>
    (a.Aligned → ∃ st, sh.outcome t = some st ∧ v = st.error) ∧ (¬a.Aligned → v = 0xFFFFFFFF)

/-- The invariant of the driver. -/
structure Inv (c : Platform) (s : State) : Prop where
  task : ∀ t, s.pc t ≠ .out → c.Task t
  lock : TicketUse s.lockCurrent s.lockFree s.drawn s.served s.given
    (fun t ticket => (s.pc t).Waits ticket) (fun t => (s.pc t).Owns)
  value : ∀ t a e v, s.pc t = .giveLock a e v → v = s.lockCurrent
  ok : ∀ t, PcOk s.shared (s.sched.Blocked c t) t (s.pc t)
  rest : (∀ t, ¬(s.pc t).Owns) → s.shared.Rest
  blocked : ∀ t, c.Task t → s.sched.Blocked c t → (s.pc t).MayBlock
  selected : ∀ t a, s.pc t = .switched a → s.sched.Running t → ¬s.sched.Blocked c t

theorem Initial.inv (h : Initial c s) : Inv c s := by
  obtain ⟨hcurrent, hfree⟩ := h.lock
  obtain ⟨hdrawn, hserved, hgiven⟩ := h.histories
  refine ⟨fun t hne => absurd (h.pc t) hne, ?_, ?_, ?_, ?_, ?_, ?_⟩
  · rw [hcurrent, hfree, hdrawn, hserved, hgiven]
    refine TicketUse.init (fun t k => ?_) fun t => ?_ <;> rw [h.pc t]
    · rintro ⟨a, ha⟩
      cases ha
    · exact id
  · intro t a e v hpc
    rw [h.pc t] at hpc
    cases hpc
  · intro t
    rw [h.pc t]
    trivial
  · refine fun _ => ⟨h.status, h.irq, fun q => ?_⟩
    rw [h.isr q]
    exact id
  · exact fun t ht hb => absurd hb (h.blocked t ht)
  · intro t a hpc
    rw [h.pc t] at hpc
    cases hpc

/-! ## Frames -/

/-- A task that does not own the lock depends on the outcome of its last transfer only. -/
theorem PcOk.of_not_owns {sh sh' : Shared} {b b' : Prop} {pc : Pc} (h : PcOk sh b t pc)
    (hpc : ¬pc.Owns) (hout : sh'.outcome t = sh.outcome t) : PcOk sh' b' t pc := by
  cases pc with
  | out | entered | acquire | waiting => exact h
  | returned a v =>
    simp only [PcOk, hout]
    exact h
  | setUp | switch | switched | itRestore | testReadError | testWriteError | release | giveLock =>
    exact absurd trivial hpc

/-- The tasks other than the owner depend on the outcomes of their transfers only. -/
theorem Inv.ok_other {sh' : Shared} {b' : Prop} (h : Inv c s) (ht : (s.pc t).Owns) (hu : u ≠ t)
    (hout : sh'.outcome u = s.shared.outcome u) : PcOk sh' b' u (s.pc u) :=
  (h.ok u).of_not_owns (fun huo => hu (h.lock.unique huo ht)) hout

/-- A task that owns the lock is not waiting for it. -/
theorem Pc.Owns.not_waits {pc : Pc} (h : pc.Owns) (ticket : ℕ) : ¬pc.Waits ticket := by
  rintro ⟨a, rfl⟩
  exact h

theorem Pc.Owns.ne_out {pc : Pc} (h : pc.Owns) : pc ≠ .out := by
  rintro rfl
  exact h

/-- The tasks of the platform are fewer than the tickets. -/
theorem Inv.queue_length (h : Inv c s) :
    (ticketQueue s.drawn s.given).length ≤ 0x100000000 := by
  let pair : ℕ × ℕ → TaskId := fun q => ⟨q.1, q.2⟩
  let tasks := (Finset.range c.procs ×ˢ Finset.range idleTaskIndex).image pair
  have hmem : ∀ u ∈ ticketQueue s.drawn s.given, u ∈ tasks := by
    intro u hu
    have hne : s.pc u ≠ .out := by
      intro hout
      rcases (h.lock.mem_queue u).mp hu with ⟨k, a, ha⟩ | ho
      · rw [hout] at ha
        cases ha
      · exact ho.ne_out hout
    obtain ⟨hproc, hltid⟩ := h.task u hne
    refine Finset.mem_image.mpr ⟨(u.procid, u.ltid), ?_, rfl⟩
    rw [Finset.mem_product, Finset.mem_range, Finset.mem_range]
    exact ⟨hproc, lt_of_lt_of_le hltid (c.tasks_le u.procid)⟩
  refine (ticketQueue_length_le h.lock.nodup hmem).trans (Finset.card_image_le.trans ?_)
  rw [Finset.card_product, Finset.card_range, Finset.card_range, idleTaskIndex]
  have := c.procs_le
  omega

/-! ## Steps of the tasks -/

/-- The points of the tasks after one of them has moved. -/
theorem forall_update {f : TaskId → Pc} {x : Pc} {P : TaskId → Pc → Prop} (hself : P t x)
    (hother : ∀ u, u ≠ t → P u (f u)) (u : TaskId) : P u (Function.update f t x u) := by
  rw [Function.update_apply]
  split
  · rename_i hut
    exact hut ▸ hself
  · rename_i hut
    exact hother u hut

/-- A step of a task: what holds of the task at its new point, and what its step leaves of
the others. -/
theorem Inv.move (h : Inv c s) (ht : c.Task t) {pc : Pc} (hpcs : s'.pc = Function.update s.pc t pc)
    (hlock : TicketUse s'.lockCurrent s'.lockFree s'.drawn s'.served s'.given
      (fun u ticket => (Function.update s.pc t pc u).Waits ticket)
      (fun u => (Function.update s.pc t pc u).Owns))
    (hvalue : ∀ a e v, pc = .giveLock a e v → v = s'.lockCurrent)
    (hvalues : ∀ u, u ≠ t → (s.pc u).Owns → s'.lockCurrent = s.lockCurrent)
    (hself : PcOk s'.shared (s'.sched.Blocked c t) t pc)
    (hother : ∀ u, u ≠ t → PcOk s'.shared (s'.sched.Blocked c u) u (s.pc u))
    (hrest : ¬pc.Owns → (∀ u, u ≠ t → ¬(s.pc u).Owns) → s'.shared.Rest)
    (hmay : s'.sched.Blocked c t → pc.MayBlock)
    (hblocked : ∀ u, u ≠ t → (s'.sched.Blocked c u ↔ s.sched.Blocked c u))
    (hswitched : ∀ a, pc = .switched a → ¬s'.sched.Running t)
    (hrunning : ∀ u, s'.sched.Running u → s.sched.Running u) : Inv c s' where
  task := by
    rw [hpcs]
    exact forall_update (P := fun u pc => pc ≠ .out → c.Task u) (fun _ => ht) fun u _ => h.task u
  lock := by rwa [hpcs]
  value := by
    rw [hpcs]
    refine forall_update (P := fun u pc => ∀ a e v, pc = .giveLock a e v → v = s'.lockCurrent)
      hvalue fun u hut a e v hu => ?_
    rw [hvalues u hut (by rw [hu]; trivial)]
    exact h.value u a e v hu
  ok := by
    rw [hpcs]
    exact forall_update (P := fun u pc => PcOk s'.shared (s'.sched.Blocked c u) u pc) hself hother
  rest hnone := by
    rw [hpcs] at hnone
    refine hrest (by simpa using hnone t) fun u hut => ?_
    simpa [hut] using hnone u
  blocked := by
    rw [hpcs]
    exact forall_update (P := fun u pc => c.Task u → s'.sched.Blocked c u → pc.MayBlock)
      (fun _ => hmay) fun u hut hu hb => h.blocked u hu ((hblocked u hut).mp hb)
  selected := by
    rw [hpcs]
    refine forall_update (P := fun u pc => ∀ a, pc = .switched a → s'.sched.Running u →
      ¬s'.sched.Blocked c u) (fun a ha hrun => absurd hrun (hswitched a ha)) fun u hut a ha hrun hb => ?_
    exact h.selected u a ha (hrunning u hrun) ((hblocked u hut).mp hb)

/-- A task that moves without touching the lock leaves its use as it is. -/
theorem Inv.lock_move (h : Inv c s) {pc : Pc} (hwaits : ∀ k, pc.Waits k ↔ (s.pc t).Waits k)
    (howns : pc.Owns ↔ (s.pc t).Owns) :
    TicketUse s.lockCurrent s.lockFree s.drawn s.served s.given
      (fun u ticket => (Function.update s.pc t pc u).Waits ticket)
      (fun u => (Function.update s.pc t pc u).Owns) :=
  h.lock.congr
    (forall_update (P := fun u pc => ∀ k, pc.Waits k ↔ (s.pc u).Waits k) hwaits
      fun _ _ _ => Iff.rfl)
    (forall_update (P := fun u pc => pc.Owns ↔ (s.pc u).Owns) howns fun _ _ => Iff.rfl)

/-- A step of the owner that keeps the lock. -/
theorem Inv.ownerStep (h : Inv c s) {pc : Pc} {sh : Shared} {sched : Sched}
    (hold : (s.pc t).Owns) (hnew : pc.Owns)
    (hout : ∀ u, u ≠ t → sh.outcome u = s.shared.outcome u)
    (hblocked : ∀ u, u ≠ t → (sched.Blocked c u ↔ s.sched.Blocked c u))
    (hrunning : ∀ u, sched.Running u → s.sched.Running u)
    (hok : PcOk sh (sched.Blocked c t) t pc) (hmay : sched.Blocked c t → pc.MayBlock)
    (hswitched : ∀ a, pc = .switched a → ¬sched.Running t)
    (hvalue : ∀ a e v, pc = .giveLock a e v → v = s.lockCurrent) :
    Inv c { s.access t sh pc with sched } :=
  h.move (h.task t hold.ne_out) rfl
    (h.lock_move (fun k => iff_of_false (hnew.not_waits k) (hold.not_waits k))
      (iff_of_true hnew hold))
    hvalue (fun _ _ _ => rfl) hok (fun u hut => h.ok_other hold hut (hout u hut))
    (fun hnot => absurd hnew hnot) hmay hblocked hswitched hrunning

/-- A step of the owner that touches no NORUN word. -/
theorem Inv.ownerAccess (h : Inv c s) {pc : Pc} {sh : Shared} (hold : (s.pc t).Owns)
    (hnew : pc.Owns) (hout : ∀ u, u ≠ t → sh.outcome u = s.shared.outcome u)
    (hok : PcOk sh (s.sched.Blocked c t) t pc) (hmay : s.sched.Blocked c t → pc.MayBlock)
    (hswitched : ∀ a, pc ≠ .switched a)
    (hvalue : ∀ a e v, pc = .giveLock a e v → v = s.lockCurrent) :
    Inv c (s.access t sh pc) :=
  h.ownerStep hold hnew hout (fun _ _ => Iff.rfl) (fun _ hrun => hrun) hok hmay
    (fun a ha => absurd ha (hswitched a)) hvalue

/-- A task outside the queue of the lock has no NORUN bit set. -/
theorem Inv.not_blocked (h : Inv c s) (ht : c.Task t) (hold : ¬(s.pc t).Owns) :
    ¬s.sched.Blocked c t := by
  intro hb
  have hmay := h.blocked t ht hb
  cases hpc : s.pc t with
  | setUp | switch | switched =>
    rw [hpc] at hold
    exact hold trivial
  | out | entered | acquire | waiting | itRestore | testReadError | testWriteError | release
  | giveLock | returned =>
    rw [hpc] at hmay
    exact hmay

/-- A step of a task outside the queue of the lock. -/
theorem Inv.outsideStep (h : Inv c s) {pc : Pc} (ht : c.Task t) (hold : ¬(s.pc t).Owns)
    (hold' : ∀ ticket, ¬(s.pc t).Waits ticket) (hnew : ¬pc.Owns)
    (hnew' : ∀ ticket, ¬pc.Waits ticket)
    (hok : PcOk s.shared (s.sched.Blocked c t) t pc) : Inv c (s.goto t pc) := by
  have hswitched : ∀ a, pc ≠ .switched a := by
    rintro a rfl
    exact hnew trivial
  refine h.move ht rfl (h.lock_move (fun k => iff_of_false (hnew' k) (hold' k))
    (iff_of_false hnew hold)) ?_ (fun _ _ _ => rfl) hok (fun u _ => h.ok u)
    (fun _ hnone => h.rest fun u => ?_) (fun hb => absurd hb (h.not_blocked ht hold))
    (fun _ _ => Iff.rfl) (fun a ha => absurd ha (hswitched a)) fun _ hrun => hrun
  · rintro a e v rfl
    exact absurd trivial hnew
  · by_cases hut : u = t
    · exact hut ▸ hold
    · exact hnone u hut

/-- A task draws a ticket of the lock. -/
theorem Inv.draw (h : Inv c s) (ht : c.Task t) {a : Args} (hpc : s.pc t = .acquire a) :
    Inv c { s.goto t (.waiting a s.lockFree) with
      lockFree := add32 s.lockFree 1, drawn := s.drawn ++ [t] } := by
  have hnot : ¬(s.pc t).Owns := by
    rw [hpc]
    exact id
  have hnot' : ∀ ticket, ¬(s.pc t).Waits ticket := by
    rw [hpc]
    exact fun ticket ⟨a', ha'⟩ => nomatch ha'
  have hok := h.ok t
  rw [hpc] at hok
  refine h.move ht rfl (h.lock.draw hnot' hnot ?_ ?_) nofun (fun _ _ _ => rfl) hok
    (fun u _ => h.ok u) (fun _ hnone => h.rest fun u => ?_)
    (fun hb => absurd hb (h.not_blocked ht hnot)) (fun _ _ => Iff.rfl) nofun fun _ hrun => hrun
  · refine forall_update (P := fun u pc => ∀ k, pc.Waits k ↔
      (s.pc u).Waits k ∨ u = t ∧ k = s.lockFree) (fun k => ?_) fun u hut k => ?_
    · constructor
      · rintro ⟨a', ha'⟩
        cases ha'
        exact Or.inr ⟨rfl, rfl⟩
      · rintro (hk | ⟨-, rfl⟩)
        · exact absurd hk (hnot' k)
        · exact ⟨a, rfl⟩
    · simp [hut]
  · exact forall_update (P := fun u pc => pc.Owns ↔ (s.pc u).Owns) (iff_of_false id hnot)
      fun _ _ => Iff.rfl
  · by_cases hut : u = t
    · exact hut ▸ hnot
    · exact hnone u hut

/-- The lock serves a task: nothing is in progress. -/
theorem Inv.serve (h : Inv c s) {a : Args} (hpc : s.pc t = .waiting a s.lockCurrent) :
    Inv c { s.goto t (.setUp a .buffer) with served := s.served ++ [t] } := by
  have ht : c.Task t := h.task t (by rw [hpc]; exact Pc.noConfusion)
  have hnot : ¬(s.pc t).Owns := by
    rw [hpc]
    exact id
  have hok := h.ok t
  rw [hpc] at hok
  obtain ⟨hnone, hlock⟩ := h.lock.serve (t := t) h.queue_length ⟨a, hpc⟩
    (forall_update (f := s.pc) (x := .setUp a .buffer)
      (P := fun u pc => ∀ k, pc.Waits k ↔ (s.pc u).Waits k ∧ u ≠ t)
      (fun k => iff_of_false (fun ⟨a', ha'⟩ => nomatch ha') fun hk => hk.2 rfl)
      fun u hut k => (and_iff_left hut).symm)
    (forall_update (f := s.pc) (x := .setUp a .buffer)
      (P := fun u pc => pc.Owns ↔ (s.pc u).Owns ∨ u = t) (iff_of_true trivial (Or.inr rfl)) fun u hut => (or_iff_left hut).symm)
  refine h.move ht rfl hlock nofun (fun _ _ _ => rfl) ⟨hok, h.rest hnone, ⟨?_, ?_, ?_, ?_, ?_, ?_⟩,
    nofun⟩ (fun u _ => h.ok u) (fun hself => absurd trivial hself)
    (fun hb => absurd hb (h.not_blocked ht hnot)) (fun _ _ => Iff.rfl) nofun fun _ hrun => hrun
  all_goals simp [SetUp.index]

/-- The owner gives the lock back and returns. -/
theorem Inv.giveLock (h : Inv c s) {a : Args} {e v : ℕ} (hpc : s.pc t = .giveLock a e v) :
    Inv c { s.goto t (.returned a e) with
      lockCurrent := add32 v 1, given := s.given + 1 } := by
  have hown : (s.pc t).Owns := by
    rw [hpc]
    trivial
  have ht := h.task t hown.ne_out
  have hok := h.ok t
  have hmay := h.blocked t ht
  rw [hpc] at hok hmay
  obtain ⟨ha, hrest, hout⟩ := hok
  have hother : ∀ u, u ≠ t → ¬(s.pc u).Owns := fun u hut ho => hut (h.lock.unique ho hown)
  rw [h.value t a e v hpc]
  refine h.move ht rfl (h.lock.give hown hown.not_waits ?_ ?_) nofun
    (fun u hut ho => absurd ho (hother u hut)) ⟨fun _ => hout, fun hna => absurd ha hna⟩
    (fun u _ => h.ok u) (fun _ _ => hrest) (fun hb => (hmay hb).elim) (fun _ _ => Iff.rfl) nofun
    fun _ hrun => hrun
  · exact forall_update (P := fun u pc => ∀ k, pc.Waits k ↔ (s.pc u).Waits k)
      (fun k => iff_of_false (fun ⟨a', ha'⟩ => nomatch ha') (hown.not_waits k))
      fun _ _ _ => Iff.rfl
  · exact forall_update (P := fun _ pc => ¬pc.Owns) id hother

/-- Writing a device register keeps the device at rest. -/
theorem Shared.Rest.setDevice {sh : Shared} (h : sh.Rest) {d : Device}
    (hstatus : d.status = sh.device.status) (hirq : d.irq = sh.device.irq) :
    (sh.setDevice d).Rest :=
  ⟨hstatus.trans h.status, hirq.trans h.irq, h.isr⟩

/-- Every step of a task keeps the invariant. -/
theorem Inv.taskStep (h : Inv c s) (ht : c.Task t) (hrun : s.sched.Running t)
    (hstep : TaskStep c t s s') : Inv c s' := by
  have hok := h.ok t
  have hmay := h.blocked t ht
  cases hstep with
  | call a hpc =>
    have hnot : ¬(s.pc t).Owns ∧ ∀ ticket, ¬(s.pc t).Waits ticket := by
      rcases hpc with hpc | ⟨a', v, hpc⟩ <;> rw [hpc]
      · exact ⟨id, fun k ⟨a', ha'⟩ => by cases ha'⟩
      · exact ⟨id, fun k ⟨a', ha'⟩ => by cases ha'⟩
    exact h.outsideStep ht hnot.1 hnot.2 id (fun k ⟨a', ha'⟩ => by cases ha') trivial
  | misaligned a hpc ha =>
    rw [hpc] at hok
    exact h.outsideStep ht (by rw [hpc]; exact id)
      (by rw [hpc]; exact fun k ⟨a', ha'⟩ => by cases ha') id
      (fun k ⟨a', ha'⟩ => by cases ha') ⟨fun h' => absurd h' ha, fun _ => rfl⟩
  | aligned a hpc ha =>
    exact h.outsideStep ht (by rw [hpc]; exact id)
      (by rw [hpc]; exact fun k ⟨a', ha'⟩ => by cases ha') id
      (fun k ⟨a', ha'⟩ => by cases ha') ha
  | draw a hpc => exact h.draw ht hpc
  | serve a hpc => exact h.serve hpc
  | setBuffer a hpc =>
    rw [hpc] at hok hmay
    obtain ⟨ha, hrest, hset, -⟩ := hok
    refine h.ownerAccess (by rw [hpc]; trivial) trivial (fun _ _ => rfl) ?_
      (fun hb => nomatch hmay hb) nofun nofun
    exact ⟨ha, hrest.setDevice rfl rfl, ⟨fun _ => rfl, by simp [SetUp.index],
      by simp [SetUp.index], by simp [SetUp.index], by simp [SetUp.index],
      by simp [SetUp.index]⟩, nofun⟩
  | setBufferExt a hpc =>
    rw [hpc] at hok hmay
    obtain ⟨ha, hrest, hset, -⟩ := hok
    refine h.ownerAccess (by rw [hpc]; trivial) trivial (fun _ _ => rfl) ?_
      (fun hb => nomatch hmay hb) nofun nofun
    exact ⟨ha, hrest.setDevice rfl rfl, ⟨fun _ => hset.buffer (by decide), fun _ => rfl,
      by simp [SetUp.index], by simp [SetUp.index], by simp [SetUp.index],
      by simp [SetUp.index]⟩, nofun⟩
  | setCount a hpc =>
    rw [hpc] at hok hmay
    obtain ⟨ha, hrest, hset, -⟩ := hok
    refine h.ownerAccess (by rw [hpc]; trivial) trivial (fun _ _ => rfl) ?_
      (fun hb => nomatch hmay hb) nofun nofun
    exact ⟨ha, hrest.setDevice rfl rfl, ⟨fun _ => hset.buffer (by decide),
      fun _ => hset.bufferExt (by decide), fun _ => rfl, by simp [SetUp.index],
      by simp [SetUp.index], by simp [SetUp.index]⟩, nofun⟩
  | setLba a hpc =>
    rw [hpc] at hok hmay
    obtain ⟨ha, hrest, hset, -⟩ := hok
    refine h.ownerAccess (by rw [hpc]; trivial) trivial (fun _ _ => rfl) ?_
      (fun hb => nomatch hmay hb) nofun nofun
    exact ⟨ha, hrest.setDevice rfl rfl, ⟨fun _ => hset.buffer (by decide),
      fun _ => hset.bufferExt (by decide), fun _ => hset.count (by decide), fun _ => rfl,
      by simp [SetUp.index], by simp [SetUp.index]⟩, nofun⟩
  | setIrqEnable a hpc =>
    rw [hpc] at hok hmay
    obtain ⟨ha, hrest, hset, -⟩ := hok
    refine h.ownerAccess (by rw [hpc]; trivial) trivial (fun _ _ => rfl) ?_
      (fun hb => nomatch hmay hb) nofun nofun
    exact ⟨ha, hrest.setDevice rfl rfl, ⟨fun _ => hset.buffer (by decide),
      fun _ => hset.bufferExt (by decide), fun _ => hset.count (by decide),
      fun _ => hset.lba (by decide), fun _ => rfl, by simp [SetUp.index]⟩, nofun⟩
  | setGtid a hpc =>
    rw [hpc] at hok hmay
    obtain ⟨ha, hrest, hset, -⟩ := hok
    refine h.ownerAccess (by rw [hpc]; trivial) trivial (fun _ _ => rfl) ?_
      (fun hb => nomatch hmay hb) nofun nofun
    exact ⟨ha, ⟨hrest.status, hrest.irq, hrest.isr⟩, ⟨fun _ => hset.buffer (by decide),
      fun _ => hset.bufferExt (by decide), fun _ => hset.count (by decide),
      fun _ => hset.lba (by decide), fun _ => hset.irqEnable (by decide), fun _ => rfl⟩, nofun⟩
  | itDisable a hpc =>
    rw [hpc] at hok hmay
    obtain ⟨ha, hrest, hset, -⟩ := hok
    refine h.ownerAccess (by rw [hpc]; trivial) trivial (fun _ _ => rfl) ?_
      (fun hb => nomatch hmay hb) nofun nofun
    exact ⟨ha, hrest, ⟨fun _ => hset.buffer (by decide), fun _ => hset.bufferExt (by decide),
      fun _ => hset.count (by decide), fun _ => hset.lba (by decide),
      fun _ => hset.irqEnable (by decide), fun _ => hset.gtid (by decide)⟩, nofun⟩
  | setNorun a hpc =>
    rw [hpc] at hok
    obtain ⟨ha, hrest, hset, -⟩ := hok
    refine h.ownerStep (by rw [hpc]; trivial) trivial (fun _ _ => rfl)
      (fun u hut => block_blocked_of_ne hut) (fun u hu => hu) ?_ (fun _ => rfl) nofun nofun
    exact ⟨ha, hrest, ⟨fun _ => hset.buffer (by decide), fun _ => hset.bufferExt (by decide),
      fun _ => hset.count (by decide), fun _ => hset.lba (by decide),
      fun _ => hset.irqEnable (by decide), fun _ => hset.gtid (by decide)⟩,
      fun _ => block_blocked⟩
  | launch a hpc =>
    rw [hpc] at hok
    obtain ⟨ha, hrest, hset, hb⟩ := hok
    refine h.ownerAccess (by rw [hpc]; trivial) trivial
      (fun u hut => Function.update_of_ne hut _ _) ?_ (fun _ => trivial) nofun nofun
    exact ⟨ha, .busy rfl hrest.irq hrest.isr (hset.gtid (by decide)) rfl
      (hset.irqEnable (by decide)) (Function.update_self ..) (hb rfl)⟩
  | switch a hpc =>
    rw [hpc] at hok
    refine h.ownerStep (by rw [hpc]; trivial) trivial (fun _ _ => rfl)
      (fun _ _ => Iff.rfl) (fun u hu => hu.of_enterSwitch) hok (fun _ => trivial)
      (fun _ _ => enterSwitch_not_running) nofun
  | resume a hpc =>
    have hnot := h.selected t a hpc hrun
    rw [hpc] at hok
    obtain ⟨ha, hstage⟩ := hok
    cases hstage with
    | busy | completed | taken => contradiction
    | announced hrest hout =>
      exact h.ownerAccess (by rw [hpc]; trivial) trivial (fun _ _ => rfl)
        ⟨ha, hrest, hout⟩ (fun hb => absurd hb hnot) nofun nofun
  | itRestore a hpc =>
    rw [hpc] at hok hmay
    exact h.ownerAccess (by rw [hpc]; trivial) trivial (fun _ _ => rfl)
      hok (fun hb => (hmay hb).elim) nofun nofun
  | readError a hpc hst =>
    rw [hpc] at hok hmay
    obtain ⟨ha, hrest, hout⟩ := hok
    exact h.ownerAccess (by rw [hpc]; trivial) trivial (fun _ _ => rfl)
      ⟨ha, hrest, _, hout, by simp [Status.error, hst]⟩ (fun hb => (hmay hb).elim) nofun nofun
  | noReadError a hpc hst =>
    rw [hpc] at hok hmay
    obtain ⟨ha, hrest, hout⟩ := hok
    exact h.ownerAccess (by rw [hpc]; trivial) trivial (fun _ _ => rfl)
      ⟨ha, hrest, hout, hst⟩ (fun hb => (hmay hb).elim) nofun nofun
  | writeError a hpc =>
    rw [hpc] at hok hmay
    obtain ⟨ha, hrest, hout, hst⟩ := hok
    exact h.ownerAccess (by rw [hpc]; trivial) trivial (fun _ _ => rfl)
      ⟨ha, hrest, _, hout, by simp [Status.error, hst]⟩ (fun hb => (hmay hb).elim) nofun nofun
  | release a e hpc =>
    rw [hpc] at hok hmay
    refine h.ownerAccess (by rw [hpc]; trivial) trivial (fun _ _ => rfl)
      hok (fun hb => (hmay hb).elim) nofun fun a' e' v' heq => ?_
    cases heq
    rfl
  | giveLock a e v hpc => exact h.giveLock hpc

/-! ## Steps of the schedulers, the device and the handler -/

/-- The schedulers keep the invariant. -/
theorem Inv.schedStep (h : Inv c s) {masked : TaskId → Prop} {sched : Sched}
    (hstep : SchedStep c masked s.sched sched) : Inv c { s with sched } where
  task := h.task
  lock := h.lock
  value := h.value
  ok t := by
    have hok := h.ok t
    rwa [← propext (hstep.blocked (t := t))] at hok
  rest := h.rest
  blocked t ht hb := h.blocked t ht (hstep.blocked.mp hb)
  selected t a hpc hrun hb := by
    have hb := hstep.blocked.mp hb
    have ht := h.task t (by rw [hpc]; exact Pc.noConfusion)
    rcases hstep.selected ht hrun with hrun | hnot
    · exact h.selected t a hpc hrun hb
    · exact hnot hb

/-- A step of the device or of the handler. -/
theorem Inv.sharedStep (h : Inv c s) {sh : Shared} {sched : Sched}
    (hok : ∀ u, PcOk sh (sched.Blocked c u) u (s.pc u))
    (hrest : (∀ u, ¬(s.pc u).Owns) → sh.Rest)
    (hblocked : ∀ u, sched.Blocked c u → s.sched.Blocked c u)
    (hrunning : ∀ u, sched.Running u → s.sched.Running u) :
    Inv c { s with shared := sh, sched } where
  task := h.task
  lock := h.lock
  value := h.value
  ok := hok
  rest := hrest
  blocked u hu hb := h.blocked u hu (hblocked u hb)
  selected u a hpc hrun hb := h.selected u a hpc (hrunning u hrun) (hblocked u hb)

/-- When the device or the handler is not at rest, a task has its transfer in progress. -/
theorem Inv.exists_transfer (h : Inv c s) (hnot : ¬s.shared.Rest) :
    ∃ t, (s.pc t).Transfers ∧ Stage s.shared (s.sched.Blocked c t) t := by
  obtain ⟨t, ht⟩ : ∃ t, (s.pc t).Owns := by
    by_contra hnone
    exact hnot (h.rest (not_exists.mp hnone))
  have hok := h.ok t
  refine ⟨t, ?_⟩
  cases hpc : s.pc t with
  | out | entered | acquire | waiting | returned =>
    rw [hpc] at ht
    exact ht.elim
  | switch a | switched a =>
    rw [hpc] at hok
    exact ⟨trivial, hok.2⟩
  | setUp | itRestore | testReadError | testWriteError | release | giveLock =>
    rw [hpc] at hok
    exact absurd hok.2.1 hnot

/-- The transfer of a task goes on to its next stage. -/
theorem Inv.advance (h : Inv c s) (ht : (s.pc t).Transfers) {sh : Shared} {sched : Sched}
    (hstage : Stage sh (sched.Blocked c t) t)
    (hout : ∀ u, u ≠ t → sh.outcome u = s.shared.outcome u)
    (hblocked : ∀ u, sched.Blocked c u → s.sched.Blocked c u)
    (hrunning : ∀ u, sched.Running u → s.sched.Running u) :
    Inv c { s with shared := sh, sched } := by
  have hown : (s.pc t).Owns := by
    cases hpc : s.pc t with
    | switch | switched => trivial
    | _ =>
      rw [hpc] at ht
      exact ht.elim
  refine h.sharedStep (fun u => ?_) (fun hnone => absurd hown (hnone t)) hblocked hrunning
  by_cases hut : u = t
  · subst hut
    have hok := h.ok u
    cases hpc : s.pc u with
    | switch | switched =>
      rw [hpc] at hok
      exact ⟨hok.1, hstage⟩
    | _ =>
      rw [hpc] at ht
      exact ht.elim
  · exact h.ok_other hown hut (hout u hut)

/-- The device completes the transfer in progress. -/
theorem Inv.complete (h : Inv c s) (failed : Bool) (hbusy : s.shared.device.status = .busy) :
    Inv c { s with shared := s.shared.complete failed } := by
  obtain ⟨t, ht, hstage⟩ := h.exists_transfer fun hrest => by
    rw [hrest.status] at hbusy
    cases hbusy
  refine h.advance ht ?_ ?_ (fun _ hb => hb) fun _ hrun => hrun
  · cases hstage with
    | busy hstatus hirq hisr hgtid hjob henable hout hb =>
      refine .completed (completedStatus s.shared.device.op failed) ?_ rfl ?_ hisr hgtid ?_ hb
      · cases s.shared.device.op <;> cases failed <;> exact ⟨by decide, by decide⟩
      · simp [Shared.complete, Device.complete, henable]
      · simp [Shared.complete, hjob]
    | completed st hfinal hstatus =>
      exact absurd (hstatus.symm.trans hbusy) hfinal.2
    | taken q st hstatus => cases hstatus.symm.trans hbusy
    | announced hrest => cases hrest.status.symm.trans hbusy
  · intro u hut
    have hjob : s.shared.job = t := by
      cases hstage with
      | busy hstatus hirq hisr hgtid hjob => exact hjob
      | completed st hfinal hstatus => exact absurd (hstatus.symm.trans hbusy) hfinal.2
      | taken q st hstatus => cases hstatus.symm.trans hbusy
      | announced hrest => cases hrest.status.symm.trans hbusy
    exact Function.update_of_ne (hjob ▸ hut) _ _

/-- The points of the other executions of the handler stay. -/
theorem Shared.gotoIsr_of_ne {sh : Shared} {q q' : ℕ} (h : q' ≠ q) (pc : IsrPc) :
    (sh.gotoIsr q pc).isr q' = sh.isr q' := Function.update_of_ne h _ _

theorem Shared.gotoIsr_self {sh : Shared} {q : ℕ} (pc : IsrPc) : (sh.gotoIsr q pc).isr q = pc :=
  Function.update_self ..

/-- An execution that announces a status is active. -/
theorem Shared.Announces.active {sh : Shared} {st : Status} {pc : IsrPc}
    (h : sh.Announces t st pc) : pc.Active := by
  cases pc with
  | none | entered | sendWti => exact h.elim
  | _ => trivial

section Inactive

variable {sh : Shared} {q : ℕ} {pc : IsrPc}

theorem Shared.not_active_gotoIsr (hnew : ¬pc.Active) (h : ∀ q', q' ≠ q → ¬(sh.isr q').Active)
    (q' : ℕ) : ¬((sh.gotoIsr q pc).isr q').Active := by
  by_cases hq : q' = q
  · subst hq
    rwa [Shared.gotoIsr_self]
  · rw [Shared.gotoIsr_of_ne hq]
    exact h q' hq

theorem Shared.Rest.gotoIsr (h : sh.Rest) (hnew : ¬pc.Active) : (sh.gotoIsr q pc).Rest :=
  ⟨h.status, h.irq, Shared.not_active_gotoIsr hnew fun q' _ => h.isr q'⟩

/-- Executions that are not active do not matter to a transfer. -/
theorem Stage.gotoIsr {b : Prop} (h : Stage sh b t) (hold : ¬(sh.isr q).Active)
    (hnew : ¬pc.Active) : Stage (sh.gotoIsr q pc) b t := by
  cases h with
  | busy hstatus hirq hisr hgtid hjob henable hout hb =>
    exact .busy hstatus hirq (Shared.not_active_gotoIsr hnew fun q' _ => hisr q') hgtid hjob henable
      hout hb
  | completed st hfinal hstatus hirq hisr hgtid hout hb =>
    exact .completed st hfinal hstatus hirq (Shared.not_active_gotoIsr hnew fun q' _ => hisr q')
      hgtid hout hb
  | taken q' st hstatus hirq hisr hothers hgtid hout hb =>
    have hq : q' ≠ q := by
      rintro rfl
      exact hold hisr.active
    refine .taken q' st hstatus hirq ?_ (fun q'' hq'' => ?_) hgtid hout hb
    · rw [Shared.gotoIsr_of_ne hq]
      exact hisr
    · by_cases heq : q'' = q
      · subst heq
        rwa [Shared.gotoIsr_self]
      · rw [Shared.gotoIsr_of_ne heq]
        exact hothers q'' hq''
  | announced hrest hout hb => exact .announced (hrest.gotoIsr hnew) hout hb

theorem PcOk.gotoIsr {b : Prop} {p : Pc} (h : PcOk sh b t p) (hold : ¬(sh.isr q).Active)
    (hnew : ¬pc.Active) : PcOk (sh.gotoIsr q pc) b t p := by
  cases p with
  | out | entered | acquire | waiting | returned => exact h
  | setUp a k =>
    obtain ⟨ha, hrest, hset, hb⟩ := h
    exact ⟨ha, hrest.gotoIsr hnew,
      ⟨hset.buffer, hset.bufferExt, hset.count, hset.lba, hset.irqEnable, hset.gtid⟩, hb⟩
  | switch a | switched a => exact ⟨h.1, h.2.gotoIsr hold hnew⟩
  | itRestore a | testReadError a | testWriteError a | release a e | giveLock a e v =>
    exact ⟨h.1, h.2.1.gotoIsr hnew, h.2.2⟩

end Inactive

/-- A step of the handler before it has taken a transfer or after it has announced one. -/
theorem Inv.isrMove (h : Inv c s) {q : ℕ} {pc : IsrPc} (hold : ¬(s.shared.isr q).Active)
    (hnew : ¬pc.Active) : Inv c { s with shared := s.shared.gotoIsr q pc } :=
  h.sharedStep (fun u => (h.ok u).gotoIsr hold hnew)
    (fun hnone => (h.rest hnone).gotoIsr hnew) (fun _ hb => hb) fun _ hrun => hrun

/-- The transfer that an active execution of the handler has taken. -/
theorem Inv.taken (h : Inv c s) {q : ℕ} (hactive : (s.shared.isr q).Active) :
    ∃ t st, (s.pc t).Transfers ∧ s.shared.device.status = .idle ∧ s.shared.device.irq = false ∧
      s.shared.Announces t st (s.shared.isr q) ∧ (∀ q', q' ≠ q → ¬(s.shared.isr q').Active) ∧
      s.shared.gtid = gtidOf t ∧ s.shared.outcome t = some st ∧ s.sched.Blocked c t := by
  obtain ⟨t, ht, hstage⟩ := h.exists_transfer fun hrest => hrest.isr q hactive
  cases hstage with
  | busy _ _ hisr => exact absurd hactive (hisr q)
  | completed _ _ _ _ hisr => exact absurd hactive (hisr q)
  | taken q' st hstatus hirq hisr hothers hgtid hout hb =>
    obtain rfl : q = q' := by
      by_contra hne
      exact hothers q hne hactive
    exact ⟨t, st, ht, hstatus, hirq, hisr, hothers, hgtid, hout, hb⟩
  | announced hrest => exact absurd hactive (hrest.isr q)

/-- Every step of the handler keeps the invariant. -/
theorem Inv.isrStep (h : Inv c s) {q : ℕ} (hstep : IsrStep c q s s') : Inv c s' := by
  cases hstep with
  | enter hpc => exact h.isrMove (by rw [hpc]; exact id) id
  | ignore hpc => exact h.isrMove (by rw [hpc]; exact id) id
  | sendWti procid hpc => exact h.isrMove (by rw [hpc]; exact id) id
  | readStatus hpc hst =>
    obtain ⟨t, ht, hstage⟩ := h.exists_transfer fun hrest => hst.1 hrest.status
    refine h.advance ht ?_ (fun _ _ => rfl) (fun _ hb => hb) fun _ hrun => hrun
    cases hstage with
    | busy hstatus => exact absurd hstatus hst.2
    | completed st hfinal hstatus hirq hisr hgtid hout hb =>
      have hack : s.shared.device.acknowledge =
          { s.shared.device with status := .idle, irq := false } := if_neg (by tauto)
      rw [hack]
      refine .taken q st rfl rfl ?_ (fun q' hq' => ?_) hgtid hout hb
      · change Shared.Announces _ t st ((s.shared.gotoIsr q _).isr q)
        rw [Shared.gotoIsr_self]
        exact hstatus
      · change ¬((s.shared.gotoIsr q _).isr q').Active
        rw [Shared.gotoIsr_of_ne hq']
        exact hisr q'
    | taken _ _ hstatus => exact absurd hstatus hst.1
    | announced hrest => exact absurd hrest.status hst.1
  | setStatus status hpc =>
    obtain ⟨t, st, ht, hstatus, hirq, hisr, hothers, hgtid, hout, hb⟩ :=
      h.taken (q := q) (by rw [hpc]; trivial)
    rw [hpc] at hisr
    refine h.advance ht ?_ (fun _ _ => rfl) (fun _ hb => hb) fun _ hrun => hrun
    refine .taken q st hstatus hirq ?_ (fun q' hq' => ?_) hgtid hout hb
    · change Shared.Announces _ t st ((s.shared.gotoIsr q _).isr q)
      rw [Shared.gotoIsr_self]
      exact hisr
    · change ¬((s.shared.gotoIsr q _).isr q').Active
      rw [Shared.gotoIsr_of_ne hq']
      exact hothers q' hq'
  | readProcid hpc =>
    obtain ⟨t, st, ht, hstatus, hirq, hisr, hothers, hgtid, hout, hb⟩ :=
      h.taken (q := q) (by rw [hpc]; trivial)
    rw [hpc] at hisr
    have htask := h.task t (by rintro hpc'; rw [hpc'] at ht; exact ht)
    refine h.advance ht ?_ (fun _ _ => rfl) (fun _ hb => hb) fun _ hrun => hrun
    refine .taken q st hstatus hirq ?_ (fun q' hq' => ?_) hgtid hout hb
    · rw [Shared.gotoIsr_self]
      exact ⟨hisr, by rw [hgtid]; exact (gtidOf_parts htask).1⟩
    · rw [Shared.gotoIsr_of_ne hq']
      exact hothers q' hq'
  | readLtid procid hpc =>
    obtain ⟨t, st, ht, hstatus, hirq, hisr, hothers, hgtid, hout, hb⟩ :=
      h.taken (q := q) (by rw [hpc]; trivial)
    rw [hpc] at hisr
    have htask := h.task t (by rintro hpc'; rw [hpc'] at ht; exact ht)
    refine h.advance ht ?_ (fun _ _ => rfl) (fun _ hb => hb) fun _ hrun => hrun
    refine .taken q st hstatus hirq ?_ (fun q' hq' => ?_) hgtid hout hb
    · rw [Shared.gotoIsr_self]
      exact ⟨hisr.1, hisr.2, by rw [hgtid]; exact (gtidOf_parts htask).2⟩
    · rw [Shared.gotoIsr_of_ne hq']
      exact hothers q' hq'
  | clearNorun procid ltid hpc =>
    obtain ⟨t, st, ht, hstatus, hirq, hisr, hothers, hgtid, hout, hb⟩ :=
      h.taken (q := q) (by rw [hpc]; trivial)
    rw [hpc] at hisr
    obtain ⟨hst, rfl, rfl⟩ := hisr
    rw [c.isrContext_eq t]
    refine h.advance ht (.announced ⟨hstatus, hirq, ?_⟩ ?_ unblock_not_blocked) (fun _ _ => rfl)
      (fun u hu => ?_) fun _ hrun => hrun
    · exact Shared.not_active_gotoIsr id hothers
    · exact hout.trans (congrArg some hst.symm)
    · by_cases hut : u = t
      · exact absurd (hut ▸ hu) unblock_not_blocked
      · exact (unblock_blocked_of_ne hut).mp hu

/-- Every step keeps the invariant. -/
theorem Inv.step (h : Inv c s) (hstep : Step c s s') : Inv c s' := by
  cases hstep with
  | task t ht hrun hstep => exact h.taskStep ht hrun hstep
  | sched hstep => exact h.schedStep hstep
  | complete failed hbusy => exact h.complete failed hbusy
  | isr q hstep => exact h.isrStep hstep

/-- The invariant holds in every reachable state. -/
theorem Reachable.inv (h : Reachable c s) : Inv c s := by
  induction h with
  | init h => exact h.inv
  | step _ hstep ih => exact ih.step hstep

/-! ## The properties of the driver -/

/-- The registers hold the arguments of a call. -/
structure Device.Holds (d : Device) (a : Args) : Prop where
  buffer : d.buffer = a.bufPaddr % 0x100000000
  bufferExt : d.bufferExt = (a.bufPaddr >>> 32) % 0x100000000
  count : d.count = a.count
  lba : d.lba = a.lba

/-- The driver serialises the transfers and loses no completion. At most one task has
launched a transfer and not left its descheduling point, and a task that is about to launch
finds the device idle and its arguments in the registers. A task that the scheduler selects
at its descheduling point has its own transfer completed, the value of a call is the error
status of its own transfer, and a task whose transfer is completed has its NORUN bit set only
while the interrupt or an execution of the handler is pending. -/
theorem bdvAccess_safe (h : Reachable c s) :
    (∀ t u, (s.pc t).Transfers → (s.pc u).Transfers → t = u) ∧
    (∀ t a, s.pc t = .setUp a .launch → s.shared.device.status = .idle ∧
      s.shared.device.Holds a ∧ ∀ u, ¬(s.pc u).Transfers) ∧
    (∀ t a, s.pc t = .switched a → s.sched.Running t → ∃ st, s.shared.outcome t = some st) ∧
    (∀ t a v, s.pc t = .returned a v → a.Aligned →
      ∃ st, s.shared.outcome t = some st ∧ v = st.error) ∧
    (∀ t st, (s.pc t).Transfers → s.shared.outcome t = some st → s.shared.device.irq = false →
      (∀ q, ¬(s.shared.isr q).Active) → ¬s.sched.Blocked c t) := by
  have hinv := h.inv
  have howns {t : TaskId} (ht : (s.pc t).Transfers) :
      (s.pc t).Owns ∧ Stage s.shared (s.sched.Blocked c t) t := by
    have hok := hinv.ok t
    cases hpc : s.pc t with
    | switch | switched =>
      rw [hpc] at hok
      exact ⟨trivial, hok.2⟩
    | _ =>
      rw [hpc] at ht
      exact ht.elim
  refine ⟨fun t u ht hu => hinv.lock.unique (howns ht).1 (howns hu).1, fun t a hpc => ?_,
    fun t a hpc hrun => ?_, fun t a v hpc ha => ?_, fun t st ht hout hirq hisr hb => ?_⟩
  · have hok := hinv.ok t
    rw [hpc] at hok
    obtain ⟨-, hrest, hset, -⟩ := hok
    refine ⟨hrest.status, ⟨hset.buffer (by decide), hset.bufferExt (by decide),
      hset.count (by decide), hset.lba (by decide)⟩, fun u hu => ?_⟩
    have hut := hinv.lock.unique (howns hu).1 (show (s.pc t).Owns by rw [hpc]; trivial)
    rw [hut, hpc] at hu
    exact hu
  · have hnot := hinv.selected t a hpc hrun
    have hok := hinv.ok t
    rw [hpc] at hok
    cases hok.2 with
    | busy | completed | taken => contradiction
    | announced _ hout => exact ⟨_, hout⟩
  · have hok := hinv.ok t
    rw [hpc] at hok
    exact hok.1 ha
  · cases (howns ht).2 with
    | busy _ _ _ _ _ _ hnone => cases hnone.symm.trans hout
    | completed _ _ _ hirq' => cases hirq'.symm.trans hirq
    | taken q _ _ _ hisr' => exact hisr q hisr'.active
    | announced _ _ hnot => exact hnot hb

/-- One task on one processor, a read that fails: the call returns 1. -/
theorem bdvAccess_safe_error : ∃ (c : Platform) (s : State) (t : TaskId) (a : Args),
    Reachable c s ∧ s.pc t = .returned a 1 ∧ ∃ st, s.shared.outcome t = some st ∧ 1 = st.error := by
  let c : Platform := ⟨0, 0, 1, fun _ => 1, by decide, fun _ => by decide⟩
  let t : TaskId := ⟨0, 0⟩
  let a : Args := ⟨1, 7, 0x1000, 2⟩
  let d : Device := ⟨0, 0, 0, 0, .noop, 0, .idle, false⟩
  let s : State := ⟨⟨fun _ => 0, fun _ => 0, fun _ => none⟩,
    ⟨d, 0, .idle, fun _ => .none, t, fun _ => none⟩, 0, 0, [], [], 0, fun _ => .out⟩
  have ht : c.Task t := ⟨by decide, by decide⟩
  have ha : a.Aligned := show 0x1000 &&& 0x3F = 0 by decide
  have hrun : s.sched.Running t := ⟨rfl, rfl⟩
  have hinit : Reachable c s := .init ⟨fun _ => rfl, ⟨rfl, rfl⟩, ⟨rfl, rfl, rfl⟩, rfl, rfl,
    fun _ => rfl, fun _ _ h => h BitVec.zero_and⟩
  -- the task takes the lock and launches the transfer
  have hpre := ((((hinit.step (.task t ht hrun (.call a (Or.inl rfl)))).step
    (.task t ht hrun (.aligned a rfl ha))).step
    (.task t ht hrun (.draw a rfl))).step
    (.task t ht hrun (.serve a rfl))).step
    (.task t ht hrun (.setBuffer a rfl))
  have hregs := (((hpre.step (.task t ht hrun (.setBufferExt a rfl))).step
    (.task t ht hrun (.setCount a rfl))).step
    (.task t ht hrun (.setLba a rfl))).step
    (.task t ht hrun (.setIrqEnable a rfl))
  have hlaunch := (((hregs.step (.task t ht hrun (.setGtid a rfl))).step
    (.task t ht hrun (.itDisable a rfl))).step
    (.task t ht hrun (.setNorun a rfl))).step
    (.task t ht hrun (.launch a rfl))
  -- the device fails and the handler announces it
  have hisr := ((((((hlaunch.step (.complete true rfl)).step (.isr 0 (.enter rfl))).step
    (.isr 0 (.readStatus rfl ⟨by decide, by decide⟩))).step
    (.isr 0 (.setStatus .readError rfl))).step (.isr 0 (.readProcid rfl))).step
    (.isr 0 (.readLtid _ rfl))).step (.isr 0 (.clearNorun _ _ rfl))
  have hswitch := (hisr.step (.task t ht hrun (.switch a rfl))).step
    (.sched (.scan 0 1 rfl))
  -- the scheduler selects the task again
  have hresume := hswitch.step
    (.task t ht ⟨by decide +kernel, by decide +kernel⟩ (.resume a rfl))
  have hstatus := (hresume.step
    (.task t ht ⟨by decide +kernel, by decide +kernel⟩ (.itRestore a rfl))).step
    (.task t ht ⟨by decide +kernel, by decide +kernel⟩ (.readError a rfl (by decide +kernel)))
  have hreturn := (hstatus.step
    (.task t ht ⟨by decide +kernel, by decide +kernel⟩ (.release a 1 rfl))).step
    (.task t ht ⟨by decide +kernel, by decide +kernel⟩ (.giveLock a 1 _ rfl))
  exact ⟨c, _, t, a, hreturn, rfl, (bdvAccess_safe hreturn).2.2.2.1 t a 1 rfl ha⟩

end GietVm.Drivers.Bdv
