import GietVm.Coproc.Irq

/-!
# Completions of the runs of a coprocessor

The channels are started before the owner is recorded and its NORUN bit is set. When no
interrupt is asserted before the bit is set, the handler finds the owner of the run, wakes it up
after it has written the error word, and all channels are stopped when the owner goes on. An
interrupt in the window before wakes up the previous owner, or clears a bit that is set
afterwards, and the owner sleeps for ever.
-/

namespace GietVm.Coproc

open GietVm.Drivers (Platform TaskId Context gtidOf gtidOf_parts)
open GietVm.Kernel (norunMaskCoproc)
open IrqState

variable {d : Device} {c : Platform} {s s' : IrqState} {t u : TaskId} {i j : ℕ} {e : Bool}

/-! ## The invariant -/

/-- No task is blocked on the coprocessor. -/
def Clear (c : Platform) (s : IrqState) : Prop := ∀ t, c.Task t → ¬s.Blocked c t

/-- No channel runs. -/
def Stopped (d : Device) (s : IrqState) : Prop := ∀ i, i < d.nb → s.channel i = none

/-- The coprocessor is not used. -/
structure Idle (d : Device) (c : Platform) (s : IrqState) : Prop where
  isr : s.isr = .out
  clear : Clear c s
  stopped : Stopped d s

/-- The channels before `i` are started, and none has reported an error. -/
structure Starting (c : Platform) (s : IrqState) (i : ℕ) : Prop where
  isr : s.isr = .out
  clear : Clear c s
  reported : s.reported = false
  started : ∀ j, j < i → s.channel j = some .busy ∨ s.channel j = some .success

/-- What the handler knows about the errors of the run when the channels from `i` on are to be
read. -/
structure Tally (d : Device) (s : IrqState) (i : ℕ) (e : Bool) : Prop where
  sound : e = true → s.reported = true
  success : s.reported = false → ∀ j, i ≤ j → j < d.nb → s.channel j = some .success
  failed : s.reported = true → e = true ∨ ∃ j, i ≤ j ∧ j < d.nb ∧ s.Failed j

/-- The channels and the handler while the owner is blocked. -/
def IsrOk (d : Device) (s : IrqState) : IsrPc → Prop
  | .out => (∀ i, i < d.nb → s.channel i ≠ none) ∧
    (s.reported = true ↔ ∃ i, i < d.nb ∧ s.Failed i)
  | .status i e => i < d.nb ∧ (∀ j, j < i → s.channel j = none) ∧ Tally d s i e
  | .reset i e => i < d.nb ∧ (∀ j, j < i → s.channel j = none) ∧
    (s.reported = false → s.channel i = some .success) ∧ Tally d s (i + 1) e
  | .error e => Stopped d s ∧ (e = true ↔ s.reported = true)
  | .gtid => Stopped d s ∧ (s.coprocError ≠ 0 ↔ s.reported = true)
  | .norun gtid => Stopped d s ∧ (s.coprocError ≠ 0 ↔ s.reported = true) ∧ gtid = s.coprocGtid

/-- The owner is blocked. -/
structure Waiting (d : Device) (c : Platform) (s : IrqState) (t : TaskId) : Prop where
  gtid : s.coprocGtid = gtidOf t
  blocked : s.Blocked c t
  others : ∀ u, c.Task u → u ≠ t → ¬s.Blocked c u
  isr : IsrOk d s s.isr

/-- The run has completed, and its owner is not blocked any more. -/
structure Done (d : Device) (c : Platform) (s : IrqState) : Prop where
  idle : Idle d c s
  result : s.coprocError ≠ 0 ↔ s.reported = true

/-- The state of the coprocessor at each point of its owner. -/
def PcOk (d : Device) (c : Platform) (s : IrqState) (t : TaskId) : Pc → Prop
  | .user => Idle d c s
  | .start i => i < d.nb ∧ Starting c s i ∧ ∀ j, i ≤ j → j < d.nb → s.channel j = none
  | .register => Starting c s d.nb ∧ ∃ i, i < d.nb ∧ s.channel i = some .busy
  | .norun => Starting c s d.nb ∧ (∃ i, i < d.nb ∧ s.channel i = some .busy) ∧
    s.coprocGtid = gtidOf t
  | .launch | .switch | .switched => Waiting d c s t ∨ Done d c s
  | .ret => Done d c s

/-- The invariant of the runs. -/
structure IrqInv (d : Device) (c : Platform) (s : IrqState) : Prop where
  task : ∀ t, s.owner = some t → c.Task t
  others : ∀ t, s.owner ≠ some t → s.pc t = .user
  free : s.owner = none → Idle d c s
  stage : ∀ t, s.owner = some t → PcOk d c s t (s.pc t)

/-! ## Without an interrupt -/

theorem Idle.not_irq (h : Idle d c s) : ¬s.Irq d := by
  rintro (⟨i, hi, st, hst, -⟩ | hall)
  · rw [h.stopped i hi] at hst
    cases hst
  · obtain ⟨st, hst, -⟩ := hall 0 d.nb_pos
    rw [h.stopped 0 d.nb_pos] at hst
    cases hst

/-- A channel that has not completed keeps the interrupt down while no channel has failed. -/
theorem not_irq_of (hi : i < d.nb) (hopen : ¬s.Completed i)
    (hok : ∀ j, j < d.nb → s.channel j = none ∨ s.channel j = some .busy ∨
      s.channel j = some .success) : ¬s.Irq d := by
  rintro (⟨j, hj, st, hst, herror⟩ | hall)
  · rcases hok j hj with h | h | h
    · rw [h] at hst
      cases hst
    · rw [h] at hst
      cases hst
      exact absurd herror (by decide)
    · rw [h] at hst
      cases hst
      exact absurd herror (by decide)
  · exact hopen (hall i hi)

theorem not_completed_none (h : s.channel i = none) : ¬s.Completed i := by
  rintro ⟨st, hst, -⟩
  rw [h] at hst
  cases hst

theorem not_completed_busy (h : s.channel i = some .busy) : ¬s.Completed i := by
  rintro ⟨st, hst, hne⟩
  rw [h] at hst
  cases hst
  exact hne rfl

/-- Before the bit is set, no interrupt is asserted and the handler does not run. -/
theorem PcOk.early {p : Pc} (h : PcOk d c s t p) (hp : ¬p.Armed) : s.isr = .out ∧ ¬s.Irq d := by
  have hstarted {i : ℕ} (hs : Starting c s d.nb) (hi : i < d.nb) (hbusy : s.channel i = some .busy) :
      ¬s.Irq d :=
    not_irq_of hi (not_completed_busy hbusy) fun j hj => Or.inr (hs.started j hj)
  cases p with
  | user => exact ⟨h.isr, h.not_irq⟩
  | start i =>
    obtain ⟨hi, hs, hrest⟩ := h
    refine ⟨hs.isr, not_irq_of hi (not_completed_none (hrest i le_rfl hi)) fun j hj => ?_⟩
    by_cases hji : j < i
    · exact Or.inr (hs.started j hji)
    · exact Or.inl (hrest j (by omega) hj)
  | register =>
    obtain ⟨hs, i, hi, hbusy⟩ := h
    exact ⟨hs.isr, hstarted hs hi hbusy⟩
  | norun =>
    obtain ⟨hs, ⟨i, hi, hbusy⟩, -⟩ := h
    exact ⟨hs.isr, hstarted hs hi hbusy⟩
  | launch => exact absurd (Or.inl rfl) hp
  | switch => exact absurd (Or.inr (Or.inl rfl)) hp
  | switched => exact absurd (Or.inr (Or.inr rfl)) hp
  | ret => exact ⟨h.idle.isr, h.idle.not_irq⟩

theorem PcOk.armed {p : Pc} (h : PcOk d c s t p) (hp : p.Armed) :
    Waiting d c s t ∨ Done d c s := by
  rcases hp with rfl | rfl | rfl <;> exact h

theorem PcOk.of_armed {p : Pc} (h : Waiting d c s t ∨ Done d c s) (hp : p.Armed) :
    PcOk d c s t p := by
  rcases hp with rfl | rfl | rfl <;> exact h

/-- An interrupt is asserted or handled only while the owner is blocked. -/
theorem IrqInv.waiting (h : IrqInv d c s) (hisr : s.isr ≠ .out ∨ s.Irq d) :
    ∃ t, s.owner = some t ∧ (s.pc t).Armed ∧ Waiting d c s t := by
  have hidle (hi : Idle d c s) : False := hisr.elim (fun hne => hne hi.isr) hi.not_irq
  cases howner : s.owner with
  | none => exact (hidle (h.free howner)).elim
  | some t =>
    have hstage := h.stage t howner
    by_cases harmed : (s.pc t).Armed
    · rcases hstage.armed harmed with hwait | hdone
      · exact ⟨t, rfl, harmed, hwait⟩
      · exact (hidle hdone.idle).elim
    · obtain ⟨hout, hirq⟩ := hstage.early harmed
      exact (hisr.elim (fun hne => hne hout) hirq).elim

/-- What the invariant says about a run. -/
theorem IrqInv.completes (h : IrqInv d c s) : Completes d c s := by
  refine ⟨fun gtid hisr => ?_, fun t ht hblocked => ?_, fun t hpc => ?_⟩
  · obtain ⟨t, howner, harmed, hwait⟩ := h.waiting (Or.inl (by rw [hisr]; exact nofun))
    refine ⟨t, howner, harmed, ?_⟩
    have hok := hwait.isr
    rw [hisr] at hok
    obtain ⟨hprocid, hltid⟩ := gtidOf_parts (h.task t howner)
    rw [hok.2.2, hwait.gtid, hprocid, hltid, c.isrContext_eq]
  · cases howner : s.owner with
    | none => exact absurd hblocked ((h.free howner).clear t ht)
    | some u =>
      have hstage := h.stage u howner
      have hwait : Waiting d c s u := by
        generalize s.pc u = p at hstage
        cases p with
        | user => exact absurd hblocked (hstage.clear t ht)
        | start => exact absurd hblocked (hstage.2.1.clear t ht)
        | register | norun => exact absurd hblocked (hstage.1.clear t ht)
        | launch | switch | switched =>
          exact hstage.resolve_right fun hdone => hdone.idle.clear t ht hblocked
        | ret => exact absurd hblocked (hstage.idle.clear t ht)
      have htu : t = u := by
        by_contra hne
        exact hwait.others t ht hne hblocked
      refine ⟨by rw [htu], ?_⟩
      by_cases hout : s.isr = .out
      · have hok := hwait.isr
        rw [hout] at hok
        by_cases hbusy : ∃ i, i < d.nb ∧ s.channel i = some .busy
        · exact Or.inl hbusy
        · refine Or.inr (Or.inl (Or.inr fun i hi => ?_))
          obtain ⟨st, hst⟩ := Option.ne_none_iff_exists'.mp (hok.1 i hi)
          refine ⟨st, hst, ?_⟩
          rintro rfl
          exact hbusy ⟨i, hi, hst⟩
      · exact Or.inr (Or.inr hout)
  · have howner : s.owner = some t := by
      by_contra hne
      cases hpc.symm.trans (h.others t hne)
    have hstage := h.stage t howner
    rw [hpc] at hstage
    exact hstage.result

/-! ## The steps of the tasks -/

theorem IrqInv.owner_of_pc (h : IrqInv d c s) {p : Pc} (hpc : s.pc t = p) (hp : p ≠ .user) :
    s.owner = some t := by
  by_contra hne
  exact hp (hpc.symm.trans (h.others t hne))

/-- The owner goes to another point. -/
theorem IrqInv.goto (h : IrqInv d c s) {p : Pc} (ht : s.owner = some t)
    (howner : s'.owner = s.owner) (hpc : s'.pc = Function.update s.pc t p)
    (hok : PcOk d c s' t p) : IrqInv d c s' := by
  refine ⟨fun u hu => h.task u (howner ▸ hu), fun u hu => ?_, fun hnone => ?_, fun u hu => ?_⟩
  · have hut : u ≠ t := by
      rintro rfl
      exact hu (howner.trans ht)
    rw [hpc, Function.update_of_ne hut]
    exact h.others u (howner ▸ hu)
  · cases ht.symm.trans (howner.symm.trans hnone)
  · obtain rfl : t = u := Option.some.inj (ht.symm.trans (howner.symm.trans hu))
    rw [hpc, Function.update_self]
    exact hok

/-- The owner stays where it is. -/
theorem IrqInv.stay (h : IrqInv d c s) (ht : s.owner = some t) (howner : s'.owner = s.owner)
    (hpc : s'.pc = s.pc) (hok : PcOk d c s' t (s.pc t)) : IrqInv d c s' :=
  h.goto ht howner (by rw [hpc, Function.update_eq_self]) hok

theorem Idle.congr (h : Idle d c s) (hisr : s'.isr = s.isr) (hnorun : s'.norun = s.norun)
    (hchannel : s'.channel = s.channel) : Idle d c s' := by
  refine ⟨hisr.trans h.isr, fun t ht => ?_, fun i hi => ?_⟩
  · rw [Blocked, hnorun]
    exact h.clear t ht
  · rw [hchannel]
    exact h.stopped i hi

theorem Starting.congr (h : Starting c s i) (hisr : s'.isr = s.isr) (hnorun : s'.norun = s.norun)
    (hchannel : s'.channel = s.channel) (hreported : s'.reported = s.reported) :
    Starting c s' i := by
  refine ⟨hisr.trans h.isr, fun t ht => ?_, hreported.trans h.reported, fun j hj => ?_⟩
  · rw [Blocked, hnorun]
    exact h.clear t ht
  · rw [hchannel]
    exact h.started j hj

theorem IsrOk.congr {p : IsrPc} (h : IsrOk d s p) (hchannel : s'.channel = s.channel)
    (hreported : s'.reported = s.reported) (herror : s'.coprocError = s.coprocError)
    (hgtid : s'.coprocGtid = s.coprocGtid) : IsrOk d s' p := by
  have htally {i : ℕ} {e : Bool} (ht : Tally d s i e) : Tally d s' i e := by
    refine ⟨?_, ?_, ?_⟩
    · rw [hreported]
      exact ht.sound
    · rw [hreported, hchannel]
      exact ht.success
    · simp only [Failed, hreported, hchannel]
      exact ht.failed
  cases p with
  | out =>
    simp only [IsrOk, Failed, hreported, hchannel]
    exact h
  | status i e =>
    simp only [IsrOk, hchannel]
    exact ⟨h.1, h.2.1, htally h.2.2⟩
  | reset i e =>
    simp only [IsrOk, hreported, hchannel]
    exact ⟨h.1, h.2.1, h.2.2.1, htally h.2.2.2⟩
  | error e | gtid | norun gtid =>
    simp only [IsrOk, Stopped, hchannel, hreported, herror, hgtid]
    exact h

/-- The state after the start of a channel. -/
theorem Starting.next (h : Starting c s i) (hisr : s'.isr = s.isr) (hnorun : s'.norun = s.norun)
    (hchannel : s'.channel = Function.update s.channel i (some .busy))
    (hreported : s'.reported = s.reported) : Starting c s' (i + 1) := by
  refine ⟨hisr.trans h.isr, fun t ht => ?_, hreported.trans h.reported, fun j hj => ?_⟩
  · rw [Blocked, hnorun]
    exact h.clear t ht
  · rw [hchannel]
    by_cases hji : j = i
    · rw [hji, Function.update_self]
      exact Or.inl rfl
    · rw [Function.update_of_ne hji]
      exact h.started j (by omega)

theorem IrqInv.start (h : IrqInv d c s) (hpc : s.pc t = .start i) :
    IrqInv d c { s.goto t (if i + 1 < d.nb then .start (i + 1) else .register) with
      channel := Function.update s.channel i (some .busy) } := by
  have ht := h.owner_of_pc hpc nofun
  have hok := h.stage t ht
  rw [hpc] at hok
  obtain ⟨hi, hs, hrest⟩ := hok
  refine h.goto ht rfl rfl ?_
  split
  · rename_i hnext
    refine ⟨hnext, hs.next rfl rfl rfl rfl, fun j hj hnb => ?_⟩
    exact (Function.update_of_ne (by omega) _ _).trans (hrest j (by omega) hnb)
  · rename_i hlast
    have hnb : d.nb = i + 1 := by omega
    refine ⟨?_, i, hi, Function.update_self ..⟩
    rw [hnb]
    exact hs.next rfl rfl rfl rfl

/-- The word of a task after its bit is set or cleared. -/
theorem blocked_update (w : BitVec 32)
    (hnorun : s'.norun = Function.update s.norun (c.context t) w) :
    s'.Blocked c u ↔ if u = t then w &&& norunMaskCoproc ≠ 0 else s.Blocked c u := by
  rw [Blocked, hnorun]
  by_cases hut : u = t
  · subst hut
    rw [Function.update_self, if_pos rfl]
  · have hne : c.context u ≠ c.context t := fun heq => hut (c.context_inj heq)
    rw [Function.update_of_ne hne, if_neg hut]
    rfl

theorem or_norunMaskCoproc (w : BitVec 32) : (w ||| norunMaskCoproc) &&& norunMaskCoproc ≠ 0 := by
  intro h
  have hbit := congrArg (BitVec.getLsbD · 2) h
  simp [norunMaskCoproc] at hbit

theorem and_not_norunMaskCoproc (w : BitVec 32) :
    w &&& ~~~norunMaskCoproc &&& norunMaskCoproc = 0 := by
  rw [BitVec.and_assoc, show ~~~norunMaskCoproc &&& norunMaskCoproc = 0 by decide]
  exact BitVec.and_zero

theorem IrqInv.norun (h : IrqInv d c s) (hpc : s.pc t = .norun) :
    IrqInv d c { s.goto t .launch with
      norun := Function.update s.norun (c.context t)
        (s.norun (c.context t) ||| norunMaskCoproc) } := by
  have ht := h.owner_of_pc hpc nofun
  have hok := h.stage t ht
  rw [hpc] at hok
  obtain ⟨hs, -, hgtid⟩ := hok
  refine h.goto ht rfl rfl (Or.inl ⟨hgtid, ?_, fun u hu hut => ?_, ?_⟩)
  · rw [blocked_update _ rfl, if_pos rfl]
    exact or_norunMaskCoproc _
  · rw [blocked_update _ rfl, if_neg hut]
    exact hs.clear u hu
  · change IsrOk d _ s.isr
    rw [hs.isr]
    have hnone (i : ℕ) (hi : i < d.nb) : ¬s.Failed i := by
      rintro ⟨st, hst, herror⟩
      rcases hs.started i hi with heq | heq
      · rw [heq] at hst
        cases hst
        exact absurd herror (by decide)
      · rw [heq] at hst
        cases hst
        exact absurd herror (by decide)
    refine ⟨fun i hi hnot => ?_, iff_of_false ?_ ?_⟩
    · change s.channel i = none at hnot
      rcases hs.started i hi with heq | heq
      · cases heq.symm.trans hnot
      · cases heq.symm.trans hnot
    · change ¬s.reported = true
      rw [hs.reported]
      exact Bool.false_ne_true
    · rintro ⟨i, hi, hfailed⟩
      exact hnone i hi hfailed

/-! ## The steps of the handler -/

/-- The handler goes on while the owner stays blocked. -/
theorem IrqInv.isrStep (h : IrqInv d c s) (hisr : s.isr ≠ .out ∨ s.Irq d)
    (howner : s'.owner = s.owner) (hpc : s'.pc = s.pc) (hnorun : s'.norun = s.norun)
    (hgtid : s'.coprocGtid = s.coprocGtid) (hok : IsrOk d s s.isr → IsrOk d s' s'.isr) :
    IrqInv d c s' := by
  obtain ⟨t, ht, harmed, hwait⟩ := h.waiting hisr
  refine h.stay ht howner hpc (PcOk.of_armed (Or.inl ⟨hgtid.trans hwait.gtid, ?_, ?_, ?_⟩) harmed)
  · rw [Blocked, hnorun]
    exact hwait.blocked
  · simp only [Blocked, hnorun]
    exact hwait.others
  · exact hok hwait.isr

/-- The handler begins with all channels to be read. -/
theorem isrEnter_ok (hisr : s.isr = .out) (hirq : s.Irq d) (h : IsrOk d s s.isr) :
    IsrOk d { s with isr := .status 0 false } (.status 0 false) := by
  rw [hisr] at h
  obtain ⟨-, hreported⟩ := h
  refine ⟨d.nb_pos, fun j hj => absurd hj (Nat.not_lt_zero j), nofun, fun hnone j _ hj => ?_,
    fun hfailed => ?_⟩
  · have hno : ¬∃ i, i < d.nb ∧ s.Failed i := by
      rw [← hreported]
      change s.reported = false at hnone
      rw [hnone]
      exact Bool.false_ne_true
    obtain ⟨st, hst, hbusy⟩ := hirq.resolve_left hno j hj
    have herror : ¬st.Error := fun herror => hno ⟨j, hj, st, hst, herror⟩
    change s.channel j = some .success
    rw [hst]
    cases st with
    | success => rfl
    | busy => exact absurd rfl hbusy
    | errorData | errorLock | errorDesc => exact absurd (by decide) herror
  · obtain ⟨j, hj, hfailed⟩ := hreported.mp hfailed
    exact Or.inr ⟨j, Nat.zero_le j, hj, hfailed⟩

theorem isrStatus_ok (hisr : s.isr = .status i e) (h : IsrOk d s s.isr) :
    IsrOk d { s with isr := .reset i (e || decide (s.statusReg i = .busy ∨ (s.statusReg i).Error)) }
      (.reset i (e || decide (s.statusReg i = .busy ∨ (s.statusReg i).Error))) := by
  rw [hisr] at h
  obtain ⟨hi, hbefore, htally⟩ := h
  have hsuccess (hnone : s.reported = false) : s.channel i = some .success :=
    htally.success hnone i le_rfl hi
  refine ⟨hi, hbefore, hsuccess, ⟨fun herror => ?_, fun hnone j hj => ?_, fun hfailed => ?_⟩⟩
  · by_contra hnot
    have hnone : s.reported = false := by simpa using hnot
    have hgood : ¬(s.statusReg i = .busy ∨ (s.statusReg i).Error) := by
      rw [statusReg, hsuccess hnone]
      decide
    rw [decide_eq_false hgood, Bool.or_false] at herror
    exact hnot (htally.sound herror)
  · exact htally.success hnone j (by omega)
  · rcases htally.failed hfailed with herror | ⟨j, hj, hnb, st, hst, hbad⟩
    · exact Or.inl (by rw [herror, Bool.true_or])
    · by_cases hji : j = i
      · subst hji
        have hread : s.statusReg j = st := by
          rw [statusReg, hst]
          rfl
        exact Or.inl (by rw [hread, decide_eq_true (Or.inr hbad), Bool.or_true])
      · exact Or.inr ⟨j, by omega, hnb, st, hst, hbad⟩

theorem isrReset_ok (hisr : s.isr = .reset i e) (h : IsrOk d s s.isr) :
    IsrOk d
      { s with
        channel := Function.update s.channel i none
        isr := if i + 1 < d.nb then .status (i + 1) e else .error e }
      (if i + 1 < d.nb then .status (i + 1) e else .error e) := by
  rw [hisr] at h
  obtain ⟨hi, hbefore, -, htally⟩ := h
  have hnone (j : ℕ) (hj : j < i + 1) : Function.update s.channel i none j = none := by
    by_cases hji : j = i
    · rw [hji, Function.update_self]
    · rw [Function.update_of_ne hji]
      exact hbefore j (by omega)
  have hrest (j : ℕ) (hj : i + 1 ≤ j) : Function.update s.channel i none j = s.channel j :=
    Function.update_of_ne (by omega) _ _
  split
  · rename_i hnext
    refine ⟨hnext, hnone, htally.sound, fun hno j hj hnb => ?_, fun hfailed => ?_⟩
    · exact (hrest j hj).trans (htally.success hno j hj hnb)
    · rcases htally.failed hfailed with herror | ⟨j, hj, hnb, st, hst, hbad⟩
      · exact Or.inl herror
      · exact Or.inr ⟨j, hj, hnb, st, (hrest j hj).trans hst, hbad⟩
  · refine ⟨fun j hj => hnone j (by omega), htally.sound, fun hfailed => ?_⟩
    rcases htally.failed hfailed with herror | ⟨j, hj, hnb, -⟩
    · exact herror
    · omega

theorem isrError_ok (hisr : s.isr = .error e) (h : IsrOk d s s.isr) :
    IsrOk d { s with coprocError := if e then 1 else 0, isr := .gtid } .gtid := by
  rw [hisr] at h
  refine ⟨h.1, Iff.trans ?_ h.2⟩
  cases e <;> simp

/-- The handler wakes up the owner, and the run is done. -/
theorem IrqInv.isrNorun (h : IrqInv d c s) {gtid : ℕ} (hisr : s.isr = .norun gtid) :
    IrqInv d c
      { s with
        norun := Function.update s.norun (c.isrContext (gtid >>> 16) (gtid &&& 0xFFFF))
          (s.norun (c.isrContext (gtid >>> 16) (gtid &&& 0xFFFF)) &&& ~~~norunMaskCoproc)
        isr := .out } := by
  obtain ⟨t, ht, harmed, hwait⟩ := h.waiting (Or.inl (by rw [hisr]; exact nofun))
  have hok := hwait.isr
  rw [hisr] at hok
  obtain ⟨hstopped, hresult, hgtid⟩ := hok
  have hcontext : c.isrContext (gtid >>> 16) (gtid &&& 0xFFFF) = c.context t := by
    obtain ⟨hprocid, hltid⟩ := gtidOf_parts (h.task t ht)
    rw [hgtid, hwait.gtid, hprocid, hltid, c.isrContext_eq]
  rw [hcontext]
  refine h.stay ht rfl rfl (PcOk.of_armed (Or.inr ⟨⟨rfl, fun u hu => ?_, hstopped⟩, hresult⟩) harmed)
  rw [blocked_update _ rfl]
  split
  · exact not_not.mpr (and_not_norunMaskCoproc _)
  · rename_i hut
    exact hwait.others u hu hut

/-! ## The end of a channel -/

section Finish

variable {st : Status}

theorem status_cases (hst : st ≠ .busy) : st = .success ∨ st.Error := by
  cases st with
  | success => exact Or.inl rfl
  | busy => exact absurd rfl hst
  | errorData | errorLock | errorDesc => exact Or.inr (by decide)

theorem Idle.not_busy (h : Idle d c s) (hi : i < d.nb) : s.channel i ≠ some .busy := by
  rw [h.stopped i hi]
  exact nofun

/-- A channel that ends without an interrupt has succeeded, and another one has not completed. -/
theorem finish_quiet (hi : i < d.nb) (hst : st ≠ .busy) (hirq : ¬(s.finish i st).Irq d) :
    st = .success ∧ ∃ j, j < d.nb ∧ j ≠ i ∧ ¬s.Completed j := by
  have hself : (s.finish i st).channel i = some st := Function.update_self ..
  refine ⟨(status_cases hst).resolve_right fun herror => hirq (Or.inl ⟨i, hi, st, hself, herror⟩), ?_⟩
  by_contra hnone
  refine hirq (Or.inr fun j hj => ?_)
  by_cases hji : j = i
  · exact ⟨st, hji ▸ hself, hst⟩
  · by_contra hopen
    refine hnone ⟨j, hj, hji, ?_⟩
    rintro ⟨st', hst', hne⟩
    exact hopen ⟨st', (Function.update_of_ne hji _ _).trans hst', hne⟩

theorem Starting.finish (h : Starting c s j) : Starting c (s.finish i .success) j := by
  refine ⟨h.isr, h.clear, ?_, fun k hk => ?_⟩
  · change (s.reported || _) = false
    rw [h.reported]
    rfl
  · change Function.update s.channel i _ k = _ ∨ Function.update s.channel i _ k = _
    by_cases hki : k = i
    · rw [hki, Function.update_self]
      exact Or.inr rfl
    · rw [Function.update_of_ne hki]
      exact h.started k hk

/-- The errors of the run when a channel ends. -/
theorem finish_reported : (s.finish i st).reported = true ↔ s.reported = true ∨ st.Error := by
  change (s.reported || decide st.Error) = true ↔ _
  rw [Bool.or_eq_true, decide_eq_true_iff]

section Busy

variable (hi : i < d.nb) (hbusy : s.channel i = some .busy)
include hbusy

/-- A channel that has failed is not the one that ends. -/
theorem failed_finish (h : s.Failed j) : (s.finish i st).Failed j := by
  obtain ⟨st', hst', hbad⟩ := h
  have hji : j ≠ i := by
    rintro rfl
    rw [hbusy] at hst'
    cases hst'
    exact absurd hbad (by decide)
  exact ⟨st', (Function.update_of_ne hji _ _).trans hst', hbad⟩

theorem Tally.finish {n : ℕ} (h : Tally d s n e) (hreported : s.reported = true) :
    Tally d (s.finish i st) n e := by
  have hafter : (s.finish i st).reported = true := finish_reported.mpr (Or.inl hreported)
  refine ⟨fun _ => hafter, fun hnone => ?_, fun _ => ?_⟩
  · rw [hafter] at hnone
    cases hnone
  · rcases h.failed hreported with herror | ⟨j, hj, hnb, hfailed⟩
    · exact Or.inl herror
    · exact Or.inr ⟨j, hj, hnb, failed_finish hbusy hfailed⟩

include hi

/-- A channel that is still busy when the handler reads the channels: another one has failed. -/
theorem reported_of_busy {n : ℕ} (hn : n ≤ i)
    (h : s.reported = false → ∀ j, n ≤ j → j < d.nb → s.channel j = some .success) :
    s.reported = true := by
  by_contra hnone
  have hsuccess := h (by simpa using hnone) i hn hi
  rw [hbusy] at hsuccess
  cases hsuccess

theorem IsrOk.finish {p : IsrPc} (h : IsrOk d s p) : IsrOk d (s.finish i st) p := by
  have hstopped (hs : Stopped d s) : False := by
    rw [Stopped] at hs
    rw [hs i hi] at hbusy
    cases hbusy
  -- the channels that the handler has stopped do not end
  have hbefore {n : ℕ} (hs : ∀ j, j < n → s.channel j = none) :
      n ≤ i ∧ ∀ j, j < n → (s.finish i st).channel j = none := by
    have hn : n ≤ i := by
      by_contra hlt
      rw [hs i (by omega)] at hbusy
      cases hbusy
    exact ⟨hn, fun j hj => (Function.update_of_ne (by omega) _ _).trans (hs j hj)⟩
  cases p with
  | out =>
    obtain ⟨hall, hreported⟩ := h
    refine ⟨fun j hj => ?_, finish_reported.trans ⟨fun h => ?_, ?_⟩⟩
    · change Function.update s.channel i _ j ≠ none
      by_cases hji : j = i
      · rw [hji, Function.update_self]
        exact nofun
      · rw [Function.update_of_ne hji]
        exact hall j hj
    · rcases h with h | herror
      · obtain ⟨j, hj, hfailed⟩ := hreported.mp h
        exact ⟨j, hj, failed_finish hbusy hfailed⟩
      · exact ⟨i, hi, st, Function.update_self .., herror⟩
    · rintro ⟨j, hj, st', hst', herror⟩
      by_cases hji : j = i
      · subst hji
        have hself : (s.finish j st).channel j = some st := Function.update_self ..
        obtain rfl : st = st' := Option.some.inj (hself.symm.trans hst')
        exact Or.inr herror
      · exact Or.inl (hreported.mpr ⟨j, hj, st', (Function.update_of_ne hji _ _).symm.trans hst',
          herror⟩)
  | status n e =>
    obtain ⟨hn, hs, htally⟩ := h
    obtain ⟨hle, hs'⟩ := hbefore hs
    exact ⟨hn, hs', htally.finish hbusy (reported_of_busy hi hbusy hle htally.success)⟩
  | reset n e =>
    obtain ⟨hn, hs, hsuccess, htally⟩ := h
    obtain ⟨hle, hs'⟩ := hbefore hs
    have hreported : s.reported = true := by
      refine reported_of_busy hi hbusy hle fun hnone j hj hnb => ?_
      by_cases hjn : j = n
      · rw [hjn]
        exact hsuccess hnone
      · exact htally.success hnone j (by omega) hnb
    refine ⟨hn, hs', fun hnone => ?_, htally.finish hbusy hreported⟩
    rw [finish_reported.mpr (Or.inl hreported)] at hnone
    cases hnone
  | error | gtid | norun => exact (hstopped h.1).elim

/-- The end of a channel that meets the condition keeps the invariant. -/
theorem IrqInv.finish (h : IrqInv d c s) (hst : st ≠ .busy) (hok : Late d s i st) :
    IrqInv d c (s.finish i st) := by
  cases howner : s.owner with
  | none => exact absurd hbusy ((h.free howner).not_busy hi)
  | some t =>
    refine h.stay howner rfl rfl ?_
    have hstage := h.stage t howner
    have hlate (hp : ¬(s.pc t).Armed) : ¬(s.finish i st).Irq d := by
      intro hirq
      obtain ⟨u, hu, harmed⟩ := hok hirq
      obtain rfl : t = u := Option.some.inj (howner.symm.trans hu)
      exact hp harmed
    -- before the bit is set, the channel has succeeded
    have hearly {j : ℕ} (hp : ¬(s.pc t).Armed) (hs : Starting c s j) :
        Starting c (s.finish i st) j := by
      rw [(finish_quiet hi hst (hlate hp)).1]
      exact hs.finish
    have hopen (hp : ¬(s.pc t).Armed) (hs : Starting c s d.nb) :
        ∃ j, j < d.nb ∧ (s.finish i st).channel j = some .busy := by
      obtain ⟨-, j, hj, hji, hopen⟩ := finish_quiet hi hst (hlate hp)
      refine ⟨j, hj, (Function.update_of_ne hji _ _).trans ?_⟩
      refine (hs.started j hj).resolve_right fun heq => hopen ⟨.success, heq, nofun⟩
    by_cases harmed : (s.pc t).Armed
    · refine PcOk.of_armed ?_ harmed
      rcases hstage.armed harmed with hwait | hdone
      · exact Or.inl ⟨hwait.gtid, hwait.blocked, hwait.others, hwait.isr.finish hi hbusy⟩
      · exact absurd hbusy (hdone.idle.not_busy hi)
    · generalize s.pc t = p at hstage harmed hearly hopen
      cases p with
      | user => exact absurd hbusy (hstage.not_busy hi)
      | start n =>
        obtain ⟨hn, hs, hrest⟩ := hstage
        refine ⟨hn, hearly harmed hs, fun j hj hnb => ?_⟩
        have hji : j ≠ i := by
          rintro rfl
          rw [hrest j hj hnb] at hbusy
          cases hbusy
        exact (Function.update_of_ne hji _ _).trans (hrest j hj hnb)
      | register => exact ⟨hearly harmed hstage.1, hopen harmed hstage.1⟩
      | norun => exact ⟨hearly harmed hstage.1, hopen harmed hstage.1, hstage.2.2⟩
      | launch | switch | switched => exact absurd (by simp [Pc.Armed]) harmed
      | ret => exact absurd hbusy (hstage.idle.not_busy hi)

end Busy

end Finish

/-! ## Runs -/

/-- A change of the other bits of a NORUN word. -/
theorem IrqInv.other (h : IrqInv d c s) {ctx : Context} {w : BitVec 32}
    (hw : w &&& norunMaskCoproc = s.norun ctx &&& norunMaskCoproc) :
    IrqInv d c { s with norun := Function.update s.norun ctx w } := by
  generalize hs' : ({ s with norun := Function.update s.norun ctx w } : IrqState) = s'
  have hblocked (u : TaskId) : s'.Blocked c u ↔ s.Blocked c u := by
    subst hs'
    change Function.update s.norun ctx w (c.context u) &&& norunMaskCoproc ≠ 0 ↔
      s.norun (c.context u) &&& norunMaskCoproc ≠ 0
    by_cases hctx : c.context u = ctx
    · rw [hctx, Function.update_self, hw]
    · rw [Function.update_of_ne hctx]
  have hclear (hc : Clear c s) : Clear c s' := fun u hu hb => hc u hu ((hblocked u).mp hb)
  have hidle (hi : Idle d c s) : Idle d c s' := by
    subst hs'
    exact ⟨hi.isr, hclear hi.clear, hi.stopped⟩
  have hstarting {n : ℕ} (hs : Starting c s n) : Starting c s' n := by
    subst hs'
    exact ⟨hs.isr, hclear hs.clear, hs.reported, hs.started⟩
  have hdone (hd : Done d c s) : Done d c s' := by
    refine ⟨hidle hd.idle, ?_⟩
    subst hs'
    exact hd.result
  have howner : s'.owner = s.owner := by rw [← hs']
  have hpc : s'.pc = s.pc := by rw [← hs']
  have hchannel : s'.channel = s.channel := by rw [← hs']
  have hgtid : s'.coprocGtid = s.coprocGtid := by rw [← hs']
  have hisr : s'.isr = s.isr := by rw [← hs']
  cases hnone : s.owner with
  | none =>
    refine ⟨fun u hu => ?_, fun u _ => ?_, fun _ => hidle (h.free hnone), fun u hu => ?_⟩
    · cases (howner.symm.trans hu).symm.trans hnone
    · rw [hpc]
      exact h.others u (by rw [hnone]; exact nofun)
    · cases (howner.symm.trans hu).symm.trans hnone
  | some t =>
    refine h.stay hnone howner hpc ?_
    have hstage := h.stage t hnone
    have hwait (hw : Waiting d c s t) : Waiting d c s' t := by
      refine ⟨hgtid.trans hw.gtid, (hblocked t).mpr hw.blocked, fun u hu hut hb => ?_, ?_⟩
      · exact hw.others u hu hut ((hblocked u).mp hb)
      · rw [hisr]
        exact hw.isr.congr hchannel (by rw [← hs']) (by rw [← hs']) hgtid
    generalize s.pc t = p at hstage
    cases p with
    | user => exact hidle hstage
    | start n =>
      refine ⟨hstage.1, hstarting hstage.2.1, ?_⟩
      rw [hchannel]
      exact hstage.2.2
    | register =>
      refine ⟨hstarting hstage.1, ?_⟩
      rw [hchannel]
      exact hstage.2
    | norun =>
      refine ⟨hstarting hstage.1, ?_, hgtid.trans hstage.2.2⟩
      rw [hchannel]
      exact hstage.2.1
    | launch | switch | switched => exact hstage.imp hwait hdone
    | ret => exact hdone hstage

/-- A step between two points at which the owner is blocked or done. -/
theorem IrqInv.armedStep (h : IrqInv d c s) {p : Pc} (hp : (s.pc t).Armed) (hp' : p.Armed) :
    IrqInv d c (s.goto t p) := by
  have ht : s.owner = some t := h.owner_of_pc rfl (by rcases hp with h | h | h <;> rw [h] <;> nofun)
  refine h.goto ht rfl rfl (PcOk.of_armed ?_ hp')
  rcases (h.stage t ht).armed hp with hw | hd
  · exact Or.inl ⟨hw.gtid, hw.blocked, hw.others, hw.isr.congr rfl rfl rfl rfl⟩
  · exact Or.inr ⟨hd.idle.congr rfl rfl rfl, hd.result⟩

theorem IrqInv.alloc (h : IrqInv d c s) (ht : c.Task t) (hpc : s.pc t = .user)
    (hlock : s.owner = none) : IrqInv d c { s with owner := some t } := by
  refine ⟨fun u hu => ?_, fun u _ => h.others u (by rw [hlock]; exact nofun), nofun, fun u hu => ?_⟩
  · exact Option.some.inj hu ▸ ht
  · rw [← Option.some.inj hu]
    change PcOk d c _ t (s.pc t)
    rw [hpc]
    exact (h.free hlock).congr rfl rfl rfl

theorem IrqInv.release (h : IrqInv d c s) (hpc : s.pc t = .user) (howner : s.owner = some t) :
    IrqInv d c { s with owner := none, channel := fun i => if i < d.nb then none else s.channel i } := by
  have hok := h.stage t howner
  rw [hpc] at hok
  refine ⟨nofun, fun u _ => ?_, fun _ => ⟨hok.isr, hok.clear, fun i hi => if_pos hi⟩, nofun⟩
  by_cases hut : u = t
  · rw [hut]
    exact hpc
  · refine h.others u fun hu => hut ?_
    exact Option.some.inj (hu.symm.trans howner)

theorem IrqInv.step (h : IrqInv d c s) (hstep : IrqStep d c s s') : IrqInv d c s' := by
  cases hstep with
  | alloc t ht hpc hlock => exact h.alloc ht hpc hlock
  | release t hpc howner => exact h.release hpc howner
  | enter t hpc howner =>
    have hok := h.stage t howner
    rw [hpc] at hok
    refine h.goto howner rfl rfl ⟨d.nb_pos, ⟨hok.isr, hok.clear, rfl, fun j hj => ?_⟩,
      fun j _ hj => hok.stopped j hj⟩
    exact absurd hj (Nat.not_lt_zero j)
  | start t i hpc => exact h.start hpc
  | register t hpc =>
    have ht := h.owner_of_pc hpc nofun
    have hok := h.stage t ht
    rw [hpc] at hok
    exact h.goto ht rfl rfl ⟨hok.1.congr rfl rfl rfl rfl, hok.2, rfl⟩
  | norun t hpc => exact h.norun hpc
  | launch t hpc => exact h.armedStep (Or.inl hpc) (Or.inr (Or.inl rfl))
  | switch t hpc => exact h.armedStep (Or.inr (Or.inl hpc)) (Or.inr (Or.inr rfl))
  | selected t hpc hnorun =>
    have ht := h.owner_of_pc hpc nofun
    have hok := h.stage t ht
    rw [hpc] at hok
    have hdone : Done d c s := by
      refine hok.resolve_left fun hwait => hwait.blocked ?_
      rw [hnorun]
      exact BitVec.zero_and
    exact h.goto ht rfl rfl ⟨hdone.idle.congr rfl rfl rfl, hdone.result⟩
  | ret t hpc =>
    have ht := h.owner_of_pc hpc nofun
    have hok := h.stage t ht
    rw [hpc] at hok
    exact h.goto ht rfl rfl (hok.idle.congr rfl rfl rfl)
  | isrEnter hisr hirq =>
    exact h.isrStep (Or.inr hirq) rfl rfl rfl rfl (isrEnter_ok hisr hirq)
  | isrStatus i e hisr =>
    exact h.isrStep (Or.inl (by rw [hisr]; exact nofun)) rfl rfl rfl rfl (isrStatus_ok hisr)
  | isrReset i e hisr =>
    exact h.isrStep (Or.inl (by rw [hisr]; exact nofun)) rfl rfl rfl rfl (isrReset_ok hisr)
  | isrError e hisr =>
    exact h.isrStep (Or.inl (by rw [hisr]; exact nofun)) rfl rfl rfl rfl (isrError_ok hisr)
  | isrGtid hisr =>
    refine h.isrStep (Or.inl (by rw [hisr]; exact nofun)) rfl rfl rfl rfl fun hok => ?_
    rw [hisr] at hok
    exact ⟨hok.1, hok.2, rfl⟩
  | isrNorun gtid hisr => exact h.isrNorun hisr
  | other ctx w hw => exact h.other hw

theorem IrqRun.inv (h : IrqRun d c (Late d) s) : IrqInv d c s := by
  induction h with
  | init h =>
    refine ⟨fun t ht => ?_, fun t _ => h.pc t, fun _ => ⟨h.isr, h.norun, fun i _ => h.channel i⟩,
      fun t ht => ?_⟩
    · cases h.owner.symm.trans ht
    · cases h.owner.symm.trans ht
  | step _ hstep ih => exact ih.step hstep
  | finish _ i st hi hbusy hst hok ih => exact ih.finish hi hbusy hst hok

/-- In every run in which no interrupt is asserted before the owner has set its bit, no completion
is lost and the results are those of the runs. -/
theorem coproc_completes (h : IrqRun d c (Late d) s) : Completes d c s := h.inv.completes

/-! ## Examples -/

/-- Two tasks on a processor. -/
def oneProcessor : Platform where
  yWidth := 4
  pWidth := 2
  procs := 1
  tasks := fun _ => 2
  procs_le := by decide
  tasks_le := fun _ => by decide

/-- A coprocessor with one channel. -/
def oneChannel : Device where
  nb := 1
  nb_pos := Nat.one_pos

/-- The second task, whose global index is not 0. -/
def secondTask : TaskId := ⟨0, 1⟩

/-- The state after the boot. -/
def bootState : IrqState where
  channel := fun _ => none
  owner := none
  coprocGtid := 0
  coprocError := 0
  norun := fun _ => 0
  pc := fun _ => .user
  isr := .out
  reported := false

theorem bootState_initial : IrqInitial oneProcessor bootState :=
  ⟨fun _ => rfl, rfl, fun _ _ h => h BitVec.zero_and, fun _ => rfl, rfl⟩

/-- The second task has entered `_sys_coproc_run`. -/
def enteredState : IrqState :=
  { ({ bootState with owner := some secondTask } : IrqState).goto secondTask (.start 0) with
    reported := false }

/-- It has started the channel. -/
def startedState : IrqState :=
  { enteredState.goto secondTask (if 0 + 1 < oneChannel.nb then .start (0 + 1) else .register) with
    channel := Function.update enteredState.channel 0 (some .busy) }

theorem startedState_run (ok : IrqState → ℕ → Status → Prop) :
    IrqRun oneChannel oneProcessor ok startedState :=
  (((IrqRun.init bootState_initial).step (.alloc secondTask ⟨by decide, by decide⟩ rfl
    rfl)).step (.enter secondTask rfl rfl)).step (.start secondTask 0 rfl)

/-- The channel reports an error after the task has set its bit. -/
theorem coproc_completes_error :
    ∃ s, IrqRun oneChannel oneProcessor (Late oneChannel) s ∧ s.pc secondTask = .ret ∧
      s.coprocError = 1 ∧ Completes oneChannel oneProcessor s := by
  have hrun := (((startedState_run (Late oneChannel)).step (.register secondTask rfl)).step
    (.norun secondTask rfl)).finish 0 .errorData (by decide) rfl nofun
    (fun _ => ⟨secondTask, rfl, Or.inl rfl⟩)
  have hisr := (((((hrun.step (.isrEnter rfl (Or.inl ⟨0, by decide, .errorData, rfl, by decide⟩))).step
    (.isrStatus 0 false rfl)).step (.isrReset 0 true rfl)).step (.isrError true rfl)).step
    (.isrGtid rfl)).step (.isrNorun _ rfl)
  have hret := ((hisr.step (.launch secondTask rfl)).step (.switch secondTask rfl)).step
    (.selected secondTask rfl (by decide))
  exact ⟨_, hret, rfl, rfl, coproc_completes hret⟩

/-- The channel reports an error before the task has set its bit. The handler clears the bit of
the first task, and the second one sleeps for ever. -/
theorem coproc_sleeps :
    ∃ d c s, IrqRun d c (fun _ _ _ => True) s ∧ ¬Completes d c s ∧
      s.pc secondTask = .switched ∧ s.Blocked c secondTask ∧ ¬s.Irq d ∧ s.isr = .out ∧
        ∀ i, s.channel i = none := by
  have hrun := (startedState_run fun _ _ _ => True).finish 0 .errorData (by decide) rfl nofun trivial
  have hisr := (((((hrun.step (.isrEnter rfl (Or.inl ⟨0, by decide, .errorData, rfl, by decide⟩))).step
    (.isrStatus 0 false rfl)).step (.isrReset 0 true rfl)).step (.isrError true rfl)).step
    (.isrGtid rfl)).step (.isrNorun _ rfl)
  have hswitched := (((hisr.step (.register secondTask rfl)).step (.norun secondTask rfl)).step
    (.launch secondTask rfl)).step (.switch secondTask rfl)
  refine ⟨oneChannel, oneProcessor, _, hswitched, ?_⟩
  generalize hs : IrqState.goto _ secondTask .switched = s
  have hchannel (i : ℕ) : s.channel i = none := by
    subst hs
    by_cases hi : i = 0
    · subst hi
      rfl
    · exact (Function.update_of_ne hi _ _).trans ((Function.update_of_ne hi _ _).trans
        (Function.update_of_ne hi _ _))
  have hblocked : s.Blocked oneProcessor secondTask := by
    subst hs
    exact fun h => absurd h (by decide)
  have hisr : s.isr = .out := by
    subst hs
    rfl
  have hirq : ¬s.Irq oneChannel :=
    not_irq_of oneChannel.nb_pos (not_completed_none (hchannel 0)) fun j _ => Or.inl (hchannel j)
  refine ⟨fun h => ?_, by subst hs; rfl, hblocked, hirq, hisr, hchannel⟩
  rcases (h.awake secondTask ⟨by decide, by decide⟩ hblocked).2 with ⟨i, -, hbusy⟩ | h | h
  · rw [hchannel i] at hbusy
    cases hbusy
  · exact hirq h
  · exact h hisr

end GietVm.Coproc
