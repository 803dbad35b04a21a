import GietVm.Library.Word
import Mathlib.Data.Fintype.Card

/-!
# The simple barrier

`_simple_barrier_wait` of the kernel and `barrier_wait` of the user library count the tasks
that arrive. The last one resets the count and then toggles the sense flag, which the other
tasks poll for the value that they computed before they arrived.

The rounds are those of the flag. In a round every task has arrived or not; the count is the
number of tasks that have not, until the last one resets it. A task of an earlier round may
still poll, since the flag keeps its value until that task arrives again.
-/

namespace GietVm.Barrier.Simple

open Library

/-- The fields of `simple_barrier_t` (in the user library `ntasks` is called `arity`). -/
structure SimpleBarrier where
  ntasks : ℕ
  count : ℕ
  sense : ℕ
  deriving DecidableEq

/-- The place of a task in `_simple_barrier_wait`. -/
inductive Pc
  /-- Outside the barrier. -/
  | idle
  /-- About to read the sense flag. -/
  | readSense
  /-- About to decrement the count. -/
  | decrement (expected : ℕ)
  /-- Polling the sense flag. -/
  | poll (expected : ℕ)
  /-- The last task, about to reset the count. -/
  | writeCount (expected : ℕ)
  /-- The last task, about to toggle the sense flag. -/
  | writeSense (expected : ℕ)
  deriving DecidableEq

/-- A task: its place and the numbers of calls in which it has decremented the count and from
which it has returned. -/
structure Task where
  pc : Pc
  arrived : ℕ
  returned : ℕ
  deriving DecidableEq

/-- The barrier and the tasks. -/
structure State (T : Type*) where
  barrier : SimpleBarrier
  task : T → Task

/-- `_simple_barrier_init` and `barrier_init`. -/
def simpleBarrierInit (ntasks : ℕ) : SimpleBarrier :=
  { ntasks := ntasks, count := ntasks, sense := 0 }

variable {T : Type*}

/-- The state after the initialisation. -/
def State.init (T : Type*) (ntasks : ℕ) : State T :=
  { barrier := simpleBarrierInit ntasks, task := fun _ => ⟨.idle, 0, 0⟩ }

section Step

variable [DecidableEq T]

/-- Replace the local state of a task. -/
def State.setTask (s : State T) (t : T) (k : Task) : State T :=
  { s with task := Function.update s.task t k }

/-- Write `barrier->count`. -/
def State.setCount (s : State T) (v : ℕ) : State T :=
  { s with barrier := { s.barrier with count := v } }

/-- Write `barrier->sense`. -/
def State.setSense (s : State T) (v : ℕ) : State T :=
  { s with barrier := { s.barrier with sense := v } }

/-- The return from a call. -/
def Task.return (k : Task) : Task := { k with pc := .idle, returned := k.returned + 1 }

/-- One step of a task in `_simple_barrier_wait`: one access to the barrier. -/
def simpleBarrierWait (s : State T) (t : T) : State T :=
  let k := s.task t
  match k.pc with
  | .idle => s.setTask t { k with pc := .readSense }
  | .readSense =>
    s.setTask t { k with pc := .decrement (if s.barrier.sense = 0 then 1 else 0) }
  | .decrement expected =>
    let count := s.barrier.count
    (s.setCount (sub32 count 1)).setTask t
      { k with pc := if count = 1 then .writeCount expected else .poll expected,
               arrived := k.arrived + 1 }
  | .poll expected => if s.barrier.sense = expected then s.setTask t k.return else s
  | .writeCount expected =>
    (s.setCount s.barrier.ntasks).setTask t { k with pc := .writeSense expected }
  | .writeSense expected => (s.setSense expected).setTask t k.return

/-- One step of a task in `barrier_wait`, which makes the same accesses. -/
def barrierWait (s : State T) (t : T) : State T := simpleBarrierWait s t

/-- The run of a schedule: the tasks take their steps in the listed order. -/
def run (s : State T) (schedule : List T) : State T := schedule.foldl simpleBarrierWait s

end Step

/-- A task that polls the flag with the other value. -/
def Stuck (s : State T) (t : T) : Prop :=
  ∃ expected, (s.task t).pc = .poll expected ∧ s.barrier.sense ≠ expected

/-! ## The invariant -/

/-- The local state of a task in a round. -/
def Task.Ok (round : ℕ) (k : Task) : Prop :=
  match k.pc with
  | .idle | .readSense => k.arrived = round ∧ k.returned = round
  | .decrement expected =>
    k.arrived = round ∧ k.returned = round ∧ expected = (round + 1) % 2
  | .poll expected =>
    (k.arrived = round ∨ k.arrived = round + 1) ∧ k.returned + 1 = k.arrived ∧
      expected = k.arrived % 2
  | .writeCount expected | .writeSense expected =>
    k.arrived = round + 1 ∧ k.returned = round ∧ expected = (round + 1) % 2

/-- The last task of a round, until it toggles the flag. -/
def Pc.last : Pc → Prop
  | .writeCount _ | .writeSense _ => True
  | _ => False

/-- The count while the last task of a round resets the barrier. -/
def Pc.CountOk (ntasks count : ℕ) : Pc → Prop
  | .writeCount _ => count = 0
  | .writeSense _ => count = ntasks
  | _ => True

variable [Fintype T] {ntasks round : ℕ} {s : State T} {t : T}

/-- The tasks that have not arrived in a round. -/
def State.late (s : State T) (round : ℕ) : Finset T :=
  Finset.univ.filter fun t => (s.task t).arrived = round

/-- The state of a round. While a task is late the count is the number of late tasks; then
the last task is alone past the count. -/
structure Inv (ntasks round : ℕ) (s : State T) : Prop where
  card : Fintype.card T = ntasks
  ntasks_eq : s.barrier.ntasks = ntasks
  sense : s.barrier.sense = round % 2
  task : ∀ t, (s.task t).Ok round
  count : (s.late round).Nonempty → s.barrier.count = (s.late round).card
  last : s.late round = ∅ → ∃ t, (s.task t).pc.last
  last_late : ∀ t, (s.task t).pc.last → s.late round = ∅
  last_count : ∀ t, (s.task t).pc.CountOk ntasks s.barrier.count
  last_unique : ∀ t u, (s.task t).pc.last → (s.task u).pc.last → t = u

theorem mem_late : t ∈ s.late round ↔ (s.task t).arrived = round := by
  simp [State.late]

/-- A task has arrived in the round or is late. -/
theorem Task.Ok.arrived {k : Task} (h : k.Ok round) :
    (k.arrived = round ∨ k.arrived = round + 1) ∧ k.returned ≤ round := by
  cases hpc : k.pc <;> simp only [Task.Ok, hpc] at h <;> omega

/-- A task that has arrived and is not the last one polls, also in the next round. -/
theorem Task.Ok.next {k : Task} (h : k.Ok round) (harrived : k.arrived = round + 1)
    (hlast : ¬k.pc.last) : k.Ok (round + 1) := by
  cases hpc : k.pc with
  | poll expected =>
    simp only [Task.Ok, hpc] at h ⊢
    omega
  | writeCount expected => simp [hpc, Pc.last] at hlast
  | writeSense expected => simp [hpc, Pc.last] at hlast
  | idle =>
    simp only [Task.Ok, hpc] at h
    omega
  | readSense =>
    simp only [Task.Ok, hpc] at h
    omega
  | decrement expected =>
    simp only [Task.Ok, hpc] at h
    omega

theorem init_inv (hcard : Fintype.card T = ntasks) (hpos : 1 ≤ ntasks) :
    Inv ntasks 0 (State.init T ntasks) := by
  have hlate : (State.init T ntasks).late 0 = Finset.univ :=
    Finset.filter_true_of_mem fun _ _ => rfl
  refine ⟨hcard, rfl, rfl, fun _ => ⟨rfl, rfl⟩, fun _ => ?_, fun hnone => ?_,
    fun _ h => h.elim, fun _ => trivial, fun _ _ h => h.elim⟩
  · rw [hlate, Finset.card_univ, hcard]
    rfl
  · rw [hlate, Finset.univ_eq_empty_iff, ← Fintype.card_eq_zero_iff] at hnone
    omega

/-! ## Steps -/

section Step

variable [DecidableEq T]

omit [Fintype T] in
@[simp] theorem setTask_self (s : State T) (t : T) (k : Task) : (s.setTask t k).task t = k := by
  simp [State.setTask]

omit [Fintype T] in
theorem setTask_of_ne (s : State T) {t u : T} (k : Task) (h : u ≠ t) :
    (s.setTask t k).task u = s.task u := by
  simp [State.setTask, h]

omit [Fintype T] in
/-- A property of the new local state of one task and of the old one of every other task
holds of all tasks. -/
theorem forall_setTask {s : State T} {t : T} {k : Task} {p : Task → Prop} (hself : p k)
    (hother : ∀ u, u ≠ t → p (s.task u)) (u : T) : p ((s.setTask t k).task u) := by
  by_cases h : u = t
  · rw [h, setTask_self]
    exact hself
  · rw [setTask_of_ne s k h]
    exact hother u h

/-- A task that does not arrive leaves the late tasks as they are. -/
theorem late_setTask {k : Task} (h : k.arrived = (s.task t).arrived) :
    (s.setTask t k).late round = s.late round := by
  ext u
  rw [mem_late, mem_late]
  by_cases hu : u = t
  · rw [hu, setTask_self, h]
  · rw [setTask_of_ne s k hu]

/-- A task that arrives is no longer late. -/
theorem late_setTask_arrive {k : Task} (h : k.arrived ≠ round) :
    (s.setTask t k).late round = (s.late round).erase t := by
  ext u
  rw [Finset.mem_erase, mem_late, mem_late]
  by_cases hu : u = t
  · rw [hu, setTask_self]
    exact iff_of_false h fun hne => hne.1 rfl
  · rw [setTask_of_ne s k hu]
    exact (and_iff_right hu).symm

omit [Fintype T] in
/-- Only the last task of a round has the window state. -/
theorem not_last_setTask {k : Task} (hk : ¬k.pc.last) {u : T}
    (hu : ((s.setTask t k).task u).pc.last) : u ≠ t ∧ (s.task u).pc.last := by
  by_cases hut : u = t
  · rw [hut, setTask_self] at hu
    exact absurd hu hk
  · rw [setTask_of_ne s k hut] at hu
    exact ⟨hut, hu⟩

theorem Pc.countOk_of_not_last {pc : Pc} {count : ℕ} (h : ¬pc.last) :
    pc.CountOk ntasks count := by
  cases pc with
  | writeCount expected => exact absurd trivial h
  | writeSense expected => exact absurd trivial h
  | idle => trivial
  | readSense => trivial
  | decrement expected => trivial
  | poll expected => trivial

/-- The steps of a task that do not arrive and do not write. -/
theorem Inv.setTask (h : Inv ntasks round s) {k : Task} (hk : k.Ok round)
    (harrived : k.arrived = (s.task t).arrived) (hlast : ¬k.pc.last)
    (hbefore : ¬(s.task t).pc.last) : Inv ntasks round (s.setTask t k) where
  card := h.card
  ntasks_eq := h.ntasks_eq
  sense := h.sense
  task := forall_setTask hk fun u _ => h.task u
  count := by
    rw [late_setTask harrived]
    exact h.count
  last := by
    rw [late_setTask harrived]
    intro hnone
    obtain ⟨u, hu⟩ := h.last hnone
    have hut : u ≠ t := fun heq => hbefore (heq ▸ hu)
    exact ⟨u, by rwa [setTask_of_ne s k hut]⟩
  last_late := by
    intro u hu
    rw [late_setTask harrived]
    exact h.last_late u (not_last_setTask hlast hu).2
  last_count := forall_setTask (p := fun k => k.pc.CountOk ntasks s.barrier.count)
    (Pc.countOk_of_not_last hlast) fun u _ => h.last_count u
  last_unique := by
    intro u v hu hv
    exact h.last_unique u v (not_last_setTask hlast hu).2 (not_last_setTask hlast hv).2

/-- What holds before a decrement: every task is outside the window, and the count is the
number of late tasks, of which this task is one. -/
theorem Inv.before_decrement (h : Inv ntasks round s) (hlt : ntasks < 0x100000000)
    (harrived : (s.task t).arrived = round) :
    (∀ u, ¬(s.task u).pc.last) ∧ 1 ≤ s.barrier.count ∧
      sub32 s.barrier.count 1 = s.barrier.count - 1 ∧
      ((s.late round).erase t).card = s.barrier.count - 1 := by
  have hmem : t ∈ s.late round := mem_late.mpr harrived
  have hcount : s.barrier.count = (s.late round).card := h.count ⟨t, hmem⟩
  have hpos : 1 ≤ s.barrier.count := hcount ▸ Finset.card_pos.mpr ⟨t, hmem⟩
  have hle : s.barrier.count ≤ ntasks := by
    rw [hcount, ← h.card]
    exact Finset.card_le_univ _
  refine ⟨fun u hu => ?_, hpos, sub32_eq hpos (by omega), ?_⟩
  · rw [h.last_late u hu] at hmem
    exact absurd hmem (Finset.notMem_empty t)
  · rw [Finset.card_erase_of_mem hmem, hcount]

/-- The last task of a round arrives. -/
theorem Inv.decrement_last (h : Inv ntasks round s) {k : Task} {expected : ℕ}
    (hnone : ∀ u, ¬(s.task u).pc.last)
    (hempty : (s.late round).erase t = ∅) (hk : k.Ok round)
    (hpc : k.pc = .writeCount expected) :
    Inv ntasks round ((s.setCount 0).setTask t k) := by
  have hnew : k.arrived ≠ round := by
    simp only [Task.Ok, hpc] at hk
    omega
  have hlate : ((s.setCount 0).setTask t k).late round = ∅ :=
    (late_setTask_arrive hnew).trans hempty
  have hself : ∀ u, (((s.setCount 0).setTask t k).task u).pc.last → u = t := by
    intro u hu
    by_contra hut
    rw [setTask_of_ne _ _ hut] at hu
    exact hnone u hu
  refine ⟨h.card, h.ntasks_eq, h.sense, ?_, ?_, ?_, fun _ _ => hlate, ?_, ?_⟩
  · exact forall_setTask hk fun u _ => h.task u
  · exact fun hne => absurd hlate hne.ne_empty
  · exact fun _ => ⟨t, by rw [setTask_self, hpc]; trivial⟩
  · apply forall_setTask (p := fun k => k.pc.CountOk ntasks 0)
    · rw [hpc]
      exact rfl
    · exact fun u _ => Pc.countOk_of_not_last (hnone u)
  · intro u v hu hv
    rw [hself u hu, hself v hv]

/-- A task arrives that is not the last one. -/
theorem Inv.decrement_wait (h : Inv ntasks round s) {k : Task} {count : ℕ}
    (hnone : ∀ u, ¬(s.task u).pc.last) (hcard : ((s.late round).erase t).card = count)
    (hpos : 0 < count) (hk : k.Ok round) (hnew : k.arrived ≠ round) (hlast : ¬k.pc.last) :
    Inv ntasks round ((s.setCount count).setTask t k) := by
  have hlate : ((s.setCount count).setTask t k).late round = (s.late round).erase t :=
    late_setTask_arrive hnew
  have hnone' : ∀ u, ¬(((s.setCount count).setTask t k).task u).pc.last :=
    forall_setTask (p := fun k => ¬k.pc.last) hlast fun u _ => hnone u
  refine ⟨h.card, h.ntasks_eq, h.sense, ?_, ?_, ?_, ?_, ?_, ?_⟩
  · exact forall_setTask hk fun u _ => h.task u
  · rw [hlate]
    exact fun _ => hcard.symm
  · rw [hlate]
    intro hempty
    rw [hempty, Finset.card_empty] at hcard
    omega
  · exact fun u hu => absurd hu (hnone' u)
  · exact fun u => Pc.countOk_of_not_last (hnone' u)
  · exact fun u _ hu => absurd hu (hnone' u)

/-- The last task resets the count. -/
theorem Inv.writeCount (h : Inv ntasks round s) {k : Task} {expected : ℕ} (hk : k.Ok round)
    (hlast : (s.task t).pc.last) (harrived : k.arrived = (s.task t).arrived)
    (hpc : k.pc = .writeSense expected) :
    Inv ntasks round ((s.setCount s.barrier.ntasks).setTask t k) := by
  have hlate : ((s.setCount s.barrier.ntasks).setTask t k).late round = ∅ :=
    (late_setTask harrived).trans (h.last_late t hlast)
  have hself : ∀ u, (((s.setCount s.barrier.ntasks).setTask t k).task u).pc.last → u = t := by
    intro u hu
    by_contra hut
    rw [setTask_of_ne _ _ hut] at hu
    exact hut (h.last_unique u t hu hlast)
  refine ⟨h.card, h.ntasks_eq, h.sense, ?_, ?_, ?_, fun _ _ => hlate, ?_, ?_⟩
  · exact forall_setTask hk fun u _ => h.task u
  · exact fun hne => absurd hlate hne.ne_empty
  · exact fun _ => ⟨t, by rw [setTask_self, hpc]; trivial⟩
  · apply forall_setTask (p := fun k => k.pc.CountOk ntasks s.barrier.ntasks)
    · rw [hpc]
      exact h.ntasks_eq
    · exact fun u hu => Pc.countOk_of_not_last fun hu' => hu (h.last_unique u t hu' hlast)
  · intro u v hu hv
    rw [hself u hu, hself v hv]

/-- The last task toggles the flag: the next round begins, with every task late. -/
theorem Inv.writeSense (h : Inv ntasks round s) {expected : ℕ}
    (hpc : (s.task t).pc = .writeSense expected) :
    Inv ntasks (round + 1) ((s.setSense expected).setTask t (s.task t).return) := by
  have hlast : (s.task t).pc.last := by
    rw [hpc]
    trivial
  have hok := h.task t
  simp only [Task.Ok, hpc] at hok
  obtain ⟨harrived, hreturned, hexpected⟩ := hok
  have hnone := h.last_late t hlast
  have hall : ∀ u, (s.task u).arrived = round + 1 := by
    intro u
    have hu : (s.task u).arrived ≠ round := by
      intro hu
      have := mem_late.mpr hu
      rw [hnone] at this
      exact absurd this (Finset.notMem_empty u)
    exact (h.task u).arrived.1.resolve_left hu
  have hothers : ∀ u, u ≠ t → ¬(s.task u).pc.last :=
    fun u hu hu' => hu (h.last_unique u t hu' hlast)
  have hlate : ((s.setSense expected).setTask t (s.task t).return).late (round + 1) =
      Finset.univ :=
    (late_setTask (s := s.setSense expected) (k := (s.task t).return) rfl).trans
      (Finset.filter_true_of_mem fun u _ => hall u)
  have hnone' : ∀ u, ¬(((s.setSense expected).setTask t (s.task t).return).task u).pc.last :=
    forall_setTask (p := fun k => ¬k.pc.last) (fun hk => hk) hothers
  have hcount : s.barrier.count = ntasks := by
    have := h.last_count t
    rw [hpc] at this
    exact this
  refine ⟨h.card, h.ntasks_eq, hexpected, ?_, ?_, ?_, ?_, ?_, ?_⟩
  · apply forall_setTask
    · exact ⟨harrived, congrArg (· + 1) hreturned⟩
    · -- every other task polls for the flag of this round
      intro u hu
      exact (h.task u).next (hall u) (hothers u hu)
  · rw [hlate, Finset.card_univ, h.card]
    exact fun _ => hcount
  · rw [hlate]
    intro hempty
    exact absurd (Finset.mem_univ t) (hempty ▸ Finset.notMem_empty t)
  · exact fun u hu => absurd hu (hnone' u)
  · exact fun u => Pc.countOk_of_not_last (hnone' u)
  · exact fun u _ hu => absurd hu (hnone' u)

/-- Every step keeps the invariant, in the same round or in the next one. -/
theorem Inv.step (h : Inv ntasks round s) (hlt : ntasks < 0x100000000) (t : T) :
    ∃ round', Inv ntasks round' (simpleBarrierWait s t) := by
  have hok := h.task t
  simp only [simpleBarrierWait]
  cases hpc : (s.task t).pc with
  | idle =>
    simp only [Task.Ok, hpc] at hok
    exact ⟨round, h.setTask hok rfl (fun hk => hk) (by simp [hpc, Pc.last])⟩
  | readSense =>
    simp only [Task.Ok, hpc] at hok
    refine ⟨round, h.setTask ⟨hok.1, hok.2, ?_⟩ rfl (fun hk => hk) (by simp [hpc, Pc.last])⟩
    have hsense := h.sense
    split <;> omega
  | decrement expected =>
    simp only [Task.Ok, hpc] at hok
    obtain ⟨harrived, hreturned, hexpected⟩ := hok
    obtain ⟨hnone, hpos, hsub, hcard⟩ := h.before_decrement hlt harrived
    dsimp only
    rw [hsub]
    refine ⟨round, ?_⟩
    by_cases hone : s.barrier.count = 1
    · rw [if_pos hone, hone]
      rw [hone] at hcard
      exact h.decrement_last hnone (Finset.card_eq_zero.mp hcard)
        ⟨congrArg (· + 1) harrived, hreturned, hexpected⟩ rfl
    · rw [if_neg hone]
      exact h.decrement_wait hnone hcard (by omega)
        ⟨Or.inr (congrArg (· + 1) harrived), by simp [harrived, hreturned],
          by simp [harrived, hexpected]⟩ (by simp [harrived]) (fun hk => hk)
  | poll expected =>
    simp only [Task.Ok, hpc] at hok
    refine ⟨round, ?_⟩
    dsimp only
    split
    · rename_i hsense
      rw [h.sense] at hsense
      refine h.setTask ⟨?_, ?_⟩ rfl (fun hk => hk) (by simp [hpc, Pc.last])
      · change (s.task t).arrived = round
        omega
      · change (s.task t).returned + 1 = round
        omega
    · exact h
  | writeCount expected =>
    simp only [Task.Ok, hpc] at hok
    exact ⟨round, h.writeCount hok (by simp [hpc, Pc.last]) rfl rfl⟩
  | writeSense expected => exact ⟨round + 1, h.writeSense hpc⟩

/-- The invariant holds after every schedule. -/
theorem run_inv (h : Inv ntasks round s) (hlt : ntasks < 0x100000000) (schedule : List T) :
    ∃ round', Inv ntasks round' (run s schedule) := by
  induction schedule generalizing round s with
  | nil => exact ⟨round, h⟩
  | cons t rest ih =>
    obtain ⟨round', h'⟩ := h.step hlt t
    exact ih h'

end Step

/-! ## Rounds -/

/-- No task has returned from a call whose decrement some task has not executed. -/
theorem Inv.returned_le_arrived (h : Inv ntasks round s) (t u : T) :
    (s.task t).returned ≤ (s.task u).arrived := by
  have hu := (h.task u).arrived.1
  have ht := (h.task t).arrived.2
  omega

/-- Outside the window of the last task the count is in range. -/
theorem Inv.count_range (h : Inv ntasks round s)
    (hwindow : ∀ t expected, (s.task t).pc ≠ .writeCount expected) :
    1 ≤ s.barrier.count ∧ s.barrier.count ≤ ntasks := by
  by_cases hne : (s.late round).Nonempty
  · rw [h.count hne]
    exact ⟨Finset.card_pos.mpr hne, h.card ▸ Finset.card_le_univ _⟩
  · obtain ⟨t, ht⟩ := h.last (Finset.not_nonempty_iff_eq_empty.mp hne)
    have hcount := h.last_count t
    cases hpc : (s.task t).pc with
    | writeCount expected => exact absurd hpc (hwindow t expected)
    | writeSense expected =>
      rw [hpc] at hcount
      have hpos : 0 < Fintype.card T := Fintype.card_pos_iff.mpr ⟨t⟩
      have hcard := h.card
      change s.barrier.count = ntasks at hcount
      omega
    | idle => simp [hpc, Pc.last] at ht
    | readSense => simp [hpc, Pc.last] at ht
    | decrement expected => simp [hpc, Pc.last] at ht
    | poll expected => simp [hpc, Pc.last] at ht

/-- Some task can go on. -/
theorem Inv.exists_not_stuck (h : Inv ntasks round s) : ∃ t, ¬Stuck s t := by
  by_cases hne : (s.late round).Nonempty
  · -- a late task does not wait: the flag has the value of its last call
    obtain ⟨t, ht⟩ := hne
    refine ⟨t, fun hstuck => ?_⟩
    obtain ⟨expected, hpc, hsense⟩ := hstuck
    have hok := h.task t
    simp only [Task.Ok, hpc] at hok
    rw [h.sense, hok.2.2, mem_late.mp ht] at hsense
    exact hsense rfl
  · obtain ⟨t, ht⟩ := h.last (Finset.not_nonempty_iff_eq_empty.mp hne)
    refine ⟨t, fun hstuck => ?_⟩
    obtain ⟨expected, hpc, -⟩ := hstuck
    rw [hpc] at ht
    exact ht

/-- The simple barrier is safe and can be used again, whatever the schedule: no task returns
from a call before all tasks have executed the decrement of that call, the count is between
1 and the number of tasks except while the last task resets it, and some task can always go
on. -/
theorem simpleBarrier_safe [DecidableEq T] (hcard : Fintype.card T = ntasks)
    (hpos : 1 ≤ ntasks) (hlt : ntasks < 0x100000000) (schedule : List T) :
    (∀ t u, ((run (State.init T ntasks) schedule).task t).returned ≤
      ((run (State.init T ntasks) schedule).task u).arrived) ∧
    ((∀ t expected, ((run (State.init T ntasks) schedule).task t).pc ≠ .writeCount expected) →
      1 ≤ (run (State.init T ntasks) schedule).barrier.count ∧
        (run (State.init T ntasks) schedule).barrier.count ≤ ntasks) ∧
    ¬∀ t, Stuck (run (State.init T ntasks) schedule) t := by
  obtain ⟨round, hinv⟩ := run_inv (init_inv hcard hpos) hlt schedule
  refine ⟨hinv.returned_le_arrived, hinv.count_range, fun hall => ?_⟩
  obtain ⟨t, ht⟩ := hinv.exists_not_stuck
  exact ht (hall t)

/-- Two tasks, one of which polls. -/
theorem simpleBarrier_safe_two :
    ((run (State.init (Fin 2) 2) [0, 0, 0]).task 0).pc = .poll 1 ∧
      ¬∀ t, Stuck (run (State.init (Fin 2) 2) [0, 0, 0]) t :=
  ⟨by decide, (simpleBarrier_safe (Fintype.card_fin 2) (by decide) (by decide) [0, 0, 0]).2.2⟩

end GietVm.Barrier.Simple
