import GietVm.Library.LinkedMemory
import Mathlib.Data.Nat.Notation

/-!
# The simple locks

`_simple_lock_acquire` and `_simple_lock_release` of `kernel_locks.c`. The word of a lock is zero
when the lock is free. A task loads it until it is zero, reads it again with LL, and tries to write
one with SC; when the word is not zero or the SC fails, it starts again. Any number of tasks use any
locks, as in `Spin`.
-/

namespace GietVm.Locks.Simple

open Library

/-- The place of a task in a lock. -/
inductive Pc
  /-- Outside the lock. -/
  | idle
  /-- About to load the word. -/
  | load
  /-- About to execute LL. -/
  | link
  /-- About to execute SC. -/
  | store
  /-- Between the return of the acquisition and the store of the release. -/
  | critical
  deriving DecidableEq

/-- The words of the locks and the places of the tasks. -/
structure State (L T : Type*) where
  memory : LinkedMemory L ℕ T
  task : T → L → Pc

/-- A turn of a task in a lock, and whether an SC fails. -/
structure Turn (L T : Type*) where
  task : T
  lock : L
  fails : Bool

variable {L T : Type*} [DecidableEq L] [DecidableEq T]

/-- The task goes on, with another memory. -/
def State.goto (s : State L T) (t : T) (l : L) (memory : LinkedMemory L ℕ T) (pc : Pc) :
    State L T where
  memory := memory
  task := fun u k => if u = t ∧ k = l then pc else s.task u k

/-- One step of a task in a lock. -/
def step (s : State L T) (turn : Turn L T) : State L T :=
  let t := turn.task
  let l := turn.lock
  match s.task t l with
  | .idle => s.goto t l s.memory .load
  | .load => s.goto t l s.memory (if s.memory.word l = 0 then .link else .load)
  | .link =>
    s.goto t l (s.memory.loadLinked t l) (if s.memory.word l = 0 then .store else .load)
  | .store =>
    let sc := s.memory.storeConditional t l 1 turn.fails
    s.goto t l sc.2 (if sc.1 then .critical else .load)
  | .critical => s.goto t l (s.memory.store l 0) .idle

/-- A run of the tasks. -/
def run (s : State L T) (turns : List (Turn L T)) : State L T := turns.foldl step s

/-- Free locks, and the tasks before their first acquisition. -/
def State.init (link : T → Option L) : State L T where
  memory := ⟨fun _ => 0, link⟩
  task := fun _ _ => .idle

/-! ## Mutual exclusion -/

/-- The word of a lock says whether a task has it. -/
def State.LockOk (s : State L T) (l : L) : Prop :=
  (s.memory.word l = 0 ∧ ∀ t, s.task t l ≠ .critical) ∨
    (s.memory.word l = 1 ∧ ∃ t, ∀ u, s.task u l = .critical ↔ u = t)

/-- The locks are in order, and a task that is linked to a word knows that it is zero. -/
structure Inv (s : State L T) : Prop where
  lock : ∀ l, s.LockOk l
  knows : ∀ t l, s.task t l = .store → s.memory.Knows t l 0

variable {s : State L T} {t u : T} {l k : L} {pc : Pc} {memory : LinkedMemory L ℕ T}

theorem goto_task_self : (s.goto t l memory pc).task t l = pc := if_pos ⟨rfl, rfl⟩

theorem goto_task_of_ne (h : u ≠ t ∨ k ≠ l) : (s.goto t l memory pc).task u k = s.task u k := by
  rw [State.goto]
  dsimp only
  rw [if_neg (not_and_or.2 h)]

omit [DecidableEq L] [DecidableEq T] in
theorem init_inv (link : T → Option L) : Inv (State.init link : State L T) where
  lock := fun _ => Or.inl ⟨rfl, fun _ h => by cases h⟩
  knows := by
    intro t l h
    cases h

/-- What a step of a task in a lock has to keep of this lock and of the links. -/
theorem Inv.goto (h : Inv s) (hword : ∀ k ≠ l, memory.word k = s.memory.word k)
    (hlock : (s.goto t l memory pc).LockOk l)
    (hknows : ∀ u k, u ≠ t ∨ k ≠ l → s.memory.Knows u k 0 → memory.Knows u k 0)
    (hstore : pc = .store → memory.Knows t l 0) : Inv (s.goto t l memory pc) where
  lock := by
    intro k
    by_cases hk : k = l
    · rw [hk]
      exact hlock
    · have htask (u : T) : (s.goto t l memory pc).task u k = s.task u k :=
        goto_task_of_ne (Or.inr hk)
      have hsame : (s.goto t l memory pc).memory.word k = s.memory.word k := hword k hk
      rw [State.LockOk, hsame]
      simp only [htask]
      exact h.lock k
  knows := by
    intro u k hu
    by_cases heq : u = t ∧ k = l
    · obtain ⟨rfl, rfl⟩ := heq
      rw [goto_task_self] at hu
      exact hstore hu
    · have hne : u ≠ t ∨ k ≠ l := not_and_or.1 heq
      rw [goto_task_of_ne hne] at hu
      exact hknows u k hne (h.knows u k hu)

/-- A step of a task that has not the lock and does not get it. -/
theorem State.LockOk.goto (h : s.LockOk l) (hword : memory.word l = s.memory.word l)
    (hold : s.task t l ≠ .critical) (hpc : pc ≠ .critical) :
    (s.goto t l memory pc).LockOk l := by
  have hcritical (u : T) : (s.goto t l memory pc).task u l = .critical ↔
      s.task u l = .critical := by
    by_cases hu : u = t
    · subst hu
      rw [goto_task_self]
      exact ⟨fun heq => absurd heq hpc, fun heq => absurd heq hold⟩
    · rw [goto_task_of_ne (Or.inl hu)]
  have hsame : (s.goto t l memory pc).memory.word l = s.memory.word l := hword
  rw [State.LockOk, hsame]
  simp only [ne_eq, hcritical]
  exact h

/-- The successful SC: the lock was free. -/
theorem Inv.acquire (h : Inv s) (hpc : s.task t l = .store) (hlink : s.memory.link t = some l) :
    Inv (s.goto t l (s.memory.store l 1) .critical) := by
  have hzero : s.memory.word l = 0 := h.knows t l hpc hlink
  have hnone : ∀ u, s.task u l ≠ .critical := by
    obtain ⟨-, hnone⟩ | ⟨hone, -⟩ := h.lock l
    · exact hnone
    · exact absurd (hzero.symm.trans hone) Nat.zero_ne_one
  apply h.goto
  · intro k hk
    exact LinkedMemory.store_word_of_ne _ hk
  · refine Or.inr ⟨LinkedMemory.store_word_self _ l 1, t, fun u => ?_⟩
    by_cases hu : u = t
    · subst hu
      rw [goto_task_self]
      exact ⟨fun _ => rfl, fun _ => rfl⟩
    · rw [goto_task_of_ne (Or.inl hu)]
      exact ⟨fun heq => absurd heq (hnone u), fun heq => absurd heq hu⟩
  · intro u k _ hknows
    exact hknows.store l 1
  · intro heq
    cases heq

/-- The store of the release. -/
theorem Inv.release (h : Inv s) (hpc : s.task t l = .critical) :
    Inv (s.goto t l (s.memory.store l 0) .idle) := by
  have hother : ∀ u ≠ t, s.task u l ≠ .critical := by
    intro u hu hcritical
    obtain ⟨-, hnone⟩ | ⟨-, v, hv⟩ := h.lock l
    · exact hnone t hpc
    · exact hu (((hv u).1 hcritical).trans ((hv t).1 hpc).symm)
  apply h.goto
  · intro k hk
    exact LinkedMemory.store_word_of_ne _ hk
  · refine Or.inl ⟨LinkedMemory.store_word_self _ l 0, fun u hu => ?_⟩
    by_cases hut : u = t
    · subst hut
      rw [goto_task_self] at hu
      cases hu
    · rw [goto_task_of_ne (Or.inl hut)] at hu
      exact hother u hut hu
  · intro u k _ hknows
    exact hknows.store l 0
  · intro heq
    cases heq

theorem Inv.step (h : Inv s) (turn : Turn L T) : Inv (step s turn) := by
  rw [Simple.step]
  cases hpc : s.task turn.task turn.lock with
  | idle =>
    apply h.goto
    · exact fun _ _ => rfl
    · apply (h.lock _).goto rfl <;> simp [hpc]
    · exact fun _ _ _ hknows => hknows
    · simp
  | load =>
    apply h.goto
    · exact fun _ _ => rfl
    · apply (h.lock _).goto rfl
      · simp [hpc]
      · split <;> simp
    · exact fun _ _ _ hknows => hknows
    · split <;> simp
  | link =>
    apply h.goto
    · exact fun _ _ => rfl
    · apply (h.lock _).goto rfl
      · simp [hpc]
      · split <;> simp
    · exact fun u k hne hknows => hknows.loadLinked hne
    · intro hstore
      split at hstore
      · rename_i hzero
        intro hlink
        exact hzero
      · cases hstore
  | store =>
    dsimp only
    obtain ⟨hlink, hsc⟩ | hsc :=
      s.memory.storeConditional_cases turn.task turn.lock 1 turn.fails
    · rw [hsc]
      exact h.acquire hpc hlink
    · rw [hsc]
      apply h.goto
      · exact fun _ _ => rfl
      · apply (h.lock _).goto rfl <;> simp [hpc]
      · intro u k _ hknows
        exact hknows.unlink turn.task
      · simp
  | critical => exact h.release hpc

theorem run_inv (h : Inv s) (turns : List (Turn L T)) : Inv (run s turns) := by
  induction turns generalizing s with
  | nil => exact h
  | cons turn turns ih => exact ih (h.step turn)

/-! ## A task that runs alone -/

/-- A task that takes some turns alone, without a failure, has the lock then. -/
def State.Gets (s : State L T) (t : T) (l : L) (n : ℕ) : Prop :=
  (run s (List.replicate n ⟨t, l, false⟩)).task t l = .critical

theorem State.Gets.succ {n : ℕ} (h : (step s ⟨t, l, false⟩).Gets t l n) : s.Gets t l (n + 1) := h

theorem gets_of_linked (hpc : s.task t l = .store) (hlink : s.memory.link t = some l) :
    s.Gets t l 1 := by
  have hsc : s.memory.storeConditional t l 1 false = (true, s.memory.store l 1) :=
    if_pos ⟨hlink, rfl⟩
  change (step s ⟨t, l, false⟩).task t l = .critical
  rw [step]
  dsimp only
  rw [hpc]
  dsimp only
  rw [hsc]
  exact goto_task_self

theorem gets_of_link (hpc : s.task t l = .link) (hzero : s.memory.word l = 0) : s.Gets t l 2 := by
  have hstep : step s ⟨t, l, false⟩ = s.goto t l (s.memory.loadLinked t l) .store := by
    rw [step]
    dsimp only
    rw [hpc]
    dsimp only
    rw [if_pos hzero]
  apply State.Gets.succ
  rw [hstep]
  exact gets_of_linked goto_task_self (Function.update_self ..)

theorem gets_of_load (hpc : s.task t l = .load) (hzero : s.memory.word l = 0) : s.Gets t l 3 := by
  have hstep : step s ⟨t, l, false⟩ = s.goto t l s.memory .link := by
    rw [step]
    dsimp only
    rw [hpc]
    dsimp only
    rw [if_pos hzero]
  apply State.Gets.succ
  rw [hstep]
  exact gets_of_link goto_task_self hzero

theorem gets_of_idle (hpc : s.task t l = .idle) (hzero : s.memory.word l = 0) : s.Gets t l 4 := by
  have hstep : step s ⟨t, l, false⟩ = s.goto t l s.memory .load := by
    rw [step]
    dsimp only
    rw [hpc]
  apply State.Gets.succ
  rw [hstep]
  exact gets_of_load goto_task_self hzero

/-- A task that has lost its link starts again. -/
theorem gets_of_unlinked (hpc : s.task t l = .store) (hlink : s.memory.link t ≠ some l)
    (hzero : s.memory.word l = 0) : s.Gets t l 4 := by
  have hsc : s.memory.storeConditional t l 1 false = (false, s.memory.unlink t) :=
    if_neg fun h => hlink h.1
  have hstep : step s ⟨t, l, false⟩ = s.goto t l (s.memory.unlink t) .load := by
    rw [step]
    dsimp only
    rw [hpc]
    dsimp only
    rw [hsc]
    rfl
  apply State.Gets.succ
  rw [hstep]
  exact gets_of_load goto_task_self hzero

/-- A free lock is taken in four turns at most. -/
theorem Inv.gets (h : Inv s) (hzero : s.memory.word l = 0) (t : T) : ∃ n ≤ 4, s.Gets t l n := by
  cases hpc : s.task t l with
  | idle => exact ⟨4, Nat.le_refl 4, gets_of_idle hpc hzero⟩
  | load => exact ⟨3, by decide, gets_of_load hpc hzero⟩
  | link => exact ⟨2, by decide, gets_of_link hpc hzero⟩
  | store =>
    by_cases hlink : s.memory.link t = some l
    · exact ⟨1, by decide, gets_of_linked hpc hlink⟩
    · exact ⟨4, Nat.le_refl 4, gets_of_unlinked hpc hlink hzero⟩
  | critical =>
    obtain ⟨-, hnone⟩ | ⟨hone, -⟩ := h.lock l
    · exact absurd hpc (hnone t)
    · exact absurd (hzero.symm.trans hone) Nat.zero_ne_one

/-- In every run of any number of tasks, the word of a lock is zero and no task has the lock, or the
word is one and one task has it; and each task that runs alone gets a free lock. -/
theorem simpleLock_exclusive (link : T → Option L) (turns : List (Turn L T)) (l : L) :
    (run (State.init link) turns).LockOk l ∧
      ((run (State.init link) turns).memory.word l = 0 →
        ∀ t, ∃ n ≤ 4, (run (State.init link) turns).Gets t l n) := by
  have h := run_inv (init_inv link) turns
  exact ⟨h.lock l, h.gets⟩

end GietVm.Locks.Simple
