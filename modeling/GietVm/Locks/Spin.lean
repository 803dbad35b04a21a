import GietVm.Library.LinkedMemory
import GietVm.Library.TicketLock
import Mathlib.Data.Fintype.Card

/-!
# The spin locks

`_spin_lock_acquire` and `_spin_lock_release` of `kernel_locks.c`, and `lock_acquire` and
`lock_release` of `user_lock.c`, are the same ticket lock. A task draws its ticket with a loop of LL
and SC on the word `free`, polls the word `current`, and gives the lock back with a load and a store
of `current`.

Any tasks use any locks, one inside the other or not: a task has a place in each lock. Each access
is a step, an SC may fail at any time, and a link to a word is lost when the word is stored to or
when the task loads another word with LL.
-/

namespace GietVm.Locks.Spin

open Library

/-- The words of the locks. -/
inductive LockWord (L : Type*)
  | current (lock : L)
  | free (lock : L)
  deriving DecidableEq

/-- The place of a task in a lock. -/
inductive Pc
  /-- Outside the lock. -/
  | idle
  /-- In `_atomic_increment`, about to execute LL. -/
  | load
  /-- In `_atomic_increment`, about to execute SC. -/
  | store (value : ℕ)
  /-- Polling `current`. -/
  | poll (ticket : ℕ)
  /-- Between the return of the acquisition and the start of the release. -/
  | critical
  /-- About to read `current`. -/
  | read
  /-- About to write `current`. -/
  | write (value : ℕ)
  deriving DecidableEq

/-- A task owns the lock from the end of the acquisition to the end of the release. -/
def Pc.owns : Pc → Bool
  | .critical | .read | .write _ => true
  | _ => false

/-- The words, the tasks, and the histories of the locks: the tasks that drew a ticket and those
that were served, in this order, and the number of releases. -/
structure State (L T : Type*) where
  memory : LinkedMemory (LockWord L) ℕ T
  task : T → L → Pc
  drawn : L → List T
  served : L → List T
  given : L → ℕ

/-- A turn of a task in a lock, and whether an SC fails. -/
structure Turn (L T : Type*) where
  task : T
  lock : L
  fails : Bool

variable {L T : Type*} [DecidableEq L] [DecidableEq T]

/-- The places after a task gets to another place in a lock. -/
def setPc (task : T → L → Pc) (t : T) (l : L) (pc : Pc) : T → L → Pc :=
  fun u k => if u = t ∧ k = l then pc else task u k

/-- The task goes on, with another memory. -/
def State.goto (s : State L T) (t : T) (l : L) (memory : LinkedMemory (LockWord L) ℕ T) (pc : Pc) :
    State L T :=
  { s with memory := memory, task := setPc s.task t l pc }

/-- One step of a task in a lock. -/
def step (s : State L T) (turn : Turn L T) : State L T :=
  let t := turn.task
  let l := turn.lock
  match s.task t l with
  | .idle => s.goto t l s.memory .load
  | .load => s.goto t l (s.memory.loadLinked t (.free l)) (.store (s.memory.word (.free l)))
  | .store value =>
    let sc := s.memory.storeConditional t (.free l) (add32 value 1) turn.fails
    if sc.1 then
      { s.goto t l sc.2 (.poll value) with
        drawn := Function.update s.drawn l (s.drawn l ++ [t]) }
    else s.goto t l sc.2 .load
  | .poll ticket =>
    if s.memory.word (.current l) = ticket then
      { s.goto t l s.memory .critical with
        served := Function.update s.served l (s.served l ++ [t]) }
    else s
  | .critical => s.goto t l s.memory .read
  | .read => s.goto t l s.memory (.write (s.memory.word (.current l)))
  | .write value =>
    { s.goto t l (s.memory.store (.current l) (add32 value 1)) .idle with
      given := Function.update s.given l (s.given l + 1) }

/-- A run of the tasks. -/
def run (s : State L T) (turns : List (Turn L T)) : State L T := turns.foldl step s

/-- The locks after `_spin_lock_init`, and the tasks before their first acquisition. -/
def State.init (link : T → Option (LockWord L)) : State L T where
  memory := ⟨fun _ => 0, link⟩
  task := fun _ _ => .idle
  drawn := fun _ => []
  served := fun _ => []
  given := fun _ => 0

/-! ## The invariant -/

/-- The tickets of a lock are in use. -/
def State.Use (s : State L T) (l : L) : Prop :=
  TicketUse (s.memory.word (.current l)) (s.memory.word (.free l)) (s.drawn l) (s.served l)
    (s.given l) (fun t ticket => s.task t l = .poll ticket) fun t => (s.task t l).owns = true

/-- The tickets of all locks are in use, a task knows the word `free` that it is linked to, and the
task that releases a lock has the value of `current`. -/
structure Inv (s : State L T) : Prop where
  use : ∀ l, s.Use l
  knows : ∀ t l value, s.task t l = .store value → s.memory.Knows t (.free l) value
  value : ∀ t l value, s.task t l = .write value → value = s.memory.word (.current l)

variable {s s' : State L T} {t u : T} {l k : L} {pc : Pc}
  {memory : LinkedMemory (LockWord L) ℕ T}

theorem setPc_self (task : T → L → Pc) : setPc task t l pc t l = pc := if_pos ⟨rfl, rfl⟩

theorem setPc_of_ne (task : T → L → Pc) (h : u ≠ t ∨ k ≠ l) :
    setPc task t l pc u k = task u k := by
  rw [setPc, if_neg (not_and_or.2 h)]

omit [DecidableEq L] [DecidableEq T] in
theorem init_inv (link : T → Option (LockWord L)) : Inv (State.init link : State L T) where
  use := fun _ => TicketUse.init (fun _ _ h => by cases h) fun _ h => by cases h
  knows := by
    intro t l value h
    cases h
  value := by
    intro t l value h
    cases h

/-- What a step of a task in a lock has to keep of this lock and of the links. -/
theorem Inv.next (h : Inv s) (htask : s'.task = setPc s.task t l pc)
    (hwords : ∀ k ≠ l, s'.memory.word (.current k) = s.memory.word (.current k) ∧
      s'.memory.word (.free k) = s.memory.word (.free k))
    (hhistories : ∀ k ≠ l, s'.drawn k = s.drawn k ∧ s'.served k = s.served k ∧
      s'.given k = s.given k)
    (huse : s'.Use l)
    (hknows : ∀ u k value, u ≠ t ∨ k ≠ l → s.memory.Knows u (.free k) value →
      s'.memory.Knows u (.free k) value)
    (hstore : ∀ value, pc = .store value → s'.memory.Knows t (.free l) value)
    (hwrite : ∀ u value, s'.task u l = .write value → value = s'.memory.word (.current l)) :
    Inv s' where
  use := by
    intro k
    by_cases hk : k = l
    · rw [hk]
      exact huse
    · obtain ⟨hcurrent, hfree⟩ := hwords k hk
      obtain ⟨hdrawn, hserved, hgiven⟩ := hhistories k hk
      rw [State.Use, htask, hcurrent, hfree, hdrawn, hserved, hgiven]
      apply (h.use k).congr
      · intro u ticket
        rw [setPc_of_ne _ (Or.inr hk)]
      · intro u
        rw [setPc_of_ne _ (Or.inr hk)]
  knows := by
    intro u k value hu
    rw [htask] at hu
    by_cases heq : u = t ∧ k = l
    · obtain ⟨rfl, rfl⟩ := heq
      rw [setPc_self] at hu
      exact hstore value hu
    · have hne : u ≠ t ∨ k ≠ l := not_and_or.1 heq
      rw [setPc_of_ne _ hne] at hu
      exact hknows u k value hne (h.knows u k value hu)
  value := by
    intro u k value hu
    by_cases hk : k = l
    · subst hk
      exact hwrite u value hu
    · rw [htask, setPc_of_ne _ (Or.inr hk)] at hu
      rw [(hwords k hk).1]
      exact h.value u k value hu

/-- The tasks that release a lock have the value of `current`, also after a step of a task that does
not write this word. -/
theorem Inv.value_setPc (h : Inv s)
    (hpc : ∀ value, pc = .write value → value = s.memory.word (.current l)) (u : T) (value : ℕ)
    (hu : setPc s.task t l pc u l = .write value) : value = s.memory.word (.current l) := by
  by_cases hut : u = t
  · subst hut
    rw [setPc_self] at hu
    exact hpc value hu
  · rw [setPc_of_ne _ (Or.inl hut)] at hu
    exact h.value u l value hu

/-- A step that neither takes nor gives the lock. -/
theorem Inv.goto (h : Inv s) (hword : memory.word = s.memory.word)
    (hwaits : ∀ ticket, s.task t l ≠ .poll ticket) (hwaits' : ∀ ticket, pc ≠ .poll ticket)
    (howns : pc.owns = (s.task t l).owns)
    (hknows : ∀ u k value, u ≠ t ∨ k ≠ l → s.memory.Knows u (.free k) value →
      memory.Knows u (.free k) value)
    (hstore : ∀ value, pc = .store value → memory.Knows t (.free l) value)
    (hwrite : ∀ value, pc = .write value → value = s.memory.word (.current l)) :
    Inv (s.goto t l memory pc) := by
  apply h.next rfl
  · intro k _
    exact ⟨congrFun hword _, congrFun hword _⟩
  · exact fun _ _ => ⟨rfl, rfl, rfl⟩
  · change TicketUse (memory.word _) (memory.word _) _ _ _ _ _
    rw [hword]
    apply (h.use l).congr
    · intro u ticket
      change setPc s.task t l pc u l = _ ↔ _
      by_cases hu : u = t
      · subst hu
        rw [setPc_self]
        exact ⟨fun hpc => absurd hpc (hwaits' ticket), fun hpc => absurd hpc (hwaits ticket)⟩
      · rw [setPc_of_ne _ (Or.inl hu)]
    · intro u
      change (setPc s.task t l pc u l).owns = true ↔ _
      by_cases hu : u = t
      · subst hu
        rw [setPc_self, howns]
      · rw [setPc_of_ne _ (Or.inl hu)]
  · exact hknows
  · exact hstore
  · intro u value hu
    change value = memory.word _
    rw [hword]
    exact h.value_setPc hwrite u value hu

/-- The successful SC: the word has not changed since the LL, so the task draws its ticket. -/
theorem Inv.draw (h : Inv s) {value : ℕ} (hpc : s.task t l = .store value)
    (hlink : s.memory.link t = some (.free l)) :
    Inv { s.goto t l (s.memory.store (.free l) (add32 value 1)) (.poll value) with
      drawn := Function.update s.drawn l (s.drawn l ++ [t]) } := by
  have hvalue : s.memory.word (.free l) = value := h.knows t l value hpc hlink
  subst hvalue
  have hcurrent (k : L) : (s.memory.store (.free l) (add32 (s.memory.word (.free l)) 1)).word
      (.current k) = s.memory.word (.current k) :=
    LinkedMemory.store_word_of_ne _ (by simp)
  apply h.next rfl
  · intro k hk
    refine ⟨hcurrent k, LinkedMemory.store_word_of_ne _ ?_⟩
    simpa using hk
  · intro k hk
    exact ⟨Function.update_of_ne hk .., rfl, rfl⟩
  · change TicketUse ((s.memory.store _ _).word _) ((s.memory.store _ _).word _)
      (Function.update s.drawn l _ l) _ _ _ _
    rw [hcurrent, LinkedMemory.store_word_self, Function.update_self]
    apply (h.use l).draw
    · intro ticket hticket
      rw [hpc] at hticket
      cases hticket
    · rw [hpc]
      exact Bool.false_ne_true
    · intro u ticket
      change setPc s.task t l _ u l = _ ↔ _
      by_cases hu : u = t
      · subst hu
        rw [setPc_self, hpc, Pc.poll.injEq]
        simp [eq_comm]
      · rw [setPc_of_ne _ (Or.inl hu)]
        simp [hu]
    · intro u
      change (setPc s.task t l _ u l).owns = true ↔ _
      by_cases hu : u = t
      · subst hu
        rw [setPc_self, hpc]
        rfl
      · rw [setPc_of_ne _ (Or.inl hu)]
  · intro u k value _ hknows
    exact hknows.store _ _
  · intro value hstore
    cases hstore
  · intro u value hu
    change value = (s.memory.store _ _).word _
    rw [hcurrent]
    exact h.value_setPc (fun _ hwrite => by cases hwrite) u value hu

/-- The last read of the polling loop: the task is served. -/
theorem Inv.serve (h : Inv s) (hqueue : (ticketQueue (s.drawn l) (s.given l)).length ≤ 0x100000000)
    (hpc : s.task t l = .poll (s.memory.word (.current l))) :
    Inv { s.goto t l s.memory .critical with
      served := Function.update s.served l (s.served l ++ [t]) } := by
  apply h.next rfl
  · exact fun _ _ => ⟨rfl, rfl⟩
  · intro k hk
    exact ⟨rfl, Function.update_of_ne hk .., rfl⟩
  · change TicketUse _ _ _ (Function.update s.served l _ l) _ _ _
    rw [Function.update_self]
    apply And.right
    apply (h.use l).serve hqueue hpc
    · intro u ticket
      change setPc s.task t l _ u l = _ ↔ _
      by_cases hu : u = t
      · subst hu
        rw [setPc_self]
        simp
      · rw [setPc_of_ne _ (Or.inl hu)]
        simp [hu]
    · intro u
      change (setPc s.task t l _ u l).owns = true ↔ _
      by_cases hu : u = t
      · subst hu
        rw [setPc_self]
        simp [Pc.owns]
      · rw [setPc_of_ne _ (Or.inl hu)]
        simp [hu]
  · exact fun _ _ _ _ hknows => hknows
  · intro value hstore
    cases hstore
  · intro u value hu
    exact h.value_setPc (fun _ hwrite => by cases hwrite) u value hu

/-- The store of `current`: the owner, the only task that releases the lock, gives it back. -/
theorem Inv.give (h : Inv s) {value : ℕ} (hpc : s.task t l = .write value) :
    Inv { s.goto t l (s.memory.store (.current l) (add32 value 1)) .idle with
      given := Function.update s.given l (s.given l + 1) } := by
  have howns : (s.task t l).owns = true := by
    rw [hpc]
    rfl
  obtain rfl := h.value t l value hpc
  have hfree (k : L) : (s.memory.store (.current l) (add32 (s.memory.word (.current l)) 1)).word
      (.free k) = s.memory.word (.free k) :=
    LinkedMemory.store_word_of_ne _ (by simp)
  -- another task that owned the lock would be this one
  have hother : ∀ u, (setPc s.task t l .idle u l).owns ≠ true := by
    intro u hu
    by_cases hut : u = t
    · subst hut
      rw [setPc_self] at hu
      exact Bool.false_ne_true hu
    · rw [setPc_of_ne _ (Or.inl hut)] at hu
      exact hut ((h.use l).unique hu howns)
  apply h.next rfl
  · intro k hk
    refine ⟨LinkedMemory.store_word_of_ne _ ?_, hfree k⟩
    simpa using hk
  · intro k hk
    exact ⟨rfl, rfl, Function.update_of_ne hk ..⟩
  · change TicketUse ((s.memory.store _ _).word _) ((s.memory.store _ _).word _) _ _
      (Function.update s.given l _ l) _ _
    rw [hfree, LinkedMemory.store_word_self, Function.update_self]
    apply (h.use l).give howns
    · intro ticket hticket
      rw [hpc] at hticket
      cases hticket
    · intro u ticket
      change setPc s.task t l _ u l = _ ↔ _
      by_cases hu : u = t
      · subst hu
        rw [setPc_self, hpc]
        simp
      · rw [setPc_of_ne _ (Or.inl hu)]
    · exact hother
  · intro u k value _ hknows
    exact hknows.store _ _
  · intro value hstore
    cases hstore
  · intro u value hu
    change setPc s.task t l _ u l = _ at hu
    have hwriting : (setPc s.task t l .idle u l).owns = true := by
      rw [hu]
      rfl
    exact absurd hwriting (hother u)

omit [DecidableEq L] [DecidableEq T] in
/-- The tasks in the queue of a lock are different. -/
theorem Inv.queue_le [Fintype T] (h : Inv s) (hcard : Fintype.card T ≤ 0x100000000) (l : L) :
    (ticketQueue (s.drawn l) (s.given l)).length ≤ 0x100000000 := by
  have hmem : ∀ u ∈ ticketQueue (s.drawn l) (s.given l), u ∈ Finset.univ :=
    fun u _ => Finset.mem_univ u
  exact (ticketQueue_length_le (h.use l).nodup hmem).trans hcard

theorem Inv.step [Fintype T] (h : Inv s) (hcard : Fintype.card T ≤ 0x100000000)
    (turn : Turn L T) : Inv (step s turn) := by
  have hknows : ∀ u k value, u ≠ turn.task ∨ k ≠ turn.lock →
      s.memory.Knows u (.free k) value → s.memory.Knows u (.free k) value :=
    fun _ _ _ _ hknows => hknows
  rw [Spin.step]
  cases hpc : s.task turn.task turn.lock with
  | idle => apply h.goto <;> simp [hpc, Pc.owns]
  | load =>
    apply h.goto
    · rfl
    · simp [hpc]
    · simp
    · rw [hpc]
      rfl
    · intro u k value hne hknows
      apply hknows.loadLinked
      simpa using hne
    · intro value hvalue
      cases hvalue
      exact LinkedMemory.loadLinked_knows
    · simp
  | store value =>
    dsimp only
    obtain ⟨hlink, hsc⟩ | hsc := s.memory.storeConditional_cases turn.task (.free turn.lock)
      (add32 value 1) turn.fails
    · rw [hsc]
      exact h.draw hpc hlink
    · rw [hsc]
      apply h.goto
      · rfl
      · simp [hpc]
      · simp
      · rw [hpc]
        rfl
      · intro u k value _ hknows
        exact hknows.unlink turn.task
      · simp
      · simp
  | poll ticket =>
    dsimp only
    split
    · rename_i hticket
      apply h.serve (h.queue_le hcard turn.lock)
      rw [hticket]
      exact hpc
    · exact h
  | critical => apply h.goto <;> simp [hpc, Pc.owns]
  | read => apply h.goto <;> simp [hpc, Pc.owns]
  | write value => exact h.give hpc

theorem run_inv [Fintype T] (h : Inv s) (hcard : Fintype.card T ≤ 0x100000000)
    (turns : List (Turn L T)) : Inv (run s turns) := by
  induction turns generalizing s with
  | nil => exact h
  | cons turn turns ih => exact ih (h.step hcard turn)

/-- A lock has one owner at most, the tasks get it in the order of their successful SCs, no
increment of its words is lost, and while a task polls, a task owns the lock or polls for the ticket
that is shown. -/
theorem spinLock_exclusive [Fintype T] (hcard : Fintype.card T ≤ 0x100000000)
    (link : T → Option (LockWord L)) (turns : List (Turn L T)) (l : L) :
    (∀ t u, ((run (State.init link) turns).task t l).owns = true →
        ((run (State.init link) turns).task u l).owns = true → t = u) ∧
      (run (State.init link) turns).served l <+: (run (State.init link) turns).drawn l ∧
      (run (State.init link) turns).memory.word (.free l) =
        ((run (State.init link) turns).drawn l).length % 0x100000000 ∧
      (run (State.init link) turns).memory.word (.current l) =
        (run (State.init link) turns).given l % 0x100000000 ∧
      ∀ t ticket, (run (State.init link) turns).task t l = .poll ticket →
        (∃ u, ((run (State.init link) turns).task u l).owns = true) ∨
          ∃ u, (run (State.init link) turns).task u l =
            .poll ((run (State.init link) turns).memory.word (.current l)) := by
  have huse := (run_inv (init_inv link) hcard turns).use l
  exact ⟨fun t u => huse.unique, huse.ok.served_drawn, huse.ok.free_eq, huse.ok.current_eq,
    fun t ticket => huse.not_stuck⟩

/-- Two tasks execute LL before either executes SC. -/
def raceTurns : List (Turn Unit (Fin 2)) :=
  [⟨0, (), false⟩, ⟨1, (), false⟩, ⟨0, (), false⟩, ⟨1, (), false⟩, ⟨1, (), false⟩, ⟨0, (), false⟩,
    ⟨1, (), false⟩]

/-- The task whose SC succeeds gets the lock. -/
theorem spinLock_exclusive_race :
    ((run (State.init fun _ => none) raceTurns).task 1 ()).owns = true ∧
      ((run (State.init fun _ => none) raceTurns).task 0 ()).owns ≠ true := by
  have h := spinLock_exclusive (by decide) (fun _ => none) raceTurns ()
  have howns : ((run (State.init fun _ => none) raceTurns).task 1 ()).owns = true := by decide
  exact ⟨howns, fun hother => absurd (h.1 1 0 howns hother) (by decide)⟩

end GietVm.Locks.Spin
