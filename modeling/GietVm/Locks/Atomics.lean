import GietVm.Library.LinkedMemory
import Mathlib.Data.BitVec

/-!
# Atomic operations on shared words

`_atomic_increment`, `_atomic_or` and `_atomic_and` of `kernel_locks.c`, and `atomic_increment` of
`user_lock.c`, are loops of LL, one operation of the processor, and SC. Tasks run these loops on any
shared words, in any order, while other tasks load and store the same words. An SC fails when the
word was stored to since the LL, and it may fail at any other time.

Every run does to the memory what the same operations do one after the other, each one in one step
between its call and its return, and each call returns the value that its operation finds.
-/

namespace GietVm.Locks.Atomics

open Library

/-- A machine word. -/
abbrev Word := BitVec 32

/-- What a loop of LL and SC does to a word. -/
inductive Atomic
  /-- `_atomic_increment` -/
  | increment (value : Word)
  /-- `_atomic_or` -/
  | or (mask : Word)
  /-- `_atomic_and` -/
  | and (mask : Word)
  deriving DecidableEq

/-- The value that SC writes. -/
def Atomic.apply : Atomic → Word → Word
  | .increment value, old => value + old
  | .or mask, old => mask ||| old
  | .and mask, old => mask &&& old

/-- An operation on a shared word. -/
inductive Op
  | atomic (f : Atomic)
  | load
  | store (value : Word)
  deriving DecidableEq

/-- The word after the operation. -/
def Op.apply : Op → Word → Word
  | .atomic f, old => f.apply old
  | .load, old => old
  | .store value, _ => value

/-- The place of a task. -/
inductive Pc (A : Type*)
  | idle
  /-- About to execute LL, or the only access of the operation. -/
  | called (a : A) (op : Op)
  /-- About to execute SC. -/
  | linked (a : A) (f : Atomic) (value : Word)
  /-- About to return, with the value of the LL. -/
  | returned (a : A) (op : Op) (value : Word)

/-- An operation of a task, with the value that it found. -/
abbrev Event (A : Type*) := Update A Op Word

/-- The memory and the tasks, with the operations in the order of their effects, and for each task
the calls that have returned. -/
structure State (A T : Type*) where
  memory : LinkedMemory A Word T
  task : T → Pc A
  log : List (T × Event A)
  calls : T → List (Event A)

/-- A turn of a task: the call that it makes when it is idle, and whether an SC fails. -/
structure Turn (A T : Type*) where
  task : T
  address : A
  op : Op
  fails : Bool

variable {A T : Type*} [DecidableEq A] [DecidableEq T]

/-- The task goes on, with another memory. -/
def State.goto (s : State A T) (t : T) (memory : LinkedMemory A Word T) (pc : Pc A) : State A T :=
  { s with memory := memory, task := Function.update s.task t pc }

/-- The task has done its operation. -/
def State.finish (s : State A T) (t : T) (memory : LinkedMemory A Word T) (a : A) (op : Op)
    (value : Word) : State A T :=
  { s.goto t memory (.returned a op value) with log := s.log ++ [(t, ⟨a, op, value⟩)] }

/-- One step of a task. -/
def step (s : State A T) (turn : Turn A T) : State A T :=
  let t := turn.task
  match s.task t with
  | .idle => s.goto t s.memory (.called turn.address turn.op)
  | .called a .load => s.finish t s.memory a .load (s.memory.word a)
  | .called a (.store value) =>
    s.finish t (s.memory.store a value) a (.store value) (s.memory.word a)
  | .called a (.atomic f) =>
    s.goto t (s.memory.loadLinked t a) (.linked a f (s.memory.word a))
  | .linked a f value =>
    let sc := s.memory.storeConditional t a (f.apply value) turn.fails
    if sc.1 then s.finish t sc.2 a (.atomic f) value
    else s.goto t sc.2 (.called a (.atomic f))
  | .returned a op value =>
    { s.goto t s.memory .idle with
      calls := Function.update s.calls t (s.calls t ++ [⟨a, op, value⟩]) }

/-- A run of the tasks. -/
def run (s : State A T) (turns : List (Turn A T)) : State A T := turns.foldl step s

/-- The tasks before their first call. -/
def State.init (word : A → Word) (link : T → Option A) : State A T where
  memory := ⟨word, link⟩
  task := fun _ => .idle
  log := []
  calls := fun _ => []

/-! ## The invariant -/

/-- The call that a task is about to return from. -/
def Pc.pending : Pc A → List (Event A)
  | .returned a op value => [⟨a, op, value⟩]
  | _ => []

/-- The operations of a task, in the order of their effects. -/
def State.effects (s : State A T) (t : T) : List (Event A) :=
  (s.log.filter fun e => decide (e.1 = t)).map Prod.snd

/-- The operations make the memory, in the order of their effects; these are the calls of the tasks,
and a task knows the word that it is linked to. -/
structure Inv (word : A → Word) (s : State A T) : Prop where
  replays : Replays Op.apply word (s.log.map Prod.snd) s.memory.word
  calls : ∀ t, s.effects t = s.calls t ++ (s.task t).pending
  knows : ∀ t a f value, s.task t = .linked a f value → s.memory.Knows t a value

variable {word : A → Word} {s : State A T} {t u : T} {a : A} {op : Op} {value : Word}
  {memory : LinkedMemory A Word T} {pc : Pc A}

theorem init_inv (word : A → Word) (link : T → Option A) :
    Inv word (State.init word link : State A T) where
  replays := rfl
  calls := fun _ => rfl
  knows := by
    intro t a op value h
    cases h

/-- A step of a task that has no effect on the words. -/
theorem Inv.goto (h : Inv word s) (hword : memory.word = s.memory.word)
    (hpending : pc.pending = (s.task t).pending)
    (hknows : ∀ u ≠ t, ∀ a value, s.memory.Knows u a value → memory.Knows u a value)
    (hpc : ∀ a op value, pc = .linked a op value → memory.Knows t a value) :
    Inv word (s.goto t memory pc) where
  replays := by
    change Replays _ _ _ memory.word
    rw [hword]
    exact h.replays
  calls := by
    intro u
    change s.effects u = s.calls u ++ (Function.update s.task t pc u).pending
    by_cases hu : u = t
    · subst hu
      rw [Function.update_self, hpending]
      exact h.calls u
    · rw [Function.update_of_ne hu]
      exact h.calls u
  knows := by
    intro u a op value hu
    change Function.update s.task t pc u = _ at hu
    by_cases hut : u = t
    · subst hut
      rw [Function.update_self] at hu
      exact hpc a op value hu
    · rw [Function.update_of_ne hut] at hu
      exact hknows u hut a value (h.knows u a op value hu)

/-- The step in which an operation takes its effect. -/
theorem Inv.finish (h : Inv word s) (hold : s.memory.word a = value)
    (hword : memory.word = Function.update s.memory.word a (op.apply value))
    (hpending : (s.task t).pending = [])
    (hknows : ∀ u a value, s.memory.Knows u a value → memory.Knows u a value) :
    Inv word (s.finish t memory a op value) where
  replays := by
    change Replays _ _ ((s.log ++ [(t, (⟨a, op, value⟩ : Event A))]).map Prod.snd) memory.word
    rw [List.map_append, hword]
    have hfound : s.memory.word (⟨a, op, value⟩ : Event A).address = value := hold
    exact h.replays.concat hfound
  calls := by
    intro u
    change ((s.log ++ [(t, (⟨a, op, value⟩ : Event A))]).filter _).map Prod.snd =
      s.calls u ++ (Function.update s.task t _ u).pending
    have hcalls := h.calls u
    rw [State.effects] at hcalls
    rw [List.filter_append, List.map_append, hcalls]
    by_cases hu : u = t
    · subst hu
      rw [Function.update_self, hpending, List.append_nil, List.filter_cons_of_pos (by simp)]
      rfl
    · rw [Function.update_of_ne hu, List.filter_cons_of_neg (by simpa using Ne.symm hu)]
      exact List.append_nil _
  knows := by
    intro u b op' value' hu
    change Function.update s.task t _ u = _ at hu
    by_cases hut : u = t
    · subst hut
      rw [Function.update_self] at hu
      cases hu
    · rw [Function.update_of_ne hut] at hu
      exact hknows u b value' (h.knows u b op' value' hu)

theorem Inv.step (h : Inv word s) (turn : Turn A T) : Inv word (step s turn) := by
  rw [Atomics.step]
  cases hpc : s.task turn.task with
  | idle =>
    apply h.goto
    · rfl
    · rw [hpc]
      rfl
    · exact fun _ _ _ _ hknows => hknows
    · intro a f value heq
      cases heq
  | called a op =>
    have hpending : (s.task turn.task).pending = [] := by
      rw [hpc]
      rfl
    cases op with
    | load =>
      apply h.finish rfl _ hpending
      · exact fun _ _ _ hknows => hknows
      · exact (Function.update_eq_self a s.memory.word).symm
    | store value =>
      apply h.finish rfl rfl hpending
      intro u b old hknows
      exact hknows.store a value
    | atomic f =>
      apply h.goto
      · rfl
      · exact hpending.symm
      · intro u hu b old hknows
        exact hknows.loadLinked (Or.inl hu)
      · intro b g value heq
        cases heq
        exact LinkedMemory.loadLinked_knows
  | linked a f value =>
    have hpending : (s.task turn.task).pending = [] := by
      rw [hpc]
      rfl
    dsimp only
    obtain ⟨hlink, hsc⟩ | hsc :=
      s.memory.storeConditional_cases turn.task a (f.apply value) turn.fails
    · rw [hsc]
      apply h.finish (h.knows _ a f value hpc hlink) rfl hpending
      intro u b old hknows
      exact hknows.store a (f.apply value)
    · rw [hsc]
      apply h.goto
      · rfl
      · exact hpending.symm
      · intro u _ b old hknows
        exact hknows.unlink turn.task
      · intro b g old heq
        cases heq
  | returned a op value =>
    refine ⟨h.replays, ?_, ?_⟩
    · intro u
      have hcalls := h.calls u
      change s.effects u = Function.update s.calls turn.task _ u ++
        (Function.update s.task turn.task .idle u).pending
      by_cases hu : u = turn.task
      · subst hu
        rw [hpc] at hcalls
        rw [Function.update_self, Function.update_self, hcalls]
        exact (List.append_nil _).symm
      · rw [Function.update_of_ne hu, Function.update_of_ne hu, hcalls]
    · intro u b f old hu
      change Function.update s.task turn.task .idle u = _ at hu
      by_cases hut : u = turn.task
      · subst hut
        rw [Function.update_self] at hu
        cases hu
      · rw [Function.update_of_ne hut] at hu
        exact h.knows u b f old hu

theorem run_inv (h : Inv word s) (turns : List (Turn A T)) : Inv word (run s turns) := by
  induction turns generalizing s with
  | nil => exact h
  | cons turn turns ih => exact ih (h.step turn)

/-- Every run of the tasks is a run of operations that each take one step: in the order of their
effects they lead from the first content of the memory to the last one, each of them finds the value
that its call returns, and the calls of a task are among them in their order. -/
theorem atomics_linearized (word : A → Word) (link : T → Option A) (turns : List (Turn A T)) :
    Replays Op.apply word ((run (State.init word link) turns).log.map Prod.snd)
        (run (State.init word link) turns).memory.word ∧
      ∀ t, (run (State.init word link) turns).effects t =
        (run (State.init word link) turns).calls t ++
          ((run (State.init word link) turns).task t).pending := by
  have h := run_inv (init_inv word link) turns
  exact ⟨h.replays, h.calls⟩

end GietVm.Locks.Atomics
