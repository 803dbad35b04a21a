import GietVm.Library.CombiningTree

/-!
# The SQT barrier

The kernel barrier of `kernel_barriers.c` and the user barrier of `user_barrier.c` run the
same decrement on the nodes of a tree. A task arrives at the leaf of its cluster; the last
task to arrive at a node goes on to the parent before it resets the node, and the other
tasks poll the sense flag of the node.

Each shared read, write and atomic decrement is one step of one task. The arity and the
parent of a node are written once, when the barrier is built, and are read together with
the step that needs them. The recursion of the decrement is kept as the list of the nodes
whose reset is still to come.
-/

namespace GietVm.Barrier

/-- An SQT node. Pointers to nodes are values of `N`. -/
structure Node (N : Type*) where
  arity : ℕ
  count : ℕ
  sense : ℕ
  level : ℕ
  parent : Option N
  child : List (Option N)

/-- The place of a task in `sqt_barrier_wait`. -/
inductive Pc (N : Type*)
  /-- Outside the barrier. -/
  | idle
  /-- About to compute the expected sense value of a node. -/
  | readSense (n : N)
  /-- About to decrement the count of a node. -/
  | decrement (n : N) (expected : ℕ)
  /-- Polling the sense flag of a node. -/
  | poll (n : N) (expected : ℕ)
  /-- About to reset the sense flag of a node. -/
  | writeSense (n : N) (expected : ℕ)
  /-- About to reset the count of a node. -/
  | writeCount (n : N)
  deriving DecidableEq, Repr

/-- A task: its place, the calls of the decrement that wait for an inner call to return,
and the numbers of `sqt_barrier_wait` calls started and returned. -/
structure Task (N : Type*) where
  pc : Pc N
  stack : List (N × ℕ)
  started : ℕ
  returned : ℕ
  deriving DecidableEq, Repr

/-- The shared nodes and the tasks. -/
structure State (T N : Type*) where
  node : N → Node N
  task : T → Task N

variable {T N : Type*}

/-- A task before its first call. -/
def Task.init : Task N := ⟨.idle, [], 0, 0⟩

/-- The return from one call of the decrement: to the reset of the node of the outer call,
or out of the barrier. -/
def Task.return (k : Task N) : Task N :=
  match k.stack with
  | [] => { k with pc := .idle, returned := k.returned + 1 }
  | (m, expected) :: rest => { k with pc := .writeSense m expected, stack := rest }

section Step

variable [DecidableEq T] [DecidableEq N]

/-- Replace the local state of a task. -/
def State.setTask (s : State T N) (t : T) (k : Task N) : State T N :=
  { s with task := Function.update s.task t k }

/-- Write `node->count`. -/
def State.setCount (s : State T N) (n : N) (v : ℕ) : State T N :=
  { s with node := Function.update s.node n { s.node n with count := v } }

/-- Write `node->sense`. -/
def State.setSense (s : State T N) (n : N) (v : ℕ) : State T N :=
  { s with node := Function.update s.node n { s.node n with sense := v } }

/-- One step of a task. A task outside the barrier starts its next call. -/
def step (leaf : T → N) (s : State T N) (t : T) : State T N :=
  let k := s.task t
  match k.pc with
  | .idle => s.setTask t { k with pc := .readSense (leaf t), started := k.started + 1 }
  | .readSense n =>
    s.setTask t { k with pc := .decrement n (if (s.node n).sense = 0 then 1 else 0) }
  | .decrement n expected =>
    let count := (s.node n).count
    let s' := s.setCount n ((count + 0x100000000 - 1) % 0x100000000)
    if count = 1 then
      match (s.node n).parent with
      | some p => s'.setTask t { k with pc := .readSense p, stack := (n, expected) :: k.stack }
      | none => s'.setTask t { k with pc := .writeSense n expected }
    else s'.setTask t { k with pc := .poll n expected }
  | .poll n expected => if (s.node n).sense = expected then s.setTask t k.return else s
  | .writeSense n expected =>
    (s.setSense n expected).setTask t { k with pc := .writeCount n }
  | .writeCount n => (s.setCount n (s.node n).arity).setTask t k.return

/-- The run of a schedule: the tasks take their steps in the listed order. -/
def run (leaf : T → N) (s : State T N) (schedule : List T) : State T N :=
  schedule.foldl (step leaf) s

/-- The next step of a task does not decrement a node whose reset is half done. -/
def StepApart (tasks : Finset T) (s : State T N) (t : T) : Prop :=
  ∀ n expected, (s.task t).pc = .decrement n expected →
    ∀ u ∈ tasks, (s.task u).pc ≠ .writeCount n

/-- The runs of the tasks in which no step decrements a node whose reset is half done. -/
inductive RunApart (tasks : Finset T) (leaf : T → N) (s₀ : State T N) : State T N → Prop
  | refl : RunApart tasks leaf s₀ s₀
  | step {s t} (h : RunApart tasks leaf s₀ s) (ht : t ∈ tasks) (hstep : StepApart tasks s t) :
      RunApart tasks leaf s₀ (step leaf s t)

end Step

/-- A task that polls a flag with the other value. -/
def Stuck (s : State T N) (t : T) : Prop :=
  ∃ n expected, (s.task t).pc = .poll n expected ∧ (s.node n).sense ≠ expected

end GietVm.Barrier
