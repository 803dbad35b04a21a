import GietVm.Library.CombiningTree
import GietVm.Library.TicketLock

/-!
# The SQT lock

The kernel lock of `kernel_locks.c` and the user lock of `user_sqt_lock.c` put a ticket lock
into every node of a synthetic quad tree. A task takes the locks on the path from the leaf of
its cluster to the root, and holds the lock when it has taken the root. It gives them back on
the same path, again from the leaf up, so that another task may take the leaf and draw a
ticket of the next node while this node is still to be given back.

The atomic increment of `free`, each read of `current` and each write of `current` are one
step of one task. The recursions of `_sqt_lock_take` and `_sqt_lock_give` are tail calls, so a
task needs no more than the node at which it is.
-/

namespace GietVm.Locks

open Library CombiningTree

/-- An SQT node. Pointers to nodes are values of `N`. -/
structure SqtLockNode (N : Type*) where
  current : ℕ
  free : ℕ
  level : ℕ
  parent : Option N
  child : List (Option N)

/-- The place of a task. -/
inductive Pc (N : Type*)
  /-- Outside the lock. -/
  | idle
  /-- In `_sqt_lock_take`, about to increment `free`. -/
  | take (n : N)
  /-- Polling `current`. -/
  | poll (n : N) (ticket : ℕ)
  /-- Between the return of the acquisition and the start of the release. -/
  | critical
  /-- In `_sqt_lock_give`, about to read `current`. -/
  | read (n : N)
  /-- About to write `current`. -/
  | write (n : N) (value : ℕ)
  deriving DecidableEq

/-- The nodes, the tasks, and the histories of the nodes: the tasks that drew a ticket and
those that were served, in this order, and the number of writes of `current`. -/
structure State (T N : Type*) where
  node : N → SqtLockNode N
  task : T → Pc N
  drawn : N → List T
  served : N → List T
  given : N → ℕ

variable {T N : Type*}

section Step

variable [DecidableEq T] [DecidableEq N]

/-- Replace the place of a task. -/
def State.setTask (s : State T N) (t : T) (pc : Pc N) : State T N :=
  { s with task := Function.update s.task t pc }

/-- The atomic increment of `node->free`. -/
def State.draw (s : State T N) (t : T) (n : N) : State T N :=
  { s with
    node := Function.update s.node n { s.node n with free := add32 (s.node n).free 1 }
    drawn := Function.update s.drawn n (s.drawn n ++ [t]) }

/-- The last read of the polling loop. -/
def State.serve (s : State T N) (t : T) (n : N) : State T N :=
  { s with served := Function.update s.served n (s.served n ++ [t]) }

/-- The write of `node->current`. -/
def State.give (s : State T N) (n : N) (value : ℕ) : State T N :=
  { s with
    node := Function.update s.node n { s.node n with current := value }
    given := Function.update s.given n (s.given n + 1) }

/-- The call of `_sqt_lock_take` for the parent, or the return from the acquisition. -/
def takeNext : Option N → Pc N
  | some p => .take p
  | none => .critical

/-- The call of `_sqt_lock_give` for the parent, or the return from the release. -/
def giveNext : Option N → Pc N
  | some p => .read p
  | none => .idle

/-- One step of a task, which acquires and releases the lock again and again. -/
def step (leaf : T → N) (s : State T N) (t : T) : State T N :=
  match s.task t with
  | .idle => s.setTask t (.take (leaf t))
  | .take n => (s.draw t n).setTask t (.poll n (s.node n).free)
  | .poll n ticket =>
    if (s.node n).current = ticket then
      (s.serve t n).setTask t (takeNext (s.node n).parent)
    else s
  | .critical => s.setTask t (.read (leaf t))
  | .read n => s.setTask t (.write n (s.node n).current)
  | .write n value => (s.give n (add32 value 1)).setTask t (giveNext (s.node n).parent)

/-- The run of a schedule: the tasks take their steps in the listed order. -/
def run (leaf : T → N) (s : State T N) (schedule : List T) : State T N :=
  schedule.foldl (step leaf) s

end Step

/-- The queue of a node. -/
def State.queue (s : State T N) (n : N) : List T := ticketQueue (s.drawn n) (s.given n)

/-! ## Owners -/

variable {tree : CombiningTree T N} {t u : T} {m n p : N}

/-- The node of a task. -/
def Pc.node? : Pc N → Option N
  | .take n | .poll n _ | .read n | .write n _ => some n
  | .idle | .critical => none

/-- A task owns the nodes that it has taken and not given back: below its node while it
acquires, from its node on while it releases. -/
def Pc.Owns (tree : CombiningTree T N) (t : T) (n : N) : Pc N → Prop
  | .idle => False
  | .take m | .poll m _ => tree.Above (tree.leaf t) n ∧ tree.Above n m ∧ n ≠ m
  | .critical => tree.Above (tree.leaf t) n
  | .read m | .write m _ => tree.Above m n

/-- A task in the queue of a node owns it or waits for it. -/
def Pc.Queued (tree : CombiningTree T N) (t : T) (n : N) (pc : Pc N) : Prop :=
  pc.Owns tree t n ∨ ∃ ticket, pc = .poll n ticket

/-- A task that begins to acquire owns nothing. -/
theorem not_owns_take_leaf (ht : t ∈ tree.tasks) :
    ¬(Pc.take (tree.leaf t)).Owns tree t n := by
  intro h
  obtain ⟨hup, hdown, hne⟩ := h
  exact hne (hup.antisymm hdown (tree.leaf_mem t ht))

/-- A task that is served owns one more node. -/
theorem owns_takeNext (ht : t ∈ tree.tasks) (hpath : tree.Above (tree.leaf t) m)
    {ticket : ℕ} : (takeNext (tree.parent m)).Owns tree t n ↔
      (Pc.poll m ticket).Owns tree t n ∨ n = m := by
  have hm := (hpath.mem (tree.leaf_mem t ht)).1
  cases hp : tree.parent m with
  | none =>
    change tree.Above (tree.leaf t) n ↔ (tree.Above (tree.leaf t) n ∧ tree.Above n m ∧ n ≠ m) ∨ _
    constructor
    · intro hn
      obtain hle | hle := hn.total hpath
      · by_cases heq : n = m
        · exact Or.inr heq
        · exact Or.inl ⟨hn, hle, heq⟩
      · exact Or.inr ((above_iff_of_none hp).mp hle)
    · intro h
      obtain h | h := h
      · exact h.1
      · exact h ▸ hpath
  | some p =>
    change (tree.Above (tree.leaf t) n ∧ tree.Above n p ∧ n ≠ p) ↔
      (tree.Above (tree.leaf t) n ∧ tree.Above n m ∧ n ≠ m) ∨ _
    constructor
    · intro h
      obtain ⟨hn, hle, hne⟩ := h
      by_cases heq : n = m
      · exact Or.inr heq
      · obtain hbelow | habove := hn.total hpath
        · exact Or.inl ⟨hn, hbelow, heq⟩
        · have hpn := ((above_iff_of_parent hp).mp habove).resolve_left heq
          exact absurd (hpn.antisymm hle (tree.parent_mem hm hp)) hne
    · intro h
      obtain ⟨hn, hle, hne⟩ | h := h
      · refine ⟨hn, hle.parent hp, fun heq => ?_⟩
        exact not_above_of_parent hm hp (heq ▸ hle)
      · rw [h]
        refine ⟨hpath, (above_refl m).parent hp, fun heq => ?_⟩
        exact not_above_of_parent hm hp (heq ▸ above_refl m)

/-- A task that gives a node back owns the other nodes. -/
theorem owns_giveNext (hm : m ∈ tree.nodes) {value : ℕ} :
    (giveNext (tree.parent m)).Owns tree t n ↔
      (Pc.write m value).Owns tree t n ∧ n ≠ m := by
  cases hp : tree.parent m with
  | none =>
    change False ↔ tree.Above m n ∧ n ≠ m
    rw [above_iff_of_none hp, and_not_self_iff]
  | some p =>
    change tree.Above p n ↔ tree.Above m n ∧ n ≠ m
    rw [above_iff_of_parent hp]
    constructor
    · intro h
      exact ⟨Or.inr h, fun heq => not_above_of_parent hm hp (heq ▸ h)⟩
    · intro h
      exact h.1.resolve_left h.2

end GietVm.Locks
