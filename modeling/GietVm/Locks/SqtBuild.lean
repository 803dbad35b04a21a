import GietVm.Locks.SqtInvariant
import GietVm.Barrier.Mesh

/-!
# Building the SQT lock

`_sqt_lock_build` and its user copy initialise the nodes of a lock by the recursion over the
quad tree of the mesh. On such a tree the lock excludes: whatever the schedule of the tasks,
each node has one owner, and the root belongs to the task in the critical section.
-/

namespace GietVm.Locks

open Library CombiningTree Barrier

/-- `_sqt_lock_build` and `sqt_lock_build`. -/
def sqtLockBuild (xmax ymax : ℕ) : (level x y : ℕ) → Option NodeId →
    (NodeId → SqtLockNode NodeId) → NodeId → SqtLockNode NodeId
  | 0, x, y, parent, node =>
    Function.update node ⟨x, y, 0⟩
      { current := 0, free := 0, level := 0, parent, child := [none, none, none, none] }
  | level + 1, x, y, parent, node =>
    let coords := childCoords x y level
    let node := Function.update node ⟨x, y, level + 1⟩
      { current := 0, free := 0, level := level + 1, parent,
        child := coords.map fun c => if inMesh xmax ymax c then some ⟨c.1, c.2, level⟩ else none }
    coords.foldl (fun node c =>
      if inMesh xmax ymax c then
        sqtLockBuild xmax ymax level c.1 c.2 (some ⟨x, y, level + 1⟩) node
      else node) node

/-- A lock as `_sqt_lock_init` leaves it with a root of level `level`, before any task calls
it; the words of the nodes are arbitrary before the build. -/
def sqtLockInit (xmax ymax level : ℕ) (node : NodeId → SqtLockNode NodeId) :
    State TaskId NodeId :=
  { node := sqtLockBuild xmax ymax level 0 0 none node, task := fun _ => .idle,
    drawn := fun _ => [], served := fun _ => [], given := fun _ => 0 }

/-! ## The nodes that are built -/

variable {xmax ymax ntasks level : ℕ} {hx : 0 < xmax} {hy : 0 < ymax}

/-- The contents of a node after the build. -/
def builtNode (xmax ymax : ℕ) (parent : Option NodeId) (n : NodeId) : SqtLockNode NodeId where
  current := 0
  free := 0
  level := n.level
  parent := parent
  child := childOf xmax ymax n

/-- The build of a lock is the recursion over the tree with these contents. -/
theorem sqtLockBuild_eq : sqtLockBuild xmax ymax = sqtBuild
    (fun level x y parent => builtNode xmax ymax parent ⟨x, y, level⟩) xmax ymax := by
  funext level
  induction level with
  | zero => rfl
  | succ level ih =>
    funext x y parent node
    simp only [sqtLockBuild, sqtBuild, ih]
    rfl

/-- The words of the nodes after the build. -/
theorem sqtLockBuild_apply {node : NodeId → SqtLockNode NodeId} {n : NodeId} (hx : 0 < xmax)
    (hy : 0 < ymax) (hn : Within xmax ymax level 0 0 n) :
    sqtLockBuild xmax ymax level 0 0 none node n =
      builtNode xmax ymax (if n.level = level then none else some (parentOf n)) n := by
  rw [sqtLockBuild_eq, sqtBuild_apply (Nat.dvd_zero _) (Nat.dvd_zero _)
    (inMesh_iff.mpr ⟨hx, hy⟩), if_pos hn]

/-- The build leaves free locks with the pointers of the tree. -/
theorem inv_init {node : NodeId → SqtLockNode NodeId} :
    Inv (sqtTree xmax ymax ntasks level hx hy) (sqtLockInit xmax ymax level node) := by
  have happly : ∀ n ∈ (sqtTree xmax ymax ntasks level hx hy).nodes,
      sqtLockBuild xmax ymax level 0 0 none node n =
        builtNode xmax ymax (if n.level = level then none else some (parentOf n)) n :=
    fun n hn => sqtLockBuild_apply hx hy (mem_sqtNodes.mp hn)
  refine ⟨fun n hn => ?_, fun n hn => ?_, fun n hn => List.nodup_nil, fun n hn t => ?_,
    fun t _ n hn => (nomatch hn), fun t _ n ticket hp => (nomatch hp),
    fun t _ n (ho : False) => ho.elim, fun t _ n v hp => (nomatch hp)⟩
  · change (sqtLockBuild xmax ymax level 0 0 none node n).parent = _
    rw [happly n hn]
    rfl
  · change TicketOk (sqtLockBuild xmax ymax level 0 0 none node n).current
      (sqtLockBuild xmax ymax level 0 0 none node n).free [] [] 0
    rw [happly n hn]
    exact ticketOk_init
  · refine iff_of_false List.not_mem_nil fun h => ?_
    obtain ho | ⟨ticket, hp⟩ := h.2
    · exact ho
    · cases hp

/-! ## Exclusion -/

/-- The SQT lock excludes, for every mesh, every root level, every number of tasks of a
cluster and every schedule. At most one task is between the return of the acquisition and the
start of the release; no two tasks own the same node; a task that is about to write `current`
has read the value that is still there, and `current` counts the releases of the node, which
are as many as the served tasks or one less; and the tasks of a node are served in the order
in which they drew their tickets. -/
theorem sqtLock_excludes (hx : 0 < xmax) (hy : 0 < ymax) (hntasks : ntasks < 0x100000000)
    {node : NodeId → SqtLockNode NodeId} {schedule : List TaskId}
    (hschedule : ∀ t ∈ schedule, t ∈ sqtTasks xmax ymax ntasks level) {s : State TaskId NodeId}
    (hs : s = run leafOf (sqtLockInit xmax ymax level node) schedule) :
    (∀ t ∈ sqtTasks xmax ymax ntasks level, ∀ u ∈ sqtTasks xmax ymax ntasks level,
      s.task t = .critical → s.task u = .critical → t = u) ∧
    (∀ t ∈ sqtTasks xmax ymax ntasks level, ∀ u ∈ sqtTasks xmax ymax ntasks level, ∀ n,
      (s.task t).Owns (sqtTree xmax ymax ntasks level hx hy) t n →
      (s.task u).Owns (sqtTree xmax ymax ntasks level hx hy) u n → t = u) ∧
    (∀ t ∈ sqtTasks xmax ymax ntasks level, ∀ n v,
      s.task t = .write n v → v = (s.node n).current) ∧
    (∀ n ∈ sqtNodes xmax ymax level, (s.node n).current = s.given n % 0x100000000 ∧
      s.given n ≤ (s.served n).length ∧ (s.served n).length ≤ s.given n + 1) ∧
    ∀ n ∈ sqtNodes xmax ymax level, s.served n <+: s.drawn n := by
  have hbound : ∀ n ∈ (sqtTree xmax ymax ntasks level hx hy).nodes,
      ((sqtTree xmax ymax ntasks level hx hy).arrivers n).card < 0x100000000 := by
    intro n hn
    rw [card_arrivers hn]
    exact arityOf_lt hntasks
  have hinv : Inv (sqtTree xmax ymax ntasks level hx hy) s :=
    hs ▸ run_inv inv_init hbound hschedule
  refine ⟨fun t ht u hu htc huc => ?_, fun t ht u hu n => hinv.owner_unique ht hu,
    hinv.value, fun n hn => ?_, fun n hn => TicketOk.served_drawn (hinv.lock n hn)⟩
  · -- both own the root
    have hroot : ∀ v ∈ sqtTasks xmax ymax ntasks level, s.task v = .critical →
        (s.task v).Owns (sqtTree xmax ymax ntasks level hx hy) v ⟨0, 0, level⟩ := by
      intro v hv hvc
      rw [hvc]
      exact above_root ((sqtTree xmax ymax ntasks level hx hy).leaf_mem v hv)
    exact hinv.owner_unique ht hu (hroot t ht htc) (hroot u hu huc)
  · have hlock := hinv.lock n hn
    exact ⟨hlock.current_eq, hlock.given_le, hlock.served_le⟩

/-- The words of the nodes before the build. -/
def rawNode : NodeId → SqtLockNode NodeId := fun _ => ⟨7, 5, 0, none, []⟩

/-- One cluster with two tasks: the first one is in the critical section. -/
theorem sqtLock_excludes_two :
    (run leafOf (sqtLockInit 1 1 0 rawNode) [⟨0, 0, 0⟩, ⟨0, 0, 0⟩, ⟨0, 0, 0⟩]).task ⟨0, 0, 0⟩ =
      .critical ∧
    ∀ n ∈ sqtNodes 1 1 0,
      (run leafOf (sqtLockInit 1 1 0 rawNode) [⟨0, 0, 0⟩, ⟨0, 0, 0⟩, ⟨0, 0, 0⟩]).served n <+:
        (run leafOf (sqtLockInit 1 1 0 rawNode) [⟨0, 0, 0⟩, ⟨0, 0, 0⟩, ⟨0, 0, 0⟩]).drawn n :=
  ⟨by decide, (sqtLock_excludes (by decide) (by decide) (by decide : 2 < 0x100000000)
    (by decide) rfl).2.2.2.2⟩

end GietVm.Locks
