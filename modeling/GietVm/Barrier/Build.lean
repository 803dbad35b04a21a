import GietVm.Barrier.Rounds
import GietVm.Barrier.Mesh

/-!
# Building the SQT barrier

`_sqt_barrier_build` and its user copy initialise the nodes of a barrier by the recursion
over the quad tree of the mesh. The kernel attaches `NB_PROCS_MAX` tasks to each cluster, and
the user barrier a given number.
-/

namespace GietVm.Barrier

open GietVm.Library CombiningTree

/-- `sqt_barrier_build`, with the number of tasks of a cluster; the kernel copy passes
`NB_PROCS_MAX`. -/
def sqtBarrierBuild (xmax ymax ntasks : ℕ) : (level x y : ℕ) → Option NodeId →
    (NodeId → Node NodeId) → NodeId → Node NodeId
  | 0, x, y, parent, node =>
    Function.update node ⟨x, y, 0⟩
      { arity := ntasks, count := ntasks, sense := 0, level := 0, parent,
        child := [none, none, none, none] }
  | level + 1, x, y, parent, node =>
    let coords := childCoords x y level
    let arity := (coords.filter (inMesh xmax ymax)).length
    let node := Function.update node ⟨x, y, level + 1⟩
      { arity, count := arity, sense := 0, level := level + 1, parent,
        child := coords.map fun c => if inMesh xmax ymax c then some ⟨c.1, c.2, level⟩ else none }
    coords.foldl (fun node c =>
      if inMesh xmax ymax c then
        sqtBarrierBuild xmax ymax ntasks level c.1 c.2 (some ⟨x, y, level + 1⟩) node
      else node) node

/-- A barrier as `sqt_barrier_init` leaves it with a root of level `level`, before any task
calls it; the words of the nodes are arbitrary before the build. -/
def sqtBarrierInit (xmax ymax ntasks level : ℕ) (node : NodeId → Node NodeId) :
    State TaskId NodeId :=
  ⟨sqtBarrierBuild xmax ymax ntasks level 0 0 none node, fun _ => Task.init⟩

/-! ## The nodes that are built -/

variable {xmax ymax ntasks level : ℕ} {hx : 0 < xmax} {hy : 0 < ymax}

/-- The contents of a node after the build. -/
def builtNode (xmax ymax ntasks : ℕ) (parent : Option NodeId) (n : NodeId) : Node NodeId where
  arity := arityOf xmax ymax ntasks n
  count := arityOf xmax ymax ntasks n
  sense := 0
  level := n.level
  parent := parent
  child := childOf xmax ymax n

/-- The build of a barrier is the recursion over the tree with these contents. -/
theorem sqtBarrierBuild_eq : sqtBarrierBuild xmax ymax ntasks = sqtBuild
    (fun level x y parent => builtNode xmax ymax ntasks parent ⟨x, y, level⟩) xmax ymax := by
  funext level
  induction level with
  | zero => rfl
  | succ level ih =>
    funext x y parent node
    simp only [sqtBarrierBuild, sqtBuild, ih]
    rfl

/-- The words of the nodes after the build. -/
theorem sqtBarrierBuild_apply {node : NodeId → Node NodeId} {n : NodeId} (hx : 0 < xmax)
    (hy : 0 < ymax) (hn : Within xmax ymax level 0 0 n) :
    sqtBarrierBuild xmax ymax ntasks level 0 0 none node n =
      builtNode xmax ymax ntasks (if n.level = level then none else some (parentOf n)) n := by
  rw [sqtBarrierBuild_eq, sqtBuild_apply (Nat.dvd_zero _) (Nat.dvd_zero _)
    (inMesh_iff.mpr ⟨hx, hy⟩), if_pos hn]

/-- The build leaves a tree whose nodes wait for all their arrivers. -/
theorem built_sqt {node : NodeId → Node NodeId} : Built (sqtTree xmax ymax ntasks level hx hy)
    (sqtBarrierBuild xmax ymax ntasks level 0 0 none node) := by
  refine ⟨fun n hn => ?_, fun n hn => ?_, fun n hn => ?_, fun n hn => ?_⟩ <;>
    rw [sqtBarrierBuild_apply hx hy (mem_sqtNodes.mp hn)]
  · rfl
  · exact (card_arrivers hn).symm
  · rfl
  · rfl

/-! ## Rounds of a barrier -/

/-- The runs of a barrier in which no decrement meets a node between the two writes of its
reset lose no arrival: no task returns from a round before every task has started it, and
in no state do all tasks poll flags that show the other value. -/
theorem sqtBarrier_no_lost_arrival (hx : 0 < xmax) (hy : 0 < ymax) (hntasks : 0 < ntasks)
    (hntasks' : ntasks < 0x100000000) {node : NodeId → Node NodeId} {s : State TaskId NodeId}
    (h : RunApart (sqtTasks xmax ymax ntasks level) leafOf
      (sqtBarrierInit xmax ymax ntasks level node) s) :
    (∀ t ∈ sqtTasks xmax ymax ntasks level, ∀ u ∈ sqtTasks xmax ymax ntasks level,
      (s.task t).returned ≤ (s.task u).started) ∧
    ¬ ∀ t ∈ sqtTasks xmax ymax ntasks level, Stuck s t := by
  have hne : ∀ n ∈ (sqtTree xmax ymax ntasks level hx hy).nodes,
      ((sqtTree xmax ymax ntasks level hx hy).arrivers n).Nonempty := arrivers_nonempty hntasks
  have hbound : ∀ n ∈ (sqtTree xmax ymax ntasks level hx hy).nodes,
      ((sqtTree xmax ymax ntasks level hx hy).arrivers n).card < 0x100000000 := by
    intro n hn
    rw [card_arrivers hn]
    exact arityOf_lt hntasks'
  have hinit : Inv (sqtTree xmax ymax ntasks level hx hy) (fun _ => 0) (fun _ => 0)
      (sqtBarrierInit xmax ymax ntasks level node) := inv_init built_sqt hne
  have hrun : ∃ epoch arrivals,
      Inv (sqtTree xmax ymax ntasks level hx hy) epoch arrivals s := h.inv hinit hne hbound
  obtain ⟨epoch, arrivals, hinv⟩ := hrun
  refine ⟨fun t ht u hu => hinv.returned_le_started ht hu, fun hall => ?_⟩
  obtain ⟨t, ht, hnot⟩ := hinv.exists_not_stuck
  exact hnot (hall t ht)

/-! ## The arrival that is lost -/

/-- Words of a node that are not yet initialised. -/
def rawNode : NodeId → Node NodeId := fun _ => ⟨0, 0, 0, 0, none, []⟩

/-- Two tasks on one cluster. The second task is the last of the first round; between its
two writes the first task leaves and decrements the count for the second round. -/
def lostArrival : List TaskId :=
  let first : TaskId := ⟨0, 0, 0⟩
  let last : TaskId := ⟨0, 0, 1⟩
  [first, first, first, last, last, last, last, first, first, first, first, last, last, last, last]

/-- After this run both tasks poll for the second round, and no step will change the flag. -/
theorem sqtBarrier_lost_arrival :
    ¬ ∀ schedule, (∀ t ∈ schedule, t ∈ sqtTasks 1 1 2 0) →
      ¬ ∃ round, ∀ t ∈ sqtTasks 1 1 2 0,
        ((run leafOf (sqtBarrierInit 1 1 2 0 rawNode) schedule).task t).started = round ∧
          Stuck (run leafOf (sqtBarrierInit 1 1 2 0 rawNode) schedule) t := by
  intro hall
  refine hall lostArrival (by decide) ⟨2, fun t ht => ?_⟩
  have htask : ∀ p, p = 0 ∨ p = 1 →
      (run leafOf (sqtBarrierInit 1 1 2 0 rawNode) lostArrival).task ⟨0, 0, p⟩ =
        ⟨.poll ⟨0, 0, 0⟩ 0, [], 2, 1⟩ := by
    rintro p (rfl | rfl)
    · rfl
    · rfl
  obtain ⟨x, y, p⟩ := t
  simp only [mem_sqtTasks] at ht
  obtain ⟨⟨hx, -⟩, ⟨hy, -⟩, hp⟩ := ht
  obtain rfl : x = 0 := by omega
  obtain rfl : y = 0 := by omega
  rw [Stuck, htask p (by omega)]
  exact ⟨rfl, ⟨0, 0, 0⟩, 0, rfl, by decide⟩

/-- A run of the same barrier of which no step meets a half reset node. -/
theorem sqtBarrier_no_lost_arrival_two :
    ((step leafOf (sqtBarrierInit 1 1 2 0 rawNode) ⟨0, 0, 0⟩).task ⟨0, 0, 1⟩).returned ≤
      ((step leafOf (sqtBarrierInit 1 1 2 0 rawNode) ⟨0, 0, 0⟩).task ⟨0, 0, 0⟩).started ∧
    ¬ ∀ t ∈ sqtTasks 1 1 2 0, Stuck (step leafOf (sqtBarrierInit 1 1 2 0 rawNode) ⟨0, 0, 0⟩) t := by
  have hrun : RunApart (sqtTasks 1 1 2 0) leafOf (sqtBarrierInit 1 1 2 0 rawNode)
      (step leafOf (sqtBarrierInit 1 1 2 0 rawNode) ⟨0, 0, 0⟩) :=
    .step .refl (by decide) (by intro n e hpc; cases hpc)
  obtain ⟨hround, hstuck⟩ := sqtBarrier_no_lost_arrival (by decide) (by decide) (by decide)
    (by decide) hrun
  exact ⟨hround _ (by decide) _ (by decide), hstuck⟩

end GietVm.Barrier
