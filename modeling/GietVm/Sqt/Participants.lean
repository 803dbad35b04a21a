import GietVm.Sqt.Init
import GietVm.Barrier.OneRound
import Mathlib.Data.Set.Card

/-!
# The participants of an SQT barrier

A barrier built by `_sqt_barrier_init` should wait for the processors of the platform: each
leaf for the processors of its cluster, each inner node for its children with processors below.
The nodes form a tree with a leaf for every cluster with processors, whatever the platform, and
so do the nodes of a lock. But the recursion writes `NB_PROCS_MAX` into every leaf, and counts
every child in the footprint. So the barrier fits exactly the platforms whose footprint is full:
each of its clusters has `NB_PROCS_MAX` processors.
-/

namespace GietVm.Sqt

open GietVm.Library GietVm.Barrier CombiningTree

/-- The nodes that child pointers lead to. -/
def Reaches (child : NodeId → List (Option NodeId)) (n m : NodeId) : Prop :=
  Relation.ReflTransGen (fun a b => some b ∈ child a) n m

/-- The node that a number of parent links lead to. -/
def climb (parent : NodeId → Option NodeId) : ℕ → NodeId → Option NodeId
  | 0, n => some n
  | k + 1, n => (parent n).bind (climb parent k)

/-- The nodes reached from the root form a tree, in which each cluster with processors has its
own leaf, at a distance of `levels - 1` from the root. -/
structure IsSqt (p : Platform) (table : NodeTable) (parent : NodeId → Option NodeId)
    (child : NodeId → List (Option NodeId)) (root : NodeId) : Prop where
  root_entry : table ⟨0, 0, levels p - 1⟩ = some root
  parent_root : parent root = none
  parent_child : ∀ n m, Reaches child root n → some m ∈ child n → parent m = some n
  child_once : ∀ n, Reaches child root n → (child n).reduceOption.Nodup
  leaf : ∀ x y, p.HasProcs x y → ∃ n, table ⟨x, y, 0⟩ = some n ∧ Reaches child root n ∧
    child n = [none, none, none, none] ∧ climb parent (levels p - 1) n = some root
  leaf_unique : ∀ x y x' y' n, table ⟨x, y, 0⟩ = some n → table ⟨x', y', 0⟩ = some n →
    x = x' ∧ y = y'

/-- Some cluster with processors has its leaf below the node. -/
def ProcsBelow (p : Platform) (table : NodeTable) (child : NodeId → List (Option NodeId))
    (m : NodeId) : Prop :=
  ∃ x y n, p.HasProcs x y ∧ table ⟨x, y, 0⟩ = some n ∧ Reaches child m n

/-- A barrier that waits for the processors of the platform. -/
structure BarrierMatches (p : Platform) (table : NodeTable) (node : NodeId → Node NodeId)
    (root : NodeId) : Prop where
  tree : IsSqt p table (fun n => (node n).parent) (fun n => (node n).child) root
  sense : ∀ n, Reaches (fun n => (node n).child) root n → (node n).sense = 0
  leaf : ∀ x y n, table ⟨x, y, 0⟩ = some n → Reaches (fun n => (node n).child) root n →
    (node n).arity = p.procsAt x y ∧ (node n).count = p.procsAt x y
  inner : ∀ n, Reaches (fun n => (node n).child) root n → (node n).level ≠ 0 →
    (node n).arity = {m | some m ∈ (node n).child ∧
      ProcsBelow p table (fun n => (node n).child) m}.ncard ∧
    (node n).count = {m | some m ∈ (node n).child ∧
      ProcsBelow p table (fun n => (node n).child) m}.ncard

/-- A lock with a free node for every cluster with processors and above. -/
structure LockMatches (p : Platform) (table : NodeTable)
    (node : NodeId → Locks.SqtLockNode NodeId) (root : NodeId) : Prop where
  tree : IsSqt p table (fun n => (node n).parent) (fun n => (node n).child) root
  free : ∀ n, Reaches (fun n => (node n).child) root n →
    (node n).current = 0 ∧ (node n).free = 0

/-- The entry of the array that `_sqt_barrier_wait` reads. -/
def leafPointer (table : NodeTable) (t : TaskId) : NodeId := (table (leafOf t)).getD (leafOf t)

/-- If each processor of the platform calls `_sqt_barrier_wait` once, all calls return. -/
def AllReturn (p : Platform) (table : NodeTable) (node : NodeId → Node NodeId) : Prop :=
  ∀ schedule, Fair p.processors schedule → ∃ k, ∀ t ∈ p.processors,
    Returned (trace (stepOnce (leafPointer table)) ⟨node, fun _ => Task.init⟩ schedule k) t

/-- Every cluster has `NB_PROCS_MAX` processors, if its column is not right of all processors
and its row not above all processors. -/
def FullFootprint (p : Platform) : Prop :=
  ∀ x y, (∃ x' y', x ≤ x' ∧ p.HasProcs x' y') → (∃ x' y', y ≤ y' ∧ p.HasProcs x' y') →
    p.procsAt x y = p.nbProcsMax

/-! ## The tree of the footprint -/

variable {p : Platform} {table : NodeTable} {parent : NodeId → Option NodeId}
  {child : NodeId → List (Option NodeId)} {n m : NodeId} {x y : ℕ}

/-- The words of the nodes of the footprint and the array, as both initialisations leave them. -/
structure IsBuilt (p : Platform) (table : NodeTable) (parent : NodeId → Option NodeId)
    (child : NodeId → List (Option NodeId)) : Prop where
  table : ∀ n m, table n = some m ↔ Within (xmax p) (ymax p) (levels p - 1) 0 0 n ∧ m = n
  parent : ∀ n, Within (xmax p) (ymax p) (levels p - 1) 0 0 n →
    parent n = if n.level = levels p - 1 then none else some (parentOf n)
  child : ∀ n, Within (xmax p) (ymax p) (levels p - 1) 0 0 n →
    child n = childOf (xmax p) (ymax p) n

/-- The root of the tree of a platform. -/
def rootOf (p : Platform) : NodeId := ⟨0, 0, levels p - 1⟩

theorem within_root : Within (xmax p) (ymax p) (levels p - 1) 0 0 (rootOf p) :=
  ⟨le_rfl, Nat.dvd_zero _, Nat.dvd_zero _, le_rfl, by simp [rootOf], le_rfl, by simp [rootOf],
    xmax_pos, ymax_pos⟩

/-- Each cluster of the footprint has a leaf. -/
theorem within_leaf (hx : x < xmax p) (hy : y < ymax p) :
    Within (xmax p) (ymax p) (levels p - 1) 0 0 ⟨x, y, 0⟩ := by
  have hroot := footprint_le_root (p := p)
  have hdvd (a : ℕ) : 2 ^ 0 ∣ a := by simp
  exact ⟨Nat.zero_le _, hdvd x, hdvd y, Nat.zero_le _, by simpa using hx.trans_le hroot.1,
    Nat.zero_le _, by simpa using hy.trans_le hroot.2, hx, hy⟩

namespace IsBuilt

variable (h : IsBuilt p table parent child)

include h

/-- The children of a node are the nodes whose parent it is. -/
theorem mem_child (hn : Within (xmax p) (ymax p) (levels p - 1) 0 0 n) : some m ∈ child n ↔
    Within (xmax p) (ymax p) (levels p - 1) 0 0 m ∧ m.level ≠ levels p - 1 ∧ parentOf m = n := by
  rw [h.child n hn]
  cases hl : n.level with
  | zero =>
    rw [childOf, hl]
    refine iff_of_false (by simp) ?_
    rintro ⟨-, -, rfl⟩
    exact Nat.succ_ne_zero _ hl
  | succ l =>
    rw [parentOf_eq_iff hn hl, childOf, hl, List.mem_map]
    constructor
    · rintro ⟨c, hc, heq⟩
      by_cases hin : inMesh (xmax p) (ymax p) c = true
      · rw [if_pos hin] at heq
        exact ⟨c, hc, hin, (Option.some.inj heq).symm⟩
      · rw [if_neg hin] at heq
        exact nomatch heq
    · rintro ⟨c, hc, hin, rfl⟩
      exact ⟨c, hc, if_pos hin⟩

theorem reaches_within (hn : Within (xmax p) (ymax p) (levels p - 1) 0 0 n)
    (hreach : Reaches child n m) : Within (xmax p) (ymax p) (levels p - 1) 0 0 m := by
  induction hreach with
  | refl => exact hn
  | tail _ hstep ih => exact ((h.mem_child ih).mp hstep).1

/-- The root reaches exactly the nodes of the footprint. -/
theorem reaches_root : Reaches child (rootOf p) n ↔
    Within (xmax p) (ymax p) (levels p - 1) 0 0 n := by
  refine ⟨h.reaches_within within_root, fun hn => ?_⟩
  induction hk : levels p - 1 - n.level using Nat.strong_induction_on generalizing n with
  | _ k ih =>
    by_cases hl : n.level = levels p - 1
    · have htop := within_top (Nat.dvd_zero _) (Nat.dvd_zero _) hn hl
      rw [htop]
      exact Relation.ReflTransGen.refl
    · have hup := parentOf_within hn hl
      have hle := hn.level_le
      have hlevel : (parentOf n).level = n.level + 1 := rfl
      exact (ih _ (by omega) hup rfl).tail ((h.mem_child hup).mpr ⟨hn, hl, rfl⟩)

/-- A node reaches the leaf at its own coordinates. -/
theorem reaches_leaf (hn : Within (xmax p) (ymax p) (levels p - 1) 0 0 n) :
    Reaches child n ⟨n.x, n.y, 0⟩ := by
  induction hl : n.level generalizing n with
  | zero =>
    obtain ⟨a, b, l⟩ := n
    cases hl
    exact Relation.ReflTransGen.refl
  | succ l ih =>
    have hfirst : inMesh (xmax p) (ymax p) (n.x, n.y) = true :=
      inMesh_iff.mpr ⟨hn.mesh_x, hn.mesh_y⟩
    have hdown := (parentOf_eq_iff (m := ⟨n.x, n.y, l⟩) hn hl).mpr
      ⟨(n.x, n.y), List.mem_cons_self, hfirst, rfl⟩
    exact Relation.ReflTransGen.head ((h.mem_child hn).mpr hdown) (ih hdown.1 rfl)

/-- The parent links lead from a node to the root. -/
theorem climb_eq (hn : Within (xmax p) (ymax p) (levels p - 1) 0 0 n) :
    climb parent (levels p - 1 - n.level) n = some (rootOf p) := by
  induction hk : levels p - 1 - n.level generalizing n with
  | zero =>
    have hle := hn.level_le
    have htop := within_top (Nat.dvd_zero _) (Nat.dvd_zero _) hn (by omega)
    exact congrArg some htop
  | succ k ih =>
    have hne : n.level ≠ levels p - 1 := by omega
    have hlevel : (parentOf n).level = n.level + 1 := rfl
    rw [climb, h.parent n hn, if_neg hne]
    exact ih (parentOf_within hn hne) (by omega)

theorem isSqt : IsSqt p table parent child (rootOf p) where
  root_entry := (h.table _ _).mpr ⟨within_root, rfl⟩
  parent_root := by
    rw [h.parent _ within_root]
    exact if_pos rfl
  parent_child n m hn hm := by
    obtain ⟨hw, hne, rfl⟩ := (h.mem_child (h.reaches_root.mp hn)).mp hm
    rw [h.parent m hw, if_neg hne]
  child_once n hn := by
    rw [h.child n (h.reaches_root.mp hn), childOf]
    split
    · exact List.nodup_nil
    · rename_i l _
      change (List.filterMap id _).Nodup
      rw [List.filterMap_map]
      refine (childCoords_nodup _ _ _).filterMap fun c d m hc hd => ?_
      simp only [Function.comp_apply, id_eq] at hc hd
      split at hc
      · split at hd
        · obtain ⟨h1, h2, -⟩ := NodeId.mk.inj
            ((Option.mem_some_iff.mp hc).trans (Option.mem_some_iff.mp hd).symm)
          exact Prod.ext h1 h2
        · cases hd
      · cases hc
  leaf x y hprocs := by
    obtain ⟨hx, hy⟩ := hprocs.in_footprint
    have hleaf := within_leaf hx hy
    refine ⟨⟨x, y, 0⟩, (h.table _ _).mpr ⟨hleaf, rfl⟩, h.reaches_root.mpr hleaf, ?_, ?_⟩
    · rw [h.child _ hleaf]
      rfl
    · exact h.climb_eq hleaf
  leaf_unique x y x' y' n hn hn' := by
    have heq := ((h.table _ _).mp hn).2.symm.trans ((h.table _ _).mp hn').2
    exact ⟨congrArg NodeId.x heq, congrArg NodeId.y heq⟩

end IsBuilt

/-! ## The two initialisations -/

section

variable {granted : NodeId → Bool}

/-- The array and the nodes of a barrier. -/
theorem barrier_isBuilt (htable : allocNodes granted (xmax p) (ymax p) (levels p) = .ok table)
    (mem : NodeId → Node NodeId) :
    IsBuilt p table
      (fun n => (Barrier.sqtBarrierBuild (xmax p) (ymax p) p.nbProcsMax (levels p - 1) 0 0 none
        mem n).parent)
      (fun n => (Barrier.sqtBarrierBuild (xmax p) (ymax p) p.nbProcsMax (levels p - 1) 0 0 none
        mem n).child) where
  table := allocNodes_platform htable
  parent n hn := by
    rw [Barrier.sqtBarrierBuild_apply xmax_pos ymax_pos hn]
    rfl
  child n hn := by
    rw [Barrier.sqtBarrierBuild_apply xmax_pos ymax_pos hn]
    rfl

/-- The array and the nodes of a lock. -/
theorem lock_isBuilt (htable : allocNodes granted (xmax p) (ymax p) (levels p) = .ok table)
    (mem : NodeId → Locks.SqtLockNode NodeId) :
    IsBuilt p table
      (fun n => (Locks.sqtLockBuild (xmax p) (ymax p) (levels p - 1) 0 0 none mem n).parent)
      (fun n => (Locks.sqtLockBuild (xmax p) (ymax p) (levels p - 1) 0 0 none mem n).child) where
  table := allocNodes_platform htable
  parent n hn := by
    rw [Locks.sqtLockBuild_apply xmax_pos ymax_pos hn]
    rfl
  child n hn := by
    rw [Locks.sqtLockBuild_apply xmax_pos ymax_pos hn]
    rfl

end

/-- The children in the footprint, counted as the recursion counts them. -/
theorem ncard_childOf {l : ℕ} (xmax ymax nbProcsMax : ℕ) (hl : n.level = l + 1) :
    {m | some m ∈ childOf xmax ymax n}.ncard = arityOf xmax ymax nbProcsMax n := by
  have hset : {m | some m ∈ childOf xmax ymax n} =
      ((((childCoords n.x n.y l).filter (inMesh xmax ymax)).map
        fun c => (⟨c.1, c.2, l⟩ : NodeId)).toFinset : Set NodeId) := by
    ext m
    rw [Finset.mem_coe, List.mem_toFinset, List.mem_map, Set.mem_ofPred_eq, childOf, hl,
      List.mem_map]
    constructor
    · rintro ⟨c, hc, heq⟩
      by_cases hin : inMesh xmax ymax c = true
      · rw [if_pos hin] at heq
        exact ⟨c, List.mem_filter.mpr ⟨hc, hin⟩, Option.some.inj heq⟩
      · rw [if_neg hin] at heq
        exact nomatch heq
    · rintro ⟨c, hc, rfl⟩
      obtain ⟨hc, hin⟩ := List.mem_filter.mp hc
      exact ⟨c, hc, if_pos hin⟩
  rw [hset, Set.ncard_coe_finset, List.toFinset_card_of_nodup, List.length_map, arityOf, hl]
  refine ((childCoords_nodup _ _ _).filter _).map fun c d hcd => ?_
  obtain ⟨h1, h2, -⟩ := NodeId.mk.inj hcd
  exact Prod.ext h1 h2

/-! ## Full footprints -/

/-- In a full footprint every cluster has `NB_PROCS_MAX` processors. -/
theorem FullFootprint.procsAt_eq (h : FullFootprint p) (hx : x < xmax p) (hy : y < ymax p) :
    p.procsAt x y = p.nbProcsMax := by
  obtain ⟨a, b, hab, hmax⟩ := exists_last_column (p := p)
  obtain ⟨c, d, hcd, hmay⟩ := exists_last_row (p := p)
  exact h x y ⟨a, b, by omega, hab⟩ ⟨c, d, by omega, hcd⟩

theorem nbProcsMax_pos : 0 < p.nbProcsMax :=
  hasProcs_zero.pos.trans_le (procsAt_le p.xSize_pos p.ySize_pos)

theorem FullFootprint.hasProcs (h : FullFootprint p) (hx : x < xmax p) (hy : y < ymax p) :
    p.HasProcs x y := by
  refine ⟨hx.trans_le xmax_le, hy.trans_le ymax_le, ?_⟩
  rw [h.procsAt_eq hx hy]
  exact nbProcsMax_pos

/-- The tasks that the nodes of a full footprint wait for are the processors. -/
theorem FullFootprint.tasks_eq (h : FullFootprint p) :
    sqtTasks (xmax p) (ymax p) p.nbProcsMax (levels p - 1) = p.processors := by
  ext t
  rw [levels_eq, mem_sqtTasks_levels (xmax_le.trans p.xSize_le) (ymax_le.trans p.ySize_le),
    mem_processors]
  constructor
  · rintro ⟨hx, hy, hl⟩
    exact ⟨hx.trans_le xmax_le, hy.trans_le ymax_le, by rw [h.procsAt_eq hx hy]; exact hl⟩
  · rintro ⟨hx, hy, hl⟩
    have hprocs : p.HasProcs t.x t.y := ⟨hx, hy, Nat.zero_lt_of_lt hl⟩
    exact ⟨hprocs.in_footprint.1, hprocs.in_footprint.2, hl.trans_le (procsAt_le hx hy)⟩

section

variable {granted : NodeId → Bool} {mem : NodeId → Node NodeId}

/-- The barrier waits for the processors of the platform exactly on a full footprint. -/
theorem barrierMatches_iff
    (htable : allocNodes granted (xmax p) (ymax p) (levels p) = .ok table) :
    (∃ root, BarrierMatches p table
      (Barrier.sqtBarrierBuild (xmax p) (ymax p) p.nbProcsMax (levels p - 1) 0 0 none mem) root) ↔
    FullFootprint p := by
  have hbuilt := barrier_isBuilt htable mem
  have happly : ∀ n, Within (xmax p) (ymax p) (levels p - 1) 0 0 n → _ :=
    fun n hn => @Barrier.sqtBarrierBuild_apply _ _ p.nbProcsMax _ mem n xmax_pos ymax_pos hn
  constructor
  · rintro ⟨root, hmatch⟩ x y ⟨x', y', hx, hxp⟩ ⟨x'', y'', hy, hyp⟩
    have hleaf := within_leaf (hx.trans_lt hxp.in_footprint.1) (hy.trans_lt hyp.in_footprint.2)
    have hroot : root = rootOf p := ((hbuilt.table _ _).mp hmatch.tree.root_entry).2
    subst hroot
    have harity := (hmatch.leaf x y ⟨x, y, 0⟩ ((hbuilt.table _ _).mpr ⟨hleaf, rfl⟩)
      (hbuilt.reaches_root.mpr hleaf)).1
    rw [happly _ hleaf] at harity
    exact harity.symm
  · intro hfull
    refine ⟨rootOf p, hbuilt.isSqt, fun n hn => ?_, fun x y n hn _ => ?_, fun n hn hlevel => ?_⟩
    · rw [happly n (hbuilt.reaches_root.mp hn)]
      rfl
    · obtain ⟨hleaf, rfl⟩ := (hbuilt.table _ _).mp hn
      rw [happly _ hleaf, hfull.procsAt_eq hleaf.mesh_x hleaf.mesh_y]
      exact ⟨rfl, rfl⟩
    · have hw := hbuilt.reaches_root.mp hn
      -- every child has processors below, at its own coordinates
      have hset : {m | some m ∈ (Barrier.sqtBarrierBuild (xmax p) (ymax p) p.nbProcsMax
          (levels p - 1) 0 0 none mem n).child ∧ ProcsBelow p table (fun n =>
            (Barrier.sqtBarrierBuild (xmax p) (ymax p) p.nbProcsMax (levels p - 1) 0 0 none mem
              n).child) m} = {m | some m ∈ childOf (xmax p) (ymax p) n} := by
        ext m
        simp only [Set.mem_ofPred_eq]
        rw [← hbuilt.child n hw]
        refine and_iff_left_of_imp fun hm => ?_
        have hmw := ((hbuilt.mem_child hw).mp hm).1
        exact ⟨m.x, m.y, ⟨m.x, m.y, 0⟩, hfull.hasProcs hmw.mesh_x hmw.mesh_y,
          (hbuilt.table _ _).mpr ⟨within_leaf hmw.mesh_x hmw.mesh_y, rfl⟩,
          hbuilt.reaches_leaf hmw⟩
      rw [hset]
      rw [happly n hw] at hlevel ⊢
      obtain ⟨l, hl⟩ := Nat.exists_eq_succ_of_ne_zero hlevel
      rw [ncard_childOf _ _ p.nbProcsMax hl]
      exact ⟨rfl, rfl⟩

/-- The pointer that `_sqt_barrier_wait` reads is the leaf of the cluster. -/
theorem leafPointer_eq
    (htable : allocNodes granted (xmax p) (ymax p) (levels p) = .ok table) :
    leafPointer table = leafOf := by
  funext t
  unfold leafPointer
  cases ht : table (leafOf t) with
  | none => rfl
  | some n => exact ((allocNodes_platform htable _ _).mp ht).2

/-- On a full footprint, one call of every processor returns. -/
theorem FullFootprint.allReturn (h : FullFootprint p)
    (htable : allocNodes granted (xmax p) (ymax p) (levels p) = .ok table) :
    AllReturn p table
      (Barrier.sqtBarrierBuild (xmax p) (ymax p) p.nbProcsMax (levels p - 1) 0 0 none mem) := by
  intro schedule hfair
  rw [leafPointer_eq htable]
  rw [← h.tasks_eq] at hfair ⊢
  have hbound : ∀ n ∈ (sqtTree (xmax p) (ymax p) p.nbProcsMax (levels p - 1) xmax_pos
      ymax_pos).nodes, ((sqtTree (xmax p) (ymax p) p.nbProcsMax (levels p - 1) xmax_pos
        ymax_pos).arrivers n).card < 0x100000000 := by
    intro n hn
    rw [card_arrivers hn]
    exact arityOf_lt p.nbProcsMax_lt
  exact all_return (arrivers_nonempty nbProcsMax_pos) hbound built_sqt hfair

end

/-! ## The platforms that fit -/

/-- For every platform, neither initialisation dereferences a pointer that was not allocated,
and the lock has a free node for every cluster with processors and above. The barrier waits
for the processors of the platform, and lets one call of each of them return, if and only if
every cluster of the footprint has `NB_PROCS_MAX` processors. -/
theorem sqt_matches_iff (p : Platform) (granted : NodeId → Bool) (mem : NodeId → Node NodeId)
    (lockMem : NodeId → Locks.SqtLockNode NodeId) :
    (sqtBarrierInit p granted mem ≠ .error .wildPointer ∧
      sqtLockInit p granted lockMem ≠ .error .wildPointer) ∧
    (∀ table node, sqtLockInit p granted lockMem = .ok (table, node) →
      ∃ root, LockMatches p table node root) ∧
    ∀ table node, sqtBarrierInit p granted mem = .ok (table, node) →
      (((∃ root, BarrierMatches p table node root) ∧ AllReturn p table node) ↔
        FullFootprint p) := by
  refine ⟨⟨?_, ?_⟩, fun table node hinit => ?_, fun table node hinit => ?_⟩
  · obtain hrun | ⟨table, -, hrun⟩ := sqtBarrierInit_eq p granted mem <;> rw [hrun] <;> exact nofun
  · obtain hrun | ⟨table, -, hrun⟩ := sqtLockInit_eq p granted lockMem <;> rw [hrun] <;> exact nofun
  · obtain hrun | ⟨table', htable, hrun⟩ := sqtLockInit_eq p granted lockMem
    · exact nomatch hinit.symm.trans hrun
    · cases hinit.symm.trans hrun
      have hbuilt := lock_isBuilt htable lockMem
      refine ⟨rootOf p, hbuilt.isSqt, fun n hn => ?_⟩
      rw [Locks.sqtLockBuild_apply xmax_pos ymax_pos (hbuilt.reaches_root.mp hn)]
      exact ⟨rfl, rfl⟩
  · obtain hrun | ⟨table', htable, hrun⟩ := sqtBarrierInit_eq p granted mem
    · exact nomatch hinit.symm.trans hrun
    · cases hinit.symm.trans hrun
      rw [barrierMatches_iff htable]
      exact and_iff_left_of_imp fun hfull => hfull.allReturn htable

/-! ## A platform that does not fit -/

/-- Nodes before the initialisation. -/
def rawNode : NodeId → Node NodeId := fun _ => ⟨0, 0, 0, 0, none, []⟩

/-- Two clusters, with two processors and with one processor. -/
def sparse : Platform where
  xSize := 1
  ySize := 2
  nbProcsMax := 2
  procs cid := if cid = 0 then 2 else 1
  xSize_pos := Nat.one_pos
  ySize_pos := Nat.two_pos
  xSize_le := by decide
  ySize_le := by decide
  nbProcsMax_lt := by decide
  procs_le := by decide
  procs_pos := Nat.two_pos

/-- The processors take turns. -/
def sparseSchedule (k : ℕ) : TaskId :=
  if k % 3 = 0 then ⟨0, 0, 0⟩ else if k % 3 = 1 then ⟨0, 0, 1⟩ else ⟨0, 1, 0⟩

theorem fair_sparseSchedule : Fair sparse.processors sparseSchedule where
  mem k := by
    unfold sparseSchedule
    split
    · decide
    · split <;> decide
  again t ht k := by
    have hcases : t = ⟨0, 0, 0⟩ ∨ t = ⟨0, 0, 1⟩ ∨ t = ⟨0, 1, 0⟩ := by
      revert t
      decide
    obtain rfl | rfl | rfl := hcases
    · exact ⟨2 * k, if_pos (by omega)⟩
    · refine ⟨2 * k + 1, ?_⟩
      rw [sparseSchedule, if_neg (by omega), if_pos (by omega)]
    · refine ⟨2 * k + 2, ?_⟩
      rw [sparseSchedule, if_neg (by omega), if_neg (by omega)]

/-- The states of the barrier of the sparse platform. -/
def sparseState (k : ℕ) : State TaskId NodeId :=
  trace (stepOnce leafOf) ⟨Barrier.sqtBarrierBuild 1 2 2 1 0 0 none rawNode, fun _ => Task.init⟩
    sparseSchedule k

/-- From the sixteenth state on, all processors poll. -/
theorem sparseState_stuck (j : ℕ) : sparseState (15 + j) = sparseState 15 := by
  induction j with
  | zero => rfl
  | succ j ih =>
    have hstay : ∀ t ∈ sparse.processors, stepOnce leafOf (sparseState 15) t = sparseState 15 := by
      intro t ht
      have hcases : t = ⟨0, 0, 0⟩ ∨ t = ⟨0, 0, 1⟩ ∨ t = ⟨0, 1, 0⟩ := by
        revert t
        decide
      obtain rfl | rfl | rfl := hcases <;> rfl
    have hnext : sparseState (15 + (j + 1)) =
        stepOnce leafOf (sparseState (15 + j)) (sparseSchedule (15 + j)) := rfl
    rw [hnext, ih]
    exact hstay _ (fair_sparseSchedule.mem _)

/-- The call of the first processor does not return. -/
theorem sparseState_not_returned (k : ℕ) : ¬Returned (sparseState k) ⟨0, 0, 0⟩ := by
  obtain hk | hk := Nat.lt_or_ge k 15
  · have hall : ∀ k < 15, ((sparseState k).task ⟨0, 0, 0⟩).returned = 0 := by decide
    intro hret
    have hzero := hall k hk
    have hone := hret.2
    omega
  · obtain ⟨j, rfl⟩ := Nat.exists_eq_add_of_le hk
    rw [sparseState_stuck]
    intro hret
    exact absurd hret.2 (by decide)

/-- On the sparse platform the leaf of the second cluster waits for a processor that does not
exist, and the calls of the barrier do not return. -/
theorem sqt_waits_for_missing_processor :
    (¬∀ (p : Platform) (granted : NodeId → Bool) (mem : NodeId → Node NodeId) table node,
      sqtBarrierInit p granted mem = .ok (table, node) →
        ∃ root, BarrierMatches p table node root) ∧
    ¬∀ (p : Platform) (granted : NodeId → Bool) (mem : NodeId → Node NodeId) table node,
      sqtBarrierInit p granted mem = .ok (table, node) → AllReturn p table node := by
  obtain hrun | ⟨table, htable, hrun⟩ := sqtBarrierInit_eq sparse (fun _ => true) rawNode
  · exact absurd (congrArg Except.isOk hrun) (by decide)
  · constructor
    · intro hall
      have hfull := (barrierMatches_iff htable).mp (hall _ _ _ _ _ hrun)
      have hleaf := hfull 0 1 ⟨0, 1, le_rfl, by decide, by decide, by decide⟩
        ⟨0, 1, le_rfl, by decide, by decide, by decide⟩
      exact absurd hleaf (by decide)
    · intro hall
      obtain ⟨k, hk⟩ := hall _ _ _ _ _ hrun sparseSchedule fair_sparseSchedule
      rw [leafPointer_eq htable] at hk
      exact sparseState_not_returned k (hk ⟨0, 0, 0⟩ (by decide))

/-- A platform of one cluster with one processor. -/
def single : Platform where
  xSize := 1
  ySize := 1
  nbProcsMax := 1
  procs _ := 1
  xSize_pos := Nat.one_pos
  ySize_pos := Nat.one_pos
  xSize_le := by decide
  ySize_le := by decide
  nbProcsMax_lt := by decide
  procs_le := by decide
  procs_pos := Nat.one_pos

/-- A barrier for a single processor. -/
theorem sqt_matches_single : ∃ table node, sqtBarrierInit single (fun _ => true) rawNode =
    .ok (table, node) ∧ (∃ root, BarrierMatches single table node root) ∧
      AllReturn single table node := by
  obtain hrun | ⟨table, -, hrun⟩ := sqtBarrierInit_eq single (fun _ => true) rawNode
  · exact absurd (congrArg Except.isOk hrun) (by decide)
  · refine ⟨_, _, hrun, ((sqt_matches_iff single _ _ fun _ => ⟨7, 5, 0, none, []⟩).2.2 _ _
      hrun).mpr ?_⟩
    rintro x y ⟨x', y', hx, hx', -, -⟩ ⟨x'', y'', hy, -, hy', -⟩
    rfl

end GietVm.Sqt
