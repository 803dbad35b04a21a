import GietVm.Sqt.Footprint
import GietVm.Barrier.Build
import GietVm.Locks.SqtBuild

/-!
# The initialisation of the SQT barriers and locks

`_sqt_barrier_init` and `_sqt_lock_init` fill the array `node[x][y][level]` by three nested
loops with tests of the low bits of the coordinates, and then call a recursion that reads the
array, with tests of the footprint. An entry that the loops did not write holds no node; the
recursion must not write through it.

The loops and the recursion select the same nodes: those of the quad tree of the footprint.
So the recursion through the array leaves what the recursion over node names leaves.
-/

namespace GietVm.Sqt

open GietVm.Barrier

/-- Why an initialisation does not return. -/
inductive Fault
  /-- `_remote_malloc` found no block and called `_exit`. -/
  | exit
  /-- A pointer that was never written was dereferenced. -/
  | wildPointer
  deriving DecidableEq

/-- The array `node[x][y][level]`. The blocks of `_remote_malloc` are distinct, and each is
named by the entry that it was allocated for. -/
abbrev NodeTable := NodeId → Option NodeId

/-- The test of the loops: cluster `(x, y)` holds a node of level `l`. -/
def hasNode (x y l : ℕ) : Bool :=
  (l == 0 && x &&& 0x00 == 0 && y &&& 0x00 == 0) ||
  (l == 1 && x &&& 0x01 == 0 && y &&& 0x01 == 0) ||
  (l == 2 && x &&& 0x03 == 0 && y &&& 0x03 == 0) ||
  (l == 3 && x &&& 0x07 == 0 && y &&& 0x07 == 0) ||
  (l == 4 && x &&& 0x0F == 0 && y &&& 0x0F == 0)

/-- One turn of the innermost loop. `granted` tells for which entries `_remote_malloc` finds a
block in the heap of their cluster. -/
def allocNode (granted : NodeId → Bool) (table : NodeTable) (c : ℕ × ℕ × ℕ) :
    Except Fault NodeTable :=
  let entry : NodeId := ⟨c.1, c.2.1, c.2.2⟩
  if hasNode c.1 c.2.1 c.2.2 then
    if granted entry then .ok (Function.update table entry (some entry)) else .error .exit
  else .ok table

/-- The three loops over `x`, `y` and `l`. -/
def allocNodes (granted : NodeId → Bool) (xmax ymax levels : ℕ) : Except Fault NodeTable :=
  (List.range xmax ×ˢ List.range ymax ×ˢ List.range levels).foldlM (allocNode granted)
    fun _ => none

/-- The recursion of `_sqt_barrier_build` and `_sqt_lock_build` through the array. `contents`
gives the words of a node of some level with its parent, its children and their number. -/
def sqtBuildThrough {α : Type*}
    (contents : (level : ℕ) → Option NodeId → (child : List (Option NodeId)) → (arity : ℕ) → α)
    (xmax ymax : ℕ) (table : NodeTable) :
    (level x y : ℕ) → Option NodeId → (NodeId → α) → Except Fault (NodeId → α)
  | 0, x, y, parent, mem =>
    match table ⟨x, y, 0⟩ with
    | none => .error .wildPointer
    | some node => .ok (Function.update mem node (contents 0 parent [none, none, none, none] 0))
  | level + 1, x, y, parent, mem =>
    match table ⟨x, y, level + 1⟩ with
    | none => .error .wildPointer
    | some node =>
      let coords := childCoords x y level
      let child := coords.map fun c =>
        if inMesh xmax ymax c then table ⟨c.1, c.2, level⟩ else none
      let arity := (coords.filter (inMesh xmax ymax)).length
      let mem := Function.update mem node (contents (level + 1) parent child arity)
      coords.foldlM (fun mem c =>
        if inMesh xmax ymax c then
          sqtBuildThrough contents xmax ymax table level c.1 c.2 (some node) mem
        else .ok mem) mem

/-- The words that `_sqt_barrier_build` writes. -/
def barrierNode (nbProcsMax level : ℕ) (parent : Option NodeId) (child : List (Option NodeId))
    (arity : ℕ) : Node NodeId :=
  if level = 0 then
    { arity := nbProcsMax, count := nbProcsMax, sense := 0, level := 0, parent, child }
  else { arity, count := arity, sense := 0, level, parent, child }

/-- `_sqt_barrier_build`. -/
def sqtBarrierBuild (nbProcsMax xmax ymax : ℕ) (table : NodeTable) :
    (level x y : ℕ) → Option NodeId → (NodeId → Node NodeId) →
      Except Fault (NodeId → Node NodeId) :=
  sqtBuildThrough (barrierNode nbProcsMax) xmax ymax table

/-- The words that `_sqt_lock_build` writes. -/
def lockNode (level : ℕ) (parent : Option NodeId) (child : List (Option NodeId)) (_arity : ℕ) :
    Locks.SqtLockNode NodeId :=
  { current := 0, free := 0, level, parent, child }

/-- `_sqt_lock_build`. -/
def sqtLockBuild (xmax ymax : ℕ) (table : NodeTable) :
    (level x y : ℕ) → Option NodeId → (NodeId → Locks.SqtLockNode NodeId) →
      Except Fault (NodeId → Locks.SqtLockNode NodeId) :=
  sqtBuildThrough lockNode xmax ymax table

/-- The initialisations, with the words that the memory holds before: the array and the nodes. -/
def sqtInit {α : Type}
    (contents : (level : ℕ) → Option NodeId → (child : List (Option NodeId)) → (arity : ℕ) → α)
    (p : Platform) (granted : NodeId → Bool) (mem : NodeId → α) :
    Except Fault (NodeTable × (NodeId → α)) := do
  let (xmax, ymax, levels) := getSqtFootprint p
  let table ← allocNodes granted xmax ymax levels
  let mem ← sqtBuildThrough contents xmax ymax table (levels - 1) 0 0 none mem
  return (table, mem)

/-- `_sqt_barrier_init`. -/
def sqtBarrierInit (p : Platform) : (NodeId → Bool) → (NodeId → Node NodeId) →
    Except Fault (NodeTable × (NodeId → Node NodeId)) :=
  sqtInit (barrierNode p.nbProcsMax) p

/-- `_sqt_lock_init`. -/
def sqtLockInit (p : Platform) : (NodeId → Bool) → (NodeId → Locks.SqtLockNode NodeId) →
    Except Fault (NodeTable × (NodeId → Locks.SqtLockNode NodeId)) :=
  sqtInit lockNode p

/-! ## The loops -/

/-- The bit tests select the multiples of the side of a node. -/
theorem hasNode_iff {x y l : ℕ} (hl : l < 5) : hasNode x y l = true ↔ 2 ^ l ∣ x ∧ 2 ^ l ∣ y := by
  have hmask (k a : ℕ) : a &&& (2 ^ k - 1) = a % 2 ^ k := Nat.and_two_pow_sub_one_eq_mod a k
  have h2 := hmask 2
  have h3 := hmask 3
  have h4 := hmask 4
  simp only [Nat.reducePow, Nat.reduceSub] at h2 h3 h4
  obtain rfl | rfl | rfl | rfl | rfl : l = 0 ∨ l = 1 ∨ l = 2 ∨ l = 3 ∨ l = 4 := by omega
  all_goals simp [hasNode, h2, h3, h4, Nat.dvd_iff_mod_eq_zero]

variable {granted : NodeId → Bool} {table : NodeTable}

section

variable {xmax ymax levels : ℕ}

/-- The loops write the entries they select, and stop only where the heap has no block. -/
theorem foldlM_allocNode (entries : List (ℕ × ℕ × ℕ)) (start : NodeTable) :
    entries.foldlM (allocNode granted) start ≠ .error .wildPointer ∧
    (entries.foldlM (allocNode granted) start = .ok table → ∀ n, table n =
      if (n.x, n.y, n.level) ∈ entries ∧ hasNode n.x n.y n.level = true then some n
      else start n) := by
  induction entries generalizing start with
  | nil =>
    refine ⟨nofun, fun h n => ?_⟩
    cases h
    simp
  | cons c entries ih =>
    rw [List.foldlM_cons]
    by_cases hc : hasNode c.1 c.2.1 c.2.2 = true
    · by_cases hg : granted ⟨c.1, c.2.1, c.2.2⟩ = true
      · have hstep : allocNode granted start c =
            .ok (Function.update start ⟨c.1, c.2.1, c.2.2⟩ (some ⟨c.1, c.2.1, c.2.2⟩)) := by
          simp [allocNode, hc, hg]
        rw [hstep]
        refine ⟨(ih _).1, fun h n => ?_⟩
        rw [(ih _).2 h n]
        by_cases hn : n = ⟨c.1, c.2.1, c.2.2⟩
        · subst hn
          simp [hc]
        · have hne : (n.x, n.y, n.level) ≠ c := by
            rintro rfl
            exact hn rfl
          simp [Function.update_of_ne hn, hne]
      · have hstep : allocNode granted start c = .error .exit := by simp [allocNode, hc, hg]
        rw [hstep]
        exact ⟨nofun, nofun⟩
    · have hstep : allocNode granted start c = .ok start := by simp [allocNode, hc]
      rw [hstep]
      refine ⟨(ih _).1, fun h n => ?_⟩
      rw [(ih _).2 h n]
      refine if_congr ?_ rfl rfl
      constructor
      · exact fun hmem => ⟨List.mem_cons_of_mem _ hmem.1, hmem.2⟩
      · rintro ⟨hmem, hn⟩
        obtain rfl | hmem := List.mem_cons.mp hmem
        · exact absurd hn hc
        · exact ⟨hmem, hn⟩

theorem allocNodes_ne_wildPointer :
    allocNodes granted xmax ymax levels ≠ .error .wildPointer :=
  (@foldlM_allocNode granted (fun _ => none) _ _).1

/-- The array holds exactly the nodes of the quad tree. -/
theorem allocNodes_apply (hlevels : 0 < levels) (hfive : levels ≤ 5)
    (hx : xmax ≤ 2 ^ (levels - 1)) (hy : ymax ≤ 2 ^ (levels - 1))
    (h : allocNodes granted xmax ymax levels = .ok table) (n m : NodeId) :
    table n = some m ↔ Within xmax ymax (levels - 1) 0 0 n ∧ m = n := by
  rw [(foldlM_allocNode _ _).2 h n]
  have hiff : ((n.x, n.y, n.level) ∈ List.range xmax ×ˢ List.range ymax ×ˢ List.range levels ∧
      hasNode n.x n.y n.level = true) ↔ Within xmax ymax (levels - 1) 0 0 n := by
    rw [List.mem_product, List.mem_product, List.mem_range, List.mem_range, List.mem_range]
    constructor
    · rintro ⟨⟨hnx, hny, hnl⟩, hn⟩
      obtain ⟨hdx, hdy⟩ := (hasNode_iff (by omega)).mp hn
      exact ⟨by omega, hdx, hdy, Nat.zero_le _, by omega, Nat.zero_le _, by omega, hnx, hny⟩
    · intro hw
      have hle := hw.level_le
      exact ⟨⟨hw.mesh_x, hw.mesh_y, by omega⟩, (hasNode_iff (by omega)).mpr ⟨hw.dvd_x, hw.dvd_y⟩⟩
  by_cases hw : Within xmax ymax (levels - 1) 0 0 n
  · rw [if_pos (hiff.mpr hw), Option.some.injEq]
    exact ⟨fun heq => ⟨hw, heq.symm⟩, fun heq => heq.2.symm⟩
  · rw [if_neg (fun hmem => hw (hiff.mp hmem))]
    exact iff_of_false nofun fun heq => hw heq.1

/-! ## The recursion -/

variable {α : Type*}
  {contents : (level : ℕ) → Option NodeId → List (Option NodeId) → ℕ → α} {level x y : ℕ}

/-- The words of a node when all its children in the footprint are allocated. -/
def nodeWords (contents : (level : ℕ) → Option NodeId → List (Option NodeId) → ℕ → α)
    (xmax ymax level x y : ℕ) (parent : Option NodeId) : α :=
  contents level parent (childOf xmax ymax ⟨x, y, level⟩) (arityOf xmax ymax 0 ⟨x, y, level⟩)

/-- Through an array that holds the nodes of its subtree, the recursion writes only through
pointers of allocated nodes, and leaves what the recursion over node names leaves. -/
theorem sqtBuildThrough_eq (hmesh : inMesh xmax ymax (x, y) = true)
    (hx : 2 ^ level ∣ x) (hy : 2 ^ level ∣ y)
    (htable : ∀ n, Within xmax ymax level x y n → table n = some n) (parent : Option NodeId)
    (mem : NodeId → α) :
    sqtBuildThrough contents xmax ymax table level x y parent mem =
      .ok (sqtBuild (nodeWords contents xmax ymax) xmax ymax level x y parent mem) := by
  induction level generalizing x y parent mem with
  | zero =>
    rw [sqtBuildThrough, htable ⟨x, y, 0⟩ ((within_zero hmesh).mpr rfl)]
    rfl
  | succ level ih =>
    have hm := inMesh_iff.mp hmesh
    have hself : Within xmax ymax (level + 1) x y ⟨x, y, level + 1⟩ :=
      ⟨le_rfl, hx, hy, le_rfl, Nat.lt_add_of_pos_right (Nat.two_pow_pos _), le_rfl,
        Nat.lt_add_of_pos_right (Nat.two_pow_pos _), hm.1, hm.2⟩
    have hcoord {a b : ℕ} (ha : 2 ^ (level + 1) ∣ a) (hb : b = a ∨ b = a + 2 ^ level) :
        2 ^ level ∣ b := by
      have hhalf := Nat.dvd_trans (Nat.pow_dvd_pow 2 (Nat.le_succ level)) ha
      obtain rfl | rfl := hb
      · exact hhalf
      · exact Nat.dvd_add hhalf (Nat.dvd_refl _)
    have hsub : ∀ c ∈ childCoords x y level, inMesh xmax ymax c = true →
        2 ^ level ∣ c.1 ∧ 2 ^ level ∣ c.2 ∧
          ∀ n, Within xmax ymax level c.1 c.2 n → table n = some n := by
      intro c hc hin
      obtain ⟨hcx, hcy⟩ := mem_childCoords.mp hc
      exact ⟨hcoord hx hcx, hcoord hy hcy,
        fun n hn => htable n (exists_child_within.mp ⟨c, hc, hin, hn⟩).1⟩
    have hchild : (childCoords x y level).map (fun c =>
        if inMesh xmax ymax c then table ⟨c.1, c.2, level⟩ else none) =
          childOf xmax ymax ⟨x, y, level + 1⟩ := by
      change _ = (childCoords x y level).map fun c =>
        if inMesh xmax ymax c = true then some (⟨c.1, c.2, level⟩ : NodeId) else none
      refine List.map_congr_left fun c hc => ?_
      by_cases hin : inMesh xmax ymax c = true
      · obtain ⟨hdx, hdy, hall⟩ := hsub c hc hin
        have hcm := inMesh_iff.mp hin
        rw [if_pos hin, if_pos hin, hall ⟨c.1, c.2, level⟩ ⟨le_rfl, hdx, hdy, le_rfl,
          Nat.lt_add_of_pos_right (Nat.two_pow_pos _), le_rfl,
          Nat.lt_add_of_pos_right (Nat.two_pow_pos _), hcm.1, hcm.2⟩]
      · rw [if_neg hin, if_neg hin]
    have hfold : ∀ (coords : List (ℕ × ℕ)) (mem : NodeId → α),
        (∀ c ∈ coords, c ∈ childCoords x y level) →
        coords.foldlM (fun mem c =>
          if inMesh xmax ymax c then
            sqtBuildThrough contents xmax ymax table level c.1 c.2 (some ⟨x, y, level + 1⟩) mem
          else .ok mem) mem =
        .ok (coords.foldl (fun mem c =>
          if inMesh xmax ymax c then
            sqtBuild (nodeWords contents xmax ymax) xmax ymax level c.1 c.2
              (some ⟨x, y, level + 1⟩) mem
          else mem) mem) := by
      intro coords
      induction coords with
      | nil => exact fun mem _ => rfl
      | cons c coords ihc =>
        intro mem hmem
        have hrest := fun d hd => hmem d (List.mem_cons_of_mem _ hd)
        rw [List.foldlM_cons, List.foldl_cons]
        by_cases hin : inMesh xmax ymax c = true
        · obtain ⟨hdx, hdy, hall⟩ := hsub c (hmem c List.mem_cons_self) hin
          rw [if_pos hin, if_pos hin, ih hin hdx hdy hall]
          exact ihc _ hrest
        · rw [if_neg hin, if_neg hin]
          exact ihc _ hrest
    rw [sqtBuildThrough, htable _ hself, sqtBuild]
    dsimp only
    rw [hchild]
    exact hfold _ _ fun c hc => hc

/-! ## The two builds -/

/-- Through the array of a quad tree, `_sqt_barrier_build` leaves the barrier that the recursion
over node names leaves. -/
theorem sqtBarrierBuild_eq {nbProcsMax : ℕ} {mem : NodeId → Node NodeId} (hx : 0 < xmax)
    (hy : 0 < ymax) (htable : ∀ n, Within xmax ymax level 0 0 n → table n = some n) :
    sqtBarrierBuild nbProcsMax xmax ymax table level 0 0 none mem =
      .ok (Barrier.sqtBarrierBuild xmax ymax nbProcsMax level 0 0 none mem) := by
  rw [Barrier.sqtBarrierBuild_eq]
  refine (sqtBuildThrough_eq (inMesh_iff.mpr ⟨hx, hy⟩) (Nat.dvd_zero _) (Nat.dvd_zero _) htable
    none mem).trans ?_
  have hwords : nodeWords (barrierNode nbProcsMax) xmax ymax =
      fun level x y parent => Barrier.builtNode xmax ymax nbProcsMax parent ⟨x, y, level⟩ := by
    funext level x y parent
    cases level <;> rfl
  rw [hwords]

/-- Through the array of a quad tree, `_sqt_lock_build` leaves the lock that the recursion over
node names leaves. -/
theorem sqtLockBuild_eq {mem : NodeId → Locks.SqtLockNode NodeId} (hx : 0 < xmax)
    (hy : 0 < ymax) (htable : ∀ n, Within xmax ymax level 0 0 n → table n = some n) :
    sqtLockBuild xmax ymax table level 0 0 none mem =
      .ok (Locks.sqtLockBuild xmax ymax level 0 0 none mem) := by
  rw [Locks.sqtLockBuild_eq]
  exact sqtBuildThrough_eq (inMesh_iff.mpr ⟨hx, hy⟩) (Nat.dvd_zero _) (Nat.dvd_zero _) htable
    none mem

end

/-! ## The initialisations -/

/-- The array that the loops fill for a platform. -/
theorem allocNodes_platform {p : Platform}
    (h : allocNodes granted (xmax p) (ymax p) (levels p) = .ok table) (n m : NodeId) :
    table n = some m ↔ Within (xmax p) (ymax p) (levels p - 1) 0 0 n ∧ m = n :=
  allocNodes_apply levels_pos levels_le footprint_le_root.1 footprint_le_root.2 h n m

/-- An initialisation stops only where the heap has no block; otherwise it leaves the array of
the quad tree of the footprint, and what its build leaves through this array. -/
theorem sqtInit_eq {α : Type} {contents : (level : ℕ) → Option NodeId → List (Option NodeId) → ℕ → α}
    {built : (NodeId → α) → NodeId → α} (p : Platform) (granted : NodeId → Bool)
    (mem : NodeId → α)
    (hbuild : ∀ table : NodeTable,
      (∀ n, Within (xmax p) (ymax p) (levels p - 1) 0 0 n → table n = some n) →
      sqtBuildThrough contents (xmax p) (ymax p) table (levels p - 1) 0 0 none mem =
        .ok (built mem)) :
    sqtInit contents p granted mem = .error .exit ∨
    ∃ table, allocNodes granted (xmax p) (ymax p) (levels p) = .ok table ∧
      sqtInit contents p granted mem = .ok (table, built mem) := by
  have hrun : sqtInit contents p granted mem =
      (allocNodes granted (xmax p) (ymax p) (levels p)).bind fun table =>
        (sqtBuildThrough contents (xmax p) (ymax p) table (levels p - 1) 0 0 none mem).bind
          fun mem => .ok (table, mem) := rfl
  cases htable : allocNodes granted (xmax p) (ymax p) (levels p) with
  | error e =>
    cases e with
    | exit => exact Or.inl (by rw [hrun, htable]; rfl)
    | wildPointer => exact absurd htable allocNodes_ne_wildPointer
  | ok table =>
    refine Or.inr ⟨table, rfl, ?_⟩
    rw [hrun, htable]
    simp only [Except.bind]
    rw [hbuild table fun n hn => (allocNodes_platform htable n n).mpr ⟨hn, rfl⟩]

/-- `_sqt_barrier_init` leaves the barrier of the recursion over node names. -/
theorem sqtBarrierInit_eq (p : Platform) (granted : NodeId → Bool) (mem : NodeId → Node NodeId) :
    sqtBarrierInit p granted mem = .error .exit ∨
    ∃ table, allocNodes granted (xmax p) (ymax p) (levels p) = .ok table ∧
      sqtBarrierInit p granted mem = .ok (table,
        Barrier.sqtBarrierBuild (xmax p) (ymax p) p.nbProcsMax (levels p - 1) 0 0 none mem) :=
  sqtInit_eq p granted mem fun _ htable => sqtBarrierBuild_eq xmax_pos ymax_pos htable

/-- `_sqt_lock_init` leaves the lock of the recursion over node names. -/
theorem sqtLockInit_eq (p : Platform) (granted : NodeId → Bool)
    (mem : NodeId → Locks.SqtLockNode NodeId) :
    sqtLockInit p granted mem = .error .exit ∨
    ∃ table, allocNodes granted (xmax p) (ymax p) (levels p) = .ok table ∧
      sqtLockInit p granted mem = .ok (table,
        Locks.sqtLockBuild (xmax p) (ymax p) (levels p - 1) 0 0 none mem) :=
  sqtInit_eq p granted mem fun _ htable => sqtLockBuild_eq xmax_pos ymax_pos htable

end GietVm.Sqt
