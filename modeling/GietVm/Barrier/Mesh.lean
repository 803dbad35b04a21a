import GietVm.Library.CombiningTree
import Mathlib.Data.Finset.Prod
import Mathlib.Data.Finset.Range
import Mathlib.Algebra.Order.Ring.Nat

/-!
# The quad tree of a mesh

The SQT barriers and the SQT locks are synthetic quad trees over the clusters of a mesh. A
node of level `level` covers a square of `2 ^ level` clusters on a side; the tree is
incomplete where the mesh is smaller than the square. The build functions initialise the
nodes by one recursion from the root down.

The nodes that the recursion builds form a combining tree in which every node waits for
its children, or for the tasks of its cluster.
-/

namespace GietVm.Barrier

open GietVm.Library CombiningTree

/-- The pointer `node[x][y][level]` of a barrier or a lock. -/
structure NodeId where
  x : ℕ
  y : ℕ
  level : ℕ
  deriving DecidableEq, Repr

/-- A task of cluster `(x, y)`. -/
structure TaskId where
  x : ℕ
  y : ℕ
  lpid : ℕ
  deriving DecidableEq, Repr

/-- The coordinates `cx[i]`, `cy[i]` of the children of a node of level `level + 1`. -/
def childCoords (x y level : ℕ) : List (ℕ × ℕ) :=
  [(x, y), (x + 2 ^ level, y), (x, y + 2 ^ level), (x + 2 ^ level, y + 2 ^ level)]

/-- The test that a cluster belongs to the mesh. -/
def inMesh (xmax ymax : ℕ) (c : ℕ × ℕ) : Bool := c.1 < xmax && c.2 < ymax

/-- The recursion that initialises the nodes of a tree from the root down: `init` gives the
contents of a node of some level and coordinates with some parent. -/
def sqtBuild {α : Type*} (init : (level x y : ℕ) → Option NodeId → α) (xmax ymax : ℕ) :
    (level x y : ℕ) → Option NodeId → (NodeId → α) → NodeId → α
  | 0, x, y, parent, node => Function.update node ⟨x, y, 0⟩ (init 0 x y parent)
  | level + 1, x, y, parent, node =>
    let node := Function.update node ⟨x, y, level + 1⟩ (init (level + 1) x y parent)
    (childCoords x y level).foldl (fun node c =>
      if inMesh xmax ymax c then
        sqtBuild init xmax ymax level c.1 c.2 (some ⟨x, y, level + 1⟩) node
      else node) node

/-- The leaf that the tasks of a cluster use. -/
def leafOf (t : TaskId) : NodeId := ⟨t.x, t.y, 0⟩

/-- The number of levels that `sqt_barrier_init` and `sqt_lock_init` compute from the larger
side of the mesh; `_get_sqt_footprint` computes it in the same way from the last coordinate. -/
def sqtLevels (z : ℕ) : ℕ :=
  if z < 2 then 1 else if z < 3 then 2 else if z < 5 then 3 else if z < 9 then 4 else 5

/-! ## The nodes that are built -/

variable {xmax ymax ntasks level : ℕ}

/-- A node of the subtree at `(x, y)` of level `level`. -/
structure Within (xmax ymax level x y : ℕ) (n : NodeId) : Prop where
  level_le : n.level ≤ level
  dvd_x : 2 ^ n.level ∣ n.x
  dvd_y : 2 ^ n.level ∣ n.y
  le_x : x ≤ n.x
  lt_x : n.x < x + 2 ^ level
  le_y : y ≤ n.y
  lt_y : n.y < y + 2 ^ level
  mesh_x : n.x < xmax
  mesh_y : n.y < ymax

/-- The pointer to the parent. -/
def parentOf (n : NodeId) : NodeId :=
  ⟨n.x / 2 ^ (n.level + 1) * 2 ^ (n.level + 1), n.y / 2 ^ (n.level + 1) * 2 ^ (n.level + 1),
    n.level + 1⟩

/-- The number of children in the mesh, or of tasks. -/
def arityOf (xmax ymax ntasks : ℕ) (n : NodeId) : ℕ :=
  match n.level with
  | 0 => ntasks
  | level + 1 => ((childCoords n.x n.y level).filter (inMesh xmax ymax)).length

/-- The pointers to the children. -/
def childOf (xmax ymax : ℕ) (n : NodeId) : List (Option NodeId) :=
  match n.level with
  | 0 => [none, none, none, none]
  | level + 1 => (childCoords n.x n.y level).map fun c =>
      if inMesh xmax ymax c then some ⟨c.1, c.2, level⟩ else none

theorem mem_childCoords {x y : ℕ} {c : ℕ × ℕ} : c ∈ childCoords x y level ↔
    (c.1 = x ∨ c.1 = x + 2 ^ level) ∧ (c.2 = y ∨ c.2 = y + 2 ^ level) := by
  obtain ⟨a, b⟩ := c
  simp only [childCoords, List.mem_cons, Prod.mk.injEq, List.not_mem_nil, or_false]
  tauto

@[simp] theorem inMesh_iff {c : ℕ × ℕ} : inMesh xmax ymax c = true ↔ c.1 < xmax ∧ c.2 < ymax := by
  simp [inMesh]

/-- The subtrees of the children make up the subtree of a node. -/
theorem exists_child_within {x y : ℕ} {n : NodeId} :
    (∃ c ∈ childCoords x y level, inMesh xmax ymax c = true ∧ Within xmax ymax level c.1 c.2 n) ↔
      Within xmax ymax (level + 1) x y n ∧ n.level ≤ level := by
  have hpow : 2 ^ (level + 1) = 2 ^ level + 2 ^ level := by rw [Nat.pow_succ, Nat.mul_two]
  constructor
  · rintro ⟨c, hc, -, h⟩
    obtain ⟨hx, hy⟩ := mem_childCoords.mp hc
    obtain ⟨hle, hdx, hdy, hxl, hxu, hyl, hyu, hmx, hmy⟩ := h
    exact ⟨⟨by omega, hdx, hdy, by omega, by omega, by omega, by omega, hmx, hmy⟩, hle⟩
  · rintro ⟨⟨-, hdx, hdy, hxl, hxu, hyl, hyu, hmx, hmy⟩, hle⟩
    have hx : ∃ a, (a = x ∨ a = x + 2 ^ level) ∧ a ≤ n.x ∧ n.x < a + 2 ^ level := by
      by_cases hlt : n.x < x + 2 ^ level
      · exact ⟨x, Or.inl rfl, hxl, hlt⟩
      · exact ⟨x + 2 ^ level, Or.inr rfl, by omega, by omega⟩
    have hy : ∃ b, (b = y ∨ b = y + 2 ^ level) ∧ b ≤ n.y ∧ n.y < b + 2 ^ level := by
      by_cases hlt : n.y < y + 2 ^ level
      · exact ⟨y, Or.inl rfl, hyl, hlt⟩
      · exact ⟨y + 2 ^ level, Or.inr rfl, by omega, by omega⟩
    obtain ⟨a, ha, hal, hau⟩ := hx
    obtain ⟨b, hb, hbl, hbu⟩ := hy
    refine ⟨(a, b), mem_childCoords.mpr ⟨ha, hb⟩, inMesh_iff.mpr ⟨by omega, by omega⟩, ?_⟩
    exact ⟨hle, hdx, hdy, hal, hau, hbl, hbu, hmx, hmy⟩

/-- The base of the aligned square that holds a coordinate. -/
theorem div_mul_eq_of_square {a x size : ℕ} (hdvd : size ∣ x) (hle : x ≤ a) (hlt : a < x + size) :
    a / size * size = x := by
  obtain ⟨q, rfl⟩ := hdvd
  have hq : a / size = q := by
    rw [Nat.div_eq_iff (by omega), Nat.mul_comm]
    constructor <;> omega
  rw [hq, Nat.mul_comm]

theorem parentOf_eq {x y : ℕ} {n : NodeId} (hx : 2 ^ (level + 1) ∣ x) (hy : 2 ^ (level + 1) ∣ y)
    (h : Within xmax ymax (level + 1) x y n) (hn : n.level = level) :
    parentOf n = ⟨x, y, level + 1⟩ := by
  rw [parentOf, hn, div_mul_eq_of_square hx h.le_x h.lt_x, div_mul_eq_of_square hy h.le_y h.lt_y]

theorem within_zero {x y : ℕ} {n : NodeId} (hmesh : inMesh xmax ymax (x, y) = true) :
    Within xmax ymax 0 x y n ↔ n = ⟨x, y, 0⟩ := by
  rw [inMesh_iff] at hmesh
  constructor
  · rintro ⟨hle, -, -, hxl, hxu, hyl, hyu, -, -⟩
    obtain ⟨a, b, l⟩ := n
    simp only [Nat.pow_zero, NodeId.mk.injEq] at *
    omega
  · rintro rfl
    exact ⟨le_rfl, by simp, by simp, le_rfl, by simp, le_rfl, by simp, hmesh.1, hmesh.2⟩

/-- The node of a subtree at its own level. -/
theorem within_top {x y : ℕ} {n : NodeId} (hx : 2 ^ level ∣ x) (hy : 2 ^ level ∣ y)
    (h : Within xmax ymax level x y n) (hn : n.level = level) : n = ⟨x, y, level⟩ := by
  obtain ⟨a, b, l⟩ := n
  subst hn
  have ha := div_mul_eq_of_square hx h.le_x h.lt_x
  have hb := div_mul_eq_of_square hy h.le_y h.lt_y
  rw [Nat.div_mul_cancel h.dvd_x] at ha
  rw [Nat.div_mul_cancel h.dvd_y] at hb
  simp only [NodeId.mk.injEq, and_true]
  exact ⟨ha, hb⟩

open Classical in
/-- What the children write, given what each of them writes. -/
theorem foldl_build_apply {α : Type*} {init : (level x y : ℕ) → Option NodeId → α}
    {p n : NodeId} {node : NodeId → α} {coords : List (ℕ × ℕ)}
    (hbuild : ∀ c ∈ coords, inMesh xmax ymax c = true → ∀ node,
      sqtBuild init xmax ymax level c.1 c.2 (some p) node n =
        if Within xmax ymax level c.1 c.2 n then init n.level n.x n.y (some (parentOf n))
        else node n) :
    coords.foldl (fun node c =>
        if inMesh xmax ymax c then
          sqtBuild init xmax ymax level c.1 c.2 (some p) node
        else node) node n =
      if ∃ c ∈ coords, inMesh xmax ymax c = true ∧ Within xmax ymax level c.1 c.2 n then
        init n.level n.x n.y (some (parentOf n))
      else node n := by
  induction coords generalizing node with
  | nil => simp
  | cons c coords ih =>
    rw [List.foldl_cons, ih fun c' hc' => hbuild c' (List.mem_cons_of_mem _ hc')]
    by_cases hrest : ∃ c' ∈ coords, inMesh xmax ymax c' = true ∧ Within xmax ymax level c'.1 c'.2 n
    · have hall : ∃ c' ∈ c :: coords, inMesh xmax ymax c' = true ∧
          Within xmax ymax level c'.1 c'.2 n := by
        obtain ⟨c', hc', h⟩ := hrest
        exact ⟨c', List.mem_cons_of_mem _ hc', h⟩
      rw [if_pos hrest, if_pos hall]
    · rw [if_neg hrest]
      by_cases hmesh : inMesh xmax ymax c = true
      · rw [if_pos hmesh, hbuild c List.mem_cons_self hmesh]
        refine if_congr ?_ rfl rfl
        simp only [List.mem_cons, exists_eq_or_imp, hmesh, true_and, hrest, or_false]
      · rw [if_neg hmesh, if_neg]
        rintro ⟨c', hc', h⟩
        rcases List.mem_cons.mp hc' with rfl | hc'
        · exact hmesh h.1
        · exact hrest ⟨c', hc', h⟩

open Classical in
/-- The build writes exactly the nodes of its subtree. -/
theorem sqtBuild_apply {α : Type*} {init : (level x y : ℕ) → Option NodeId → α} {x y : ℕ}
    {parent : Option NodeId} {node : NodeId → α}
    (hx : 2 ^ level ∣ x) (hy : 2 ^ level ∣ y) (hmesh : inMesh xmax ymax (x, y) = true) (n : NodeId) :
    sqtBuild init xmax ymax level x y parent node n =
      if Within xmax ymax level x y n then
        init n.level n.x n.y (if n.level = level then parent else some (parentOf n))
      else node n := by
  induction level generalizing x y parent node with
  | zero =>
    rw [sqtBuild, within_zero hmesh]
    by_cases hn : n = ⟨x, y, 0⟩
    · subst hn
      rw [Function.update_self, if_pos rfl]
      rfl
    · rw [Function.update_of_ne hn, if_neg hn]
  | succ level ih =>
    have hhalf {a : ℕ} (ha : 2 ^ (level + 1) ∣ a) : 2 ^ level ∣ a :=
      Nat.dvd_trans (Nat.pow_dvd_pow 2 (Nat.le_succ level)) ha
    have hcoord {a b : ℕ} (ha : 2 ^ (level + 1) ∣ a) (hb : b = a ∨ b = a + 2 ^ level) :
        2 ^ level ∣ b := by
      rcases hb with rfl | rfl
      · exact hhalf ha
      · exact Nat.dvd_add (hhalf ha) (Nat.dvd_refl _)
    simp only [sqtBuild]
    rw [foldl_build_apply fun c hc hm node => ?_]
    simp only [exists_child_within]
    · by_cases hle : n.level ≤ level
      · by_cases hw : Within xmax ymax (level + 1) x y n
        · rw [if_pos ⟨hw, hle⟩, if_pos hw, if_neg (by omega)]
        · rw [if_neg (fun h => hw h.1), if_neg hw, Function.update_of_ne]
          rintro rfl
          exact absurd hle (Nat.not_succ_le_self level)
      · rw [if_neg (fun h => hle h.2)]
        by_cases hn : n = ⟨x, y, level + 1⟩
        · subst hn
          have hm := inMesh_iff.mp hmesh
          have hpos := Nat.two_pow_pos (level + 1)
          rw [Function.update_self, if_pos ⟨le_rfl, hx, hy, le_rfl, Nat.lt_add_of_pos_right hpos,
            le_rfl, Nat.lt_add_of_pos_right hpos, hm.1, hm.2⟩, if_pos rfl]
        · rw [Function.update_of_ne hn, if_neg]
          intro hw
          have hlevel := hw.level_le
          exact hn (within_top hx hy hw (by omega))
    · obtain ⟨hcx, hcy⟩ := mem_childCoords.mp hc
      rw [ih (hcoord hx hcx) (hcoord hy hcy) hm]
      by_cases hw : Within xmax ymax level c.1 c.2 n
      · have hup := (exists_child_within.mp ⟨c, hc, hm, hw⟩).1
        rw [if_pos hw, if_pos hw]
        by_cases hn : n.level = level
        · rw [if_pos hn, parentOf_eq hx hy hup hn]
        · rw [if_neg hn]
      · rw [if_neg hw, if_neg hw]

/-! ## The combining tree -/

/-- The tasks of the clusters that have a leaf. -/
def sqtTasks (xmax ymax ntasks level : ℕ) : Finset TaskId :=
  (Finset.range (min xmax (2 ^ level)) ×ˢ Finset.range (min ymax (2 ^ level)) ×ˢ
    Finset.range ntasks).image fun c => ⟨c.1, c.2.1, c.2.2⟩

theorem mem_sqtTasks {t : TaskId} : t ∈ sqtTasks xmax ymax ntasks level ↔
    (t.x < xmax ∧ t.x < 2 ^ level) ∧ (t.y < ymax ∧ t.y < 2 ^ level) ∧ t.lpid < ntasks := by
  obtain ⟨x, y, p⟩ := t
  simp [sqtTasks]

/-- With the computed number of levels, every cluster of the mesh has a leaf. -/
theorem mem_sqtTasks_levels (hx : xmax ≤ 16) (hy : ymax ≤ 16) {t : TaskId} :
    t ∈ sqtTasks xmax ymax ntasks (sqtLevels (max xmax ymax) - 1) ↔
      t.x < xmax ∧ t.y < ymax ∧ t.lpid < ntasks := by
  have hcover : max xmax ymax ≤ 2 ^ (sqtLevels (max xmax ymax) - 1) := by
    rw [sqtLevels]
    split_ifs <;> simp only [Nat.sub_self, Nat.reduceSub, Nat.reducePow] <;> omega
  rw [mem_sqtTasks]
  constructor
  · rintro ⟨⟨h1, -⟩, ⟨h2, -⟩, h3⟩
    exact ⟨h1, h2, h3⟩
  · rintro ⟨h1, h2, h3⟩
    exact ⟨⟨h1, by omega⟩, ⟨h2, by omega⟩, h3⟩

open Classical in
/-- The nodes that the build writes. -/
noncomputable def sqtNodes (xmax ymax level : ℕ) : Finset NodeId :=
  ((Finset.range xmax ×ˢ Finset.range ymax ×ˢ Finset.range (level + 1)).image
    fun c => (⟨c.1, c.2.1, c.2.2⟩ : NodeId)).filter (Within xmax ymax level 0 0)

theorem mem_sqtNodes {n : NodeId} : n ∈ sqtNodes xmax ymax level ↔ Within xmax ymax level 0 0 n := by
  obtain ⟨x, y, l⟩ := n
  simp only [sqtNodes, Finset.mem_filter, and_iff_right_iff_imp]
  intro h
  have := h.level_le
  have := h.mesh_x
  have := h.mesh_y
  simp at *
  omega

theorem parentOf_within {n : NodeId} (h : Within xmax ymax level 0 0 n) (hne : n.level ≠ level) :
    Within xmax ymax level 0 0 (parentOf n) := by
  have hdiv (a : ℕ) : a / 2 ^ (n.level + 1) * 2 ^ (n.level + 1) ≤ a := Nat.div_mul_le_self _ _
  have hx := hdiv n.x
  have hy := hdiv n.y
  have hle := h.level_le
  refine ⟨?_, Nat.dvd_mul_left _ _, Nat.dvd_mul_left _ _, Nat.zero_le _, ?_, Nat.zero_le _, ?_, ?_, ?_⟩
  · change n.level + 1 ≤ level
    omega
  · exact hx.trans_lt h.lt_x
  · exact hy.trans_lt h.lt_y
  · exact hx.trans_lt h.mesh_x
  · exact hy.trans_lt h.mesh_y

/-- The combining tree of a mesh with root level `level`. -/
noncomputable def sqtTree (xmax ymax ntasks level : ℕ) (hx : 0 < xmax) (hy : 0 < ymax) :
    CombiningTree TaskId NodeId where
  tasks := sqtTasks xmax ymax ntasks level
  nodes := sqtNodes xmax ymax level
  leaf := leafOf
  parent n := if n.level = level then none else some (parentOf n)
  level n := n.level
  height := level
  root := ⟨0, 0, level⟩
  root_mem := by
    rw [mem_sqtNodes]
    exact ⟨le_rfl, by simp, by simp, le_rfl, by simp, le_rfl, by simp, hx, hy⟩
  leaf_mem t ht := by
    rw [mem_sqtTasks] at ht
    rw [mem_sqtNodes]
    exact ⟨Nat.zero_le _, by simp [leafOf], by simp [leafOf], Nat.zero_le _,
      by simpa [leafOf] using ht.1.2, Nat.zero_le _, by simpa [leafOf] using ht.2.1.2, ht.1.1, ht.2.1.1⟩
  parent_mem {n p} hn hp := by
    split at hp
    · cases hp
    · rename_i hne
      cases hp
      rw [mem_sqtNodes] at hn ⊢
      exact parentOf_within hn hne
  level_lt {n p} hn hp := by
    split at hp
    · cases hp
    · cases hp
      exact Nat.lt_succ_self _
  level_le n hn := (mem_sqtNodes.mp hn).level_le
  parent_root n hn := by
    rw [mem_sqtNodes] at hn
    constructor
    · intro hp
      split at hp
      · rename_i hlevel
        exact within_top (by simp) (by simp) hn hlevel
      · cases hp
    · rintro rfl
      exact if_pos rfl

/-! ## The arity of the nodes -/

variable {hx : 0 < xmax} {hy : 0 < ymax} {n m : NodeId}

theorem childCoords_nodup (x y level : ℕ) : (childCoords x y level).Nodup := by
  simp [childCoords]

/-- The children of a node are the nodes whose parent it is. -/
theorem parentOf_eq_iff {l : ℕ} (hn : Within xmax ymax level 0 0 n) (hl : n.level = l + 1) :
    (Within xmax ymax level 0 0 m ∧ m.level ≠ level ∧ parentOf m = n) ↔
      ∃ c ∈ childCoords n.x n.y l, inMesh xmax ymax c = true ∧ m = ⟨c.1, c.2, l⟩ := by
  have hpow : 2 ^ (l + 1) = 2 ^ l + 2 ^ l := by rw [Nat.pow_succ, Nat.mul_two]
  have hdx : 2 ^ (l + 1) ∣ n.x := hl ▸ hn.dvd_x
  have hdy : 2 ^ (l + 1) ∣ n.y := hl ▸ hn.dvd_y
  have hle := hn.level_le
  have hcoord {a b : ℕ} (ha : 2 ^ (l + 1) ∣ a) (hb : b = a ∨ b = a + 2 ^ l) : 2 ^ l ∣ b := by
    have hhalf := Nat.dvd_trans (Nat.pow_dvd_pow 2 (Nat.le_succ l)) ha
    rcases hb with rfl | rfl
    · exact hhalf
    · exact Nat.dvd_add hhalf (Nat.dvd_refl _)
  constructor
  · rintro ⟨hm, hne, rfl⟩
    have hml : m.level = l := Nat.succ.inj hl
    have hw : Within xmax ymax (l + 1) (parentOf m).x (parentOf m).y m := by
      have hmod (a : ℕ) : a < a / 2 ^ (m.level + 1) * 2 ^ (m.level + 1) + 2 ^ (m.level + 1) :=
        Nat.lt_div_mul_add (Nat.two_pow_pos _)
      refine ⟨by omega, hm.dvd_x, hm.dvd_y, Nat.div_mul_le_self _ _, ?_, Nat.div_mul_le_self _ _,
        ?_, hm.mesh_x, hm.mesh_y⟩
      · rw [← hml]
        exact hmod m.x
      · rw [← hml]
        exact hmod m.y
    obtain ⟨c, hc, hmesh, hwc⟩ := exists_child_within.mpr ⟨hw, hml.le⟩
    obtain ⟨hcx, hcy⟩ := mem_childCoords.mp hc
    exact ⟨c, hc, hmesh, within_top (hcoord hdx hcx) (hcoord hdy hcy) hwc hml⟩
  · rintro ⟨c, hc, hmesh, rfl⟩
    obtain ⟨hcx, hcy⟩ := mem_childCoords.mp hc
    rw [inMesh_iff] at hmesh
    have hpos := Nat.two_pow_pos l
    -- the square of the node fits into the square of the root
    have hfit {a : ℕ} (ha : 2 ^ (l + 1) ∣ a) (hlt : a < 2 ^ level) : a + 2 ^ (l + 1) ≤ 2 ^ level := by
      obtain ⟨q, rfl⟩ := ha
      obtain ⟨r, hr⟩ := Nat.pow_dvd_pow 2 (show l + 1 ≤ level by omega)
      rw [hr] at hlt ⊢
      rw [← Nat.mul_succ]
      exact Nat.mul_le_mul_left _ (Nat.lt_of_mul_lt_mul_left hlt)
    have hfx := hfit hdx (by simpa using hn.lt_x)
    have hfy := hfit hdy (by simpa using hn.lt_y)
    have hlevel : l < level := by omega
    refine ⟨⟨hlevel.le, hcoord hdx hcx, hcoord hdy hcy, Nat.zero_le _, ?_, Nat.zero_le _, ?_, hmesh.1,
      hmesh.2⟩, hlevel.ne, ?_⟩
    · simp only
      omega
    · simp only
      omega
    · have h1 : c.1 / 2 ^ (l + 1) * 2 ^ (l + 1) = n.x := div_mul_eq_of_square hdx (by omega) (by omega)
      have h2 : c.2 / 2 ^ (l + 1) * 2 ^ (l + 1) = n.y := div_mul_eq_of_square hdy (by omega) (by omega)
      rw [parentOf, h1, h2, ← hl]

theorem sqtTree_leaf_eq (t : TaskId) :
    (sqtTree xmax ymax ntasks level hx hy).leaf t = n ↔ n = ⟨t.x, t.y, 0⟩ := eq_comm

theorem sqtTree_parent_eq :
    (sqtTree xmax ymax ntasks level hx hy).parent m = some n ↔ m.level ≠ level ∧ parentOf m = n := by
  simp [sqtTree]

/-- The arity that the build computes is the number of arrivers. -/
theorem card_arrivers (hn : n ∈ (sqtTree xmax ymax ntasks level hx hy).nodes) :
    ((sqtTree xmax ymax ntasks level hx hy).arrivers n).card = arityOf xmax ymax ntasks n := by
  have hw : Within xmax ymax level 0 0 n := mem_sqtNodes.mp hn
  rw [arrivers, Finset.card_disjSum]
  simp only [sqtTree_leaf_eq, sqtTree_parent_eq]
  rcases hl : n.level with - | l
  · have hleaf : ((sqtTree xmax ymax ntasks level hx hy).tasks.filter fun t => n = ⟨t.x, t.y, 0⟩) =
        (Finset.range ntasks).image fun p => ⟨n.x, n.y, p⟩ := by
      obtain ⟨x, y, level⟩ := n
      cases hl
      ext ⟨a, b, p⟩
      have hlx := hw.lt_x
      have hly := hw.lt_y
      have hmx := hw.mesh_x
      have hmy := hw.mesh_y
      simp only [Nat.zero_add] at hlx hly
      simp only [Finset.mem_filter, Finset.mem_image, Finset.mem_range, NodeId.mk.injEq,
        TaskId.mk.injEq]
      change _ ∈ sqtTasks _ _ _ _ ∧ _ ↔ _
      rw [mem_sqtTasks]
      constructor
      · rintro ⟨⟨-, -, hp⟩, rfl, rfl, -⟩
        exact ⟨p, hp, rfl, rfl, rfl⟩
      · rintro ⟨q, hq, rfl, rfl, rfl⟩
        exact ⟨⟨⟨hmx, hlx⟩, ⟨hmy, hly⟩, hq⟩, rfl, rfl, trivial⟩
    have hnode : ((sqtTree xmax ymax ntasks level hx hy).nodes.filter fun m =>
        m.level ≠ level ∧ parentOf m = n) = ∅ := by
      refine Finset.filter_eq_empty_iff.mpr fun m _ hp => ?_
      rw [← hp.2] at hl
      cases hl
    rw [hleaf, hnode, Finset.card_empty, Finset.card_image_of_injective, Finset.card_range]
    · simp [arityOf, hl]
    · intro p q hpq
      exact (TaskId.mk.inj hpq).2.2
  · have hleaf : ((sqtTree xmax ymax ntasks level hx hy).tasks.filter fun t => n = ⟨t.x, t.y, 0⟩) =
        ∅ := by
      refine Finset.filter_eq_empty_iff.mpr fun t _ ht => ?_
      rw [ht] at hl
      cases hl
    have hnode : ((sqtTree xmax ymax ntasks level hx hy).nodes.filter fun m =>
        m.level ≠ level ∧ parentOf m = n) =
        (((childCoords n.x n.y l).filter (inMesh xmax ymax)).map
          fun c => (⟨c.1, c.2, l⟩ : NodeId)).toFinset := by
      ext m
      rw [Finset.mem_filter, List.mem_toFinset, List.mem_map]
      change m ∈ sqtNodes _ _ _ ∧ _ ↔ _
      rw [mem_sqtNodes, parentOf_eq_iff hw hl]
      simp only [List.mem_filter, and_assoc, eq_comm]
    rw [hleaf, hnode, Finset.card_empty, List.toFinset_card_of_nodup, List.length_map]
    · simp [arityOf, hl]
    · refine ((childCoords_nodup _ _ _).filter _).map fun c d hcd => ?_
      obtain ⟨h1, h2, -⟩ := NodeId.mk.inj hcd
      exact Prod.ext h1 h2

theorem arityOf_lt (hntasks : ntasks < 0x100000000) : arityOf xmax ymax ntasks n < 0x100000000 := by
  rw [arityOf]
  split
  · exact hntasks
  · refine (List.length_filter_le _ _).trans_lt ?_
    simp [childCoords]

/-- Every node waits for something: its first child lies in the mesh. -/
theorem arityOf_pos (hntasks : 0 < ntasks) (hn : Within xmax ymax level 0 0 n) :
    0 < arityOf xmax ymax ntasks n := by
  rw [arityOf]
  split
  · exact hntasks
  · rename_i l hl
    refine List.length_pos_of_mem (List.mem_filter.mpr ⟨List.mem_cons_self, ?_⟩)
    exact inMesh_iff.mpr ⟨hn.mesh_x, hn.mesh_y⟩

theorem arrivers_nonempty (hntasks : 0 < ntasks) :
    ∀ n ∈ (sqtTree xmax ymax ntasks level hx hy).nodes,
      ((sqtTree xmax ymax ntasks level hx hy).arrivers n).Nonempty := by
  intro n hn
  rw [← Finset.card_pos, card_arrivers hn]
  exact arityOf_pos hntasks (mem_sqtNodes.mp hn)

end GietVm.Barrier
