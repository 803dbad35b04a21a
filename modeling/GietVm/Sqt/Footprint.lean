import GietVm.Barrier.Mesh
import Mathlib.Data.List.ProdSigma

/-!
# The footprint of a platform

The kernel builds the SQT barriers and locks over the smallest rectangle of clusters, from
`(0, 0)` on, that contains all processors. `_get_sqt_footprint` computes its sides and the
number of levels from the cluster records of the mapping.
-/

namespace GietVm.Sqt

open GietVm.Barrier

/-- The sizes of `hard_config.h` and the cluster records of the mapping. The record of cluster
`(x, y)` has the index `x * Y_SIZE + y`. -/
structure Platform where
  xSize : ℕ
  ySize : ℕ
  nbProcsMax : ℕ
  procs : ℕ → ℕ
  xSize_pos : 0 < xSize
  ySize_pos : 0 < ySize
  xSize_le : xSize ≤ 16
  ySize_le : ySize ≤ 16
  nbProcsMax_lt : nbProcsMax < 0x100000000
  procs_le : ∀ cid < xSize * ySize, procs cid ≤ nbProcsMax
  procs_pos : 0 < procs 0

namespace Platform

variable (p : Platform)

/-- The number of processors of a cluster. -/
def procsAt (x y : ℕ) : ℕ := p.procs (x * p.ySize + y)

/-- A cluster of the mesh that contains processors. -/
structure HasProcs (x y : ℕ) : Prop where
  lt_x : x < p.xSize
  lt_y : y < p.ySize
  pos : 0 < p.procsAt x y

/-- The processors of the platform. -/
def processors : Finset TaskId :=
  (Finset.range p.xSize ×ˢ Finset.range p.ySize ×ˢ Finset.range p.nbProcsMax).image
    (fun c => (⟨c.1, c.2.1, c.2.2⟩ : TaskId)) |>.filter fun t => t.lpid < p.procsAt t.x t.y

end Platform

/-- One turn of the scan of `_get_sqt_footprint`. -/
def scanCluster (p : Platform) (wh : ℕ × ℕ) (c : ℕ × ℕ) : ℕ × ℕ :=
  let cid := c.1 * p.ySize + c.2
  if p.procs cid ≠ 0 then
    (if c.1 > wh.1 then c.1 else wh.1, if c.2 > wh.2 then c.2 else wh.2)
  else wh

/-- The largest coordinates of clusters with processors. -/
def scanClusters (p : Platform) : ℕ × ℕ :=
  (List.range p.xSize ×ˢ List.range p.ySize).foldl (scanCluster p) (0, 0)

/-- The number of levels that `_get_sqt_footprint` computes from the largest coordinates. -/
def footprintLevels (w h : ℕ) : ℕ :=
  let z := if h > w then h else w
  if z < 1 then 1 else if z < 2 then 2 else if z < 4 then 3 else if z < 8 then 4 else 5

/-- The width, the height and the number of levels of `_get_sqt_footprint`. -/
def getSqtFootprint (p : Platform) : ℕ × ℕ × ℕ :=
  let (w, h) := scanClusters p
  (w + 1, h + 1, footprintLevels w h)

/-! ## The scan -/

variable {p : Platform} {x y : ℕ}

theorem hasProcs_zero : p.HasProcs 0 0 :=
  ⟨p.xSize_pos, p.ySize_pos, by simpa [Platform.procsAt] using p.procs_pos⟩

theorem procsAt_le (hx : x < p.xSize) (hy : y < p.ySize) : p.procsAt x y ≤ p.nbProcsMax := by
  refine p.procs_le _ ?_
  calc x * p.ySize + y < x * p.ySize + p.ySize := by omega
    _ = (x + 1) * p.ySize := by rw [Nat.succ_mul]
    _ ≤ p.xSize * p.ySize := Nat.mul_le_mul_right _ hx

theorem mem_processors {t : TaskId} : t ∈ p.processors ↔
    t.x < p.xSize ∧ t.y < p.ySize ∧ t.lpid < p.procsAt t.x t.y := by
  obtain ⟨x, y, l⟩ := t
  simp only [Platform.processors, Finset.mem_filter, Finset.mem_image, Finset.mem_product,
    Finset.mem_range, TaskId.mk.injEq, Prod.exists]
  constructor
  · rintro ⟨⟨a, b, c, ⟨ha, hb, -⟩, rfl, rfl, rfl⟩, hl⟩
    exact ⟨ha, hb, hl⟩
  · rintro ⟨hx, hy, hl⟩
    exact ⟨⟨x, y, l, ⟨hx, hy, hl.trans_le (procsAt_le hx hy)⟩, rfl, rfl, rfl⟩, hl⟩

/-- One turn of the scan. -/
theorem scanCluster_spec (wh c : ℕ × ℕ) :
    (wh.1 ≤ (scanCluster p wh c).1 ∧ wh.2 ≤ (scanCluster p wh c).2) ∧
    (0 < p.procsAt c.1 c.2 → c.1 ≤ (scanCluster p wh c).1 ∧ c.2 ≤ (scanCluster p wh c).2) ∧
    ((scanCluster p wh c).1 = wh.1 ∨ 0 < p.procsAt c.1 c.2 ∧ (scanCluster p wh c).1 = c.1) ∧
    ((scanCluster p wh c).2 = wh.2 ∨ 0 < p.procsAt c.1 c.2 ∧ (scanCluster p wh c).2 = c.2) := by
  unfold scanCluster Platform.procsAt
  dsimp only
  by_cases hpos : p.procs (c.1 * p.ySize + c.2) = 0
  · simp [hpos]
  · have hpos' : 0 < p.procs (c.1 * p.ySize + c.2) := Nat.pos_of_ne_zero hpos
    simp only [ne_eq, hpos, not_false_eq_true, if_true, hpos', true_and, forall_const]
    split_ifs <;> omega

/-- The scan never lowers a bound, covers the clusters it has seen, and stops at coordinates of
such clusters. -/
theorem scan_spec (clusters : List (ℕ × ℕ)) (wh : ℕ × ℕ) :
    (wh.1 ≤ (clusters.foldl (scanCluster p) wh).1 ∧ wh.2 ≤ (clusters.foldl (scanCluster p) wh).2) ∧
    (∀ c ∈ clusters, 0 < p.procsAt c.1 c.2 →
      c.1 ≤ (clusters.foldl (scanCluster p) wh).1 ∧
      c.2 ≤ (clusters.foldl (scanCluster p) wh).2) ∧
    ((clusters.foldl (scanCluster p) wh).1 = wh.1 ∨ ∃ c ∈ clusters, 0 < p.procsAt c.1 c.2 ∧
      (clusters.foldl (scanCluster p) wh).1 = c.1) ∧
    ((clusters.foldl (scanCluster p) wh).2 = wh.2 ∨ ∃ c ∈ clusters, 0 < p.procsAt c.1 c.2 ∧
      (clusters.foldl (scanCluster p) wh).2 = c.2) := by
  induction clusters generalizing wh with
  | nil => simp
  | cons c clusters ih =>
    obtain ⟨hle, hcover, hx, hy⟩ := ih (scanCluster p wh c)
    have hstep := scanCluster_spec (p := p) wh c
    obtain ⟨hle', hcover', hx', hy'⟩ := hstep
    rw [List.foldl_cons]
    refine ⟨⟨hle'.1.trans hle.1, hle'.2.trans hle.2⟩, fun d hd hpos => ?_, ?_, ?_⟩
    · obtain heq | hd := List.mem_cons.mp hd
      · rw [heq] at hpos ⊢
        exact ⟨(hcover' hpos).1.trans hle.1, (hcover' hpos).2.trans hle.2⟩
      · exact hcover d hd hpos
    · obtain heq | ⟨d, hd, hpos, heq⟩ := hx
      · obtain heq' | ⟨hpos, heq'⟩ := hx'
        · exact Or.inl (heq.trans heq')
        · exact Or.inr ⟨c, List.mem_cons_self, hpos, heq.trans heq'⟩
      · exact Or.inr ⟨d, List.mem_cons_of_mem _ hd, hpos, heq⟩
    · obtain heq | ⟨d, hd, hpos, heq⟩ := hy
      · obtain heq' | ⟨hpos, heq'⟩ := hy'
        · exact Or.inl (heq.trans heq')
        · exact Or.inr ⟨c, List.mem_cons_self, hpos, heq.trans heq'⟩
      · exact Or.inr ⟨d, List.mem_cons_of_mem _ hd, hpos, heq⟩

/-! ## The footprint -/

/-- The number of columns of the footprint. -/
def xmax (p : Platform) : ℕ := (getSqtFootprint p).1

/-- The number of rows of the footprint. -/
def ymax (p : Platform) : ℕ := (getSqtFootprint p).2.1

/-- The number of levels of the tree. -/
def levels (p : Platform) : ℕ := (getSqtFootprint p).2.2

theorem xmax_pos : 0 < xmax p := Nat.succ_pos _

theorem ymax_pos : 0 < ymax p := Nat.succ_pos _

/-- The footprint contains all clusters with processors. -/
theorem Platform.HasProcs.in_footprint (h : p.HasProcs x y) : x < xmax p ∧ y < ymax p := by
  have hcover := (scan_spec (p := p) (List.range p.xSize ×ˢ List.range p.ySize) (0, 0)).2.1 (x, y)
    (List.mem_product.mpr ⟨List.mem_range.mpr h.lt_x, List.mem_range.mpr h.lt_y⟩) h.pos
  exact ⟨Nat.lt_succ_of_le hcover.1, Nat.lt_succ_of_le hcover.2⟩

/-- The last column of the footprint contains processors. -/
theorem exists_last_column : ∃ x y, p.HasProcs x y ∧ xmax p = x + 1 := by
  obtain heq | ⟨⟨x, y⟩, hc, hpos, heq⟩ :=
    (scan_spec (p := p) (List.range p.xSize ×ˢ List.range p.ySize) (0, 0)).2.2.1
  · exact ⟨0, 0, hasProcs_zero, congrArg (· + 1) heq⟩
  · obtain ⟨hx, hy⟩ := List.mem_product.mp hc
    exact ⟨x, y, ⟨List.mem_range.mp hx, List.mem_range.mp hy, hpos⟩, congrArg (· + 1) heq⟩

/-- The last row of the footprint contains processors. -/
theorem exists_last_row : ∃ x y, p.HasProcs x y ∧ ymax p = y + 1 := by
  obtain heq | ⟨⟨x, y⟩, hc, hpos, heq⟩ :=
    (scan_spec (p := p) (List.range p.xSize ×ˢ List.range p.ySize) (0, 0)).2.2.2
  · exact ⟨0, 0, hasProcs_zero, congrArg (· + 1) heq⟩
  · obtain ⟨hx, hy⟩ := List.mem_product.mp hc
    exact ⟨x, y, ⟨List.mem_range.mp hx, List.mem_range.mp hy, hpos⟩, congrArg (· + 1) heq⟩

theorem xmax_le : xmax p ≤ p.xSize := by
  obtain ⟨x, y, h, heq⟩ := exists_last_column (p := p)
  have hlt := h.lt_x
  omega

theorem ymax_le : ymax p ≤ p.ySize := by
  obtain ⟨x, y, h, heq⟩ := exists_last_row (p := p)
  have hlt := h.lt_y
  omega

/-- The levels are those of the larger side. -/
theorem footprintLevels_eq (w h : ℕ) : footprintLevels w h = sqtLevels (max (w + 1) (h + 1)) := by
  simp only [footprintLevels, sqtLevels]
  split_ifs <;> omega

theorem levels_eq : levels p = sqtLevels (max (xmax p) (ymax p)) := footprintLevels_eq _ _

theorem levels_pos : 0 < levels p := by
  rw [levels_eq, sqtLevels]
  split_ifs <;> omega

theorem levels_le : levels p ≤ 5 := by
  rw [levels_eq, sqtLevels]
  split_ifs <;> omega

/-- The root covers the footprint. -/
theorem footprint_le_root : xmax p ≤ 2 ^ (levels p - 1) ∧ ymax p ≤ 2 ^ (levels p - 1) := by
  have hx := (xmax_le (p := p)).trans p.xSize_le
  have hy := (ymax_le (p := p)).trans p.ySize_le
  rw [levels_eq, sqtLevels]
  split_ifs <;> simp only [Nat.sub_self, Nat.reduceSub, Nat.reducePow] <;> omega

end GietVm.Sqt
