import Mathlib.Data.List.Perm.Basic
import Mathlib.Data.List.Nodup
import Mathlib.Data.Nat.Basic
import Mathlib.Tactic.Ring

/-!
# Tilings of an address range by power-of-two blocks

A block is a base address with the logarithm of its size. A tiling of `[lo, hi)` is a
list of blocks, pairwise apart, that covers exactly the range. Being a tiling does not
depend on the order of the list, and replacing a block by its two halves, or two halves
by their union, gives a tiling of the same range.
-/

namespace GietVm.Library

/-- The `2 ^ order` addresses from `base` on. -/
structure Block where
  base : ℕ
  order : ℕ
  deriving DecidableEq, Repr

namespace Block

/-- The number of addresses of the block. -/
def size (b : Block) : ℕ := 2 ^ b.order

/-- The address lies in the block. -/
def Has (b : Block) (a : ℕ) : Prop := b.base ≤ a ∧ a < b.base + b.size

/-- The blocks have no address in common. -/
def Apart (b c : Block) : Prop := b.base + b.size ≤ c.base ∨ c.base + c.size ≤ b.base

/-- The base is a multiple of the size. -/
def Aligned (b : Block) : Prop := b.size ∣ b.base

theorem size_pos (b : Block) : 0 < b.size := Nat.two_pow_pos _

theorem has_base (b : Block) : b.Has b.base := ⟨le_rfl, Nat.lt_add_of_pos_right b.size_pos⟩

theorem Apart.symm {b c : Block} (h : b.Apart c) : c.Apart b := Or.symm h

theorem apart_comm {b c : Block} : b.Apart c ↔ c.Apart b := ⟨Apart.symm, Apart.symm⟩

theorem Apart.ne {b c : Block} (h : b.Apart c) : b ≠ c := by
  rintro rfl
  have := b.size_pos
  rcases h with h | h <;> omega

/-- Apart blocks have different bases. -/
theorem Apart.base_ne {b c : Block} (h : b.Apart c) : b.base ≠ c.base := by
  have := b.size_pos
  have := c.size_pos
  rcases h with h | h <;> omega

/-- Apart blocks share no address. -/
theorem Apart.not_has {b c : Block} (h : b.Apart c) {a : ℕ} (hb : b.Has a) : ¬ c.Has a := by
  rintro ⟨h₁, h₂⟩
  obtain ⟨h₃, h₄⟩ := hb
  rcases h with h | h <;> omega

/-- The two halves of a block, lower one first. -/
def lower (b : Block) : Block := ⟨b.base, b.order - 1⟩

/-- The upper half of a block. -/
def upper (b : Block) : Block := ⟨b.base + 2 ^ (b.order - 1), b.order - 1⟩

theorem size_succ (base n : ℕ) : (Block.mk base (n + 1)).size = 2 ^ n + 2 ^ n := by
  simp only [size, pow_succ]
  ring

/-- A block consists of the addresses of its halves. -/
theorem has_halves {b : Block} (h : 0 < b.order) (a : ℕ) :
    b.Has a ↔ b.lower.Has a ∨ b.upper.Has a := by
  obtain ⟨base, _ | n⟩ := b
  · simp at h
  · simp only [Has, lower, upper, size, Nat.add_sub_cancel, pow_succ]
    omega

/-- A block is apart from another exactly when both its halves are. -/
theorem apart_halves {b c : Block} (h : 0 < b.order) :
    b.Apart c ↔ b.lower.Apart c ∧ b.upper.Apart c := by
  obtain ⟨base, _ | n⟩ := b
  · simp at h
  · have := Nat.two_pow_pos n
    have := c.size_pos
    simp only [Apart, lower, upper, size_succ, Nat.add_sub_cancel]
    simp only [size] at *
    omega

theorem lower_apart_upper (b : Block) : b.lower.Apart b.upper := Or.inl le_rfl

end Block

/-- The blocks are pairwise apart and cover exactly `[lo, hi)`. -/
structure Tiling (lo hi : ℕ) (l : List Block) : Prop where
  apart : l.Pairwise Block.Apart
  cover : ∀ a, (lo ≤ a ∧ a < hi) ↔ ∃ b ∈ l, b.Has a

namespace Tiling

variable {lo hi : ℕ} {l l' : List Block} {b : Block}

/-- The order of the list does not matter. -/
theorem perm (h : Tiling lo hi l) (hp : l.Perm l') : Tiling lo hi l' where
  apart := (hp.pairwise_iff Block.Apart.symm).mp h.apart
  cover a := by simpa only [hp.mem_iff] using h.cover a

/-- No block occurs twice. -/
theorem nodup (h : Tiling lo hi l) : l.Nodup :=
  h.apart.imp Block.Apart.ne

/-- Different members are apart. -/
theorem apart_of_mem (h : Tiling lo hi l) {c : Block} (hb : b ∈ l) (hc : c ∈ l) (hne : b ≠ c) :
    b.Apart c := by
  obtain ⟨l₁, hp⟩ : ∃ l₁, l.Perm (b :: l₁) := ⟨l.erase b, List.perm_cons_erase hb⟩
  have hc' : c ∈ l₁ := by
    rcases List.mem_cons.mp (hp.mem_iff.mp hc) with rfl | hc'
    · exact absurd rfl hne
    · exact hc'
  exact (List.pairwise_cons.mp (h.perm hp).apart).1 c hc'

/-- A member lies inside the range. -/
theorem bounds (h : Tiling lo hi l) (hb : b ∈ l) : lo ≤ b.base ∧ b.base + b.size ≤ hi := by
  have hpos := b.size_pos
  have hfirst := (h.cover b.base).mpr ⟨b, hb, b.has_base⟩
  have hlast := (h.cover (b.base + b.size - 1)).mpr ⟨b, hb, by constructor <;> omega⟩
  omega

/-- The block at the head may be replaced by its halves. -/
theorem split (h : Tiling lo hi (b :: l)) (hb : 0 < b.order) :
    Tiling lo hi (b.lower :: b.upper :: l) where
  apart := by
    obtain ⟨h₁, h₂⟩ := List.pairwise_cons.mp h.apart
    refine List.pairwise_cons.mpr ⟨fun c hc => ?_, List.pairwise_cons.mpr ⟨fun c hc => ?_, h₂⟩⟩
    · rcases List.mem_cons.mp hc with rfl | hc
      · exact b.lower_apart_upper
      · exact ((Block.apart_halves hb).mp (h₁ c hc)).1
    · exact ((Block.apart_halves hb).mp (h₁ c hc)).2
  cover a := by
    rw [h.cover a]
    simp only [List.mem_cons, exists_eq_or_imp, Block.has_halves hb a, or_assoc]

/-- Two halves at the head may be replaced by their union. -/
theorem merge (h : Tiling lo hi (b.lower :: b.upper :: l)) (hb : 0 < b.order) :
    Tiling lo hi (b :: l) where
  apart := by
    obtain ⟨h₁, h₂⟩ := List.pairwise_cons.mp h.apart
    obtain ⟨h₃, h₄⟩ := List.pairwise_cons.mp h₂
    refine List.pairwise_cons.mpr ⟨fun c hc => ?_, h₄⟩
    exact (Block.apart_halves hb).mpr ⟨h₁ c (List.mem_cons_of_mem _ hc), h₃ c hc⟩
  cover a := by
    rw [h.cover a]
    simp only [List.mem_cons, exists_eq_or_imp, Block.has_halves hb a, or_assoc]

/-- A range that is one block is tiled by it. -/
theorem single (b : Block) : Tiling b.base (b.base + b.size) [b] where
  apart := List.pairwise_singleton _ _
  cover a := by simp [Block.Has]

/-- Tilings of adjacent ranges make a tiling of their union. -/
theorem append {mid : ℕ} (h : Tiling lo mid l) (h' : Tiling mid hi l') (hlo : lo ≤ mid)
    (hhi : mid ≤ hi) : Tiling lo hi (l ++ l') where
  apart := by
    refine List.pairwise_append.mpr ⟨h.apart, h'.apart, fun b hb c hc => Or.inl ?_⟩
    exact (h.bounds hb).2.trans (h'.bounds hc).1
  cover a := by
    simp only [List.mem_append, or_and_right, exists_or, ← h.cover, ← h'.cover]
    omega

end Tiling

/-- The bases of the blocks of one order, in list order. -/
def basesOf (l : List Block) (i : ℕ) : List ℕ :=
  (l.filter (·.order = i)).map Block.base

@[simp] theorem basesOf_nil (i : ℕ) : basesOf [] i = [] := rfl

theorem basesOf_cons (b : Block) (l : List Block) (i : ℕ) :
    basesOf (b :: l) i = if b.order = i then b.base :: basesOf l i else basesOf l i := by
  by_cases h : b.order = i <;> simp [basesOf, h]

@[simp] theorem mem_basesOf {l : List Block} {a i : ℕ} : a ∈ basesOf l i ↔ ⟨a, i⟩ ∈ l := by
  simp only [basesOf, List.mem_map, List.mem_filter, decide_eq_true_eq]
  constructor
  · rintro ⟨⟨base, order⟩, ⟨hb, rfl⟩, rfl⟩
    exact hb
  · intro h
    exact ⟨⟨a, i⟩, ⟨h, rfl⟩, rfl⟩

/-- Removing a block removes its base from the list of its order only. -/
theorem basesOf_erase (b : Block) (l : List Block) (i : ℕ) :
    basesOf (l.erase b) i = if b.order = i then (basesOf l i).erase b.base else basesOf l i := by
  induction l with
  | nil => simp
  | cons c l ih =>
    by_cases hcb : c = b
    · subst hcb
      rw [List.erase_cons_head, basesOf_cons]
      split <;> simp
    · rw [List.erase_cons_tail (by simpa using hcb), basesOf_cons, basesOf_cons, ih]
      by_cases hi : b.order = i
      · by_cases hci : c.order = i
        · have hne : c.base ≠ b.base := fun hbase => hcb (by
            cases c; cases b; simp_all)
          simp [hi, hci, List.erase_cons_tail, hne]
        · simp [hi, hci]
      · simp [hi]

/-- Without repeated blocks no base occurs twice in one order. -/
theorem basesOf_nodup {l : List Block} (h : l.Nodup) (i : ℕ) : (basesOf l i).Nodup := by
  induction l with
  | nil => simp
  | cons b l ih =>
    obtain ⟨hb, hl⟩ := List.nodup_cons.mp h
    rw [basesOf_cons]
    split
    · rename_i hi
      refine List.nodup_cons.mpr ⟨fun hmem => hb ?_, ih hl⟩
      subst hi
      exact mem_basesOf.mp hmem
    · exact ih hl

end GietVm.Library
