import GietVm.Library.Tiling
import Mathlib.Data.Nat.Log

/-!
# Coalesced lists of aligned blocks

An aligned block of order `n + 1` has two halves of order `n`. A list of aligned blocks is
coalesced when it never holds both halves of an aligned block: nothing in it can be merged.
Coalesced lists are canonical. An aligned block that the list covers by blocks not larger
than itself is a member of the list, so the covered addresses determine the list.
-/

namespace GietVm.Library

/-- The list holds no two halves of an aligned block. -/
def Coalesced (l : List Block) : Prop :=
  ∀ p : Block, 0 < p.order → p.Aligned → p.lower ∈ l → p.upper ∉ l

variable {l l' : List Block} {b c p : Block} {a i : ℕ}

theorem coalesced_nil : Coalesced [] := fun _ _ _ hlow => absurd hlow (by simp)

/-- Fewer blocks leave fewer halves. -/
theorem Coalesced.mono (h : Coalesced l) (hsub : ∀ b ∈ l', b ∈ l) : Coalesced l' :=
  fun p ho hp hlow hup => h p ho hp (hsub _ hlow) (hsub _ hup)

namespace Block

/-- The halves of an aligned block are aligned. -/
theorem Aligned.halves (h : p.Aligned) (ho : 0 < p.order) : p.lower.Aligned ∧ p.upper.Aligned := by
  obtain ⟨base, _ | n⟩ := p
  · simp at ho
  have hdvd : 2 ^ n ∣ base := (pow_dvd_pow 2 (Nat.le_succ n)).trans h
  exact ⟨hdvd, (Nat.dvd_add_iff_left (dvd_refl _)).mp hdvd⟩

theorem lower_ne_upper (p : Block) : p.lower ≠ p.upper := p.lower_apart_upper.ne

/-- An aligned block is determined by its order and one of its addresses. -/
theorem Aligned.eq_of_has (hb : b.Aligned) (hc : c.Aligned) (ho : b.order = c.order)
    (hba : b.Has a) (hca : c.Has a) : b = c := by
  obtain ⟨bbase, border⟩ := b
  obtain ⟨cbase, corder⟩ := c
  obtain rfl : border = corder := ho
  obtain ⟨q, hq⟩ : 2 ^ border ∣ bbase := hb
  obtain ⟨r, hr⟩ : 2 ^ border ∣ cbase := hc
  subst hq hr
  simp only [Has, size] at hba hca
  have hqr : q < r + 1 := Nat.lt_of_mul_lt_mul_left (a := 2 ^ border) (by rw [Nat.mul_succ]; omega)
  have hrq : r < q + 1 := Nat.lt_of_mul_lt_mul_left (a := 2 ^ border) (by rw [Nat.mul_succ]; omega)
  obtain rfl : q = r := by omega
  rfl

/-- An aligned block that meets a smaller aligned range contains it. -/
theorem Aligned.has_of_meets (hb : b.Aligned) (hi : i ≤ b.order) {lo : ℕ} (hlo : 2 ^ i ∣ lo)
    (hba : b.Has a) (ha : lo ≤ a) (ha' : a < lo + 2 ^ i) {x : ℕ} (hx : lo ≤ x)
    (hx' : x < lo + 2 ^ i) : b.Has x := by
  have hsize : 2 ^ i ∣ b.size := pow_dvd_pow 2 hi
  obtain ⟨q, hq⟩ := hsize.trans hb
  obtain ⟨z, hz⟩ := hsize
  obtain ⟨r, hr⟩ := hlo
  obtain ⟨hba, hba'⟩ := hba
  rw [hq] at hba hba'
  rw [hz, ← Nat.mul_add] at hba'
  rw [hr] at ha ha' hx hx'
  have hqr : q < r + 1 := Nat.lt_of_mul_lt_mul_left (a := 2 ^ i) (by rw [Nat.mul_succ]; omega)
  have hrq : r < q + z := Nat.lt_of_mul_lt_mul_left (a := 2 ^ i) (by omega)
  have hlow : 2 ^ i * q ≤ 2 ^ i * r := Nat.mul_le_mul_left _ (by omega)
  have hhigh : 2 ^ i * (r + 1) ≤ 2 ^ i * (q + z) := Nat.mul_le_mul_left _ (by omega)
  rw [Nat.mul_succ] at hhigh
  constructor
  · rw [hq]
    omega
  · rw [hq, hz, ← Nat.mul_add]
    omega

end Block

/-- An aligned block covered by blocks that are not larger is in the list. -/
theorem Coalesced.mem_of_cover (h : Coalesced l) (hl : ∀ b ∈ l, b.Aligned) (hp : p.Aligned)
    (hcover : ∀ a, p.Has a → ∃ b ∈ l, b.Has a ∧ b.order ≤ p.order) : p ∈ l := by
  induction hn : p.order generalizing p with
  | zero =>
    obtain ⟨b, hb, hbase, ho⟩ := hcover p.base p.has_base
    have heq : b = p := (hl b hb).eq_of_has hp (by omega) hbase p.has_base
    exact heq ▸ hb
  | succ n ih =>
    by_cases hwhole : ∃ b ∈ l, b.order = p.order ∧ ∃ a, b.Has a ∧ p.Has a
    · obtain ⟨b, hb, ho, a, hba, hpa⟩ := hwhole
      have heq : b = p := (hl b hb).eq_of_has hp ho hba hpa
      exact heq ▸ hb
    · -- every block met is smaller, so both halves are members
      have hpos : 0 < p.order := by omega
      obtain ⟨hlower, hupper⟩ := hp.halves hpos
      have hhalf {q : Block} (hq : q.order = n) (hin : ∀ a, q.Has a → p.Has a) :
          ∀ a, q.Has a → ∃ b ∈ l, b.Has a ∧ b.order ≤ q.order := by
        intro a ha
        obtain ⟨b, hb, hba, ho⟩ := hcover a (hin a ha)
        have hne : b.order ≠ p.order := fun heq => hwhole ⟨b, hb, heq, a, hba, hin a ha⟩
        exact ⟨b, hb, hba, by omega⟩
      have hlow : p.lower.order = n := by
        rw [Block.lower, hn]
        rfl
      have hup : p.upper.order = n := by
        rw [Block.upper, hn]
        rfl
      have hmemLow := ih hlower (hhalf hlow fun a ha => (Block.has_halves hpos a).mpr (Or.inl ha)) hlow
      have hmemUp := ih hupper (hhalf hup fun a ha => (Block.has_halves hpos a).mpr (Or.inr ha)) hup
      exact absurd hmemUp (h p hpos hp hmemLow)

/-- Adding a block whose other half is missing. -/
theorem Coalesced.cons (h : Coalesced l)
    (hlow : ∀ p : Block, 0 < p.order → p.Aligned → b = p.lower → p.upper ∉ l)
    (hup : ∀ p : Block, 0 < p.order → p.Aligned → b = p.upper → p.lower ∉ l) :
    Coalesced (b :: l) := by
  intro p ho hp hmemLow hmemUp
  rcases List.mem_cons.mp hmemLow with hbl | hmemLow
  · rcases List.mem_cons.mp hmemUp with hbu | hmemUp
    · exact p.lower_ne_upper (hbl.trans hbu.symm)
    · exact hlow p ho hp hbl.symm hmemUp
  · rcases List.mem_cons.mp hmemUp with hbu | hmemUp
    · exact hup p ho hp hbu.symm hmemLow
    · exact h p ho hp hmemLow hmemUp

/-- New blocks keep a list coalesced when each has an order of its own. -/
theorem Coalesced.extend (h : Coalesced l) (base : ℕ → ℕ)
    (hnew : ∀ c ∈ l', c ∈ l ∨ c.base = base c.order ∧ ∀ d ∈ l, d.order ≠ c.order) :
    Coalesced l' := by
  intro p ho hp hmemLow hmemUp
  have horder : p.lower.order = p.upper.order := rfl
  rcases hnew _ hmemLow with hlow | ⟨hbaseLow, hlow⟩
  · rcases hnew _ hmemUp with hup | ⟨-, hup⟩
    · exact h p ho hp hlow hup
    · exact hup _ hlow horder
  · rcases hnew _ hmemUp with hup | ⟨hbaseUp, -⟩
    · exact hlow _ hup horder.symm
    · have hbase : p.lower.base = p.upper.base := by rw [hbaseLow, hbaseUp, horder]
      exact p.lower_apart_upper.base_ne hbase

/-! ## Descending sequences of blocks -/

/-- The block of order `i` in the descending sequence that ends below `hi`. -/
def stairBlock (hi i : ℕ) : Block := ⟨hi - 2 ^ (i + 1), i⟩

/-- The blocks of a descending sequence and its last block cover what lies below `hi`. -/
theorem exists_stairBlock {hi n k : ℕ} (hlow : hi ≤ a + 2 ^ k) (hhigh : a + 2 ^ n < hi) :
    ∃ i, n ≤ i ∧ i < k ∧ (stairBlock hi i).Has a := by
  have hd : hi - a - 1 ≠ 0 := by
    have := Nat.two_pow_pos n
    omega
  refine ⟨Nat.log 2 (hi - a - 1), ?_, ?_, ?_, ?_⟩
  · exact Nat.le_log_of_pow_le (by omega) (by omega)
  · exact Nat.log_lt_of_lt_pow hd (by omega)
  · have := Nat.lt_pow_succ_log_self (b := 2) (by omega) (hi - a - 1)
    simp only [stairBlock]
    omega
  · have hlog := Nat.pow_log_le_self 2 hd
    have hlt := Nat.lt_pow_succ_log_self (b := 2) (by omega) (hi - a - 1)
    simp only [stairBlock, Block.size]
    rw [pow_succ] at hlt ⊢
    omega

/-- A coalesced list that tiles a segment together with the last `2 ^ n` addresses, and
possibly one block at the start, is the descending sequence. -/
theorem Coalesced.eq_stair {base k n : ℕ} {lost : List Block} (h : Coalesced l)
    (hl : ∀ b ∈ l, b.Aligned) (hbase : 2 ^ k ∣ base)
    (ht : Tiling base (base + 2 ^ k) (l ++ ⟨base + 2 ^ k - 2 ^ n, n⟩ :: lost))
    (hlost : ∀ c ∈ lost, c = stairBlock (base + 2 ^ k) (k - 1)) (hnk : n < k) :
    b ∈ l ↔ n ≤ b.order ∧ b.order < k ∧ b = stairBlock (base + 2 ^ k) b.order ∧ b ∉ lost := by
  have hpow {i j : ℕ} (hij : i ≤ j) : 2 ^ i ≤ 2 ^ j := Nat.pow_le_pow_right (by omega) hij
  set hi := base + 2 ^ k with hhi
  set alloc : Block := ⟨hi - 2 ^ n, n⟩ with halloc
  have hdvd {i : ℕ} (hi' : i ≤ k) : 2 ^ i ∣ hi := by
    exact Nat.dvd_add ((pow_dvd_pow 2 hi').trans hbase) (pow_dvd_pow 2 hi')
  have hlast : alloc.Has (hi - 1) := by
    have := Nat.two_pow_pos n
    have := hpow hnk.le
    simp only [halloc, Block.Has, Block.size]
    omega
  have hapart := List.pairwise_append.mp ht.apart
  have hfree {c : Block} (hc : c ∈ l) : ¬ c.Has (hi - 1) :=
    fun hhas => (hapart.2.2 c hc alloc (by simp)).not_has hhas hlast
  -- a block of the sequence that is not lost is a member
  have hmem {i : ℕ} (hni : n ≤ i) (hik : i < k) (hnot : stairBlock hi i ∉ lost) :
      stairBlock hi i ∈ l := by
    have hle : 2 ^ (i + 1) ≤ hi := (hpow hik).trans (Nat.le_add_left _ _)
    have hdvd' : 2 ^ (i + 1) ∣ hi - 2 ^ (i + 1) := Nat.dvd_sub (hdvd hik) (dvd_refl _)
    have hstep : 2 ^ (i + 1) = 2 ^ i + 2 ^ i := by rw [pow_succ]; omega
    refine h.mem_of_cover hl ((pow_dvd_pow 2 (Nat.le_succ i)).trans hdvd') fun a ha => ?_
    obtain ⟨ha, ha'⟩ : hi - 2 ^ (i + 1) ≤ a ∧ a < hi - 2 ^ (i + 1) + 2 ^ i := ha
    have hin : base ≤ a ∧ a < base + 2 ^ k := by
      have := hpow hik
      have := Nat.two_pow_pos i
      omega
    obtain ⟨c, hc, hca⟩ := (ht.cover a).mp hin
    rcases List.mem_append.mp hc with hc | hc
    · refine ⟨c, hc, hca, Nat.le_of_not_lt fun hlt => hfree hc ?_⟩
      have hlt : i + 1 ≤ c.order := hlt
      exact (hl c hc).has_of_meets hlt hdvd' hca ha (by omega) (by omega) (by omega)
    · rcases List.mem_cons.mp hc with rfl | hc
      · have hca := hca.1
        have := hpow hni
        simp only [halloc] at hca
        omega
      · have hcstair := hlost c hc
        have hne : i ≠ k - 1 := by
          rintro rfl
          exact hnot (hcstair ▸ hc)
        have hca := hca.2
        have hk : 2 ^ (k - 1 + 1) = 2 ^ (k - 1) + 2 ^ (k - 1) := by rw [pow_succ]; omega
        have hle' : 2 ^ (k - 1 + 1) ≤ hi := by
          rw [Nat.sub_add_cancel (by omega)]
          exact Nat.le_add_left _ _
        have hik' : 2 ^ (i + 1) ≤ 2 ^ (k - 1) := hpow (by omega)
        rw [hcstair] at hca
        simp only [stairBlock, Block.size] at hca
        omega
  constructor
  · intro hb
    have hbase' := ht.bounds (b := b) (by simp [hb])
    have hb0 := b.size_pos
    have hbelow : b.base + 2 ^ n < hi := by
      by_contra hge
      have hhas : alloc.Has b.base := by
        have := hpow hnk.le
        constructor <;> simp only [halloc, Block.size] <;> omega
      exact (hapart.2.2 b hb alloc (by simp)).not_has b.has_base hhas
    obtain ⟨i, hni, hik, hhas⟩ := exists_stairBlock (k := k) (by omega : hi ≤ b.base + 2 ^ k) hbelow
    have hnot : b ∉ lost := fun hlost' =>
      (hapart.2.2 b hb b (by simp [hlost'])).not_has b.has_base b.has_base
    have hsame : b = stairBlock hi i := by
      by_cases hstair : stairBlock hi i ∈ lost
      · exact absurd hhas ((hapart.2.2 b hb _ (by simp [hstair])).not_has b.has_base)
      · by_contra hne
        have hmem' := hmem hni hik hstair
        exact (ht.apart_of_mem (by simp [hb]) (by simp [hmem']) hne).not_has b.has_base hhas
    have horder : b.order = i := by rw [hsame]; rfl
    exact ⟨by omega, by omega, by rw [horder]; exact hsame, hnot⟩
  · rintro ⟨hni, hik, heq, hnot⟩
    rw [heq] at hnot ⊢
    exact hmem hni hik hnot

end GietVm.Library
