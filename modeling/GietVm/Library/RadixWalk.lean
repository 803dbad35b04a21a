import GietVm.Library.RadixTree
import Mathlib.Data.List.Basic

/-!
# A walk as a run over the leaves

The walk of a radix tree visits its leaves from left to right and threads a state through
the visits. So its result is the one of the same visits on the list of the leaves, and the
tree that it leaves has the same shape. What the visits do not change of a leaf is said by
a function `g` of the leaf: the tree of the `g` of the leaves is the same.
-/

namespace GietVm.Library.RadixTree

variable {r : ℕ} {α β σ : Type}

/-- The leaves from left to right. -/
def leaves : RadixTree r α → List α
  | null => []
  | leaf a => [a]
  | node _ children => (List.finRange r).flatMap fun i => leaves (children i)

/-- The tree of the same shape whose leaves are the images of the leaves. -/
def map (g : α → β) : RadixTree r α → RadixTree r β
  | null => null
  | leaf a => leaf (g a)
  | node address children => node address fun i => map g (children i)

/-- Visit the elements of a list in order. -/
def visits (f : α → σ → α × Bool × σ) : List α → σ → List α × Bool × σ
  | [], s => ([], false, s)
  | a :: l, s =>
    ((f a s).1 :: (visits f l (f a s).2.2).1, (f a s).2.1 || (visits f l (f a s).2.2).2.1,
      (visits f l (f a s).2.2).2.2)

variable {f : α → σ → α × Bool × σ} {g : α → β}

theorem visits_append (l l' : List α) (s : σ) : visits f (l ++ l') s =
    ((visits f l s).1 ++ (visits f l' (visits f l s).2.2).1,
      (visits f l s).2.1 || (visits f l' (visits f l s).2.2).2.1,
      (visits f l' (visits f l s).2.2).2.2) := by
  induction l generalizing s with
  | nil => rfl
  | cons a l ih =>
    rw [List.cons_append, visits, visits, ih]
    simp only [List.cons_append, Bool.or_assoc]

/-- The result of a walk from a tree `t` to a tree `t'`. -/
structure WalkedLeaves (f : α → σ → α × Bool × σ) (g : α → β) (t t' : RadixTree r α) (s : σ)
    (failed : Bool) (s' : σ) : Prop where
  visits : visits f t.leaves s = (t'.leaves, failed, s')
  same : t'.map g = t.map g

private theorem walkChildren_leaves {n : ℕ}
    (ih : ∀ (t : RadixTree r α) s, Shaped n t →
      ∃ t' failed s', walk f n t s = some (t', failed, s') ∧ WalkedLeaves f g t t' s failed s')
    (is : List (Fin r)) (hnd : is.Nodup) (children : Fin r → RadixTree r α)
    (hsh : ∀ i ∈ is, Shaped n (children i)) (failed : Bool) (s : σ) :
    ∃ children' failed' s',
      walkChildren (walk f n) is children failed s = some (children', failed || failed', s') ∧
      RadixTree.visits f (is.flatMap fun i => (children i).leaves) s =
        (is.flatMap fun i => (children' i).leaves, failed', s') ∧
      (∀ i, i ∉ is → children' i = children i) ∧
      ∀ i ∈ is, (children' i).map g = (children i).map g := by
  induction is generalizing children failed s with
  | nil => exact ⟨children, false, s, by rw [walkChildren, Bool.or_false], rfl, fun _ _ => rfl, by simp⟩
  | cons i rest ihrest =>
    obtain ⟨hi, hrest⟩ := List.nodup_cons.mp hnd
    obtain ⟨child, e, s₁, hrun, hwalked⟩ := ih (children i) s (hsh i List.mem_cons_self)
    have hother (j : Fin r) (hj : j ∈ rest) : Function.update children i child j = children j := by
      refine Function.update_of_ne ?_ _ _
      rintro rfl
      exact hi hj
    obtain ⟨children', failed', s', hrun', hvisits, hkeep, hsame⟩ :=
      ihrest hrest (Function.update children i child)
        (fun j hj => by rw [hother j hj]; exact hsh j (List.mem_cons_of_mem _ hj))
        (failed || e) s₁
    have hchild : children' i = child := by rw [hkeep i hi, Function.update_self]
    refine ⟨children', e || failed', s', ?_, ?_, ?_, ?_⟩
    · rw [walkChildren, hrun]
      simp only [hrun', Bool.or_assoc]
    · have hmap : (rest.flatMap fun j => (Function.update children i child j).leaves) =
          rest.flatMap fun j => (children j).leaves := by
        apply List.flatMap_congr
        intro j hj
        rw [hother j hj]
      rw [hmap] at hvisits
      rw [List.flatMap_cons, visits_append, hwalked.visits]
      simp only [hvisits, List.flatMap_cons, hchild]
    · intro j hj
      rw [List.mem_cons, not_or] at hj
      rw [hkeep j hj.2, Function.update_of_ne hj.1]
    · intro j hj
      rcases List.mem_cons.mp hj with rfl | hj
      · rw [hchild]
        exact hwalked.same
      · rw [hsame j hj, hother j hj]

/-- A walk of a shaped tree is the run of its visits over the leaves. -/
theorem walk_leaves (hg : ∀ a s, g (f a s).1 = g a) {n : ℕ} (t : RadixTree r α) (s : σ)
    (ht : Shaped n t) :
    ∃ t' failed s', walk f n t s = some (t', failed, s') ∧ WalkedLeaves f g t t' s failed s' := by
  induction n generalizing t s with
  | zero =>
    obtain _ | a | ⟨address, children⟩ := t
    · exact ⟨null, false, s, rfl, rfl, rfl⟩
    · refine ⟨leaf (f a s).1, (f a s).2.1, (f a s).2.2, rfl, ?_, ?_⟩
      · simp only [leaves, visits, Bool.or_false]
      · rw [map, map, hg]
    · exact ht.elim
  | succ n ih =>
    obtain _ | a | ⟨address, children⟩ := t
    · exact ⟨null, false, s, rfl, rfl, rfl⟩
    · exact ht.elim
    · obtain ⟨children', failed, s', hrun, hvisits, -, hsame⟩ :=
        walkChildren_leaves ih (List.finRange r) (List.nodup_finRange r) children
          (fun i _ => ht i) false s
      refine ⟨node address children', failed, s', ?_, hvisits, ?_⟩
      · rw [walk, hrun, Option.map_some, Bool.false_or]
      · rw [map, map]
        congr 1
        funext i
        exact hsame i (List.mem_finRange i)

end GietVm.Library.RadixTree
