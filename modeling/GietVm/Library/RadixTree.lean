import Mathlib.Logic.Function.Basic
import Mathlib.Data.List.FinRange
import Mathlib.Algebra.Order.Ring.Nat
import Mathlib.Tactic.Common

/-!
# Radix trees of variable height

A radix tree maps indices to leaves: an inner node has `r` children, and the digits of
an index in base `r`, from the most significant one on, select the path to its leaf. The
height is not stored in the tree. It is kept beside it, and a tree of `n` levels covers
the indices below `r ^ n`; a new level is added above the root, as the father of the old
one. Missing subtrees are `null`, and the nodes carry the addresses of their cells.

The tree is untyped in the way C trees are: nothing prevents a leaf where a node is
expected. `Shaped n` says that every path ends after exactly `n` levels. Under it, each
edit is described by its effect on `get?`, the leaf at an index.
-/

namespace GietVm.Library

/-- A tree, or a null pointer to one. -/
inductive RadixTree (r : ℕ) (α : Type)
  | null
  | leaf (a : α)
  | node (address : ℕ) (children : Fin r → RadixTree r α)

namespace RadixTree

variable {r : ℕ} [NeZero r] {α σ : Type}

/-- Digit `l` of an index. -/
def digit (r : ℕ) [NeZero r] (k l : ℕ) : Fin r :=
  ⟨k / r ^ l % r, Nat.mod_lt _ (Nat.pos_of_ne_zero (NeZero.ne r))⟩

/-- A node without children. -/
def emptyNode (address : ℕ) : RadixTree r α := node address fun _ => null

/-- A node above a tree, which becomes the child of digit 0. -/
def addRoot (address : ℕ) (t : RadixTree r α) : RadixTree r α :=
  node address fun i => if i = 0 then t else null

/-- What the path of an index ends in, `n` levels below. -/
def find : ℕ → RadixTree r α → ℕ → RadixTree r α
  | 0, t, _ => t
  | n + 1, node _ children, k => find n (children (digit r k n)) k
  | _ + 1, null, _ => null
  | _ + 1, leaf _, _ => null

/-- The leaf of an index. -/
def get? (n : ℕ) (t : RadixTree r α) (k : ℕ) : Option α :=
  match find n t k with
  | leaf a => some a
  | null => none
  | node _ _ => none

/-- A missing node is created, with its cell at `address`. The children of the last level
are leaves, and a missing leaf stays missing. -/
def openChild : ℕ → ℕ → RadixTree r α → RadixTree r α × ℕ
  | _ + 1, address, null => (emptyNode address, address + 1)
  | _ + 1, address, leaf a => (leaf a, address)
  | _ + 1, address, node a children => (node a children, address)
  | 0, address, t => (t, address)

/-- Create the missing nodes on the path of an index, with cells from `address` on.
There is no path through a null pointer or a leaf. -/
def openPath : ℕ → ℕ → RadixTree r α → ℕ → Option (RadixTree r α × ℕ)
  | 0, address, t, _ => some (t, address)
  | n + 1, address, node a children, k =>
    let child := openChild n address (children (digit r k n))
    (openPath n child.2 child.1 k).map fun (child', next) =>
      (node a (Function.update children (digit r k n) child'), next)
  | _ + 1, _, null, _ => none
  | _ + 1, _, leaf _, _ => none

/-- Put a leaf at the end of the path of an index. -/
def attach : ℕ → RadixTree r α → ℕ → α → RadixTree r α
  | 0, _, _, a => leaf a
  | n + 1, node address children, k, a =>
    node address (Function.update children (digit r k n) (attach n (children (digit r k n)) k a))
  | _ + 1, null, _, _ => null
  | _ + 1, leaf b, _, _ => leaf b

/-- Edit the leaf of an index. -/
def modify (f : α → α) : ℕ → RadixTree r α → ℕ → RadixTree r α
  | 0, leaf a, _ => leaf (f a)
  | 0, null, _ => null
  | 0, node address children, _ => node address children
  | n + 1, node address children, k =>
    node address (Function.update children (digit r k n) (modify f n (children (digit r k n)) k))
  | _ + 1, null, _ => null
  | _ + 1, leaf a, _ => leaf a

/-- Visit children in order, remembering whether one visit failed. -/
def walkChildren (visit : RadixTree r α → σ → Option (RadixTree r α × Bool × σ)) :
    List (Fin r) → (Fin r → RadixTree r α) → Bool → σ →
      Option ((Fin r → RadixTree r α) × Bool × σ)
  | [], children, failed, s => some (children, failed, s)
  | i :: rest, children, failed, s =>
    match visit (children i) s with
    | none => none
    | some (child, failed', s') =>
      walkChildren visit rest (Function.update children i child) (failed || failed') s'

/-- Visit the leaves in index order. `f` edits a leaf together with a state and tells
whether it failed. There is no visit of a tree of another height. -/
def walk (f : α → σ → α × Bool × σ) : ℕ → RadixTree r α → σ → Option (RadixTree r α × Bool × σ)
  | 0, leaf a, s => some (leaf (f a s).1, (f a s).2.1, (f a s).2.2)
  | 0, null, s => some (null, false, s)
  | 0, node _ _, _ => none
  | n + 1, node address children, s =>
    (walkChildren (walk f n) (List.finRange r) children false s).map
      fun (children', failed, s') => (node address children', failed, s')
  | _ + 1, null, s => some (null, false, s)
  | _ + 1, leaf _, _ => none

/-- Every path ends after exactly `n` levels. -/
def Shaped : ℕ → RadixTree r α → Prop
  | _, null => True
  | 0, leaf _ => True
  | 0, node _ _ => False
  | n + 1, node _ children => ∀ i, Shaped n (children i)
  | _ + 1, leaf _ => False

/-- All the nodes on the path of an index exist. -/
def PathOpen : ℕ → RadixTree r α → ℕ → Prop
  | 0, _, _ => True
  | n + 1, node _ children, k => PathOpen n (children (digit r k n)) k
  | _ + 1, null, _ => False
  | _ + 1, leaf _, _ => False

/-- The tree is a node. -/
def IsNode : RadixTree r α → Prop
  | node _ _ => True
  | null => False
  | leaf _ => False

/-! ## Digits -/

omit [NeZero r] in
theorem mod_pow_succ_eq_iff (hr : 0 < r) (k k' n : ℕ) :
    k % r ^ (n + 1) = k' % r ^ (n + 1) ↔
      k / r ^ n % r = k' / r ^ n % r ∧ k % r ^ n = k' % r ^ n := by
  have hsplit (x : ℕ) : x % r ^ (n + 1) = x % r ^ n + r ^ n * (x / r ^ n % r) := by
    rw [pow_succ, Nat.mod_mul]
  have hpos : 0 < r ^ n := Nat.pow_pos hr
  rw [hsplit, hsplit]
  constructor
  · intro h
    have hlow : k % r ^ n = k' % r ^ n := by
      have := congrArg (· % r ^ n) h
      simpa [Nat.add_mul_mod_self_left] using this
    rw [hlow] at h
    exact ⟨Nat.eq_of_mul_eq_mul_left hpos (Nat.add_left_cancel h), hlow⟩
  · rintro ⟨hdigit, hlow⟩
    rw [hdigit, hlow]

theorem digit_eq_iff (k k' n : ℕ) :
    k % r ^ (n + 1) = k' % r ^ (n + 1) ↔
      digit r k n = digit r k' n ∧ k % r ^ n = k' % r ^ n := by
  rw [mod_pow_succ_eq_iff (Nat.pos_of_ne_zero (NeZero.ne r)), digit, digit, Fin.mk.injEq]

theorem digit_eq_zero_iff {k n : ℕ} (hk : k < r ^ (n + 1)) : digit r k n = 0 ↔ k < r ^ n := by
  have hpos : 0 < r ^ n := Nat.pow_pos (Nat.pos_of_ne_zero (NeZero.ne r))
  have hquot : k / r ^ n < r := by
    rw [Nat.div_lt_iff_lt_mul hpos]
    rwa [pow_succ, Nat.mul_comm] at hk
  rw [Fin.ext_iff]
  change k / r ^ n % r = 0 ↔ k < r ^ n
  rw [Nat.mod_eq_of_lt hquot, Nat.div_eq_zero_iff]
  omega

/-! ## The leaf at an index -/

@[simp] theorem get?_null (n k : ℕ) : get? n (null : RadixTree r α) k = none := by
  cases n <;> rfl

@[simp] theorem get?_leaf (a : α) (k : ℕ) : get? 0 (leaf a : RadixTree r α) k = some a := rfl

@[simp] theorem get?_node (n address : ℕ) (children : Fin r → RadixTree r α) (k : ℕ) :
    get? (n + 1) (node address children) k = get? n (children (digit r k n)) k := rfl

omit [NeZero r] in
@[simp] theorem shaped_null (n : ℕ) : Shaped n (null : RadixTree r α) := by cases n <;> trivial

omit [NeZero r] in
@[simp] theorem shaped_emptyNode (n address : ℕ) :
    Shaped (n + 1) (emptyNode address : RadixTree r α) := fun _ => shaped_null n

@[simp] theorem get?_emptyNode (n address k : ℕ) :
    get? n (emptyNode address : RadixTree r α) k = none := by
  cases n with
  | zero => rfl
  | succ n => rw [emptyNode, get?_node, get?_null]

/-- A shaped path ends in a leaf or in nothing. -/
theorem find_eq (n : ℕ) (t : RadixTree r α) (k : ℕ) (ht : Shaped n t) :
    find n t k = match get? n t k with
      | some a => leaf a
      | none => null := by
  induction n generalizing t with
  | zero =>
    cases t with
    | null => rfl
    | leaf a => rfl
    | node a c => exact ht.elim
  | succ n ih =>
    cases t with
    | null => rfl
    | leaf a => exact ht.elim
    | node address children => exact ih (children (digit r k n)) (ht _)

theorem get?_congr {n k k' : ℕ} (t : RadixTree r α) (h : k % r ^ n = k' % r ^ n) :
    get? n t k = get? n t k' := by
  induction n generalizing t with
  | zero => cases t <;> rfl
  | succ n ih =>
    obtain ⟨hdigit, hlow⟩ := (digit_eq_iff k k' n).mp h
    cases t with
    | null => rfl
    | leaf a => rfl
    | node address children => rw [get?_node, get?_node, hdigit, ih _ hlow]

/-! ## Edits -/

theorem shaped_attach {n : ℕ} {t : RadixTree r α} (ht : Shaped n t) (k : ℕ) (a : α) :
    Shaped n (attach n t k a) := by
  induction n generalizing t with
  | zero => trivial
  | succ n ih =>
    cases t with
    | null => trivial
    | leaf b => exact ht
    | node address children =>
      intro i
      by_cases hi : i = digit r k n
      · subst hi
        rw [Function.update_self]
        exact ih (ht _)
      · rw [Function.update_of_ne hi]
        exact ht i

theorem isNode_attach {n : ℕ} {t : RadixTree r α} (ht : t.IsNode) (k : ℕ) (a : α) :
    (attach (n + 1) t k a).IsNode := by
  cases t with
  | node address children => trivial
  | null => exact ht
  | leaf b => exact ht

/-- An attached leaf is found under its index, and every other index keeps its leaf. -/
theorem get?_attach {n : ℕ} {t : RadixTree r α} {k : ℕ} (hopen : PathOpen n t k) (a : α)
    (k' : ℕ) :
    get? n (attach n t k a) k' = if k' % r ^ n = k % r ^ n then some a else get? n t k' := by
  induction n generalizing t with
  | zero => simp [attach, Nat.mod_one]
  | succ n ih =>
    cases t with
    | null => exact hopen.elim
    | leaf b => exact hopen.elim
    | node address children =>
      rw [attach, get?_node, get?_node]
      by_cases hdigit : digit r k' n = digit r k n
      · rw [hdigit, Function.update_self, ih hopen]
        simp [digit_eq_iff k' k n, hdigit]
      · rw [Function.update_of_ne hdigit, if_neg]
        rw [digit_eq_iff]
        exact fun h => hdigit h.1

theorem shaped_modify {n : ℕ} {t : RadixTree r α} (ht : Shaped n t) (f : α → α) (k : ℕ) :
    Shaped n (modify f n t k) := by
  induction n generalizing t with
  | zero => cases t <;> exact ht
  | succ n ih =>
    cases t with
    | null => trivial
    | leaf b => exact ht
    | node address children =>
      intro i
      by_cases hi : i = digit r k n
      · subst hi
        rw [Function.update_self]
        exact ih (ht _)
      · rw [Function.update_of_ne hi]
        exact ht i

theorem isNode_modify {n : ℕ} {t : RadixTree r α} (ht : t.IsNode) (f : α → α) (k : ℕ) :
    (modify f (n + 1) t k).IsNode := by
  cases t with
  | node address children => trivial
  | null => exact ht
  | leaf b => exact ht

theorem get?_modify (n : ℕ) (t : RadixTree r α) (f : α → α) (k k' : ℕ) :
    get? n (modify f n t k) k' =
      if k' % r ^ n = k % r ^ n then (get? n t k').map f else get? n t k' := by
  induction n generalizing t with
  | zero => cases t <;> simp [modify, Nat.mod_one, get?, find]
  | succ n ih =>
    cases t with
    | null => simp [modify]
    | leaf b => simp [modify, get?, find]
    | node address children =>
      rw [modify, get?_node, get?_node]
      by_cases hdigit : digit r k' n = digit r k n
      · rw [hdigit, Function.update_self, ih]
        simp [digit_eq_iff k' k n, hdigit]
      · rw [Function.update_of_ne hdigit, if_neg]
        rw [digit_eq_iff]
        exact fun h => hdigit h.1

theorem shaped_addRoot {n : ℕ} {t : RadixTree r α} (ht : Shaped n t) (address : ℕ) :
    Shaped (n + 1) (addRoot address t) := by
  intro i
  change Shaped n (if i = 0 then t else null)
  split
  · exact ht
  · exact shaped_null n

/-- A new level keeps the leaves of the indices covered so far and adds none. -/
theorem get?_addRoot {n : ℕ} (t : RadixTree r α) (address : ℕ) {k : ℕ} (hk : k < r ^ (n + 1)) :
    get? (n + 1) (addRoot address t) k = if k < r ^ n then get? n t k else none := by
  rw [addRoot, get?_node]
  simp only [digit_eq_zero_iff hk]
  split
  · rfl
  · exact get?_null n k

omit [NeZero r] in
/-- A created child covers the leaves of the missing one. -/
theorem openChild_spec {n : ℕ} {t : RadixTree r α} (ht : Shaped n t) (address : ℕ) :
    Shaped n (openChild n address t).1 ∧ (n ≠ 0 → (openChild n address t).1.IsNode) ∧
      address ≤ (openChild n address t).2 := by
  cases n with
  | zero => exact ⟨ht, fun h => (h rfl).elim, le_rfl⟩
  | succ n =>
    cases t with
    | null => exact ⟨shaped_emptyNode n address, fun _ => trivial, Nat.le_succ address⟩
    | leaf a => exact ht.elim
    | node a children => exact ⟨ht, fun _ => trivial, le_rfl⟩

@[simp] theorem get?_openChild (n address : ℕ) (t : RadixTree r α) (k : ℕ) :
    get? n (openChild n address t).1 k = get? n t k := by
  cases n with
  | zero => rfl
  | succ n =>
    cases t with
    | null => simp [openChild]
    | leaf a => rfl
    | node a children => rfl

/-- Opening a path succeeds on a shaped tree and changes no leaf. -/
theorem openPath_spec {n : ℕ} {t : RadixTree r α} (ht : Shaped n t) (hnode : n ≠ 0 → t.IsNode)
    (address k : ℕ) :
    ∃ t' address', openPath n address t k = some (t', address') ∧ Shaped n t' ∧
      (n ≠ 0 → t'.IsNode) ∧ PathOpen n t' k ∧ address ≤ address' ∧
      ∀ k', get? n t' k' = get? n t k' := by
  induction n generalizing t address with
  | zero => exact ⟨t, address, rfl, ht, fun h => (h rfl).elim, trivial, le_rfl, fun _ => rfl⟩
  | succ n ih =>
    obtain _ | _ | ⟨a, children⟩ := t
    · exact (hnode (Nat.succ_ne_zero n)).elim
    · exact ht.elim
    · obtain ⟨hshaped, hisNode, hle⟩ := openChild_spec (ht (digit r k n)) address
      obtain ⟨child, next, hrun, hshaped', hisNode', hopen, hle', hget⟩ :=
        ih hshaped hisNode (openChild n address (children (digit r k n))).2
      refine ⟨node a (Function.update children (digit r k n) child), next, ?_, ?_,
        fun _ => trivial, ?_, hle.trans hle', ?_⟩
      · rw [openPath, hrun, Option.map_some]
      · intro j
        by_cases hj : j = digit r k n
        · subst hj
          rwa [Function.update_self]
        · rw [Function.update_of_ne hj]
          exact ht j
      · change PathOpen n (Function.update children (digit r k n) child (digit r k n)) k
        rwa [Function.update_self]
      · intro k'
        rw [get?_node, get?_node]
        by_cases hj : digit r k' n = digit r k n
        · rw [hj, Function.update_self, hget, get?_openChild]
        · rw [Function.update_of_ne hj]

/-! ## Walks -/

section Walk

variable (f : α → σ → α × Bool × σ)

/-- The outcome of a walk from a tree `t` to a tree `t'` and a state `s'`: each leaf of `t`
was visited once, in some state that meets `I`, and what that visit established and the
visits of the leaves in `L` preserve still holds at the end. -/
def Walked (I : σ → Prop) (L : α → Prop) (n : ℕ) (t t' : RadixTree r α) (failed : Bool)
    (s' : σ) : Prop :=
  Shaped n t' ∧ (t.IsNode → t'.IsNode) ∧
    ∀ k, match get? n t k with
      | none => get? n t' k = none
      | some a => ∃ s₁, I s₁ ∧ get? n t' k = some (f a s₁).1 ∧
          (failed = false → (f a s₁).2.1 = false) ∧
          ∀ J : σ → Prop, (∀ b s, L b → I s → J s → J (f b s).2.2) → J (f a s₁).2.2 → J s'

variable {f} {I : σ → Prop} {L : α → Prop}

/-- The leaf that a walk leaves at an index, and the state of its visit. -/
theorem Walked.visit {n : ℕ} {t t' : RadixTree r α} {failed : Bool} {s' : σ}
    (h : Walked f I L n t t' failed s') {k : ℕ} {a : α} (ha : get? n t k = some a) :
    ∃ s₁, I s₁ ∧ get? n t' k = some (f a s₁).1 ∧ (failed = false → (f a s₁).2.1 = false) ∧
      ∀ J : σ → Prop, (∀ b s, L b → I s → J s → J (f b s).2.2) → J (f a s₁).2.2 → J s' := by
  have := h.2.2 k
  rwa [ha] at this

theorem Walked.none {n : ℕ} {t t' : RadixTree r α} {failed : Bool} {s' : σ}
    (h : Walked f I L n t t' failed s') {k : ℕ} (ha : get? n t k = none) :
    get? n t' k = none := by
  have := h.2.2 k
  rwa [ha] at this

/-- What one walk does to a tree and a state. -/
private def WalkRule (f : α → σ → α × Bool × σ) (I : σ → Prop) (L : α → Prop) (n : ℕ) : Prop :=
  ∀ (t : RadixTree r α) (s : σ), Shaped n t → (∀ k a, get? n t k = some a → L a) → I s →
    ∃ t' failed s', walk f n t s = some (t', failed, s') ∧ I s' ∧
      Walked f I L n t t' failed s' ∧
      ((∀ b s, L b → I s → (f b s).2.1 = false) → failed = false) ∧
      ∀ J : σ → Prop, (∀ b s, L b → I s → J s → J (f b s).2.2) → J s → J s'

/-- The visits of a list of children, each of which can be walked. -/
private theorem walkChildren_rule {n : ℕ} (ih : WalkRule (r := r) f I L n)
    (is : List (Fin r)) (hnd : is.Nodup) (children : Fin r → RadixTree r α)
    (hsh : ∀ i ∈ is, Shaped n (children i))
    (hleaf : ∀ i ∈ is, ∀ k a, get? n (children i) k = some a → L a)
    (failed : Bool) (s : σ) (hs : I s) :
    ∃ children' failed' s', walkChildren (walk f n) is children failed s =
        some (children', failed', s') ∧ I s' ∧ (failed' = false → failed = false) ∧
      ((∀ b s, L b → I s → (f b s).2.1 = false) → failed = false → failed' = false) ∧
      (∀ i, i ∉ is → children' i = children i) ∧
      (∀ i ∈ is, Walked f I L n (children i) (children' i) failed' s') ∧
      ∀ J : σ → Prop, (∀ b s, L b → I s → J s → J (f b s).2.2) → J s → J s' := by
  induction is generalizing children failed s with
  | nil =>
    exact ⟨children, failed, s, rfl, hs, id, fun _ => id, fun _ _ => rfl, by simp, fun _ _ h => h⟩
  | cons i rest ihrest =>
    obtain ⟨hi, hrest⟩ := List.nodup_cons.mp hnd
    obtain ⟨child, e, s₁, hrun, hs₁, hwalked, hfine, hstable⟩ :=
      ih (children i) s (hsh i (by simp)) (hleaf i (by simp)) hs
    have hother (j : Fin r) (hj : j ∈ rest) : Function.update children i child j = children j := by
      refine Function.update_of_ne ?_ _ _
      rintro rfl
      exact hi hj
    obtain ⟨children', failed', s', hrun', hs', hmono, hfine', hkeep, hvisited, hstable'⟩ :=
      ihrest hrest (Function.update children i child)
        (fun j hj => by rw [hother j hj]; exact hsh j (List.mem_cons_of_mem _ hj))
        (fun j hj => by rw [hother j hj]; exact hleaf j (List.mem_cons_of_mem _ hj))
        (failed || e) s₁ hs₁
    refine ⟨children', failed', s', ?_, hs', ?_, ?_, ?_, ?_, ?_⟩
    · rw [walkChildren, hrun]
      exact hrun'
    · intro h
      exact (Bool.or_eq_false_iff.mp (hmono h)).1
    · exact fun hall hfailed => hfine' hall (Bool.or_eq_false_iff.mpr ⟨hfailed, hfine hall⟩)
    · intro j hj
      rw [List.mem_cons, not_or] at hj
      rw [hkeep j hj.2, Function.update_of_ne hj.1]
    · intro j hj
      rcases List.mem_cons.mp hj with rfl | hj
      · -- the visits of the later children keep what the visits of this child established
        rw [hkeep j hi, Function.update_self]
        refine ⟨hwalked.1, hwalked.2.1, ?_⟩
        intro k
        cases ha : get? n (children j) k with
        | none => exact hwalked.none ha
        | some a =>
          obtain ⟨s₂, hs₂, hget, hfail, hJ⟩ := hwalked.visit ha
          refine ⟨s₂, hs₂, hget, fun h => hfail (Bool.or_eq_false_iff.mp (hmono h)).2, ?_⟩
          exact fun J hstep hJ₂ => hstable' J hstep (hJ J hstep hJ₂)
      · have := hvisited j hj
        rwa [hother j hj] at this
    · exact fun J hstep hJ => hstable' J hstep (hstable J hstep hJ)

private theorem walkRule (hI : ∀ b s, L b → I s → I (f b s).2.2) (n : ℕ) :
    WalkRule (r := r) f I L n := by
  induction n with
  | zero =>
    intro t s ht hleaf hs
    obtain _ | a | ⟨a, children⟩ := t
    · exact ⟨null, false, s, rfl, hs, ⟨trivial, id, fun k => by simp⟩, fun _ => rfl, fun _ _ h => h⟩
    · have ha : L a := hleaf 0 a rfl
      refine ⟨leaf (f a s).1, (f a s).2.1, (f a s).2.2, rfl, hI a s ha hs,
        ⟨trivial, fun h => h, fun k => ?_⟩, fun hall => hall a s ha hs, fun J hJ h => hJ a s ha hs h⟩
      exact ⟨s, hs, rfl, id, fun _ _ h => h⟩
    · exact ht.elim
  | succ n ih =>
    intro t s ht hleaf hs
    obtain _ | a | ⟨address, children⟩ := t
    · exact ⟨null, false, s, rfl, hs, ⟨trivial, id, fun k => by simp⟩, fun _ => rfl, fun _ _ h => h⟩
    · exact ht.elim
    · have hleaf' (i : Fin r) (k : ℕ) (a : α) (ha : get? n (children i) k = some a) : L a := by
        -- the leaf of `k` below child `i` is the leaf of the index with leading digit `i`
        refine hleaf (k % r ^ n + r ^ n * i.val) a ?_
        have hpos : 0 < r ^ n := Nat.pow_pos (Nat.pos_of_ne_zero (NeZero.ne r))
        have hdigit : digit r (k % r ^ n + r ^ n * i.val) n = i := by
          rw [Fin.ext_iff, digit]
          simp only [Nat.add_mul_div_left _ _ hpos, Nat.div_eq_of_lt (Nat.mod_lt k hpos),
            Nat.zero_add, Nat.mod_eq_of_lt i.isLt]
        rw [get?_node, hdigit, ← ha]
        exact get?_congr _ (by simp)
      obtain ⟨children', failed, s', hrun, hs', -, hfine, -, hvisited, hstable⟩ :=
        walkChildren_rule ih (List.finRange r) (List.nodup_finRange r) children
          (fun i _ => ht i) (fun i _ => hleaf' i) false s hs
      refine ⟨node address children', failed, s', ?_, hs', ?_, fun hall => hfine hall rfl, hstable⟩
      · rw [walk, hrun, Option.map_some]
      · refine ⟨fun i => (hvisited i (List.mem_finRange i)).1, fun h => h, fun k => ?_⟩
        rw [get?_node, get?_node]
        exact (hvisited (digit r k n) (List.mem_finRange _)).2.2 k

/-- A walk of a shaped tree whose leaves are all in `L` completes. It keeps every property
that the visits keep, it visits every leaf, and it fails only if a visit fails. -/
theorem walk_spec (hI : ∀ b s, L b → I s → I (f b s).2.2) {n : ℕ} {t : RadixTree r α} {s : σ}
    (ht : Shaped n t) (hleaf : ∀ k a, get? n t k = some a → L a) (hs : I s) :
    ∃ t' failed s', walk f n t s = some (t', failed, s') ∧ I s' ∧
      Walked f I L n t t' failed s' ∧
      ((∀ b s, L b → I s → (f b s).2.1 = false) → failed = false) ∧
      ∀ J : σ → Prop, (∀ b s, L b → I s → J s → J (f b s).2.2) → J s → J s' :=
  walkRule hI n t s ht hleaf hs

end Walk

end RadixTree

end GietVm.Library
