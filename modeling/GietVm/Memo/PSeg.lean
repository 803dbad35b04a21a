import Mathlib.Data.List.Forall2
import Mathlib.Data.List.Pairwise
import Mathlib.Data.List.MinMax
import Mathlib.Algebra.Order.Ring.Nat
import Mathlib.Tactic.Common
import Mathlib.Tactic.Ring

/-!
# Placement of the vsegs in a pseg

The memory mover places the vsegs of a mapping in its psegs: `addIdent` puts a vseg at its virtual
address, and `add` at the first address, in the order of the vsegs already there, where it fits
with its alignment. The vsegs stand in the order of the calls, so the search goes through the gaps
by looking again and again for the vseg with the next lma. `check` compares the ends of each vseg
with those of the vsegs before it.

Physical addresses are 64-bit numbers. An alignment is the position of a bit of an `int`, so it is
below 31. The copy of a vseg in the list of a pseg has no alignment: the constructor does not copy
`m_align`, and nothing reads it there.
-/

namespace GietVm.Memo

/-- A 64-bit number. -/
def u64 (n : ℕ) : ℕ := n % 2 ^ 64

/-- A vseg: `m_vma`, `m_lma` and `m_length`. -/
structure VSeg where
  vma : ℕ
  lma : ℕ
  length : ℕ
  deriving DecidableEq

/-- A pseg, with its vsegs in the order in which they were added. -/
structure PSeg where
  lma : ℕ
  length : ℕ
  isPeri : Bool
  vsegs : List VSeg
  deriving DecidableEq

/-- How `add` and `addIdent` leave the program. -/
inductive PSegExit
  | sizeZero
  | noSpace
  | overlap
  | assertion
  deriving DecidableEq

/-- How `check` throws: the number of the error and the two vsegs. -/
structure Overlapping where
  error : ℕ
  vseg : VSeg
  used : VSeg
  deriving DecidableEq

/-! ## `check` -/

/-- `it_limit` -/
def VSeg.itLimit (v : VSeg) : ℕ := u64 (v.lma + v.length)

/-- The error found when a vseg is compared with one before it, or 0: a later test replaces the
number of an earlier one. -/
def checkError (used v : VSeg) : ℕ :=
  let error := if used.lma = v.lma then 1 else 0
  let error := if used.itLimit = v.itLimit then 2 else error
  let error := if used.lma < v.lma ∧ v.lma < used.itLimit then 3 else error
  if used.lma < v.itLimit ∧ v.itLimit < used.itLimit then 4 else error

/-- The inner loop of `check`. -/
def checkAgainst (v : VSeg) : List VSeg → Except Overlapping Unit
  | [] => .ok ()
  | used :: rest =>
    if checkError used v ≠ 0 then .error ⟨checkError used v, v, used⟩ else checkAgainst v rest

/-- The outer loop of `check`. -/
def checkLoop : List VSeg → List VSeg → Except Overlapping Unit
  | _, [] => .ok ()
  | used, v :: rest => do
    checkAgainst v used
    checkLoop (used ++ [v]) rest

/-- `PSeg::check` -/
def PSeg.check (p : PSeg) : Except Overlapping Unit :=
  if p.isPeri then .ok () else checkLoop [] p.vsegs

/-! ## `add` -/

/-- `PSeg::align` -/
def alignAddr (toAlign alignPow2 : ℕ) : ℕ :=
  u64 (u64 (toAlign + 2 ^ alignPow2 - 1) / 2 ^ alignPow2 * 2 ^ alignPow2)

/-- The alignment that `add` gives to a vseg with this `m_align`, in pages of `2 ^ pagePow2`
bytes. -/
def alignmentOf (pagePow2 : ℕ) (align : ℤ) : ℕ := (max align pagePow2).toNat

/-- The search of the vseg with the lowest lma. -/
def lowest (first : VSeg) (vsegs : List VSeg) : VSeg :=
  vsegs.foldl (fun curr v => if v.lma < curr.lma then v else curr) first

/-- One turn of the search of the vseg with the lowest lma above an address. -/
def nextTurn (base : ℕ) : Option VSeg → VSeg → Option VSeg
  | none, v => if base < v.lma then some v else none
  | some next, v => if v.lma < next.lma ∧ base < v.lma then some v else some next

/-- The search of the vseg with the lowest lma above an address. -/
def nextAbove (base : ℕ) (vsegs : List VSeg) : Option VSeg :=
  vsegs.foldl (nextTurn base) none

/-- The loop of `add`, with the vsegs `prev` and `curr` as base and length, and the number of turns
left. -/
def addLoop (p : PSeg) (alignment length : ℕ) :
    ℕ → ℕ → ℕ → ℕ → ℕ → Except PSegExit ℕ
  | 0, _, _, _, _ => .error .noSpace
  | n + 1, prevBase, prevLength, currBase, currLength =>
    if u64 (alignAddr (u64 (prevBase + prevLength)) alignment + length) ≤ currBase then
      .ok (alignAddr (u64 (prevBase + prevLength)) alignment)
    else if 0 < n then
      match nextAbove currBase p.vsegs with
      | none => .error .assertion
      | some next => addLoop p alignment length n currBase currLength next.lma next.length
    else if u64 (alignAddr (u64 (currBase + currLength)) alignment + length) ≤
        u64 (p.lma + p.length) then
      .ok (alignAddr (u64 (currBase + currLength)) alignment)
    else .error .noSpace

/-- The lma that `add` gives to a vseg. -/
def PSeg.place (p : PSeg) (pagePow2 : ℕ) (align : ℤ) (v : VSeg) : Except PSegExit ℕ :=
  if v.length = 0 then .error .sizeZero
  else match p.vsegs with
    | [] => if v.length ≤ p.length then .ok p.lma else .error .noSpace
    | first :: rest =>
      let curr := lowest first (first :: rest)
      addLoop p (alignmentOf pagePow2 align) v.length (rest.length + 1) p.lma 0 curr.lma curr.length

/-- `PSeg::add` -/
def PSeg.add (p : PSeg) (pagePow2 : ℕ) (align : ℤ) (v : VSeg) : Except PSegExit PSeg := do
  let lma ← p.place pagePow2 align v
  pure { p with vsegs := p.vsegs ++ [{ v with lma := lma }] }

/-- The test of `addIdent` on one vseg. -/
def identOverlaps (v w : VSeg) : Prop :=
  v.vma = w.lma ∨ (v.vma < w.lma ∧ w.lma < u64 (v.vma + v.length)) ∨
    (w.lma < v.vma ∧ v.vma < u64 (w.lma + w.length))

instance (v w : VSeg) : Decidable (identOverlaps v w) := inferInstanceAs (Decidable (_ ∨ _))

/-- `PSeg::addIdent` -/
def PSeg.addIdent (p : PSeg) (v : VSeg) : Except PSegExit PSeg :=
  if ∃ w ∈ p.vsegs, identOverlaps v w then .error .overlap
  else .ok { p with vsegs := p.vsegs ++ [{ v with lma := v.vma }] }

/-! ## Vsegs as sets of addresses -/

/-- The end of a vseg. -/
def VSeg.limit (v : VSeg) : ℕ := v.lma + v.length

/-- Two vsegs have no address in common. -/
def VSeg.Disjoint (v w : VSeg) : Prop :=
  ∀ x, ¬ (v.lma ≤ x ∧ x < v.limit ∧ w.lma ≤ x ∧ x < w.limit)

/-- The first vseg is inside the second one, away from its ends. -/
def VSeg.Inside (v w : VSeg) : Prop := w.lma < v.lma ∧ v.limit < w.limit

/-- The first vseg is empty and stands at an end of the second one, or the second one is empty and
stands in the first one or at an end of it. -/
def VSeg.Touches (v w : VSeg) : Prop :=
  (v.length = 0 ∧ (w.lma = v.lma ∨ w.limit = v.lma)) ∨
    (w.length = 0 ∧ v.lma ≤ w.lma ∧ w.lma ≤ v.limit)

section Check

variable {used v : VSeg} {vsegs rest : List VSeg}

theorem disjoint_iff (v w : VSeg) :
    v.Disjoint w ↔ v.limit ≤ w.lma ∨ w.limit ≤ v.lma ∨ v.length = 0 ∨ w.length = 0 := by
  constructor
  · intro h
    by_contra hnot
    push Not at hnot
    rw [VSeg.limit, VSeg.limit] at hnot
    apply h (max v.lma w.lma)
    rw [VSeg.limit, VSeg.limit]
    omega
  · intro h x hx
    rw [VSeg.limit, VSeg.limit] at h hx
    omega

/-- The four tests of `check` on vsegs that end below 2^64. -/
theorem checkError_eq_zero_iff (hused : used.limit < 2 ^ 64) (hv : v.limit < 2 ^ 64) :
    checkError used v = 0 ↔ (used.Disjoint v ∨ used.Inside v) ∧ ¬ used.Touches v := by
  have hl : used.itLimit = used.limit := Nat.mod_eq_of_lt hused
  have hr : v.itLimit = v.limit := Nat.mod_eq_of_lt hv
  rw [disjoint_iff, VSeg.Inside, VSeg.Touches]
  simp only [checkError, hl, hr]
  rw [VSeg.limit, VSeg.limit]
  split_ifs
  · exact iff_of_false (by decide) (by omega)
  · exact iff_of_false (by decide) (by omega)
  · exact iff_of_false (by decide) (by omega)
  · exact iff_of_false (by decide) (by omega)
  · exact iff_of_true rfl (by omega)

theorem checkAgainst_iff (v : VSeg) (used : List VSeg) :
    checkAgainst v used = .ok () ↔ ∀ u ∈ used, checkError u v = 0 := by
  induction used with
  | nil => exact ⟨fun _ _ hu => absurd hu List.not_mem_nil, fun _ => rfl⟩
  | cons u used ih =>
    rw [checkAgainst, List.forall_mem_cons, ← ih]
    by_cases herror : checkError u v = 0
    · rw [if_neg (not_not.mpr herror)]
      exact ⟨fun h => ⟨herror, h⟩, fun h => h.2⟩
    · rw [if_pos herror]
      exact ⟨fun h => (by cases h), fun h => absurd h.1 herror⟩

theorem checkLoop_iff (used rest : List VSeg) : checkLoop used rest = .ok () ↔
    rest.Pairwise (fun u v => checkError u v = 0) ∧ ∀ u ∈ used, ∀ v ∈ rest, checkError u v = 0 := by
  induction rest generalizing used with
  | nil =>
    exact ⟨fun _ => ⟨List.Pairwise.nil, fun _ _ _ hv => absurd hv List.not_mem_nil⟩, fun _ => rfl⟩
  | cons v rest ih =>
    have hbind : checkLoop used (v :: rest) = .ok () ↔
        checkAgainst v used = .ok () ∧ checkLoop (used ++ [v]) rest = .ok () := by
      rw [checkLoop]
      cases checkAgainst v used with
      | error e => exact ⟨fun h => (by cases h), fun h => (by cases h.1)⟩
      | ok u => exact ⟨fun h => ⟨rfl, h⟩, fun h => h.2⟩
    rw [hbind, checkAgainst_iff, ih, List.pairwise_cons]
    constructor
    · rintro ⟨hused, hpair, hall⟩
      refine ⟨⟨fun w hw => hall v (List.mem_append_right _ (List.mem_singleton_self v)) w hw,
        hpair⟩, fun u hu w hw => ?_⟩
      obtain rfl | hw := List.mem_cons.mp hw
      · exact hused u hu
      · exact hall u (List.mem_append_left _ hu) w hw
    · rintro ⟨⟨hv, hpair⟩, hall⟩
      refine ⟨fun u hu => hall u hu v List.mem_cons_self, hpair, fun u hu w hw => ?_⟩
      obtain hu | hu := List.mem_append.mp hu
      · exact hall u hu w (List.mem_cons_of_mem v hw)
      · rw [List.mem_singleton.mp hu]
        exact hv w hw

/-- `check` accepts the vsegs when no test finds an error. -/
theorem check_iff {p : PSeg} (hram : p.isPeri = false) (hlimit : ∀ v ∈ p.vsegs, v.limit < 2 ^ 64) :
    p.check = .ok () ↔ p.vsegs.Pairwise fun u v =>
      (u.Disjoint v ∨ u.Inside v) ∧ ¬ u.Touches v := by
  rw [PSeg.check, if_neg (by rw [hram]; exact Bool.false_ne_true), checkLoop_iff]
  have hpair : (p.vsegs.Pairwise fun u v => checkError u v = 0) ↔
      p.vsegs.Pairwise fun u v => (u.Disjoint v ∨ u.Inside v) ∧ ¬ u.Touches v :=
    List.Pairwise.iff_of_mem fun hu hv => checkError_eq_zero_iff (hlimit _ hu) (hlimit _ hv)
  rw [← hpair]
  exact ⟨fun h => h.1, fun h => ⟨h, fun u hu => absurd hu List.not_mem_nil⟩⟩

end Check

/-! ## `align` -/

section Align

variable {x y k : ℕ}

/-- No 64-bit sum of `align` overflows. -/
theorem alignAddr_eq (hfit : x + 2 ^ k < 2 ^ 64 + 1) :
    alignAddr x k = (x + 2 ^ k - 1) / 2 ^ k * 2 ^ k := by
  have hsum : u64 (x + 2 ^ k - 1) = x + 2 ^ k - 1 := Nat.mod_eq_of_lt (by omega)
  have hle : (x + 2 ^ k - 1) / 2 ^ k * 2 ^ k ≤ x + 2 ^ k - 1 := Nat.div_mul_le_self _ _
  rw [alignAddr, hsum]
  exact Nat.mod_eq_of_lt (by omega)

theorem dvd_alignAddr (hfit : x + 2 ^ k < 2 ^ 64 + 1) : 2 ^ k ∣ alignAddr x k := by
  rw [alignAddr_eq hfit]
  exact Nat.dvd_mul_left _ _

theorem le_alignAddr (hfit : x + 2 ^ k < 2 ^ 64 + 1) : x ≤ alignAddr x k := by
  have hpos : 0 < 2 ^ k := Nat.two_pow_pos k
  have hmod : (x + 2 ^ k - 1) % 2 ^ k < 2 ^ k := Nat.mod_lt _ hpos
  have hdiv : 2 ^ k * ((x + 2 ^ k - 1) / 2 ^ k) + (x + 2 ^ k - 1) % 2 ^ k = x + 2 ^ k - 1 :=
    Nat.div_add_mod _ _
  rw [alignAddr_eq hfit, Nat.mul_comm]
  omega

theorem alignAddr_lt (hfit : x + 2 ^ k < 2 ^ 64 + 1) : alignAddr x k < x + 2 ^ k := by
  have hpos : 0 < 2 ^ k := Nat.two_pow_pos k
  have hle : (x + 2 ^ k - 1) / 2 ^ k * 2 ^ k ≤ x + 2 ^ k - 1 := Nat.div_mul_le_self _ _
  rw [alignAddr_eq hfit]
  omega

/-- An aligned address that is not below an address is not below the result of `align` on it. -/
theorem alignAddr_least (hfit : x + 2 ^ k < 2 ^ 64 + 1) (hdvd : 2 ^ k ∣ y) (hle : x ≤ y) :
    alignAddr x k ≤ y := by
  have hpos : 0 < 2 ^ k := Nat.two_pow_pos k
  obtain ⟨q, rfl⟩ := hdvd
  rw [alignAddr_eq hfit, Nat.mul_comm (2 ^ k) q]
  apply Nat.mul_le_mul_right
  apply Nat.le_of_lt_succ
  rw [Nat.div_lt_iff_lt_mul hpos, Nat.succ_mul, Nat.mul_comm]
  omega

end Align

/-! ## The searches of `add` -/

section Searches

variable {first v w : VSeg} {vsegs : List VSeg} {base : ℕ}

theorem lowest_mem (first : VSeg) (vsegs : List VSeg) : lowest first vsegs ∈ first :: vsegs := by
  induction vsegs generalizing first with
  | nil => exact List.mem_cons_self
  | cons v vsegs ih =>
    have hmem := ih (if v.lma < first.lma then v else first)
    change lowest _ vsegs ∈ _
    obtain heq | htail := List.mem_cons.mp hmem
    · rw [heq]
      split_ifs
      · exact List.mem_cons_of_mem _ List.mem_cons_self
      · exact List.mem_cons_self
    · exact List.mem_cons_of_mem _ (List.mem_cons_of_mem _ htail)

theorem lowest_le (first : VSeg) (vsegs : List VSeg) :
    ∀ w ∈ first :: vsegs, (lowest first vsegs).lma ≤ w.lma := by
  induction vsegs generalizing first with
  | nil =>
    intro w hw
    rw [List.mem_singleton.mp hw]
    exact le_refl _
  | cons v vsegs ih =>
    have hih := ih (if v.lma < first.lma then v else first)
    have hhead := hih _ List.mem_cons_self
    change ∀ w ∈ first :: v :: vsegs,
      (lowest (if v.lma < first.lma then v else first) vsegs).lma ≤ w.lma
    intro w hw
    obtain rfl | hw := List.mem_cons.mp hw
    · apply le_trans hhead
      split_ifs <;> omega
    · obtain rfl | hw := List.mem_cons.mp hw
      · apply le_trans hhead
        split_ifs <;> omega
      · exact hih w (List.mem_cons_of_mem _ hw)

/-- The search from a vseg found before: the vseg found at the end is above the base, it is in the
list or it is the one found before, and no vseg of the list above the base is below it. -/
theorem nextTurn_foldl (start : Option VSeg) (hstart : ∀ a ∈ start, base < a.lma)
    (hnext : vsegs.foldl (nextTurn base) start = some w) :
    base < w.lma ∧ (w ∈ vsegs ∨ w ∈ start) ∧ (∀ a ∈ start, w.lma ≤ a.lma) ∧
      ∀ v ∈ vsegs, base < v.lma → w.lma ≤ v.lma := by
  induction vsegs generalizing start with
  | nil =>
    have hw : start = some w := hnext
    refine ⟨hstart w hw, Or.inr hw, fun a ha => ?_, fun v hv => absurd hv List.not_mem_nil⟩
    rw [Option.mem_unique ha hw]
  | cons v vsegs ih =>
    have hturn : (∀ a ∈ nextTurn base start v, base < a.lma) ∧
        (∀ a ∈ nextTurn base start v, a = v ∨ a ∈ start) ∧
        (∀ a ∈ start, ∃ b ∈ nextTurn base start v, b.lma ≤ a.lma) ∧
        (base < v.lma → ∃ b ∈ nextTurn base start v, b.lma ≤ v.lma) := by
      cases start with
      | none =>
        rw [nextTurn]
        split_ifs with habove
        · refine ⟨fun a ha => ?_, fun a ha => Or.inl (Option.mem_some.mp ha).symm,
            fun a ha => absurd ha (Option.not_mem_none a),
            fun _ => ⟨v, Option.mem_some_self v, le_refl _⟩⟩
          rw [← Option.mem_some.mp ha]
          exact habove
        · exact ⟨fun a ha => absurd ha (Option.not_mem_none a),
            fun a ha => absurd ha (Option.not_mem_none a),
            fun a ha => absurd ha (Option.not_mem_none a), fun h => absurd h habove⟩
      | some next =>
        have hbase : base < next.lma := hstart next rfl
        rw [nextTurn]
        split_ifs with hbelow
        · refine ⟨fun a ha => ?_, fun a ha => Or.inl (Option.mem_some.mp ha).symm,
            fun a ha => ⟨v, Option.mem_some_self v, ?_⟩,
            fun _ => ⟨v, Option.mem_some_self v, le_refl _⟩⟩
          · rw [← Option.mem_some.mp ha]
            exact hbelow.2
          · rw [← Option.mem_some.mp ha]
            exact Nat.le_of_lt hbelow.1
        · refine ⟨fun a ha => ?_, fun a ha => Or.inr ha,
            fun a ha => ⟨a, ha, le_refl _⟩, fun h => ⟨next, Option.mem_some_self next, ?_⟩⟩
          · rw [← Option.mem_some.mp ha]
            exact hbase
          · exact Nat.le_of_not_lt fun hlt => hbelow ⟨hlt, h⟩
    obtain ⟨habove, hfrom, hkept, hv⟩ := hturn
    obtain ⟨hw, hmem, hleast, hall⟩ := ih (nextTurn base start v) habove hnext
    refine ⟨hw, ?_, ?_, ?_⟩
    · obtain hmem | hmem := hmem
      · exact Or.inl (List.mem_cons_of_mem v hmem)
      · obtain rfl | hmem := hfrom w hmem
        · exact Or.inl List.mem_cons_self
        · exact Or.inr hmem
    · intro a ha
      obtain ⟨b, hb, hle⟩ := hkept a ha
      exact le_trans (hleast b hb) hle
    · intro u hu hlt
      obtain rfl | hu := List.mem_cons.mp hu
      · obtain ⟨b, hb, hle⟩ := hv hlt
        exact le_trans (hleast b hb) hle
      · exact hall u hu hlt

/-- The vseg found is the one with the lowest lma above the base. -/
theorem nextAbove_spec (hnext : nextAbove base vsegs = some w) :
    w ∈ vsegs ∧ base < w.lma ∧ ∀ v ∈ vsegs, base < v.lma → w.lma ≤ v.lma := by
  obtain ⟨hw, hmem, -, hall⟩ :=
    nextTurn_foldl none (fun a ha => absurd ha (Option.not_mem_none a)) hnext
  exact ⟨hmem.resolve_right (Option.not_mem_none w), hw, hall⟩

end Searches

/-! ## The loop of `add` -/

/-- The end of a pseg. -/
def PSeg.limit (p : PSeg) : ℕ := p.lma + p.length

/-- The vseg lies in the pseg. -/
def VSeg.Within (v : VSeg) (p : PSeg) : Prop := p.lma ≤ v.lma ∧ v.limit ≤ p.limit

/-- The vsegs of the pseg are not empty, lie in it and have no address in common. -/
structure PSeg.Sound (p : PSeg) : Prop where
  nonempty : ∀ v ∈ p.vsegs, v.length ≠ 0
  within : ∀ v ∈ p.vsegs, v.Within p
  disjoint : p.vsegs.Pairwise VSeg.Disjoint

/-- An address at which the vseg is aligned, lies in the pseg and has no address in common with the
vsegs that are there. -/
def PSeg.RoomAt (p : PSeg) (pagePow2 : ℕ) (align : ℤ) (v : VSeg) (x : ℕ) : Prop :=
  2 ^ alignmentOf pagePow2 align ∣ x ∧ VSeg.Within { v with lma := x } p ∧
    ∀ w ∈ p.vsegs, w.Disjoint { v with lma := x }

instance : Std.Symm VSeg.Disjoint where
  symm _ _ h x hx := h x ⟨hx.2.2.1, hx.2.2.2, hx.1, hx.2.1⟩

section Loop

variable {p : PSeg} {pagePow2 : ℕ} {align : ℤ} {v curr next : VSeg} {n x prevLimit : ℕ}

/-- The vsegs that are above another one begin after its end. -/
theorem PSeg.Sound.limit_le (hsound : p.Sound) {v w : VSeg} (hv : v ∈ p.vsegs) (hw : w ∈ p.vsegs)
    (hlt : v.lma < w.lma) : v.limit ≤ w.lma := by
  have hne : v ≠ w := fun h => absurd hlt (by rw [h]; exact lt_irrefl _)
  have hdisj : v.Disjoint w := hsound.disjoint.forall hv hw hne
  obtain hend | hend | hzero | hzero := (disjoint_iff v w).mp hdisj
  · exact hend
  · rw [VSeg.limit] at hend
    omega
  · exact absurd hzero (hsound.nonempty v hv)
  · exact absurd hzero (hsound.nonempty w hw)

/-- Only one vseg begins at an address. -/
theorem PSeg.Sound.eq_of_lma (hsound : p.Sound) {v w : VSeg} (hv : v ∈ p.vsegs) (hw : w ∈ p.vsegs)
    (heq : v.lma = w.lma) : v = w := by
  by_contra hne
  have hdisj : v.Disjoint w := hsound.disjoint.forall hv hw hne
  have hzero := hsound.nonempty v hv
  have hzero' := hsound.nonempty w hw
  apply hdisj v.lma
  rw [VSeg.limit, VSeg.limit]
  omega

/-- The vsegs that are not above another one end before its end. -/
theorem PSeg.Sound.limit_le_limit (hsound : p.Sound) {v w : VSeg} (hv : v ∈ p.vsegs)
    (hw : w ∈ p.vsegs) (hle : v.lma ≤ w.lma) : v.limit ≤ w.limit := by
  obtain hlt | heq := Nat.lt_or_eq_of_le hle
  · exact le_trans (hsound.limit_le hv hw hlt) (Nat.le_add_right _ _)
  · rw [hsound.eq_of_lma hv hw heq]

/-- What the loop of `add` knows at a vseg, with `n` turns left after this one: the vsegs below it
end before `prevLimit`, at most `n` vsegs are above it, and there is no room below `prevLimit`. -/
structure Searching (p : PSeg) (pagePow2 : ℕ) (align : ℤ) (v : VSeg) (n prevLimit : ℕ)
    (curr : VSeg) : Prop where
  mem : curr ∈ p.vsegs
  base : p.lma ≤ prevLimit
  below : prevLimit ≤ curr.lma
  visited : ∀ w ∈ p.vsegs, curr.lma ≤ w.lma ∨ w.limit ≤ prevLimit
  left : (p.vsegs.filter fun w => curr.lma < w.lma).length ≤ n
  room : ∀ x, p.RoomAt pagePow2 align v x → prevLimit ≤ x

/-- The aligned end of the previous vseg has room if the vseg ends before the current one. -/
theorem Searching.roomAt (h : Searching p pagePow2 align v n prevLimit curr) (hsound : p.Sound)
    (hdvd : 2 ^ alignmentOf pagePow2 align ∣ x) (hge : prevLimit ≤ x)
    (hgap : x + v.length ≤ curr.lma) : p.RoomAt pagePow2 align v x := by
  have hcurr := (hsound.within curr h.mem).2
  have hbase := h.base
  refine ⟨hdvd, ⟨?_, ?_⟩, fun w hw => (disjoint_iff _ _).mpr ?_⟩
  · change p.lma ≤ x
    omega
  · change x + v.length ≤ p.limit
    rw [VSeg.limit] at hcurr
    omega
  · change w.limit ≤ x ∨ x + v.length ≤ w.lma ∨ _
    obtain hge | hle := h.visited w hw
    · exact Or.inr (Or.inl (by omega))
    · exact Or.inl (by omega)

/-- Behind the last vseg, there is room where the vseg ends in the pseg. -/
theorem Searching.roomAt_tail (h : Searching p pagePow2 align v 0 prevLimit curr)
    (hsound : p.Sound) (hdvd : 2 ^ alignmentOf pagePow2 align ∣ x) (hge : curr.limit ≤ x)
    (htail : x + v.length ≤ p.limit) : p.RoomAt pagePow2 align v x := by
  have hcurr := (hsound.within curr h.mem).1
  have hlast : ∀ w ∈ p.vsegs, w.lma ≤ curr.lma := by
    intro w hw
    have hnil := List.eq_nil_of_length_eq_zero (Nat.le_zero.mp h.left)
    have hnot := List.filter_eq_nil_iff.mp hnil w hw
    rw [decide_eq_true_eq] at hnot
    exact Nat.le_of_not_lt hnot
  refine ⟨hdvd, ⟨?_, htail⟩, fun w hw => (disjoint_iff _ _).mpr (Or.inl ?_)⟩
  · change p.lma ≤ x
    rw [VSeg.limit] at hge
    omega
  · exact le_trans (hsound.limit_le_limit hw h.mem (hlast w hw)) hge

/-- When the vseg does not fit before the current one, there is only room behind this one. -/
theorem Searching.room_limit (h : Searching p pagePow2 align v n prevLimit curr)
    (hsound : p.Sound) (hv : v.length ≠ 0)
    (hfit : prevLimit + 2 ^ alignmentOf pagePow2 align < 2 ^ 64 + 1)
    (hgap : ¬ alignAddr prevLimit (alignmentOf pagePow2 align) + v.length ≤ curr.lma)
    (hx : p.RoomAt pagePow2 align v x) : curr.limit ≤ x := by
  have hleast := alignAddr_least hfit hx.1 (h.room x hx)
  have hzero := hsound.nonempty curr h.mem
  obtain hend | hend | hzero' | hzero' := (disjoint_iff _ _).mp (hx.2.2 curr h.mem)
  · exact hend
  · have hend' : x + v.length ≤ curr.lma := hend
    omega
  · exact absurd hzero' hzero
  · exact absurd hzero' hv

/-- The loop goes on at the next vseg. -/
theorem Searching.advance (h : Searching p pagePow2 align v (n + 1) prevLimit curr)
    (hsound : p.Sound) (hnext : nextAbove curr.lma p.vsegs = some next)
    (hroom : ∀ x, p.RoomAt pagePow2 align v x → curr.limit ≤ x) :
    Searching p pagePow2 align v n curr.limit next := by
  obtain ⟨hmem, hlt, hleast⟩ := nextAbove_spec hnext
  have hcurr := (hsound.within curr h.mem).1
  refine ⟨hmem, le_trans hcurr (Nat.le_add_right _ _), hsound.limit_le h.mem hmem hlt, ?_, ?_,
    hroom⟩
  · intro w hw
    obtain habove | hnot := Nat.lt_or_ge curr.lma w.lma
    · exact Or.inl (hleast w hw habove)
    · exact Or.inr (hsound.limit_le_limit hw h.mem hnot)
  · have htwice : (p.vsegs.filter fun w => next.lma < w.lma) =
        (p.vsegs.filter fun w => curr.lma < w.lma).filter fun w => next.lma < w.lma := by
      rw [List.filter_filter]
      apply List.filter_congr
      intro w hw
      rw [← Bool.decide_and, decide_eq_decide]
      omega
    have hout : ¬ decide (next.lma < next.lma) = true := by
      rw [decide_eq_true_eq]
      exact lt_irrefl next.lma
    have hin : next ∈ p.vsegs.filter fun w => curr.lma < w.lma :=
      List.mem_filter.mpr ⟨hmem, decide_eq_true hlt⟩
    have hless : ((p.vsegs.filter fun w => curr.lma < w.lma).filter fun w =>
        next.lma < w.lma).length < (p.vsegs.filter fun w => curr.lma < w.lma).length :=
      List.length_filter_lt_length_iff_exists.mpr ⟨next, hin, hout⟩
    rw [← htwice] at hless
    have hleft := h.left
    omega

/-- The loop ends at an address with room, or there is no such address. -/
theorem addLoop_spec (hsound : p.Sound) (hv : v.length ≠ 0)
    (hfit : p.limit + 2 ^ alignmentOf pagePow2 align + v.length ≤ 2 ^ 64) (prevBase prevLength : ℕ)
    (h : Searching p pagePow2 align v n (prevBase + prevLength) curr) :
    (∀ x, addLoop p (alignmentOf pagePow2 align) v.length (n + 1) prevBase prevLength curr.lma
        curr.length = .ok x → p.RoomAt pagePow2 align v x) ∧
      (addLoop p (alignmentOf pagePow2 align) v.length (n + 1) prevBase prevLength curr.lma
        curr.length = .error .noSpace → ∀ x, ¬ p.RoomAt pagePow2 align v x) := by
  have hpos : 0 < 2 ^ alignmentOf pagePow2 align := Nat.two_pow_pos _
  have hexact : ∀ limit ≤ p.limit, limit + 2 ^ alignmentOf pagePow2 align < 2 ^ 64 + 1 ∧
      u64 limit = limit ∧ u64 (alignAddr limit (alignmentOf pagePow2 align) + v.length) =
        alignAddr limit (alignmentOf pagePow2 align) + v.length := by
    intro limit hle
    have hlt : limit + 2 ^ alignmentOf pagePow2 align < 2 ^ 64 + 1 := by omega
    have halign := alignAddr_lt hlt
    exact ⟨hlt, Nat.mod_eq_of_lt (by omega), Nat.mod_eq_of_lt (by omega)⟩
  have hcurr := (hsound.within curr h.mem).2
  induction n generalizing prevBase prevLength curr with
  | zero =>
    obtain ⟨hprev, hprevSum, hprevEnd⟩ := hexact (prevBase + prevLength) (le_trans h.below
      (le_trans (Nat.le_add_right _ _) hcurr))
    obtain ⟨hlimit, hlimitSum, hlimitEnd⟩ := hexact curr.limit hcurr
    have hpsum : u64 (p.lma + p.length) = p.limit := Nat.mod_eq_of_lt (by rw [PSeg.limit] at *; omega)
    rw [addLoop, hprevSum, hprevEnd, if_neg (lt_irrefl 0), hpsum]
    rw [VSeg.limit] at hlimitSum hlimitEnd
    rw [hlimitSum, hlimitEnd]
    split_ifs with hgap htail
    · refine ⟨fun x hx => ?_, nofun⟩
      injection hx with hx
      rw [← hx]
      exact h.roomAt hsound (dvd_alignAddr hprev) (le_alignAddr hprev) hgap
    · refine ⟨fun x hx => ?_, nofun⟩
      injection hx with hx
      rw [← hx]
      exact h.roomAt_tail hsound (dvd_alignAddr hlimit) (le_alignAddr hlimit) htail
    · refine ⟨nofun, fun _ x hx => htail ?_⟩
      have hleast := alignAddr_least hlimit hx.1 (h.room_limit hsound hv hprev hgap hx)
      have hend : x + v.length ≤ p.limit := hx.2.1.2
      rw [VSeg.limit] at hleast
      omega
  | succ n ih =>
    obtain ⟨hprev, hprevSum, hprevEnd⟩ := hexact (prevBase + prevLength) (le_trans h.below
      (le_trans (Nat.le_add_right _ _) hcurr))
    rw [addLoop, hprevSum, hprevEnd, if_pos (Nat.succ_pos n)]
    split_ifs with hgap
    · refine ⟨fun x hx => ?_, nofun⟩
      injection hx with hx
      rw [← hx]
      exact h.roomAt hsound (dvd_alignAddr hprev) (le_alignAddr hprev) hgap
    · cases hnext : nextAbove curr.lma p.vsegs with
      | none => exact ⟨nofun, nofun⟩
      | some next =>
        have hstep := h.advance hsound hnext fun x hx => h.room_limit hsound hv hprev hgap hx
        exact ih curr.lma curr.length hstep (hsound.within next hstep.mem).2

end Loop

/-! ## Sequences of calls -/

/-- A call of `add` on a vseg with this `m_align`, or of `addIdent`. -/
inductive Call
  | add (align : ℤ) (v : VSeg)
  | addIdent (v : VSeg)
  deriving DecidableEq

/-- The vseg of a call. -/
def Call.vseg : Call → VSeg
  | .add _ v => v
  | .addIdent v => v

/-- The pseg after a call. -/
def PSeg.apply (p : PSeg) (pagePow2 : ℕ) : Call → Except PSegExit PSeg
  | .add align v => p.add pagePow2 align v
  | .addIdent v => p.addIdent v

/-- The vseg recorded by a call is the one of the call, aligned or with its lma equal to its vma. -/
def Call.Recorded (pagePow2 : ℕ) : Call → VSeg → Prop
  | .add align v, w =>
    2 ^ alignmentOf pagePow2 align ∣ w.lma ∧ w.vma = v.vma ∧ w.length = v.length
  | .addIdent v, w => w.lma = v.vma ∧ w.vma = v.vma ∧ w.length = v.length

/-- The calls that keep to the pseg. The addresses that `add` computes do not pass 2^64, and the
first vseg is aligned where the pseg begins. The vseg of `addIdent` lies in the pseg. -/
def Call.Regular (pagePow2 : ℕ) (p : PSeg) : Call → Prop
  | .add align v => alignmentOf pagePow2 align < 31 ∧
      p.limit + 2 ^ alignmentOf pagePow2 align + v.length ≤ 2 ^ 64 ∧
      (p.vsegs = [] → 2 ^ alignmentOf pagePow2 align ∣ p.lma)
  | .addIdent v => VSeg.Within { v with lma := v.vma } p ∧ p.limit < 2 ^ 64

/-- Sequences of calls that return normally, on vsegs that are not empty. Each call is `good` for
the pseg before it. -/
inductive Run (pagePow2 : ℕ) (good : PSeg → Call → Prop) (start : PSeg) : List Call → PSeg → Prop
  | start : Run pagePow2 good start [] start
  | call {calls : List Call} {p q : PSeg} {c : Call} (before : Run pagePow2 good start calls p)
      (nonempty : c.vseg.length ≠ 0) (isGood : good p c) (returns : p.apply pagePow2 c = .ok q) :
      Run pagePow2 good start (calls ++ [c]) q

/-- A sequence of one call. -/
theorem Run.single {pagePow2 : ℕ} {good : PSeg → Call → Prop} {start q : PSeg} {c : Call}
    (hzero : c.vseg.length ≠ 0) (hgood : good start c) (hreturns : start.apply pagePow2 c = .ok q) :
    Run pagePow2 good start [c] q :=
  Run.call Run.start hzero hgood hreturns

section Runs

variable {p q start : PSeg} {pagePow2 : ℕ} {align : ℤ} {v : VSeg} {c : Call}

/-- The first turn of the loop of `add`. -/
theorem searching_start {first : VSeg} {rest : List VSeg} (hsound : p.Sound)
    (hvsegs : p.vsegs = first :: rest) :
    Searching p pagePow2 align v rest.length (p.lma + 0) (lowest first (first :: rest)) := by
  have hmem : lowest first (first :: rest) ∈ p.vsegs := by
    rw [hvsegs]
    obtain heq | hmem := List.mem_cons.mp (lowest_mem first (first :: rest))
    · rw [heq]
      exact List.mem_cons_self
    · exact hmem
  have hle : ∀ w ∈ p.vsegs, (lowest first (first :: rest)).lma ≤ w.lma := by
    intro w hw
    rw [hvsegs] at hw
    exact lowest_le first (first :: rest) w (List.mem_cons_of_mem first hw)
  refine ⟨hmem, le_refl _, (hsound.within _ hmem).1, fun w hw => Or.inl (hle w hw), ?_,
    fun x hx => hx.2.1.1⟩
  have hout : ¬ decide ((lowest first (first :: rest)).lma < (lowest first (first :: rest)).lma) =
      true := by
    rw [decide_eq_true_eq]
    exact lt_irrefl _
  have hless : (p.vsegs.filter fun w => (lowest first (first :: rest)).lma < w.lma).length <
      p.vsegs.length := List.length_filter_lt_length_iff_exists.mpr ⟨_, hmem, hout⟩
  have hlength : p.vsegs.length = rest.length + 1 := by rw [hvsegs, List.length_cons]
  omega

/-- `add` finds an address with room, or there is no such address. -/
theorem place_spec (hsound : p.Sound) (hv : v.length ≠ 0)
    (hregular : (Call.add align v).Regular pagePow2 p) :
    (∀ x, p.place pagePow2 align v = .ok x → p.RoomAt pagePow2 align v x) ∧
      (p.place pagePow2 align v = .error .noSpace → ∀ x, ¬ p.RoomAt pagePow2 align v x) := by
  obtain ⟨-, hfit, hfirst⟩ := hregular
  rw [PSeg.place, if_neg hv]
  cases hvsegs : p.vsegs with
  | nil =>
    change (∀ x, (if v.length ≤ p.length then Except.ok p.lma else .error PSegExit.noSpace) =
      .ok x → _) ∧ ((if v.length ≤ p.length then Except.ok p.lma else .error PSegExit.noSpace) =
      .error .noSpace → _)
    split_ifs with hspace
    · refine ⟨fun x hx => ?_, nofun⟩
      injection hx with hx
      rw [← hx]
      refine ⟨hfirst hvsegs, ⟨le_refl _, Nat.add_le_add_left hspace _⟩, fun w hw => ?_⟩
      rw [hvsegs] at hw
      exact absurd hw List.not_mem_nil
    · refine ⟨nofun, fun _ x hx => hspace ?_⟩
      have hbase : p.lma ≤ x := hx.2.1.1
      have hend : x + v.length ≤ p.lma + p.length := hx.2.1.2
      omega
  | cons first rest =>
    exact addLoop_spec hsound hv hfit p.lma 0 (searching_start hsound hvsegs)

theorem add_ok (hadd : p.add pagePow2 align v = .ok q) : ∃ x, p.place pagePow2 align v = .ok x ∧
    q = { p with vsegs := p.vsegs ++ [{ v with lma := x }] } := by
  rw [PSeg.add] at hadd
  cases hplace : p.place pagePow2 align v with
  | error e =>
    rw [hplace] at hadd
    cases hadd
  | ok x =>
    rw [hplace] at hadd
    injection hadd with hadd
    exact ⟨x, rfl, hadd.symm⟩

theorem add_noSpace (hadd : p.add pagePow2 align v = .error .noSpace) :
    p.place pagePow2 align v = .error .noSpace := by
  rw [PSeg.add] at hadd
  cases hplace : p.place pagePow2 align v with
  | error e =>
    rw [hplace] at hadd
    injection hadd with hadd
    rw [hadd]
  | ok x =>
    rw [hplace] at hadd
    cases hadd

/-- A vseg that the tests of `addIdent` let pass has no address in common with those before it. -/
theorem addIdent_disjoint {w : VSeg} (hw : w.limit < 2 ^ 64) (hv : v.vma + v.length < 2 ^ 64)
    (hpass : ¬ identOverlaps v w) :
    w.Disjoint { v with lma := v.vma } := by
  have hend : u64 (v.vma + v.length) = v.vma + v.length := Nat.mod_eq_of_lt hv
  have hlimit : u64 (w.lma + w.length) = w.limit := Nat.mod_eq_of_lt hw
  rw [identOverlaps, hend, hlimit] at hpass
  rw [disjoint_iff]
  change w.limit ≤ v.vma ∨ v.vma + v.length ≤ w.lma ∨ _
  omega

/-- One call adds a vseg that lies in the pseg and has no address in common with the others. -/
theorem apply_spec (hsound : p.Sound) (hzero : c.vseg.length ≠ 0) (hregular : c.Regular pagePow2 p)
    (hcall : p.apply pagePow2 c = .ok q) :
    ∃ w : VSeg, q = { p with vsegs := p.vsegs ++ [w] } ∧ c.Recorded pagePow2 w ∧ w.length ≠ 0 ∧
      w.Within p ∧ ∀ u ∈ p.vsegs, u.Disjoint w := by
  cases c with
  | add align v =>
    obtain ⟨x, hplace, hq⟩ := add_ok hcall
    obtain ⟨hdvd, hwithin, hdisjoint⟩ := (place_spec hsound hzero hregular).1 x hplace
    exact ⟨{ v with lma := x }, hq, ⟨hdvd, rfl, rfl⟩, hzero, hwithin, hdisjoint⟩
  | addIdent v =>
    obtain ⟨hwithin, hlimit⟩ := hregular
    have hrun : p.addIdent v = .ok q := hcall
    rw [PSeg.addIdent] at hrun
    split_ifs at hrun with hoverlap
    injection hrun with hq
    refine ⟨{ v with lma := v.vma }, hq.symm, ⟨rfl, rfl, rfl⟩, hzero, hwithin, fun u hu => ?_⟩
    apply addIdent_disjoint (lt_of_le_of_lt (hsound.within u hu).2 hlimit)
      (lt_of_le_of_lt hwithin.2 hlimit)
    exact fun h => hoverlap ⟨u, hu, h⟩

/-- A call keeps the vsegs inside the pseg and apart. -/
theorem apply_sound (hsound : p.Sound) (hzero : c.vseg.length ≠ 0)
    (hregular : c.Regular pagePow2 p) (hcall : p.apply pagePow2 c = .ok q) : q.Sound := by
  obtain ⟨w, rfl, -, hw, hwithin, hdisjoint⟩ := apply_spec hsound hzero hregular hcall
  refine ⟨fun u hu => ?_, fun u hu => ?_, ?_⟩
  · obtain hu | hu := List.mem_append.mp hu
    · exact hsound.nonempty u hu
    · rw [List.mem_singleton.mp hu]
      exact hw
  · obtain hu | hu := List.mem_append.mp hu
    · exact hsound.within u hu
    · rw [List.mem_singleton.mp hu]
      exact hwithin
  · refine List.pairwise_append.mpr ⟨hsound.disjoint, List.pairwise_singleton _ _, ?_⟩
    intro u hu w' hw'
    rw [List.mem_singleton.mp hw']
    exact hdisjoint u hu

/-- Runs of calls that keep to the pseg. -/
theorem placements_sound {calls : List Call} (hempty : start.vsegs = [])
    (hrun : Run pagePow2 (fun p c => c.Regular pagePow2 p) start calls p) :
    p.Sound ∧ p.lma = start.lma ∧ p.length = start.length ∧
      List.Forall₂ (Call.Recorded pagePow2) calls p.vsegs := by
  induction hrun with
  | start =>
    rw [hempty]
    refine ⟨⟨fun v hv => ?_, fun v hv => ?_, ?_⟩, rfl, rfl, List.Forall₂.nil⟩
    · rw [hempty] at hv
      exact absurd hv List.not_mem_nil
    · rw [hempty] at hv
      exact absurd hv List.not_mem_nil
    · rw [hempty]
      exact List.Pairwise.nil
  | call before hzero hregular hcall ih =>
    obtain ⟨hsound, hlma, hlength, hrecorded⟩ := ih
    obtain ⟨w, hq, hw, -, -, -⟩ := apply_spec hsound hzero hregular hcall
    refine ⟨apply_sound hsound hzero hregular hcall, ?_, ?_, ?_⟩
    · rw [hq]
      exact hlma
    · rw [hq]
      exact hlength
    · rw [hq]
      exact List.rel_append hrecorded (List.Forall₂.cons hw List.Forall₂.nil)

end Runs

/-- In every sequence of calls that keep to the pseg, the vsegs are pairwise disjoint, lie in the
pseg and are aligned or at their vma, and `add` reports lack of space only where no address has
room. `check` throws exactly when two vsegs overlap on the lists where no vseg touches an empty one
unless two overlap, and where an overlap goes with one in which the vseg that was added first is not
strictly inside the other. -/
theorem placement_iff (pagePow2 : ℕ) :
    (∀ (start p : PSeg) (calls : List Call), start.vsegs = [] →
      Run pagePow2 (fun p c => c.Regular pagePow2 p) start calls p →
      p.vsegs.Pairwise VSeg.Disjoint ∧ (∀ v ∈ p.vsegs, v.Within start) ∧
        List.Forall₂ (Call.Recorded pagePow2) calls p.vsegs ∧
        ∀ (align : ℤ) (v : VSeg), v.length ≠ 0 → (Call.add align v).Regular pagePow2 p →
          p.add pagePow2 align v = .error .noSpace → ∀ x, ¬ p.RoomAt pagePow2 align v x) ∧
    ∀ p : PSeg, p.isPeri = false → (∀ v ∈ p.vsegs, v.limit < 2 ^ 64) →
      ((p.check = .ok () ↔ p.vsegs.Pairwise VSeg.Disjoint) ↔
        (p.vsegs.Pairwise VSeg.Disjoint → p.vsegs.Pairwise fun u v => ¬ u.Touches v) ∧
          ((p.vsegs.Pairwise fun u v => (u.Disjoint v ∨ u.Inside v) ∧ ¬ u.Touches v) →
            p.vsegs.Pairwise VSeg.Disjoint)) := by
  refine ⟨fun start p calls hempty hrun => ?_, fun p hram hlimit => ?_⟩
  · obtain ⟨hsound, hlma, hlength, hrecorded⟩ := placements_sound hempty hrun
    refine ⟨hsound.disjoint, fun v hv => ?_, hrecorded, fun align v hv hregular hfull => ?_⟩
    · have hwithin := hsound.within v hv
      rw [VSeg.Within, PSeg.limit, hlma, hlength] at hwithin
      exact hwithin
    · exact (place_spec hsound hv hregular).2 (add_noSpace hfull)
  · rw [check_iff hram hlimit]
    constructor
    · intro hiff
      exact ⟨fun hdisjoint => (hiff.mpr hdisjoint).imp fun h => h.2, hiff.mp⟩
    · rintro ⟨htouches, hpasses⟩
      refine ⟨hpasses, fun hdisjoint => ?_⟩
      exact (List.pairwise_and_iff.mpr ⟨hdisjoint, htouches hdisjoint⟩).imp
        fun h => ⟨Or.inl h.1, h.2⟩

/-- A pseg of 64 Kbytes at 4 Kbytes with a vseg at its vma and a vseg placed before it. -/
theorem placement_iff_two :
    ((⟨0x3000, 0x3000, 0x1000⟩ : VSeg).Disjoint ⟨0, 0x1000, 0x2000⟩ ∧
      ∀ x, ¬ PSeg.RoomAt ⟨0x1000, 0x10000, false, [⟨0x3000, 0x3000, 0x1000⟩, ⟨0, 0x1000, 0x2000⟩]⟩
        12 0 ⟨0, 0, 0xE000⟩ x) ∧
    PSeg.check ⟨0x1000, 0x10000, false, [⟨0x3000, 0x3000, 0x1000⟩, ⟨0, 0x1000, 0x2000⟩]⟩ =
      .ok () := by
  have hfirst : Run 12 (fun p c => c.Regular 12 p) ⟨0x1000, 0x10000, false, []⟩
      [.addIdent ⟨0x3000, 0, 0x1000⟩] ⟨0x1000, 0x10000, false, [⟨0x3000, 0x3000, 0x1000⟩]⟩ :=
    Run.single (by decide) ⟨⟨by decide, by decide⟩, by decide⟩ (by decide)
  have hrun : Run 12 (fun p c => c.Regular 12 p) ⟨0x1000, 0x10000, false, []⟩
      ([.addIdent ⟨0x3000, 0, 0x1000⟩] ++ [.add 0 ⟨0, 0, 0x2000⟩])
      ⟨0x1000, 0x10000, false, [⟨0x3000, 0x3000, 0x1000⟩, ⟨0, 0x1000, 0x2000⟩]⟩ :=
    Run.call hfirst (by decide) ⟨by decide, by decide, nofun⟩ (by decide)
  obtain ⟨hdisjoint, -, -, hfull⟩ := (placement_iff 12).1 _ _ _ rfl hrun
  refine ⟨⟨List.rel_of_pairwise_cons hdisjoint List.mem_cons_self, ?_⟩, ?_⟩
  · exact hfull 0 ⟨0, 0, 0xE000⟩ (by decide) ⟨by decide, by decide, nofun⟩ (by decide)
  · have hcheck := (placement_iff 12).2
      ⟨0x1000, 0x10000, false, [⟨0x3000, 0x3000, 0x1000⟩, ⟨0, 0x1000, 0x2000⟩]⟩ rfl
      (by simp [VSeg.limit])
    exact (hcheck.mpr ⟨fun _ => by simp [VSeg.Touches], fun _ => hdisjoint⟩).mpr hdisjoint

/-- The first vseg of a pseg is not aligned, a vseg at its vma is outside the pseg, and `check` does
not see that a vseg contains the one before it. -/
theorem placement_fails :
    (∃ p, Run 12 (fun _ _ => True) ⟨0x1000, 0x10000, false, []⟩ [.add 16 ⟨0, 0, 0x1000⟩] p ∧
      ¬ List.Forall₂ (Call.Recorded 12) [.add 16 ⟨0, 0, 0x1000⟩] p.vsegs) ∧
    (∃ p, Run 12 (fun _ _ => True) ⟨0x1000, 0x10000, false, []⟩ [.addIdent ⟨0x80000, 0, 0x1000⟩] p ∧
      ¬ ∀ v ∈ p.vsegs, v.Within ⟨0x1000, 0x10000, false, []⟩) ∧
    PSeg.check ⟨0x1000, 0x10000, false, [⟨0, 0x2000, 0x1000⟩, ⟨0, 0x1000, 0x4000⟩]⟩ = .ok () ∧
    ¬ [(⟨0, 0x2000, 0x1000⟩ : VSeg), ⟨0, 0x1000, 0x4000⟩].Pairwise VSeg.Disjoint := by
  refine ⟨⟨⟨0x1000, 0x10000, false, [⟨0, 0x1000, 0x1000⟩]⟩,
    Run.single (by decide) trivial (by decide), ?_⟩,
    ⟨⟨0x1000, 0x10000, false, [⟨0x80000, 0x80000, 0x1000⟩]⟩,
      Run.single (by decide) trivial (by decide), ?_⟩, by decide, ?_⟩
  · intro hrecorded
    cases hrecorded with
    | cons hfirst _ => exact absurd hfirst.1 (by decide)
  · intro hwithin
    have hfirst := (hwithin _ List.mem_cons_self).2
    exact absurd hfirst (by decide)
  · intro hdisjoint
    exact List.rel_of_pairwise_cons hdisjoint List.mem_cons_self 0x2000 (by decide)

end GietVm.Memo
