import Mathlib.Algebra.Order.Ring.Nat
import Mathlib.Data.List.Induction
import Mathlib.Tactic.Common

/-!
# Positional numerals

A numeral is a string of digits that is not empty, with the most significant digit first. Which
characters are digits, and what they are worth, is a relation. A function that decides this relation
gives the value of a string from the left to the right: `numeral_iff`.
-/

namespace GietVm.Library

variable {α : Type} {Digit : α → ℕ → Prop} {digit : α → Option ℕ} {base : ℕ}

/-- The numerals in a base, and their values. -/
inductive Numeral (Digit : α → ℕ → Prop) (base : ℕ) : List α → ℕ → Prop
  | digit {c : α} {d : ℕ} (hc : Digit c d) : Numeral Digit base [c] d
  | snoc {s : List α} {c : α} {v d : ℕ} (hs : Numeral Digit base s v) (hc : Digit c d) :
    Numeral Digit base (s ++ [c]) (v * base + d)

/-- The value of a string of digits; none when a character is not a digit. -/
def numeralValue (digit : α → Option ℕ) (base : ℕ) (s : List α) : Option ℕ :=
  s.foldlM (fun v c => (digit c).map fun d => v * base + d) 0

theorem numeralValue_nil : numeralValue digit base [] = some 0 := rfl

theorem numeralValue_concat (s : List α) (c : α) : numeralValue digit base (s ++ [c]) =
    (numeralValue digit base s).bind fun v => (digit c).map fun d => v * base + d := by
  rw [numeralValue, List.foldlM_append]
  cases hs : s.foldlM (fun v c => (digit c).map fun d => v * base + d) 0 with
  | none =>
    rw [numeralValue, hs]
    rfl
  | some v =>
    rw [numeralValue, hs, Option.bind_some]
    change (digit c).map (fun d => v * base + d) >>= pure = _
    exact bind_pure _

theorem numeralValue_concat_eq_some {s : List α} {c : α} {v : ℕ} :
    numeralValue digit base (s ++ [c]) = some v ↔
      ∃ a d, numeralValue digit base s = some a ∧ digit c = some d ∧ v = a * base + d := by
  rw [numeralValue_concat, Option.bind_eq_some_iff]
  constructor
  · rintro ⟨a, ha, hd⟩
    obtain ⟨d, hd, hv⟩ := Option.map_eq_some_iff.mp hd
    exact ⟨a, d, ha, hd, hv.symm⟩
  · rintro ⟨a, d, ha, hd, rfl⟩
    exact ⟨a, ha, Option.map_eq_some_iff.mpr ⟨d, hd, rfl⟩⟩

/-- The numerals are the strings that are not empty and have a value. -/
theorem numeral_iff (hdigit : ∀ c d, digit c = some d ↔ Digit c d) {s : List α} {v : ℕ} :
    Numeral Digit base s v ↔ s ≠ [] ∧ numeralValue digit base s = some v := by
  constructor
  · intro h
    induction h with
    | @digit c d hc =>
      refine ⟨List.cons_ne_nil _ _, ?_⟩
      have hone : numeralValue digit base ([] ++ [c]) = some d :=
        numeralValue_concat_eq_some.mpr ⟨0, d, rfl, (hdigit c d).mpr hc, by rw [Nat.zero_mul, Nat.zero_add]⟩
      exact hone
    | @snoc s c v d hs hc ih =>
      exact ⟨List.append_ne_nil_of_right_ne_nil _ (List.cons_ne_nil _ _),
        numeralValue_concat_eq_some.mpr ⟨v, d, ih.2, (hdigit c d).mpr hc, rfl⟩⟩
  · rintro ⟨hne, hv⟩
    induction s using List.reverseRecOn generalizing v with
    | nil => exact absurd rfl hne
    | append_singleton s c ih =>
      obtain ⟨a, d, ha, hd, rfl⟩ := numeralValue_concat_eq_some.mp hv
      by_cases hs : s = []
      · rw [hs] at ha ⊢
        have hzero : a = 0 := (Option.some.inj ha).symm
        rw [hzero, Nat.zero_mul, Nat.zero_add]
        exact .digit ((hdigit c d).mp hd)
      · exact .snoc (ih hs ha) ((hdigit c d).mp hd)

/-- The value of two strings, one behind the other. -/
theorem numeralValue_append (s t : List α) : numeralValue digit base (s ++ t) =
    (numeralValue digit base s).bind fun a =>
      (numeralValue digit base t).map fun b => a * base ^ t.length + b := by
  induction t using List.reverseRecOn with
  | nil =>
    rw [List.append_nil]
    cases numeralValue digit base s with
    | none => rfl
    | some a =>
      change some a = some (a * 1 + 0)
      rw [Nat.mul_one, Nat.add_zero]
  | append_singleton t c ih =>
    rw [← List.append_assoc, numeralValue_concat, ih, numeralValue_concat, List.length_append,
      List.length_singleton]
    cases numeralValue digit base s with
    | none => rfl
    | some a =>
      cases numeralValue digit base t with
      | none => rfl
      | some b =>
        cases digit c with
        | none => rfl
        | some d =>
          change some ((a * base ^ t.length + b) * base + d) =
            some (a * base ^ (t.length + 1) + (b * base + d))
          rw [Nat.add_mul, Nat.mul_assoc, ← Nat.pow_succ, Nat.add_assoc]

/-- A string of digits is worth less than the power of the base. -/
theorem numeralValue_lt (hbase : ∀ c d, digit c = some d → d < base) {s : List α} {v : ℕ}
    (h : numeralValue digit base s = some v) : v < base ^ s.length := by
  induction s using List.reverseRecOn generalizing v with
  | nil =>
    rw [← Option.some.inj h]
    exact Nat.one_pos
  | append_singleton s c ih =>
    obtain ⟨a, d, ha, hd, rfl⟩ := numeralValue_concat_eq_some.mp h
    have hlt := ih ha
    rw [List.length_append, List.length_singleton, Nat.pow_succ]
    calc a * base + d < a * base + base := Nat.add_lt_add_left (hbase c d hd) _
      _ = (a + 1) * base := (Nat.succ_mul a base).symm
      _ ≤ base ^ s.length * base := Nat.mul_le_mul_right _ hlt

/-- A string with a character that is not a digit has no value. -/
theorem numeralValue_eq_none_iff {s : List α} :
    numeralValue digit base s = none ↔ ∃ c ∈ s, digit c = none := by
  induction s using List.reverseRecOn with
  | nil =>
    refine iff_of_false nofun ?_
    rintro ⟨c, hc, -⟩
    exact List.not_mem_nil hc
  | append_singleton s c ih =>
    rw [numeralValue_concat]
    constructor
    · intro h
      cases hs : numeralValue digit base s with
      | none =>
        obtain ⟨c', hc', hnone⟩ := ih.mp hs
        exact ⟨c', List.mem_append_left _ hc', hnone⟩
      | some a =>
        rw [hs, Option.bind_some, Option.map_eq_none_iff] at h
        exact ⟨c, List.mem_append_right _ (List.mem_singleton_self c), h⟩
    · rintro ⟨c', hc', hnone⟩
      obtain hc' | hc' := List.mem_append.mp hc'
      · rw [ih.mpr ⟨c', hc', hnone⟩]
        rfl
      · rw [← List.mem_singleton.mp hc', hnone]
        cases numeralValue digit base s <;> rfl

/-- A string of digits is worth 0 when all of them are. -/
theorem numeralValue_eq_zero_iff (hbase : 0 < base) {s : List α} :
    numeralValue digit base s = some 0 ↔ ∀ c ∈ s, digit c = some 0 := by
  induction s using List.reverseRecOn with
  | nil => exact iff_of_true rfl fun _ hc => absurd hc List.not_mem_nil
  | append_singleton s c ih =>
    rw [numeralValue_concat_eq_some, List.forall_mem_append, List.forall_mem_singleton, ← ih]
    constructor
    · rintro ⟨a, d, ha, hd, hv⟩
      obtain ⟨hmul, hzero⟩ := Nat.add_eq_zero_iff.mp hv.symm
      obtain haz | hbz := Nat.mul_eq_zero.mp hmul
      · rw [ha, haz, hd, hzero]
        exact ⟨rfl, rfl⟩
      · omega
    · rintro ⟨ha, hd⟩
      exact ⟨0, 0, ha, hd, by rw [Nat.zero_mul]⟩

end GietVm.Library
