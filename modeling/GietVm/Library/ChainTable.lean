import GietVm.Library.Linked
import Mathlib.Logic.Function.Basic

/-!
# Tables of successors

A table of successors in which every live cell begins a finite chain, and no two live cells
have the same successor, is a set of disjoint chains. Two edits keep it so: a new cell
that ends at once is a chain of its own, and such a cell can be linked behind the last cell of
another chain.
-/

namespace GietVm.Library

variable {α : Type*} {stop live : α → Prop} {next : α → α}

/-- A chain meets each of its cells once, since a cell determines what follows. -/
theorem Linked.nodup {h : α} {l : List α} (hl : Linked stop next h l) : l.Nodup := by
  induction l generalizing h with
  | nil => exact List.nodup_nil
  | cons a l ih =>
    obtain ⟨rfl, ha, htail⟩ := hl
    refine List.nodup_cons.mpr ⟨?_, ih htail⟩
    intro hmem
    obtain ⟨l₁, l₂, rfl⟩ := List.append_of_mem hmem
    have hagain : Linked stop next h (h :: l₂) := Linked.split htail
    have hsame : h :: (l₁ ++ h :: l₂) = h :: l₂ := Linked.unique ⟨rfl, ha, htail⟩ hagain
    have hlength := congrArg List.length hsame
    simp only [List.length_cons, List.length_append] at hlength
    omega

/-- The successor of the last cell of a chain is a terminator. -/
theorem Linked.last {h a : α} {l : List α} (hl : Linked stop next h l)
    (ha : l.getLast? = some a) : stop (next a) := by
  induction l generalizing h with
  | nil => cases ha
  | cons b l ih =>
    obtain ⟨rfl, -, htail⟩ := hl
    cases l with
    | nil =>
      cases ha
      exact htail
    | cons c l =>
      rw [List.getLast?_cons_cons] at ha
      exact ih htail ha

section Edits

variable [DecidableEq α]

/-- Linking an ending cell behind the last cell of a chain makes it the last one. -/
theorem Linked.snoc {h a b : α} {l : List α} (hl : Linked stop next h l)
    (ha : l.getLast? = some a) (hb : ¬ stop b) (hend : stop (next b)) (hne : b ∉ l) :
    Linked stop (Function.update next a b) h (l ++ [b]) := by
  induction l generalizing h with
  | nil => cases ha
  | cons c l ih =>
    have hnd := hl.nodup
    obtain ⟨rfl, hh, htail⟩ := hl
    rw [List.mem_cons, not_or] at hne
    cases l with
    | nil =>
      have hha : h = a := Option.some.inj ha
      subst hha
      refine ⟨rfl, hh, ?_⟩
      rw [Function.update_self]
      refine ⟨rfl, hb, ?_⟩
      rw [Function.update_of_ne hne.1]
      exact hend
    | cons d l =>
      rw [List.getLast?_cons_cons] at ha
      refine ⟨rfl, hh, ?_⟩
      have hha : h ≠ a := by
        rintro rfl
        exact (List.nodup_cons.mp hnd).1 (List.mem_of_getLast? ha)
      rw [Function.update_of_ne hha]
      exact ih htail ha hne.2

end Edits

/-- The live cells of a table are disjoint and terminated chains. -/
structure Chained (stop live : α → Prop) (next : α → α) : Prop where
  /-- The successor of a live cell is a terminator or a live cell. -/
  closed : ∀ a, live a → ¬ stop (next a) → live (next a)
  /-- No two chains meet. -/
  disjoint : ∀ a b, live a → live b → ¬ stop (next a) → next a = next b → a = b
  /-- Every chain ends. -/
  ends : ∀ a, live a → ∃ l, Linked stop next a l

namespace Chained

/-- A chain from a live cell consists of live cells. -/
theorem live_of_mem (hc : Chained stop live next) {a : α} {l : List α} (ha : live a)
    (hl : Linked stop next a l) : ∀ b ∈ l, live b := by
  induction l generalizing a with
  | nil => simp
  | cons c l ih =>
    obtain ⟨rfl, -, htail⟩ := hl
    intro b hb
    rcases List.mem_cons.mp hb with rfl | hb
    · exact ha
    · cases l with
      | nil => cases hb
      | cons d l =>
        have hgo : ¬ stop (next a) := htail.1 ▸ htail.2.1
        exact ih (hc.closed a ha hgo) htail b hb

/-- Only the successors of the live cells matter. -/
theorem congr (hc : Chained stop live next) {next' : α → α}
    (h : ∀ a, live a → next' a = next a) : Chained stop live next' where
  closed := by
    intro a ha hgo
    rw [h a ha] at hgo ⊢
    exact hc.closed a ha hgo
  disjoint := by
    intro a b ha hb hgo heq
    rw [h a ha] at hgo heq
    rw [h b hb] at heq
    exact hc.disjoint a b ha hb hgo heq
  ends := by
    intro a ha
    obtain ⟨l, hl⟩ := hc.ends a ha
    exact ⟨l, hl.frame fun b hb => h b (hc.live_of_mem ha hl b hb)⟩

variable [DecidableEq α]

/-- A cell that was not live becomes a chain of its own. -/
theorem fresh (hc : Chained stop live next) {b e : α} (hb : ¬ live b) (hstop : ¬ stop b)
    (he : stop e) : Chained stop (fun a => live a ∨ a = b) (Function.update next b e) := by
  have hold (a : α) (ha : live a) : Function.update next b e a = next a :=
    Function.update_of_ne (ne_of_mem_of_not_mem (s := {c | live c}) ha hb) _ _
  have hnew : Function.update next b e b = e := Function.update_self ..
  refine ⟨?_, ?_, ?_⟩
  · rintro a (ha | rfl) hgo
    · rw [hold a ha] at hgo ⊢
      exact Or.inl (hc.closed a ha hgo)
    · rw [hnew] at hgo
      exact absurd he hgo
  · rintro a a' (ha | rfl) ha' hgo heq
    · rw [hold a ha] at hgo heq
      rcases ha' with ha' | rfl
      · rw [hold a' ha'] at heq
        exact hc.disjoint a a' ha ha' hgo heq
      · rw [hnew] at heq
        exact absurd (heq ▸ he) hgo
    · rw [hnew] at hgo
      exact absurd he hgo
  · rintro a (ha | rfl)
    · obtain ⟨l, hl⟩ := hc.ends a ha
      exact ⟨l, hl.frame fun c hmem => hold c (hc.live_of_mem ha hl c hmem)⟩
    · refine ⟨[a], rfl, hstop, ?_⟩
      rw [hnew]
      exact he

/-- A live cell that no live cell precedes and that ends at once can follow any other cell. What
followed that cell remains a chain of its own. -/
theorem link (hc : Chained stop live next) {a b : α} (hb : live b) (hab : b ≠ a)
    (hstop : ¬ stop b) (hend : stop (next b))
    (hfirst : ∀ c, live c → next c ≠ b) : Chained stop live (Function.update next a b) := by
  have hself : Function.update next a b a = b := Function.update_self ..
  have hother (c : α) (h : c ≠ a) : Function.update next a b c = next c :=
    Function.update_of_ne h _ _
  refine ⟨?_, ?_, ?_⟩
  · intro c hlive hgo
    by_cases h : c = a
    · rw [h, hself]
      exact hb
    · rw [hother c h] at hgo ⊢
      exact hc.closed c hlive hgo
  · intro c c' hlive hlive' hgo heq
    by_cases h : c = a <;> by_cases h' : c' = a
    · rw [h, h']
    · rw [h, hself, hother c' h'] at heq
      exact absurd heq.symm (hfirst c' hlive')
    · rw [h', hself, hother c h] at heq
      exact absurd heq (hfirst c hlive)
    · rw [hother c h] at hgo heq
      rw [hother c' h'] at heq
      exact hc.disjoint c c' hlive hlive' hgo heq
  · -- the chain of a cell is cut at `a`, where the new cell follows
    have hchain : Linked stop (Function.update next a b) b [b] := by
      refine ⟨rfl, hstop, ?_⟩
      rw [hother b hab]
      exact hend
    have hall (l : List α) : ∀ c, Linked stop next c l →
        ∃ l', Linked stop (Function.update next a b) c l' := by
      induction l with
      | nil => exact fun c hl => ⟨[], hl⟩
      | cons d l ih =>
        rintro c ⟨rfl, hc', htail⟩
        by_cases h : c = a
        · refine ⟨[c, b], rfl, hc', ?_⟩
          rw [h, hself]
          exact hchain
        · obtain ⟨l', hl'⟩ := ih _ htail
          refine ⟨c :: l', rfl, hc', ?_⟩
          rw [hother c h]
          exact hl'
    intro c hlive
    obtain ⟨l, hl⟩ := hc.ends c hlive
    exact hall l c hl

end Chained

end GietVm.Library
