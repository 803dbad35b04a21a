import Mathlib.Tactic.Common

/-!
# Computations that record their accesses

A computation on a state returns a value, the new state and the list of the accesses that it has
made, in their order. `Safe ok x Q s` says that `x`, run from `s`, makes only accesses that are
`ok`, and ends with a value and a state related by `Q`. The rules below follow the structure of
a computation, from its first instruction to its last.
-/

namespace GietVm.Library

/-- What a computation leaves. -/
structure Logged (σ ε α : Type) where
  value : α
  state : σ
  log : List ε

/-- A computation on a state of type `σ` with accesses of type `ε`. -/
def LoggedM (σ ε α : Type) : Type := σ → Logged σ ε α

namespace LoggedM

variable {σ ε α β : Type}

instance : Monad (LoggedM σ ε) where
  pure a := fun s => ⟨a, s, []⟩
  bind x f := fun s =>
    let first := x s
    let second := f first.value first.state
    ⟨second.value, second.state, first.log ++ second.log⟩

/-- The state. -/
def look : LoggedM σ ε σ := fun s => ⟨s, s, []⟩

/-- Change the state. -/
def change (f : σ → σ) : LoggedM σ ε Unit := fun s => ⟨(), f s, []⟩

/-- Record an access. -/
def record (e : σ → ε) : LoggedM σ ε Unit := fun s => ⟨(), s, [e s]⟩

end LoggedM

open LoggedM

variable {σ ε α β : Type} {ok : ε → Prop} {s : σ}

/-- The computation makes only accesses that are `ok`, and ends as `Q` says. -/
def Safe (ok : ε → Prop) (x : LoggedM σ ε α) (Q : α → σ → Prop) (s : σ) : Prop :=
  Q (x s).value (x s).state ∧ ∀ e ∈ (x s).log, ok e

namespace Safe

variable {x : LoggedM σ ε α} {Q : α → σ → Prop}

theorem pure {a : α} (h : Q a s) : Safe ok (Pure.pure a : LoggedM σ ε α) Q s :=
  ⟨h, nofun⟩

theorem bind {f : α → LoggedM σ ε β} {R : β → σ → Prop}
    (h : Safe ok x (fun a t => Safe ok (f a) R t) s) : Safe ok (x >>= f) R s := by
  obtain ⟨⟨hR, hsecond⟩, hfirst⟩ := h
  refine ⟨hR, ?_⟩
  intro e he
  change e ∈ (x s).log ++ (f (x s).value (x s).state).log at he
  obtain he | he := List.mem_append.mp he
  · exact hfirst e he
  · exact hsecond e he

theorem look {Q : σ → σ → Prop} (h : Q s s) : Safe ok (LoggedM.look : LoggedM σ ε σ) Q s :=
  ⟨h, nofun⟩

theorem change {f : σ → σ} {Q : Unit → σ → Prop} (h : Q () (f s)) :
    Safe ok (LoggedM.change f : LoggedM σ ε Unit) Q s :=
  ⟨h, nofun⟩

theorem record {e : σ → ε} {Q : Unit → σ → Prop} (he : ok (e s)) (h : Q () s) :
    Safe ok (LoggedM.record e) Q s := by
  refine ⟨h, ?_⟩
  intro e' he'
  obtain rfl := List.mem_singleton.mp he'
  exact he

theorem mono {Q' : α → σ → Prop} (h : Safe ok x Q s) (hQ : ∀ a t, Q a t → Q' a t) :
    Safe ok x Q' s :=
  ⟨hQ _ _ h.1, h.2⟩

theorem ite {c : Prop} [Decidable c] {y : LoggedM σ ε α} (hx : c → Safe ok x Q s)
    (hy : ¬ c → Safe ok y Q s) : Safe ok (if c then x else y) Q s := by
  split
  · exact hx ‹_›
  · exact hy ‹_›

/-- The value and the state at the end are those of the run. -/
theorem run (h : Safe ok x Q s) :
    Safe ok x (fun a t => Q a t ∧ a = (x s).value ∧ t = (x s).state) s :=
  ⟨⟨h.1, rfl, rfl⟩, h.2⟩

end Safe

end GietVm.Library
