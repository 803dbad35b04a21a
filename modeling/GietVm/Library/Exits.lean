import Mathlib.Logic.Function.Basic
import Mathlib.Tactic.Common

/-!
# Computations on a state that may exit

A computation of `EStateM ε σ` either returns a value and a state or exits with an error
and the state it leaves behind. The rules below take such computations apart: the run of
a sequence whose first part is known, the inversion of a sequence that returned, and the
two ways a property of single steps extends to whole computations. `Steps R x` says that
every run of `x` that returns relates the states before and after by `R`; it composes
along `bind` when `R` is transitive. `Keeps I x` is the case of an invariant.
-/

namespace GietVm.Library

section Run

variable {ε σ α β : Type} {s s' : σ}

theorem exits_bind_ok {x : EStateM ε σ α} {f : α → EStateM ε σ β} {a : α}
    (h : x s = .ok a s') : (x >>= f) s = f a s' := by
  simp [bind, EStateM.bind, h]

theorem exits_bind_error {x : EStateM ε σ α} {f : α → EStateM ε σ β} {e : ε}
    (h : x s = .error e s') : (x >>= f) s = .error e s' := by
  simp [bind, EStateM.bind, h]

/-- A sequence that returned consists of two parts that returned. -/
theorem exits_bind_inv {x : EStateM ε σ α} {f : α → EStateM ε σ β} {b : β}
    (h : (x >>= f) s = .ok b s') : ∃ a t, x s = .ok a t ∧ f a t = .ok b s' := by
  cases hx : x s with
  | ok a t => exact ⟨a, t, rfl, by rwa [exits_bind_ok hx] at h⟩
  | error e t => rw [exits_bind_error hx] at h; cases h

@[simp] theorem exits_pure (a : α) : (pure a : EStateM ε σ α) s = .ok a s := rfl

@[simp] theorem exits_throw (e : ε) : (throw e : EStateM ε σ α) s = .error e s := rfl

@[simp] theorem exits_get : (get : EStateM ε σ σ) s = .ok s s := rfl

@[simp] theorem exits_set (t : σ) : (set t : EStateM ε σ PUnit) s = .ok ⟨⟩ t := rfl

@[simp] theorem exits_modify (f : σ → σ) :
    (modify f : EStateM ε σ PUnit) s = .ok ⟨⟩ (f s) := rfl

theorem exits_bind_get (f : σ → EStateM ε σ β) : ((get : EStateM ε σ σ) >>= f) s = f s s := rfl

theorem exits_bind_set (t : σ) (f : PUnit → EStateM ε σ β) :
    ((set t : EStateM ε σ PUnit) >>= f) s = f ⟨⟩ t := rfl

theorem exits_bind_modify (g : σ → σ) (f : PUnit → EStateM ε σ β) :
    ((modify g : EStateM ε σ PUnit) >>= f) s = f ⟨⟩ (g s) := rfl

theorem exits_bind_throw (e : ε) (f : α → EStateM ε σ β) :
    ((throw e : EStateM ε σ α) >>= f) s = .error e s := rfl

end Run

section Steps

variable {ε σ α β : Type} {R : σ → σ → Prop}

/-- Every run that returns leads from a state to a state related to it. -/
def Steps (R : σ → σ → Prop) (x : EStateM ε σ α) : Prop :=
  ∀ s a s', x s = .ok a s' → R s s'

theorem Steps.pure (hrefl : ∀ s, R s s) (a : α) : Steps R (pure a : EStateM ε σ α) := by
  intro s b s' h
  cases h
  exact hrefl s

theorem Steps.throw (e : ε) : Steps R (throw e : EStateM ε σ α) := by
  intro s b s' h
  cases h

theorem Steps.get (hrefl : ∀ s, R s s) : Steps R (get : EStateM ε σ σ) := by
  intro s b s' h
  cases h
  exact hrefl s

theorem Steps.modify {f : σ → σ} (hf : ∀ s, R s (f s)) :
    Steps R (modify f : EStateM ε σ PUnit) := by
  intro s b s' h
  cases h
  exact hf s

theorem Steps.bind (htrans : ∀ {s t u}, R s t → R t u → R s u) {x : EStateM ε σ α}
    {f : α → EStateM ε σ β} (hx : Steps R x) (hf : ∀ a, Steps R (f a)) :
    Steps R (x >>= f) := by
  intro s b s' h
  obtain ⟨a, t, hxt, hft⟩ := exits_bind_inv h
  exact htrans (hx s a t hxt) (hf a t b s' hft)

theorem Steps.ite {c : Prop} [Decidable c] {x y : EStateM ε σ α} (hx : Steps R x)
    (hy : Steps R y) : Steps R (if c then x else y) := by
  split
  · exact hx
  · exact hy

theorem Steps.mono {R' : σ → σ → Prop} (h : ∀ s t, R s t → R' s t) {x : EStateM ε σ α}
    (hx : Steps R x) : Steps R' x := fun s a s' hs => h s s' (hx s a s' hs)

end Steps

end GietVm.Library
