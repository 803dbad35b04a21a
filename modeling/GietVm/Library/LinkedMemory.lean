import Mathlib.Logic.Function.Basic

/-!
# Memories with linked accesses

A task that reads a word with a linked load gets a link to it. Every store to the word breaks all
links to it, and a conditional store of a task does something only when the link of the task still
holds; it may also fail for no reason. A task that is still linked to a word knows what is in it, so
a loop of a linked load and a conditional store updates the word in one step.

`Replays` says what that means for a whole memory: its words are those that a list of updates
leaves, each of which finds in its word the value that it reports.
-/

namespace GietVm.Library

/-- The words of a memory, and the word to which each task is linked. -/
structure LinkedMemory (A V T : Type*) where
  word : A → V
  link : T → Option A

namespace LinkedMemory

variable {A V T : Type*} [DecidableEq A] [DecidableEq T] (m : LinkedMemory A V T) {t u : T}
  {a b : A} {v w : V}

/-- A task gets a link. -/
def loadLinked (t : T) (a : A) : LinkedMemory A V T :=
  { m with link := Function.update m.link t (some a) }

/-- A store breaks the links to its word. -/
def store (a : A) (v : V) : LinkedMemory A V T where
  word := Function.update m.word a v
  link := fun t => if m.link t = some a then none else m.link t

/-- A task loses its link. -/
def unlink (t : T) : LinkedMemory A V T := { m with link := Function.update m.link t none }

/-- A conditional store, which says whether it has stored. -/
def storeConditional (t : T) (a : A) (v : V) (fails : Bool) : Bool × LinkedMemory A V T :=
  if m.link t = some a ∧ fails = false then (true, m.store a v) else (false, m.unlink t)

/-- What a task knows of a word while it is linked to it. -/
def Knows (t : T) (a : A) (v : V) : Prop := m.link t = some a → m.word a = v

omit [DecidableEq A] in
theorem loadLinked_link (t : T) (a : A) :
    (m.loadLinked t a).link = Function.update m.link t (some a) := rfl

omit [DecidableEq A] in
theorem unlink_link (t : T) : (m.unlink t).link = Function.update m.link t none := rfl

omit [DecidableEq T] in
@[simp] theorem store_word_self (a : A) (v : V) : (m.store a v).word a = v :=
  Function.update_self ..

omit [DecidableEq T] in
theorem store_word_of_ne (h : b ≠ a) : (m.store a v).word b = m.word b := Function.update_of_ne h ..

variable {m}

omit [DecidableEq A] in
theorem loadLinked_knows : (m.loadLinked t a).Knows t a (m.word a) := fun _ => rfl

omit [DecidableEq A] in
/-- A linked load of another task, or of another word, leaves nothing known that was not. -/
theorem Knows.loadLinked (h : m.Knows u a v) (hne : u ≠ t ∨ a ≠ b) :
    (m.loadLinked t b).Knows u a v := by
  intro hlink
  rw [loadLinked_link] at hlink
  by_cases hu : u = t
  · subst hu
    rw [Function.update_self, Option.some.injEq] at hlink
    obtain hne | hne := hne
    · exact absurd rfl hne
    · exact absurd hlink.symm hne
  · rw [Function.update_of_ne hu] at hlink
    exact h hlink

omit [DecidableEq A] in
theorem Knows.unlink (h : m.Knows u a v) (t : T) : (m.unlink t).Knows u a v := by
  intro hlink
  by_cases hne : u = t
  · subst hne
    rw [unlink_link, Function.update_self] at hlink
    cases hlink
  · rw [unlink_link, Function.update_of_ne hne] at hlink
    exact h hlink

omit [DecidableEq T] in
/-- A store to the word breaks the link, and one to another word changes nothing. -/
theorem Knows.store (h : m.Knows u a v) (b : A) (w : V) : (m.store b w).Knows u a v := by
  intro hlink
  rw [LinkedMemory.store] at hlink
  dsimp only at hlink
  split at hlink
  · cases hlink
  · rename_i hother
    have hne : a ≠ b := by
      intro heq
      exact hother (heq ▸ hlink)
    rw [store_word_of_ne m hne]
    exact h hlink

/-- What a conditional store can do. -/
theorem storeConditional_cases (m : LinkedMemory A V T) (t : T) (a : A) (v : V) (fails : Bool) :
    (m.link t = some a ∧ m.storeConditional t a v fails = (true, m.store a v)) ∨
      m.storeConditional t a v fails = (false, m.unlink t) := by
  rw [storeConditional]
  split
  · rename_i hlinked
    exact Or.inl ⟨hlinked.1, rfl⟩
  · exact Or.inr rfl

theorem Knows.storeConditional (h : m.Knows u a v) (t : T) (b : A) (w : V) (fails : Bool) :
    (m.storeConditional t b w fails).2.Knows u a v := by
  obtain ⟨-, heq⟩ | heq := m.storeConditional_cases t b w fails
  · rw [heq]
    exact h.store b w
  · rw [heq]
    exact h.unlink t

end LinkedMemory

/-! ## Updates in a row -/

/-- An update of a word, with the value that it found there. -/
structure Update (A O V : Type*) where
  address : A
  op : O
  old : V

section Replays

variable {A O V : Type*} [DecidableEq A] {apply : O → V → V} {before after : A → V}
  {updates : List (Update A O V)} {update : Update A O V}

/-- The updates made one after the other lead from one content of the memory to another one, and
each of them finds the value that it reports. -/
def Replays (apply : O → V → V) : (A → V) → List (Update A O V) → (A → V) → Prop
  | before, [], after => before = after
  | before, u :: updates, after => before u.address = u.old ∧
    Replays apply (Function.update before u.address (apply u.op u.old)) updates after

/-- One more update. -/
theorem Replays.concat (h : Replays apply before updates after)
    (hold : after update.address = update.old) :
    Replays apply before (updates ++ [update])
      (Function.update after update.address (apply update.op update.old)) := by
  induction updates generalizing before with
  | nil =>
    have heq : before = after := h
    rw [List.nil_append, heq]
    exact ⟨hold, rfl⟩
  | cons u updates ih =>
    obtain ⟨hfirst, hrest⟩ := h
    exact ⟨hfirst, ih hrest⟩

end Replays

end GietVm.Library
