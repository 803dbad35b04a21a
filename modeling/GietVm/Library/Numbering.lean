import Mathlib.Data.List.Perm.Basic
import Mathlib.Data.List.Range
import Mathlib.Tactic.Common

/-!
# Objects numbered in the order of their creation

Objects are created one after the other, and each gets the number of those created before it.
They are kept in groups, so the list of all groups holds them in another order. `Registered` says
that a list holds each created object once, under the number of its creation. When the list is
also in the order of the numbers (`Numbered`), an object is found at its own number, and a group
takes up an interval of numbers that starts at the number of its first object.
-/

namespace GietVm.Library

variable {α β γ : Type*}

/-- The objects carry the numbers of their places. -/
def Numbered (number : α → ℕ) (l : List α) : Prop := l.map number = List.range l.length

/-- The list holds each created object once, with the number of its creation. -/
structure Registered (number : α → ℕ) (decl : α → β) (l : List α) (decls : List β) : Prop where
  numbers : (l.map number).Perm (List.range decls.length)
  declared : ∀ o ∈ l, decls[number o]? = some (decl o)

section Numbered

variable {number : α → ℕ} {l : List α}

theorem numbered_iff : Numbered number l ↔ ∀ k o, l[k]? = some o → number o = k := by
  constructor
  · intro h k o hk
    have hget := congrArg (·[k]?) h
    simp only [List.getElem?_map, hk, Option.map_some] at hget
    have hlt : k < l.length := (List.getElem?_eq_some_iff.1 hk).1
    rw [List.getElem?_range hlt] at hget
    exact Option.some.inj hget
  · intro h
    apply List.ext_getElem
    · simp
    · intro k hk _
      rw [List.length_map] at hk
      rw [List.getElem_map, List.getElem_range]
      exact h k _ (List.getElem?_eq_getElem hk)

/-- A group of a numbered list takes up an interval of numbers. -/
theorem Numbered.interval {g : γ → List α} {groups : List γ} (h : Numbered number (groups.flatMap g))
    {c : γ} (hc : c ∈ groups) :
    ∃ start, (g c).map number = List.range' start (g c).length := by
  obtain ⟨before, after, rfl⟩ := List.append_of_mem hc
  refine ⟨(before.flatMap g).length, ?_⟩
  rw [Numbered, List.flatMap_append, List.flatMap_cons, List.map_append, List.map_append,
    List.length_append, List.length_append, List.range_eq_range', ← List.range'_append_1,
    ← List.range'_append_1] at h
  have hrest := (List.append_inj h (by simp)).2
  have hmine := (List.append_inj hrest (by simp)).1
  rw [hmine, Nat.zero_add]

/-- The numbers of a group, from the number of its first object on. -/
theorem Numbered.mem_group {g : γ → List α} {groups : List γ}
    (h : Numbered number (groups.flatMap g)) {c : γ} (hc : c ∈ groups) {k first : ℕ}
    (hfirst : ∀ o ∈ (g c).head?, first = number o) :
    first ≤ k ∧ k < first + (g c).length ↔ ∃ o ∈ g c, number o = k := by
  obtain ⟨start, hstart⟩ := h.interval hc
  have hmem : (∃ o ∈ g c, number o = k) ↔ start ≤ k ∧ k < start + (g c).length := by
    rw [← List.mem_map, hstart, List.mem_range'_1]
  rw [hmem]
  cases hg : g c with
  | nil => simp only [List.length_nil]; omega
  | cons o rest =>
    rw [hg, List.map_cons, List.length_cons, List.range'_succ] at hstart
    have ho : number o = start := (List.cons.inj hstart).1
    rw [hfirst o (by rw [hg]; rfl), ho]

end Numbered

section Registered

variable {number : α → ℕ} {decl : α → β} {l l' : List α} {decls : List β}

theorem registered_nil : Registered number decl [] [] := by
  constructor
  · exact List.Perm.nil
  · intro o ho
    exact absurd ho List.not_mem_nil

theorem Registered.length (h : Registered number decl l decls) : l.length = decls.length := by
  have := h.numbers.length_eq
  rwa [List.length_map, List.length_range] at this

theorem Registered.nodup (h : Registered number decl l decls) : (l.map number).Nodup :=
  h.numbers.nodup_iff.2 List.nodup_range

/-- One more object is created. -/
theorem Registered.add (h : Registered number decl l decls) {o : α} (hperm : l'.Perm (l ++ [o]))
    (hnumber : number o = decls.length) : Registered number decl l' (decls ++ [decl o]) := by
  constructor
  · rw [List.length_append, List.length_singleton, List.range_succ]
    refine (hperm.map number).trans ?_
    rw [List.map_append, List.map_singleton, hnumber]
    exact h.numbers.append_right _
  · intro p hp
    rw [hperm.mem_iff, List.mem_append, List.mem_singleton] at hp
    obtain hold | rfl := hp
    · have hget := h.declared p hold
      rw [List.getElem?_append_left (List.getElem?_eq_some_iff.1 hget).1]
      exact hget
    · rw [hnumber, List.getElem?_concat_length]

/-- The order of the list does not matter. -/
theorem Registered.perm (h : Registered number decl l decls) (hperm : l'.Perm l) :
    Registered number decl l' decls := by
  constructor
  · exact (hperm.map number).trans h.numbers
  · intro o ho
    exact h.declared o (hperm.mem_iff.1 ho)

/-- Changes of the objects that keep their numbers and what they were declared with. -/
theorem Registered.map (h : Registered number decl l decls) {f : α → α}
    (hnumber : ∀ o, number (f o) = number o) (hdecl : ∀ o, decl (f o) = decl o) :
    Registered number decl (l.map f) decls := by
  constructor
  · rw [List.map_map]
    have heq : number ∘ f = number := funext hnumber
    rw [heq]
    exact h.numbers
  · intro p hp
    obtain ⟨o, ho, rfl⟩ := List.mem_map.1 hp
    rw [hnumber, hdecl]
    exact h.declared o ho

/-- Each declaration has its object. -/
theorem Registered.exists_object (h : Registered number decl l decls) {k : ℕ} {d : β}
    (hk : decls[k]? = some d) : ∃ o ∈ l, number o = k ∧ decl o = d := by
  have hlt : k < decls.length := (List.getElem?_eq_some_iff.1 hk).1
  have hmem : k ∈ l.map number := h.numbers.mem_iff.2 (List.mem_range.2 hlt)
  obtain ⟨o, ho, rfl⟩ := List.mem_map.1 hmem
  refine ⟨o, ho, rfl, ?_⟩
  have := h.declared o ho
  rw [hk] at this
  exact (Option.some.inj this).symm

/-- In a numbered list the declarations stand in the order of the objects. -/
theorem Registered.getElem? (h : Registered number decl l decls) (hnum : Numbered number l)
    (k : ℕ) : decls[k]? = l[k]?.map decl := by
  cases hk : l[k]? with
  | some o =>
    have := h.declared o (List.mem_of_getElem? hk)
    rwa [numbered_iff.1 hnum k o hk] at this
  | none =>
    rw [List.getElem?_eq_none_iff, h.length] at hk
    rw [List.getElem?_eq_none hk]
    rfl

/-- The numbers of a group are those of the declarations that belong to its place. -/
theorem Registered.mem_group {g : γ → List α} {groups : List γ}
    (h : Registered number decl (groups.flatMap g) decls) {q : ℕ → β → Prop}
    (hplaced : ∀ j c, groups[j]? = some c → ∀ o ∈ g c, q j (decl o))
    (hunique : ∀ i j d, q i d → q j d → i = j) {i k : ℕ} {c : γ}
    (hc : groups[i]? = some c) :
    (∃ o ∈ g c, number o = k) ↔ ∃ d, decls[k]? = some d ∧ q i d := by
  constructor
  · intro ⟨o, ho, hk⟩
    have hmem : o ∈ groups.flatMap g := List.mem_flatMap.2 ⟨c, List.mem_of_getElem? hc, ho⟩
    rw [← hk]
    exact ⟨decl o, h.declared o hmem, hplaced i c hc o ho⟩
  · intro ⟨d, hd, hi⟩
    obtain ⟨o, hmem, hk, rfl⟩ := h.exists_object hd
    obtain ⟨c', hc', ho⟩ := List.mem_flatMap.1 hmem
    obtain ⟨j, hj⟩ := List.getElem?_of_mem hc'
    have hij : i = j := hunique i j _ hi (hplaced j c' hj o ho)
    rw [hij, hj] at hc
    rw [← Option.some.inj hc]
    exact ⟨o, ho, hk⟩

/-- The numbers of the objects of an owner are those of the declarations that name the owner. -/
theorem Registered.mem_members {ι : Type*} {pairs : List (ι × α)} {pdecl : ι × α → β}
    (h : Registered (fun o => number o.2) pdecl pairs decls) {f : β → ι}
    (hf : ∀ o, f (pdecl o) = o.1) {i : ι} {members : List α}
    (hmembers : ∀ o, (i, o) ∈ pairs ↔ o ∈ members) {k : ℕ} :
    (∃ o ∈ members, number o = k) ↔ ∃ d, decls[k]? = some d ∧ f d = i := by
  constructor
  · intro ⟨o, ho, hk⟩
    rw [← hk]
    exact ⟨pdecl (i, o), h.declared _ ((hmembers o).2 ho), hf (i, o)⟩
  · intro ⟨d, hd, hi⟩
    obtain ⟨⟨j, o⟩, hmem, hk, rfl⟩ := h.exists_object hd
    rw [hf] at hi
    change j = i at hi
    rw [hi] at hmem
    exact ⟨o, (hmembers o).1 hmem, hk⟩

/-- The objects of an owner among the pairs of numbered owners with their objects. -/
theorem Numbered.mem_pairs {ι : Type*} {f : ℕ → ι} (hf : Function.Injective f)
    {number : γ → ℕ} {g : γ → List α} {groups : List γ} (h : Numbered number groups) {i : ℕ}
    {c : γ} (hc : groups[i]? = some c) (o : α) :
    (f i, o) ∈ (groups.flatMap fun c => (g c).map fun o => (f (number c), o)) ↔ o ∈ g c := by
  rw [List.mem_flatMap]
  constructor
  · intro ⟨c', hc', hmem⟩
    obtain ⟨o', ho', heq⟩ := List.mem_map.1 hmem
    obtain ⟨j, hj⟩ := List.getElem?_of_mem hc'
    rw [numbered_iff.1 h j c' hj, Prod.mk.injEq] at heq
    rw [← hf heq.1, hj] at hc
    rw [← heq.2, ← Option.some.inj hc]
    exact ho'
  · intro ho
    refine ⟨c, List.mem_of_getElem? hc, List.mem_map.2 ⟨o, ho, ?_⟩⟩
    rw [numbered_iff.1 h i c hc]

end Registered

section Groups

variable {g : γ → List α} {groups : List γ} {f : γ → γ} {o : α}

/-- An object is added to the group at a place. -/
theorem flatMap_modify_perm {i : ℕ} (hi : i < groups.length)
    (hf : ∀ c, groups[i]? = some c → (g (f c)).Perm (g c ++ [o])) :
    ((groups.modify i f).flatMap g).Perm (groups.flatMap g ++ [o]) := by
  rw [List.modify_eq_take_cons_drop hi, List.flatMap_append, List.flatMap_cons]
  have hsplit : groups.flatMap g =
      (groups.take i).flatMap g ++ (g groups[i] ++ (groups.drop (i + 1)).flatMap g) := by
    rw [← List.flatMap_cons, ← List.flatMap_append, List.getElem_cons_drop,
      List.take_append_drop]
  rw [hsplit, List.append_assoc, List.append_assoc]
  have hmine := hf groups[i] (List.getElem?_eq_getElem hi)
  refine List.Perm.append_left _ ((hmine.append_right _).trans ?_)
  rw [List.append_assoc]
  exact List.Perm.append_left _ List.perm_append_comm

/-- A change of one group that leaves its objects. -/
theorem flatMap_modify {i : ℕ} (hf : ∀ c, g (f c) = g c) :
    (groups.modify i f).flatMap g = groups.flatMap g := by
  induction groups generalizing i with
  | nil => rw [List.modify_nil]
  | cons c rest ih =>
    cases i with
    | zero => rw [List.modify_zero_cons, List.flatMap_cons, List.flatMap_cons, hf]
    | succ i => rw [List.modify_succ_cons, List.flatMap_cons, List.flatMap_cons, ih]

/-- An object is added to the group that carries a number. -/
theorem flatMap_map_perm {number : γ → ℕ} (hnodup : (groups.map number).Nodup) {k : ℕ}
    (hmem : k ∈ groups.map number) (hhit : ∀ c, number c = k → (g (f c)).Perm (g c ++ [o]))
    (hmiss : ∀ c, number c ≠ k → g (f c) = g c) :
    ((groups.map f).flatMap g).Perm (groups.flatMap g ++ [o]) := by
  induction groups with
  | nil => exact absurd hmem List.not_mem_nil
  | cons c rest ih =>
    rw [List.map_cons, List.nodup_cons] at hnodup
    rw [List.map_cons, List.flatMap_cons, List.flatMap_cons]
    by_cases hc : number c = k
    · have hrest : (rest.map f).flatMap g = rest.flatMap g := by
        rw [List.flatMap_map]
        apply List.flatMap_congr
        intro c' hc'
        apply hmiss
        intro heq
        exact hnodup.1 (hc.trans heq.symm ▸ List.mem_map_of_mem hc')
      rw [hrest, List.append_assoc]
      refine ((hhit c hc).append_right _).trans ?_
      rw [List.append_assoc]
      exact List.Perm.append_left _ List.perm_append_comm
    · have hrest : k ∈ rest.map number := by
        rw [List.map_cons, List.mem_cons] at hmem
        exact hmem.resolve_left (Ne.symm hc)
      rw [hmiss c hc, List.append_assoc]
      exact List.Perm.append_left _ (ih hnodup.2 hrest)

end Groups

/-- When the indexes of the elements that satisfy a test make an interval, its size is their
number. -/
theorem countP_eq_of_interval {α : Type*} {l : List α} {test : α → Bool} {i n : ℕ}
    (h : ∀ k, i ≤ k ∧ k < i + n ↔ ∃ o, l[k]? = some o ∧ test o = true) :
    l.countP test = n := by
  induction l generalizing i n with
  | nil =>
    rw [List.countP_nil]
    by_contra hne
    obtain ⟨o, ho, _⟩ := (h i).1 ⟨Nat.le_refl _, by omega⟩
    rw [List.getElem?_nil] at ho
    cases ho
  | cons o l ih =>
    have hhead : i ≤ 0 ∧ 0 < i + n ↔ test o = true := by
      rw [h 0, List.getElem?_cons_zero]
      constructor
      · intro ⟨o', ho', htest⟩
        rwa [Option.some.inj ho']
      · intro htest
        exact ⟨o, rfl, htest⟩
    have htail (k : ℕ) : i ≤ k + 1 ∧ k + 1 < i + n ↔
        ∃ o, l[k]? = some o ∧ test o = true := by
      rw [h (k + 1), List.getElem?_cons_succ]
    by_cases ho : test o = true
    · have hfirst := hhead.2 ho
      rw [List.countP_cons_of_pos ho, ih (i := 0) (n := n - 1)]
      · omega
      · intro k
        rw [← htail k]
        omega
    · have hfirst := hhead.not.2 ho
      rw [List.countP_cons_of_neg ho, ih (i := i - 1) (n := n)]
      intro k
      rw [← htail k]
      omega

end GietVm.Library
