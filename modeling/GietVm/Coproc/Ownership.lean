import GietVm.Coproc.Calls

/-!
# Owners of the coprocessors

The calls trust the slot `CTX_COPROC_ID`. It names the cluster of the lock that the task holds
as long as it names no cluster before the first allocation, and every other call keeps it so.
The boot does not initialise this slot: what the memory of the schedulers contains before
decides whether the coprocessors are driven by their owners only.
-/

namespace GietVm.Coproc

variable {T : Type} {c : Config T} {s s' : State T} {t u : T} {clusterXy : ℕ}

/-- A task holds the lock of a cluster: it has got the coprocessor of the cluster and not
released it, the lock is taken, and no other task has got it. -/
structure Holds (c : Config T) (s : State T) (t : T) (clusterXy : ℕ) : Prop where
  owns : s.owns t = true
  cluster : c.clusterXy t = clusterXy
  lock : s.lock (c.clusterId clusterXy) = true
  unique : ∀ u, s.owns u = true → c.clusterId (c.clusterXy u) = c.clusterId clusterXy → u = t

/-- The slots name the held locks. -/
structure Inv (c : Config T) (s : State T) : Prop where
  named : ∀ t, s.owns t = true → s.slot t = c.clusterXy t
  unnamed : ∀ t, s.owns t = false → 0xFF < s.slot t
  lock : ∀ clusterId, s.lock clusterId = true ↔
    ∃ t, s.owns t = true ∧ c.clusterId (c.clusterXy t) = clusterId
  unique : ∀ t u, s.owns t = true → s.owns u = true →
    c.clusterId (c.clusterXy t) = c.clusterId (c.clusterXy u) → t = u

theorem Config.clusterXy_le (c : Config T) (t : T) : c.clusterXy t ≤ 0xFF := c.mesh t

/-- The recorded cluster has the index of the cluster of the task. -/
theorem Config.clusterId_clusterXy (c : Config T) (t : T) :
    c.clusterId (c.clusterXy t) = c.ownClusterId t := by
  have hmask (a n : ℕ) : a &&& ((1 <<< n) - 1) = a % 2 ^ n := by
    rw [Nat.one_shiftLeft, Nat.and_two_pow_sub_one_eq_mod]
  have hy : c.y t < 2 ^ c.yWidth := by
    rw [Config.y, hmask]
    exact Nat.mod_lt _ (Nat.two_pow_pos _)
  have hxy : c.clusterXy t = c.y t + 2 ^ c.yWidth * c.x t := by
    rw [Config.clusterXy, Nat.shiftLeft_eq, Nat.add_comm, Nat.mul_comm]
  rw [Config.clusterId, Config.ownClusterId, hxy, hmask, Nat.shiftRight_eq_div_pow,
    Nat.add_mul_div_left _ _ (Nat.two_pow_pos _), Nat.div_eq_of_lt hy, Nat.zero_add,
    Nat.add_mul_mod_self_left, Nat.mod_eq_of_lt hy]

/-- In a state that meets the invariant, a task whose slot names a cluster holds its lock. -/
theorem Inv.holds (h : Inv c s) (hslot : ¬s.slot t > 0xFF) : Holds c s t (s.slot t) := by
  have howns : s.owns t = true := by
    by_contra hnot
    exact hslot (h.unnamed t (by simpa using hnot))
  have hnamed := h.named t howns
  refine ⟨howns, hnamed.symm, ?_, fun u hu heq => ?_⟩
  · rw [hnamed]
    exact (h.lock _).mpr ⟨t, howns, rfl⟩
  · rw [hnamed] at heq
    exact h.unique u t hu howns heq

/-! ## The accesses of the calls -/

/-- The accesses of a call that has passed the test of the slot. -/
structure Drives (clusterXy clusterId : ℕ) (events : List Event) : Prop where
  device : ∀ e, e ∈ events → ∀ cluster, e.device = some cluster → cluster = clusterXy
  release : ∀ id, Event.release id ∈ events → id = clusterId
  acquire : ∀ id, Event.acquire id ∉ events

theorem Drives.append {clusterId : ℕ} {events events' : List Event}
    (h : Drives clusterXy clusterId events) (h' : Drives clusterXy clusterId events') :
    Drives clusterXy clusterId (events ++ events') := by
  refine ⟨fun e he => ?_, fun id he => ?_, fun id he => ?_⟩
  · rcases List.mem_append.mp he with he | he
    · exact h.device e he
    · exact h'.device e he
  · rcases List.mem_append.mp he with he | he
    · exact h.release id he
    · exact h'.release id he
  · rcases List.mem_append.mp he with he | he
    · exact h.acquire id he
    · exact h'.acquire id he

theorem withCoproc_none {body : ℕ → Outcome T} (h : s.slot t > 0xFF) :
    withCoproc t s body = { state := s, events := [], result := -1 } := if_pos h

theorem withCoproc_some {body : ℕ → Outcome T} (h : ¬s.slot t > 0xFF) :
    withCoproc t s body = body (s.slot t) := if_neg h

variable [DecidableEq T]

omit [DecidableEq T] in
theorem Inv.congr (h : Inv c s) (hslot : s'.slot = s.slot) (howns : s'.owns = s.owns)
    (hlock : s'.lock = s.lock) : Inv c s' := by
  refine ⟨?_, ?_, ?_, ?_⟩
  · rw [hslot, howns]
    exact h.named
  · rw [hslot, howns]
    exact h.unnamed
  · rw [hlock, howns]
    exact h.lock
  · rw [howns]
    exact h.unique

/-- A task gets the coprocessor of its cluster when the lock is free. -/
theorem Inv.take (h : Inv c s) (hfree : s.lock (c.ownClusterId t) = false)
    (hslot : s'.slot = Function.update s.slot t (c.clusterXy t))
    (howns : s'.owns = Function.update s.owns t true)
    (hlock : s'.lock = Function.update s.lock (c.ownClusterId t) true) : Inv c s' := by
  have hid := c.clusterId_clusterXy t
  have hnone (u : T) (hu : s.owns u = true) : c.clusterId (c.clusterXy u) ≠ c.ownClusterId t := by
    intro heq
    rw [(h.lock _).mpr ⟨u, hu, heq⟩] at hfree
    cases hfree
  refine ⟨fun u hu => ?_, fun u hu => ?_, fun id => ?_, fun u v hu hv heq => ?_⟩
  · rw [hslot]
    by_cases hut : u = t
    · rw [hut, Function.update_self]
    · rw [howns, Function.update_of_ne hut] at hu
      rw [Function.update_of_ne hut]
      exact h.named u hu
  · have hut : u ≠ t := by
      rintro rfl
      rw [howns, Function.update_self] at hu
      cases hu
    rw [howns, Function.update_of_ne hut] at hu
    rw [hslot, Function.update_of_ne hut]
    exact h.unnamed u hu
  · rw [hlock, howns]
    by_cases hown : id = c.ownClusterId t
    · subst hown
      rw [Function.update_self]
      exact iff_of_true rfl ⟨t, Function.update_self .., hid⟩
    · rw [Function.update_of_ne hown, h.lock]
      constructor
      · rintro ⟨u, hu, heq⟩
        refine ⟨u, ?_, heq⟩
        by_cases hut : u = t
        · rw [hut, Function.update_self]
        · rw [Function.update_of_ne hut]
          exact hu
      · rintro ⟨u, hu, heq⟩
        have hut : u ≠ t := by
          rintro rfl
          exact hown (heq.symm.trans hid)
        rw [Function.update_of_ne hut] at hu
        exact ⟨u, hu, heq⟩
  · rw [howns] at hu hv
    by_cases hut : u = t <;> by_cases hvt : v = t
    · rw [hut, hvt]
    · subst hut
      rw [Function.update_of_ne hvt] at hv
      exact absurd (heq.symm.trans hid) (hnone v hv)
    · subst hvt
      rw [Function.update_of_ne hut] at hu
      exact absurd (heq.trans hid) (hnone u hu)
    · rw [Function.update_of_ne hut] at hu
      rw [Function.update_of_ne hvt] at hv
      exact h.unique u v hu hv heq

/-- The holder of a lock releases it. -/
theorem Inv.drop (h : Inv c s) (ht : s.owns t = true)
    (hslot : s'.slot = Function.update s.slot t 0xFFFFFFFF)
    (howns : s'.owns = Function.update s.owns t false)
    (hlock : s'.lock = Function.update s.lock (c.clusterId (c.clusterXy t)) false) : Inv c s' := by
  have hold {u : T} (hu : s'.owns u = true) : u ≠ t ∧ s.owns u = true := by
    have hut : u ≠ t := by
      rintro rfl
      rw [howns, Function.update_self] at hu
      cases hu
    rw [howns, Function.update_of_ne hut] at hu
    exact ⟨hut, hu⟩
  refine ⟨fun u hu => ?_, fun u hu => ?_, fun id => ?_, fun u v hu hv heq => ?_⟩
  · obtain ⟨hut, hu⟩ := hold hu
    rw [hslot, Function.update_of_ne hut]
    exact h.named u hu
  · rw [hslot]
    by_cases hut : u = t
    · rw [hut, Function.update_self]
      decide
    · rw [howns, Function.update_of_ne hut] at hu
      rw [Function.update_of_ne hut]
      exact h.unnamed u hu
  · rw [hlock]
    by_cases hid : id = c.clusterId (c.clusterXy t)
    · subst hid
      rw [Function.update_self]
      refine iff_of_false Bool.false_ne_true ?_
      rintro ⟨u, hu, heq⟩
      obtain ⟨hut, hu⟩ := hold hu
      exact hut (h.unique u t hu ht heq)
    · rw [Function.update_of_ne hid, h.lock]
      constructor
      · rintro ⟨u, hu, heq⟩
        have hut : u ≠ t := by
          rintro rfl
          exact hid heq.symm
        exact ⟨u, by rw [howns, Function.update_of_ne hut]; exact hu, heq⟩
      · rintro ⟨u, hu, heq⟩
        exact ⟨u, (hold hu).2, heq⟩
  · exact h.unique u v (hold hu).2 (hold hv).2 heq

/-- Every call keeps the invariant. -/
theorem Inv.call (h : Inv c s) {k : Call} (henabled : Enabled c s t k) :
    Inv c (call c t k s).state := by
  cases k with
  | alloc coprocType =>
    rw [Enabled] at henabled
    rw [Coproc.call, sysCoprocAlloc]
    split
    · rename_i found hfound
      exact h.take (henabled.2 (by rw [hfound]; rfl)) rfl rfl rfl
    · exact h
  | release coprocRegIndex =>
    rw [Coproc.call, sysCoprocRelease]
    by_cases hslot : s.slot t > 0xFF
    · rw [withCoproc_none hslot]
      exact h
    · rw [withCoproc_some hslot]
      have hholds := h.holds hslot
      exact h.drop hholds.owns rfl rfl (by rw [hholds.cluster])
  | channelInit channel desc =>
    have hstate : (sysCoprocChannelInit t channel desc s).state = s := by
      rw [sysCoprocChannelInit, withCoproc]
      dsimp only
      split
      · rfl
      · split <;> rfl
    rw [Coproc.call, hstate]
    exact h
  | run coprocRegIndex modes error =>
    rw [Coproc.call, sysCoprocRun, withCoproc]
    dsimp only
    split
    · exact h
    · split
      · exact h
      · exact h.congr rfl rfl rfl
  | completed reads status =>
    have hstate : (sysCoprocCompleted c t reads status s).state = s := by
      rw [sysCoprocCompleted, withCoproc]
      dsimp only
      split
      · rfl
      · split <;> rfl
    rw [Coproc.call, hstate]
    exact h

/-- The boot does not write the slot of the coprocessor. -/
theorem bootContext_coproc (b : TaskBoot) (memory : ℕ → BitVec 32) :
    bootContext b memory ctxCoprocId = memory ctxCoprocId := by
  simp [bootContext, ctxCoprocId]

variable {boot : T → TaskBoot} {memory : T → ℕ → BitVec 32}

theorem Run.inv (h : Run c boot memory s)
    (hmemory : ∀ t, 0xFF < (memory t ctxCoprocId).toNat) : Inv c s := by
  induction h with
  | init h =>
    refine ⟨fun t ht => ?_, fun t _ => ?_, fun id => ?_, fun t u ht => ?_⟩
    · cases (h.owns t).symm.trans ht
    · rw [h.slot t, bootContext_coproc]
      exact hmemory t
    · rw [h.lock id]
      refine iff_of_false Bool.false_ne_true ?_
      rintro ⟨t, ht, -⟩
      cases (h.owns t).symm.trans ht
    · cases (h.owns t).symm.trans ht
  | call _ t k henabled ih => exact ih.call henabled
  | signal _ t live ih => exact ih.congr rfl rfl rfl

end GietVm.Coproc
