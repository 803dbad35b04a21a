import GietVm.Boot.Schedulers
import GietVm.Library.Bits
import Mathlib.Data.List.Count
import Mathlib.Data.List.Induction
import Mathlib.Data.List.Nodup
import Mathlib.Tactic.SplitIfs

/-!
# Placement of the tasks and of the interrupts

After the boot, the number of tasks of a scheduler is the number of those that the mapping places on
its processor, whatever this number is. While it is at most 13, the contexts are those of these tasks
in the order of the mapping, and the other words of the scheduler are those of step 1. So every task
has one context when it is in the range of one vspace and its processor exists, and an interrupt
vector holds the inputs of the XCU when no input is declared twice.
-/

namespace GietVm.Boot.Sched

open Library

variable {c : Config} {m : Mapping} {x y : ℕ}

/-! ## Writes -/

section Writes

variable {w : Words} {a lpid ltid : ℕ}

/-- A loop keeps a word that no turn writes. -/
theorem foldl_keep {α : Type} {f : Words → α → Words} {l : List α}
    (h : ∀ w, ∀ i ∈ l, f w i a = w a) : l.foldl f w a = w a := by
  induction l generalizing w with
  | nil => rfl
  | cons i l ih =>
    rw [List.foldl_cons, ih fun w i hi => h w i (List.mem_cons_of_mem _ hi)]
    exact h w i List.mem_cons_self

theorem writeSlots_of_ne {slots : List (ℕ × ℕ)}
    (h : ∀ s ∈ slots, a ≠ contextWord lpid ltid s.1) : writeSlots w lpid ltid slots a = w a :=
  foldl_keep fun _ s hs => Function.update_of_ne (h s hs) _ _

theorem writeSlots_of_mem {slots : List (ℕ × ℕ)} (hnodup : (slots.map Prod.fst).Nodup)
    {slot value : ℕ} (hmem : (slot, value) ∈ slots) :
    writeSlots w lpid ltid slots (contextWord lpid ltid slot) = value := by
  induction slots generalizing w with
  | nil => exact absurd hmem List.not_mem_nil
  | cons s slots ih =>
    rw [List.map_cons, List.nodup_cons] at hnodup
    obtain rfl | hmem := List.mem_cons.mp hmem
    · have hne : ∀ s ∈ slots, contextWord lpid ltid slot ≠ contextWord lpid ltid s.1 := by
        intro s hs heq
        have hslot : slot = s.1 := Nat.add_left_cancel heq
        apply hnodup.1
        change slot ∈ _
        rw [hslot]
        exact List.mem_map_of_mem hs
      refine (writeSlots_of_ne hne).trans ?_
      exact Function.update_self _ _ _
    · exact ih hnodup.2 hmem

/-- The slots of the context of a task. -/
theorem contextSlots_fst (c : Config) (m : Mapping) (t : Turn) (ltid : ℕ) :
    (contextSlots c m t ltid).map Prod.fst = [33, 34, 29, 32, 52, 39, 36, 37, 49, 48, 38, 50, 53, 40,
      41, 42, 43, 44, 45, 46, 47] := rfl

theorem contextSlots_bounds {t : Turn} : ∀ s ∈ contextSlots c m t ltid, 29 ≤ s.1 ∧ s.1 < 54 := by
  intro s hs
  have hmem : s.1 ∈ (contextSlots c m t ltid).map Prod.fst := List.mem_map_of_mem hs
  rw [contextSlots_fst] at hmem
  revert hmem
  generalize s.1 = slot
  revert slot
  decide

end Writes

/-! ## One task -/

section Append

variable {t : Turn} {lpid : ℕ} {b : Booted}

/-- The number of tasks grows by one. -/
theorem appendTask_tasks (l : ℕ) : (appendTask c m t lpid b).words (tasksWord l) =
    b.words (tasksWord l) + (if l = lpid then 1 else 0) := by
  have hne : ∀ s ∈ contextSlots c m t (b.words (tasksWord lpid)),
      tasksWord l ≠ contextWord lpid (b.words (tasksWord lpid)) s.1 := by
    intro s hs
    have hs' := contextSlots_bounds s hs
    unfold tasksWord contextWord
    omega
  rw [appendTask]
  dsimp only
  rw [writeSlots_of_ne hne]
  split_ifs with hl
  · rw [hl, Function.update_self]
  · have htasks : tasksWord l ≠ tasksWord lpid := by
      unfold tasksWord
      omega
    rw [Function.update_of_ne htasks, Nat.add_zero]

/-- The other words do not change, if they are not in the context. -/
theorem appendTask_other {a : ℕ} (htasks : a ≠ tasksWord lpid)
    (hcontext : a < contextWord lpid (b.words (tasksWord lpid)) 29 ∨
      contextWord lpid (b.words (tasksWord lpid)) 54 ≤ a) :
    (appendTask c m t lpid b).words a = b.words a := by
  have hne : ∀ s ∈ contextSlots c m t (b.words (tasksWord lpid)),
      a ≠ contextWord lpid (b.words (tasksWord lpid)) s.1 := by
    intro s hs
    have hs' := contextSlots_bounds s hs
    unfold contextWord at hcontext ⊢
    omega
  rw [appendTask]
  dsimp only
  rw [writeSlots_of_ne hne, Function.update_of_ne htasks]

/-- The context has the index of the task in the scheduler and its index in the mapping. -/
theorem appendTask_context :
    (appendTask c m t lpid b).words (contextWord lpid (b.words (tasksWord lpid)) ctxLtid) =
      b.words (tasksWord lpid) ∧
    (appendTask c m t lpid b).words (contextWord lpid (b.words (tasksWord lpid)) ctxGtid) =
      t.taskId := by
  have hnodup : ((contextSlots c m t (b.words (tasksWord lpid))).map Prod.fst).Nodup := by
    rw [contextSlots_fst]
    decide
  rw [appendTask]
  dsimp only
  constructor
  · apply writeSlots_of_mem hnodup
    simp only [contextSlots, List.mem_cons, true_or, or_true]
  · apply writeSlots_of_mem hnodup
    simp only [contextSlots, List.mem_cons, true_or, or_true]

end Append

/-! ## The tasks of a cluster -/

/-- The task of a turn is placed on a processor of the cluster. -/
def Here (m : Mapping) (x y nprocs : ℕ) (t : Turn) : Prop :=
  x = (m.cluster (m.task t.taskId).clusterid).x ∧ y = (m.cluster (m.task t.taskId).clusterid).y ∧
    (m.task t.taskId).proclocid < nprocs

instance (m : Mapping) (x y nprocs : ℕ) (t : Turn) : Decidable (Here m x y nprocs t) :=
  inferInstanceAs (Decidable (_ ∧ _))

/-- The turns of the tasks that are placed on a processor of the cluster. -/
def Mapping.here (m : Mapping) (x y nprocs : ℕ) : List Turn := m.turns.filter (Here m x y nprocs ·)

/-- The turns of a list that are on a processor. -/
def onProc (m : Mapping) (turns : List Turn) (lpid : ℕ) : List Turn :=
  turns.filter fun t => (m.task t.taskId).proclocid = lpid

/-- The loop on the local processors does at most one of its turns. -/
theorem foldl_fit (t : Turn) (b : Booted) (n : ℕ) :
    (List.range n).foldl (fun b lpid => if Fit m x y lpid t then appendTask c m t lpid b else b) b =
      if Here m x y n t then appendTask c m t (m.task t.taskId).proclocid b else b := by
  induction n with
  | zero => exact (if_neg fun h => Nat.not_lt_zero _ h.2.2).symm
  | succ n ih =>
    rw [List.range_succ, List.foldl_append, ih, List.foldl_cons, List.foldl_nil]
    by_cases hcluster : x = (m.cluster (m.task t.taskId).clusterid).x ∧
        y = (m.cluster (m.task t.taskId).clusterid).y
    · have hfit : Fit m x y n t ↔ (m.task t.taskId).proclocid = n :=
        ⟨fun h => h.2.2, fun h => ⟨hcluster.1, hcluster.2, h⟩⟩
      have hhere : ∀ k, Here m x y k t ↔ (m.task t.taskId).proclocid < k :=
        fun k => ⟨fun h => h.2.2, fun h => ⟨hcluster.1, hcluster.2, h⟩⟩
      obtain hlt | heq | hgt := Nat.lt_trichotomy (m.task t.taskId).proclocid n
      · rw [if_neg (by rw [hfit]; omega), if_pos ((hhere n).mpr hlt),
          if_pos ((hhere (n + 1)).mpr (by omega))]
      · rw [if_pos (hfit.mpr heq), if_neg (by rw [hhere]; omega),
          if_pos ((hhere (n + 1)).mpr (by omega)), heq]
      · rw [if_neg (by rw [hfit]; omega), if_neg (by rw [hhere]; omega),
          if_neg (by rw [hhere]; omega)]
    · have hfit : ¬ Fit m x y n t := fun h => hcluster ⟨h.1, h.2.1⟩
      have hhere : ∀ k, ¬ Here m x y k t := fun k h => hcluster ⟨h.1, h.2.1⟩
      rw [if_neg hfit, if_neg (hhere n), if_neg (hhere (n + 1))]

/-- Step 2 appends the tasks of the cluster in the order of the mapping. -/
theorem schedulerInit2_eq (c : Config) (m : Mapping) (x y nprocs : ℕ) (b : Booted) :
    schedulerInit2 c m x y nprocs b = (m.here x y nprocs).foldl (fun b t =>
      appendTask c m t (m.task t.taskId).proclocid b) b := by
  rw [schedulerInit2, Mapping.here, List.foldl_filter]
  congr 1
  funext b t
  rw [foldl_fit]
  simp only [decide_eq_true_eq]

/-- The processors of the cluster and the tasks that they have. -/
theorem onProc_here {nprocs lpid : ℕ} (hlpid : lpid < nprocs) :
    onProc m (m.here x y nprocs) lpid = m.turns.filter (Fit m x y lpid ·) := by
  rw [onProc, Mapping.here, List.filter_filter]
  apply List.filter_congr
  intro t _
  rw [← Bool.decide_and, decide_eq_decide]
  constructor
  · rintro ⟨hproc, hx, hy, -⟩
    exact ⟨hx, hy, hproc⟩
  · rintro ⟨hx, hy, hproc⟩
    exact ⟨hproc, hx, hy, by omega⟩

/-! ## Step 2 -/

section Step2

variable {b₀ : Booted} {turns : List Turn}

/-- The tasks of a list are appended. -/
def appendAll (c : Config) (m : Mapping) (b : Booted) (turns : List Turn) : Booted :=
  turns.foldl (fun b t => appendTask c m t (m.task t.taskId).proclocid b) b

theorem appendAll_concat (turns : List Turn) (t : Turn) : appendAll c m b₀ (turns ++ [t]) =
    appendTask c m t (m.task t.taskId).proclocid (appendAll c m b₀ turns) := by
  rw [appendAll, List.foldl_append]
  rfl

theorem onProc_concat (turns : List Turn) (t : Turn) (lpid : ℕ) : onProc m (turns ++ [t]) lpid =
    onProc m turns lpid ++ (if (m.task t.taskId).proclocid = lpid then [t] else []) := by
  rw [onProc, List.filter_append]
  congr 1
  split_ifs with h
  · exact List.filter_cons_of_pos (decide_eq_true h)
  · exact List.filter_cons_of_neg (by rw [decide_eq_true_eq]; exact h)

/-- The number of tasks of a scheduler is the number of the tasks of its processor. -/
theorem appendAll_tasks (turns : List Turn) (lpid : ℕ) :
    (appendAll c m b₀ turns).words (tasksWord lpid) =
      b₀.words (tasksWord lpid) + (onProc m turns lpid).length := by
  induction turns using List.reverseRecOn with
  | nil => rfl
  | append_singleton turns t ih =>
    rw [appendAll_concat, appendTask_tasks, ih, onProc_concat, List.length_append, Nat.add_assoc]
    congr 2
    split_ifs with h h' h'
    · rfl
    · exact absurd h.symm h'
    · exact absurd h'.symm h
    · rfl

/-- The masks of the HWI inputs are those of step 1. -/
theorem appendAll_mask (turns : List Turn) :
    (appendAll c m b₀ turns).hwiMask = b₀.hwiMask := by
  induction turns using List.reverseRecOn with
  | nil => rfl
  | append_singleton turns t ih =>
    rw [appendAll_concat]
    exact ih

/-- A task that is not in the list has no `ltid`. -/
theorem appendAll_ltid_none (hnone : ∀ id, b₀.ltid id = none) {id : ℕ}
    (hid : id ∉ turns.map Turn.taskId) : (appendAll c m b₀ turns).ltid id = none := by
  induction turns using List.reverseRecOn with
  | nil => exact hnone id
  | append_singleton turns t ih =>
    rw [List.map_append, List.mem_append, not_or] at hid
    have hne : id ≠ t.taskId := by
      intro heq
      exact hid.2 (List.mem_singleton.mpr heq)
    rw [appendAll_concat, appendTask]
    dsimp only
    rw [Function.update_of_ne hne]
    exact ih hid.1

/-- What the schedulers of the first processors hold when the tasks of a list are appended. -/
structure Appended (m : Mapping) (nprocs : ℕ) (b₀ : Booted) (turns : List Turn) (b : Booted) :
    Prop where
  context : ∀ lpid < nprocs, ∀ j t, (onProc m turns lpid)[j]? = some t →
    b.words (contextWord lpid j ctxLtid) = j ∧ b.words (contextWord lpid j ctxGtid) = t.taskId
  ltid : (∀ lpid < nprocs, ((onProc m turns lpid).map Turn.taskId).Nodup) → ∀ lpid < nprocs, ∀ j t,
    (onProc m turns lpid)[j]? = some t → b.ltid t.taskId = some j
  rest : ∀ lpid < nprocs, ∀ i, 832 ≤ i → i < 994 → i ≠ 896 →
    b.words (2048 * lpid + i) = b₀.words (2048 * lpid + i)

/-- While the schedulers have at most 13 tasks, their contexts are those of the tasks in the order of
the mapping, and the words behind them do not change. -/
theorem appendAll_appended {nprocs : ℕ} (hzero : ∀ lpid < nprocs, b₀.words (tasksWord lpid) = 0)
    (hhere : ∀ t ∈ turns, (m.task t.taskId).proclocid < nprocs)
    (hroom : ∀ lpid < nprocs, (onProc m turns lpid).length ≤ 13) :
    Appended m nprocs b₀ turns (appendAll c m b₀ turns) := by
  induction turns using List.reverseRecOn with
  | nil => exact ⟨nofun, fun _ => nofun, fun _ _ _ _ _ _ => rfl⟩
  | append_singleton turns t ih =>
    have hproc : (m.task t.taskId).proclocid < nprocs :=
      hhere t (List.mem_append_right _ (List.mem_singleton_self t))
    have hroom' : ∀ lpid < nprocs, (onProc m turns lpid).length ≤ 13 := by
      intro lpid hlpid
      have hle := hroom lpid hlpid
      rw [onProc_concat, List.length_append] at hle
      omega
    have ih := ih (fun t ht => hhere t (List.mem_append_left _ ht)) hroom'
    have hltid : (appendAll c m b₀ turns).words (tasksWord (m.task t.taskId).proclocid) =
        (onProc m turns (m.task t.taskId).proclocid).length := by
      rw [appendAll_tasks, hzero _ hproc, Nat.zero_add]
    have hle : (onProc m turns (m.task t.taskId).proclocid).length < 13 := by
      have hle := hroom _ hproc
      rw [onProc_concat, if_pos rfl, List.length_append, List.length_singleton] at hle
      omega
    have hold : ∀ lpid t', t' ∈ onProc m turns lpid → (m.task t'.taskId).proclocid = lpid :=
      fun lpid t' ht' => of_decide_eq_true (List.mem_filter.mp ht').2
    have hconcat : ∀ lpid, onProc m (turns ++ [t]) lpid = onProc m turns lpid ++
        (if (m.task t.taskId).proclocid = lpid then [t] else []) := onProc_concat turns t
    have hlast : ∀ lpid < nprocs, ∀ j t', (onProc m (turns ++ [t]) lpid)[j]? = some t' →
        (onProc m turns lpid)[j]? = some t' ∨ ((m.task t.taskId).proclocid = lpid ∧
          j = (onProc m turns lpid).length ∧ t' = t) := by
      intro lpid hlpid j t' ht'
      rw [onProc_concat, List.getElem?_append] at ht'
      split_ifs at ht' with hj hp
      · exact Or.inl ht'
      · rw [List.getElem?_singleton] at ht'
        split_ifs at ht' with hzero'
        exact Or.inr ⟨hp, by omega, (Option.some.inj ht').symm⟩
      · rw [List.getElem?_nil] at ht'
        cases ht'
    rw [appendAll_concat]
    generalize hpt : (m.task t.taskId).proclocid = p at hproc hltid hle hlast hconcat
    refine ⟨fun lpid hlpid j t' ht' => ?_, fun hnodup lpid hlpid j t' ht' => ?_,
      fun lpid hlpid i hlow hhigh hne => ?_⟩
    · obtain hold | ⟨rfl, rfl, rfl⟩ := hlast lpid hlpid j t' ht'
      · obtain ⟨hl, hg⟩ := ih.context lpid hlpid j t' hold
        obtain ⟨hj, -⟩ := List.getElem?_eq_some_iff.mp hold
        have hlen := hroom' lpid hlpid
        have hother : ∀ slot < 64, (appendTask c m t p (appendAll c m b₀ turns)).words
            (contextWord lpid j slot) = (appendAll c m b₀ turns).words (contextWord lpid j slot) := by
          intro slot hslot
          apply appendTask_other
          · unfold contextWord tasksWord
            omega
          · rw [hltid]
            unfold contextWord
            obtain hlt | heq | hgt := Nat.lt_trichotomy lpid p
            · omega
            · rw [heq] at hj
              rw [heq]
              omega
            · omega
        rw [hother _ (by decide), hother _ (by decide)]
        exact ⟨hl, hg⟩
      · rw [← hltid]
        exact appendTask_context
    · have hnodup' : ∀ lpid < nprocs, ((onProc m turns lpid).map Turn.taskId).Nodup := by
        intro lpid hlpid
        have hall := hnodup lpid hlpid
        rw [hconcat, List.map_append, List.nodup_append] at hall
        exact hall.1
      rw [appendTask]
      dsimp only
      obtain hbefore | ⟨rfl, rfl, rfl⟩ := hlast lpid hlpid j t' ht'
      · have hmem : t' ∈ onProc m turns lpid := List.mem_of_getElem? hbefore
        have hne : t'.taskId ≠ t.taskId := by
          intro heq
          have hproc' := hold lpid t' hmem
          rw [heq, hpt] at hproc'
          have hall := hnodup lpid hlpid
          rw [hconcat, if_pos hproc', List.map_append, List.nodup_append] at hall
          exact hall.2.2 _ (List.mem_map_of_mem hmem) _ (List.mem_singleton_self _) heq
        rw [Function.update_of_ne hne]
        exact ih.ltid hnodup' lpid hlpid j t' hbefore
      · rw [Function.update_self, hltid]
    · rw [← ih.rest lpid hlpid i hlow hhigh hne]
      apply appendTask_other
      · unfold tasksWord
        omega
      · rw [hltid]
        unfold contextWord
        omega

end Step2

/-! ## Step 1 -/

section Step1

variable {w w' : Words} {n start : ℕ} {mask mask' : ℕ → ℕ} {irqs : List Irq}

theorem initScheduler_tasks (lpid l : ℕ) : initScheduler c x y w lpid (tasksWord l) =
    if l = lpid then 0 else w (tasksWord l) := by
  have hcurrent : tasksWord l ≠ currentWord lpid := by
    unfold tasksWord currentWord
    omega
  have hslots : ∀ s ∈ [(33, 0), (34, 0xFF03), (39, c.ptabPaddr 0 x y >>> 13),
      (36, c.ptabVaddr 0 x y), (40, 0), (ctxLtid, idleTaskIndex), (38, 0), (50, 0), (53, 0)],
      tasksWord l ≠ contextWord lpid idleTaskIndex s.1 := by
    have hlt : ∀ slot < 64, tasksWord l ≠ contextWord lpid idleTaskIndex slot := by
      intro slot hslot
      unfold tasksWord contextWord idleTaskIndex
      omega
    simp only [List.forall_mem_cons]
    refine ⟨hlt _ (by decide), hlt _ (by decide), hlt _ (by decide), hlt _ (by decide),
      hlt _ (by decide), hlt _ (by decide), hlt _ (by decide), hlt _ (by decide),
      hlt _ (by decide), fun s hs => absurd hs List.not_mem_nil⟩
  rw [initScheduler, writeSlots_of_ne hslots, foldl_keep, Function.update_of_ne hcurrent, Function.update_apply]
  · congr 1
    rw [eq_iff_iff]
    unfold tasksWord
    omega
  · intro w slot hslot
    have hlt := List.mem_range.mp hslot
    have hhwi : tasksWord l ≠ hwiWord lpid slot := by
      unfold tasksWord hwiWord
      omega
    have hpti : tasksWord l ≠ ptiWord lpid slot := by
      unfold tasksWord ptiWord
      omega
    have hwti : tasksWord l ≠ wtiWord lpid slot := by
      unfold tasksWord wtiWord
      omega
    rw [Function.update_of_ne hwti, Function.update_of_ne hpti, Function.update_of_ne hhwi]

/-- The schedulers of the processors have no task after the first loop. -/
theorem initSchedulers_tasks {lpid : ℕ} (hlpid : lpid < n) :
    (List.range n).foldl (initScheduler c x y) w (tasksWord lpid) = 0 := by
  induction n with
  | zero => exact absurd hlpid (Nat.not_lt_zero _)
  | succ n ih =>
    rw [List.range_succ, List.foldl_append, List.foldl_cons, List.foldl_nil, initScheduler_tasks]
    split_ifs with heq
    · rfl
    · exact ih (by omega)

/-- The words of an interrupt vector that are different. -/
theorem hwiWord_inj {l l' s s' : ℕ} (hs : s ≤ 31) (hs' : s' ≤ 31)
    (h : hwiWord l s = hwiWord l' s') : l = l' ∧ s = s' := by
  unfold hwiWord at h
  omega

/-- What the loop on the HWI inputs does: the inputs are legal, each one sets its bit in the mask of
its processor, the other words do not change, and the last input of a processor with an index gives
the entry of the vector. -/
structure Registers (n start : ℕ) (irqs : List Irq) (w w' : Words) (mask mask' : ℕ → ℕ) : Prop where
  srcid : ∀ (k : ℕ) (irq : Irq), irqs[k]? = some irq → irq.srcid ≤ 31
  mask : ∀ l s, (mask' l).testBit s = true ↔ (mask l).testBit s = true ∨
    ∃ (k : ℕ) (irq : Irq), irqs[k]? = some irq ∧ (start + k) % n = l ∧ irq.srcid = s
  other : ∀ a, (∀ (k : ℕ) (irq : Irq), irqs[k]? = some irq → a ≠ hwiWord ((start + k) % n) irq.srcid) → w' a = w a
  entry : ∀ (k : ℕ) (irq : Irq), irqs[k]? = some irq → (∀ (k' : ℕ) (irq' : Irq), k < k' → irqs[k']? = some irq' →
    (start + k') % n = (start + k) % n → irq'.srcid ≠ irq.srcid) →
      w' (hwiWord ((start + k) % n) irq.srcid) = hwiEntry irq

theorem hwiLoop_registers (hstart : start < n)
    (h : hwiLoop n irqs start w mask = some (w', mask')) :
    Registers n start irqs w w' mask mask' := by
  induction irqs generalizing start w mask with
  | nil =>
    injection h with h
    injection h with hw hmask
    subst hw
    subst hmask
    refine ⟨nofun, fun l s => ⟨Or.inl, ?_⟩, fun a _ => rfl, nofun⟩
    rintro (h | ⟨k, irq, hk, -⟩)
    · exact h
    · cases hk
  | cons irq rest ih =>
    rw [hwiLoop] at h
    split_ifs at h with hbad
    have hsrcid : irq.srcid ≤ 31 := by omega
    have hnext : (start + 1) % n < n := Nat.mod_lt _ (by omega)
    have hmod : ∀ k, ((start + 1) % n + k) % n = (start + (k + 1)) % n := by
      intro k
      rw [Nat.mod_add_mod, Nat.add_assoc, Nat.add_comm 1 k]
    have hhead : (start + 0) % n = start := Nat.mod_eq_of_lt hstart
    obtain ⟨hsrcids, hmasks, hothers, hentries⟩ := ih hnext h
    refine ⟨fun k irq' hk => ?_, fun l s => ?_, fun a ha => ?_, fun k irq' hk hlast => ?_⟩
    · cases k with
      | zero =>
        rw [← Option.some.inj hk]
        exact hsrcid
      | succ k => exact hsrcids k irq' hk
    · rw [hmasks]
      have hbit : (Function.update mask start (mask start ||| 1 <<< irq.srcid) l).testBit s = true ↔
          (mask l).testBit s = true ∨ (start = l ∧ irq.srcid = s) := by
        by_cases hl : l = start
        · rw [hl, Function.update_self, Nat.testBit_or, Nat.one_shiftLeft, Nat.testBit_two_pow,
            Bool.or_eq_true, decide_eq_true_eq]
          exact or_congr Iff.rfl ⟨fun h => ⟨rfl, h⟩, fun h => h.2⟩
        · rw [Function.update_of_ne hl]
          exact ⟨Or.inl, fun h => h.resolve_right fun h => hl h.1.symm⟩
      rw [hbit]
      constructor
      · rintro ((hold | ⟨hl, hs⟩) | ⟨k, irq', hk, hl, hs⟩)
        · exact Or.inl hold
        · exact Or.inr ⟨0, irq, rfl, hhead.trans hl, hs⟩
        · refine Or.inr ⟨k + 1, irq', hk, ?_, hs⟩
          rw [← hmod]
          exact hl
      · rintro (hold | ⟨k, irq', hk, hl, hs⟩)
        · exact Or.inl (Or.inl hold)
        · cases k with
          | zero =>
            rw [← Option.some.inj hk] at hs
            exact Or.inl (Or.inr ⟨hhead.symm.trans hl, hs⟩)
          | succ k =>
            refine Or.inr ⟨k, irq', hk, ?_, hs⟩
            rw [hmod]
            exact hl
    · rw [hothers a fun k irq' hk => ?_]
      · have hne := ha 0 irq rfl
        rw [hhead] at hne
        exact Function.update_of_ne hne _ _
      · rw [hmod]
        exact ha (k + 1) irq' hk
    · cases k with
      | zero =>
        have hirq : irq = irq' := Option.some.inj hk
        rw [← hirq, hhead, hothers]
        · exact Function.update_self _ _ _
        · intro k irq'' hk' heq
          obtain ⟨hl, hs⟩ := hwiWord_inj hsrcid (hsrcids k irq'' hk') heq
          refine hlast (k + 1) irq'' (Nat.succ_pos k) hk' ?_ (by rw [← hirq, ← hs])
          exact (hmod k).symm.trans (hl.symm.trans hhead.symm)
      | succ k =>
        have hentry := hentries k irq' hk fun k' irq'' hlt hk' hl => by
          apply hlast (k' + 1) irq'' (by omega) hk'
          exact (hmod k').symm.trans (hl.trans (hmod k))
        rw [hmod] at hentry
        exact hentry

end Step1

/-- The XCUs of a cluster. -/
def Mapping.xcus (m : Mapping) (clusterId : ℕ) : List Periph :=
  (m.periphs clusterId).filter (·.type = 12)

/-- The scan of the peripherals finds the last XCU. -/
theorem scanXcu_eq {nprocs : ℕ} {l : List Periph} {xcu found : Option Periph}
    (h : scanXcu m nprocs l xcu = some found) :
    found = ((l.filter (·.type = 12)).getLast?).or xcu := by
  induction l generalizing xcu with
  | nil => exact (Option.some.inj h).symm
  | cons periph rest ih =>
    rw [scanXcu] at h
    split_ifs at h with htype hok
    · have hcons : (periph :: rest).filter (·.type = 12) = periph :: rest.filter (·.type = 12) :=
        List.filter_cons_of_pos (decide_eq_true htype)
      rw [ih h, hcons, List.getLast?_cons]
      cases (rest.filter (·.type = 12)).getLast? <;> rfl
    · have hcons : (periph :: rest).filter (·.type = 12) = rest.filter (·.type = 12) :=
        List.filter_cons_of_neg (by rw [decide_eq_true_eq]; exact htype)
      rw [ih h, hcons]

/-- What step 1 leaves in a cluster with processors. -/
structure Initialised (m : Mapping) (clusterId nprocs : ℕ) (b : Booted) : Prop where
  tasks : ∀ lpid < nprocs, b.words (tasksWord lpid) = 0
  ltid : ∀ id, b.ltid id = none
  inputs : ∃ xcu w w', (m.xcus clusterId).getLast? = some xcu ∧
    Registers nprocs 0 (m.irqs xcu) w w' (fun _ => 0) b.hwiMask ∧
    ∀ lpid < nprocs, ∀ slot ≤ 31, b.words (hwiWord lpid slot) = w' (hwiWord lpid slot)

theorem schedulerInit1_initialised {w : Words} {b : Booted}
    (hprocs : 0 < (m.cluster (x * c.ySize + y)).procs)
    (h : schedulerInit1 c m x y w = some b) :
    Initialised m (x * c.ySize + y) (m.cluster (x * c.ySize + y)).procs b := by
  rw [schedulerInit1] at h
  dsimp only at h
  generalize (m.cluster (x * c.ySize + y)).procs = n at hprocs h
  by_cases hmany : 8 < n
  · rw [if_pos hmany] at h
    cases h
  rw [if_neg hmany] at h
  cases hlength : bootGetSchedLength m (x * c.ySize + y) with
  | none =>
    rw [hlength] at h
    cases h
  | some length =>
    rw [hlength] at h
    dsimp only at h
    by_cases hsmall : length < n * 2 ^ 13
    · rw [if_pos hsmall] at h
      cases h
    rw [if_neg hsmall] at h
    have htasks : ∀ lpid < n, (List.range n).foldl (initScheduler c x y) w (tasksWord lpid) = 0 :=
      fun lpid hlpid => initSchedulers_tasks hlpid
    generalize (List.range n).foldl (initScheduler c x y) w = w₀ at h htasks
    cases hscan : scanXcu m n (m.periphs (x * c.ySize + y)) none with
    | none =>
      rw [hscan] at h
      cases h
    | some found =>
      rw [hscan] at h
      cases found with
      | none => cases h
      | some xcu =>
        have hlast := scanXcu_eq hscan
        rw [Option.or_none] at hlast
        dsimp only at h
        cases hloop : hwiLoop n (m.irqs xcu) 0 w₀ (fun _ => 0) with
        | none =>
          rw [hloop] at h
          cases h
        | some result =>
          obtain ⟨w₁, mask⟩ := result
          rw [hloop] at h
          dsimp only at h
          split_ifs at h with hset
          have hb := Option.some.inj h
          have hregisters := hwiLoop_registers hprocs hloop
          have hkeep : ∀ a, (∀ lpid < n, a ≠ ptiWord lpid lpid) → (∀ lpid < n, a ≠ wtiWord lpid lpid) →
              b.words a = w₁ a := by
            intro a hpti hwti
            rw [← hb]
            dsimp only
            rw [foldl_keep, foldl_keep]
            · intro w lpid hlpid
              exact Function.update_of_ne (hpti lpid (List.mem_range.mp hlpid)) _ _
            · intro w lpid hlpid
              exact Function.update_of_ne (hwti lpid (List.mem_range.mp hlpid)) _ _
          refine ⟨fun lpid hlpid => ?_, fun id => ?_, xcu, w₀, w₁, hlast.symm, ?_,
            fun lpid hlpid slot hslot => ?_⟩
          · rw [hkeep, hregisters.other, htasks lpid hlpid]
            · intro k irq hirq
              have hsrcid := hregisters.srcid k irq hirq
              unfold tasksWord hwiWord
              omega
            · intro l _
              unfold tasksWord ptiWord
              omega
            · intro l _
              unfold tasksWord wtiWord
              omega
          · rw [← hb]
          · rw [← hb]
            exact hregisters
          · apply hkeep
            · intro l hl
              unfold hwiWord ptiWord
              obtain hlt | heq | hgt := Nat.lt_trichotomy l lpid <;> omega
            · intro l hl
              unfold hwiWord wtiWord
              obtain hlt | heq | hgt := Nat.lt_trichotomy l lpid <;> omega

end GietVm.Boot.Sched
