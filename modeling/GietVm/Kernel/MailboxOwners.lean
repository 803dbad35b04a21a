import GietVm.Kernel.Mailboxes

/-!
# Owners of the mailboxes

A mailbox belongs to the interrupt that the PIC routes to it. As long as each terminal is released
on the processor where it was allocated, the mailboxes marked are those that an interrupt is routed
to, and the release finds the right one: an interrupt is in the vector of its processor, and no
entry below it has the same value, because the mailboxes below were taken by other interrupts
when it was allocated. A release on another processor does not find the mailbox.
-/

namespace GietVm.Kernel

open GietVm.Library

variable {T : Type} {c : Platform T} {b b' : Board c} {irq irq' : Irq}
  {proc proc' : Proc c.nbProcsMax} {k k' : ℕ}

/-! ## Mailboxes and interrupts -/

/-- The interrupt is routed to a mailbox of the processor. -/
def Board.Routed (b : Board c) (irq : Irq) (proc : Proc c.nbProcsMax) (k : ℕ) : Prop :=
  b.pic (c.extIrqIndex irq) = ⟨proc.wtiId k, proc.cluster, true⟩

/-- The interrupts that the kernel routes. -/
def Used (c : Platform T) (irq : Irq) : Prop :=
  irq ∈ c.ioc ∨ ∃ channel < c.nbTty, irq = ttyIrq channel

theorem wtiId_inj (h : proc.wtiId k = proc'.wtiId k') (hcluster : proc.cluster = proc'.cluster) :
    proc = proc' ∧ k = k' := by
  have hmod (q : Proc c.nbProcsMax) (j : ℕ) : q.wtiId j % c.nbProcsMax = q.p := by
    rw [Proc.wtiId, Nat.add_mul_mod_self_right, Nat.mod_eq_of_lt q.lt]
  have hdiv (q : Proc c.nbProcsMax) (j : ℕ) : q.wtiId j / c.nbProcsMax = j + 1 := by
    rw [Proc.wtiId, Nat.add_mul_div_right _ _ (Nat.zero_lt_of_lt q.lt), Nat.div_eq_of_lt q.lt,
      Nat.zero_add]
  have hp : proc.p = proc'.p := by rw [← hmod proc k, h, hmod]
  have hk : k + 1 = k' + 1 := by rw [← hdiv proc k, h, hdiv]
  obtain ⟨x, y, p, hlt⟩ := proc
  obtain ⟨x', y', p', hlt'⟩ := proc'
  rw [Proc.cluster, Proc.cluster, Prod.mk.injEq] at hcluster
  obtain ⟨rfl, rfl⟩ := hcluster
  cases hp
  exact ⟨rfl, Nat.succ.inj hk⟩

theorem wtiId_lt (hk : k < 3) : proc.wtiId k < 32 := by
  have hn := c.nbProcsMax_le
  have hp := proc.lt
  have hmul : (k + 1) * c.nbProcsMax ≤ 3 * 8 := Nat.mul_le_mul (by omega) hn
  rw [Proc.wtiId]
  omega

theorem wtiId_lt_iff : proc.wtiId k < proc.wtiId k' ↔ k < k' := by
  have hpos : 0 < c.nbProcsMax := Nat.zero_lt_of_lt proc.lt
  rw [Proc.wtiId, Proc.wtiId, Nat.add_lt_add_iff_left, Nat.mul_lt_mul_right hpos,
    Nat.add_lt_add_iff_right]

/-- An interrupt is routed to one mailbox. -/
theorem Board.Routed.eq (h : b.Routed irq proc k) (h' : b.Routed irq proc' k') :
    proc = proc' ∧ k = k' := by
  have heq := h.symm.trans h'
  rw [PicInput.mk.injEq] at heq
  exact wtiId_inj heq.1 heq.2.1

theorem Board.Routed.mask (h : b.Routed irq proc k) :
    (b.pic (c.extIrqIndex irq)).mask = true := by
  rw [h]

theorem ttyIrq_type_lt (channel : ℕ) : (ttyIrq channel).isrType < 2 ^ 16 := by
  change 2 < 2 ^ 16
  decide

theorem Used.type_lt (h : Used c irq) : irq.isrType < 2 ^ 16 := by
  rcases h with hioc | ⟨channel, -, rfl⟩
  · exact (c.ioc_type irq hioc).1
  · exact ttyIrq_type_lt channel

theorem Used.index_inj (h : Used c irq) (h' : Used c irq')
    (hindex : c.extIrqIndex irq = c.extIrqIndex irq') : irq = irq' := by
  rcases h with hioc | ⟨channel, hlt, rfl⟩
  · rcases h' with hioc' | ⟨channel', hlt', rfl⟩
    · exact Option.mem_unique hioc hioc'
    · exact absurd hindex (c.ioc_index irq hioc channel' hlt')
  · rcases h' with hioc' | ⟨channel', hlt', rfl⟩
    · exact absurd hindex.symm (c.ioc_index irq' hioc' channel hlt)
    · rw [c.tty_index channel hlt channel' hlt' hindex]

theorem entry_eq (h : irq.isrType < 2 ^ 16) :
    irq.entry = irq.isrChannel * 2 ^ 16 + irq.isrType :=
  mul_two_pow_or_eq_add _ h

theorem entry_inj (h : irq.isrType < 2 ^ 16) (h' : irq'.isrType < 2 ^ 16)
    (hentry : irq.entry = irq'.entry) : irq = irq' := by
  obtain ⟨isrType, isrChannel⟩ := irq
  obtain ⟨isrType', isrChannel'⟩ := irq'
  rw [entry_eq h, entry_eq h'] at hentry
  dsimp only at h h' hentry
  rw [Irq.mk.injEq]
  omega

/-! ## The invariant of the mailboxes -/

/-- What holds of an interrupt routed to a mailbox: the mailbox is marked, the vector has the
interrupt at its index, and not at those of the mailboxes below. -/
structure Taken (b : Board c) (irq : Irq) (proc : Proc c.nbProcsMax) (k : ℕ) : Prop where
  valid : irq.isrType < isrTypeMax ∧ irq.isrChannel < isrChannelMax
  marked : b.wtiAlloc proc k = true
  entry : b.wtiVector proc (proc.wtiId k) = irq.entry
  first : ∀ j < k, b.wtiVector proc (proc.wtiId j) ≠ irq.entry

/-- The marks and the vectors agree with the PIC. -/
structure Agrees (b : Board c) : Prop where
  active : ∀ i, (b.pic i).mask = true → ∃ irq, Used c irq ∧ c.extIrqIndex irq = i
  taken : ∀ irq proc k, Used c irq → k < 3 → b.Routed irq proc k → Taken b irq proc k
  owned : ∀ proc k, k < 3 → b.wtiAlloc proc k = true → ∃ irq, Used c irq ∧ b.Routed irq proc k
  vector : ∀ proc id, (∀ k < 3, id ≠ proc.wtiId k) → ∀ channel,
    b.wtiVector proc id ≠ (ttyIrq channel).entry

theorem Agrees.unique (h : Agrees b) (hused : Used c irq) (hused' : Used c irq') (hk : k < 3)
    (hrouted : b.Routed irq proc k) (hrouted' : b.Routed irq' proc k) : irq = irq' := by
  apply entry_inj hused.type_lt hused'.type_lt
  rw [← (h.taken irq proc k hused hk hrouted).entry,
    (h.taken irq' proc k hused' hk hrouted').entry]

theorem Board.Blank.agrees (h : b.Blank) : Agrees b where
  active := by
    intro i hmask
    rw [h.pic i] at hmask
    cases hmask
  taken := by
    intro irq proc k _ _ hrouted
    have hmask := hrouted.mask
    rw [h.pic] at hmask
    cases hmask
  owned := by
    intro proc k _ hmarked
    rw [h.wtiAlloc] at hmarked
    cases hmarked
  vector := by
    intro proc id _ channel hentry
    rw [h.wtiVector, entry_eq (ttyIrq_type_lt channel)] at hentry
    change _ = channel * 2 ^ 16 + 2 at hentry
    rw [isrWakup] at hentry
    split at hentry
    · omega
    · omega

/-- What `_ext_irq_alloc` does. -/
theorem extIrqAlloc_cases (h : extIrqAlloc proc irq b = some b') :
    (irq.isrType < isrTypeMax ∧ irq.isrChannel < isrChannelMax) ∧
      ∃ k < 3, b.wtiAlloc proc k = false ∧ (∀ j < k, b.wtiAlloc proc j = true) ∧
        b' = ((b.setWti proc k true).picInit (c.extIrqIndex irq) (proc.wtiId k)
          proc.cluster).setVector proc (proc.wtiId k) irq.entry := by
  rw [extIrqAlloc] at h
  split at h
  · cases h
  · next htype =>
    split at h
    · cases h
    · next hchannel =>
      dsimp only at h
      split at h
      · next hk =>
        refine ⟨⟨Nat.lt_of_not_le htype, Nat.lt_of_not_le hchannel⟩, _, hk, firstFree_free hk, ?_,
          (Option.some.inj h).symm⟩
        intro j hj
        exact (firstFree_spec (b.wtiAlloc proc) 3 0).2.2.2 j (Nat.zero_le j) hj
      · cases h

section Fields

variable (b : Board c) (proc proc' : Proc c.nbProcsMax) (k k' i id value : ℕ) (v : Bool)

theorem setWti_wtiAlloc : (b.setWti proc k v).wtiAlloc proc' k' =
    if proc' = proc ∧ k' = k then v else b.wtiAlloc proc' k' := by
  rw [Board.setWti]
  dsimp only
  by_cases hproc : proc' = proc
  · subst hproc
    rw [Function.update_self, Function.update_apply]
    exact if_congr (by rw [eq_self_iff_true, true_and]) rfl rfl
  · rw [Function.update_of_ne hproc, if_neg fun h => hproc h.1]

theorem setVector_wtiVector : (b.setVector proc id value).wtiVector proc' i =
    if proc' = proc ∧ i = id then value else b.wtiVector proc' i := by
  rw [Board.setVector]
  dsimp only
  by_cases hproc : proc' = proc
  · subst hproc
    rw [Function.update_self, Function.update_apply]
    exact if_congr (by rw [eq_self_iff_true, true_and]) rfl rfl
  · rw [Function.update_of_ne hproc, if_neg fun h => hproc h.1]

end Fields

/-- Allocating a mailbox to an interrupt that is not routed. -/
theorem Agrees.alloc (h : Agrees b) (hused : Used c irq)
    (hmask : (b.pic (c.extIrqIndex irq)).mask = false)
    (halloc : extIrqAlloc proc irq b = some b') :
    Agrees b' ∧ (∃ k < 3, b'.Routed irq proc k) ∧ b'.kernel = b.kernel ∧
      ∀ i, i ≠ c.extIrqIndex irq → b'.pic i = b.pic i := by
  obtain ⟨hvalid, k, hk, hfree, hbelow, rfl⟩ := extIrqAlloc_cases halloc
  have hpic (i : ℕ) (hi : i ≠ c.extIrqIndex irq) :
      (((b.setWti proc k true).picInit (c.extIrqIndex irq) (proc.wtiId k)
        proc.cluster).setVector proc (proc.wtiId k) irq.entry).pic i = b.pic i :=
    Function.update_of_ne hi _ _
  have hself : (((b.setWti proc k true).picInit (c.extIrqIndex irq) (proc.wtiId k)
      proc.cluster).setVector proc (proc.wtiId k) irq.entry).Routed irq proc k :=
    Function.update_self _ _ _
  have hnot {proc' : Proc c.nbProcsMax} {k' : ℕ} : ¬b.Routed irq proc' k' := by
    intro hrouted
    have := hrouted.mask
    rw [hmask] at this
    cases this
  refine ⟨⟨?_, ?_, ?_, ?_⟩, ⟨k, hk, hself⟩, rfl, hpic⟩
  · intro i hactive
    by_cases hi : i = c.extIrqIndex irq
    · exact ⟨irq, hused, hi.symm⟩
    · rw [hpic i hi] at hactive
      exact h.active i hactive
  · intro irq' proc' k' hused' hk' hrouted
    by_cases heq : irq' = irq
    · subst heq
      obtain ⟨rfl, rfl⟩ := hrouted.eq hself
      refine ⟨hvalid, ?_, ?_, fun j hj => ?_⟩
      · exact (setWti_wtiAlloc ..).trans (if_pos ⟨rfl, rfl⟩)
      · exact (setVector_wtiVector ..).trans (if_pos ⟨rfl, rfl⟩)
      · have hne : proc'.wtiId j ≠ proc'.wtiId k' := (wtiId_lt_iff.2 hj).ne
        rw [setVector_wtiVector, if_neg fun h => hne h.2]
        obtain ⟨irq'', hused'', hrouted''⟩ := h.owned proc' j (hj.trans hk') (hbelow j hj)
        intro hentry
        have hentry' := (h.taken irq'' proc' j hused'' (hj.trans hk') hrouted'').entry
        have heq'' := entry_inj hused''.type_lt hused'.type_lt (hentry'.symm.trans hentry)
        exact hnot (heq'' ▸ hrouted'')
    · have hindex : c.extIrqIndex irq' ≠ c.extIrqIndex irq :=
        fun hindex => heq (hused'.index_inj hused hindex)
      have hold : b.Routed irq' proc' k' := (hpic _ hindex).symm.trans hrouted
      have htaken := h.taken irq' proc' k' hused' hk' hold
      have hapart : ¬(proc' = proc ∧ k' = k) := by
        rintro ⟨rfl, rfl⟩
        have := htaken.marked
        rw [hfree] at this
        cases this
      refine ⟨htaken.valid, ?_, ?_, fun j hj => ?_⟩
      · exact ((setWti_wtiAlloc ..).trans (if_neg hapart)).trans htaken.marked
      · rw [setVector_wtiVector, if_neg]
        · exact htaken.entry
        · rintro ⟨rfl, hid⟩
          exact hapart ⟨rfl, (wtiId_inj hid rfl).2⟩
      · rw [setVector_wtiVector]
        split
        · intro hentry
          exact heq (entry_inj hused'.type_lt hused.type_lt hentry.symm)
        · exact htaken.first j hj
  · intro proc' k' hk' hmarked
    by_cases hsame : proc' = proc ∧ k' = k
    · obtain ⟨rfl, rfl⟩ := hsame
      exact ⟨irq, hused, hself⟩
    · have hold : b.wtiAlloc proc' k' = true :=
        ((setWti_wtiAlloc ..).trans (if_neg hsame)).symm.trans hmarked
      obtain ⟨irq', hused', hrouted⟩ := h.owned proc' k' hk' hold
      have hindex : c.extIrqIndex irq' ≠ c.extIrqIndex irq := by
        intro hindex
        exact hnot (hused'.index_inj hused hindex ▸ hrouted)
      exact ⟨irq', hused', (hpic _ hindex).trans hrouted⟩
  · intro proc' id hid channel
    rw [setVector_wtiVector, if_neg]
    · exact h.vector proc' id hid channel
    · rintro ⟨rfl, hk'⟩
      exact hid k hk hk'

/-- The channels and the contexts play no part in the mailboxes. -/
theorem Agrees.withKernel (h : Agrees b) (s : State T) :
    Agrees (c := c) { b with kernel := s } where
  active := h.active
  taken := by
    intro irq proc k hused hk hrouted
    have htaken := h.taken irq proc k hused hk hrouted
    exact ⟨htaken.valid, htaken.marked, htaken.entry, htaken.first⟩
  owned := h.owned
  vector := h.vector

/-- The interrupt is found in the vector of the processor to which it is routed. -/
theorem Agrees.extIrqRelease (h : Agrees b) {channel : ℕ} (hchannel : channel < c.nbTty)
    (hk : k < 3) (hrouted : b.Routed (ttyIrq channel) proc k) :
    extIrqRelease proc (ttyIrq channel) b =
      some ((b.picMask (c.extIrqIndex (ttyIrq channel))).setWti proc k false) := by
  have htaken := h.taken (ttyIrq channel) proc k (.inr ⟨channel, hchannel, rfl⟩) hk hrouted
  have hfind : firstFree (fun id => decide (b.wtiVector proc id ≠ (ttyIrq channel).entry)) 32 0 =
      proc.wtiId k := by
    refine firstFree_eq (wtiId_lt hk) ?_ ?_
    · exact decide_eq_false (not_not_intro htaken.entry)
    · intro i hi
      apply decide_eq_true
      by_cases hid : ∀ j < 3, i ≠ proc.wtiId j
      · exact h.vector proc i hid channel
      · push Not at hid
        obtain ⟨j, -, rfl⟩ := hid
        exact htaken.first j (wtiId_lt_iff.1 hi)
  have hne : proc.wtiId k ≠ 32 := (wtiId_lt hk).ne
  have hwti {i j : ℕ} (hij : i ≠ j) : proc.wtiId i ≠ proc.wtiId j :=
    fun heq => hij (wtiId_inj heq rfl).2
  have hone : proc.p + c.nbProcsMax = proc.wtiId 0 := by rw [Proc.wtiId, Nat.zero_add, Nat.one_mul]
  rw [Kernel.extIrqRelease, if_neg (Nat.not_le_of_lt htaken.valid.1),
    if_neg (Nat.not_le_of_lt htaken.valid.2), hfind]
  dsimp only
  rw [if_neg hne, hone]
  change (if proc.wtiId k = proc.wtiId 0 then _ else if proc.wtiId k = proc.wtiId 1 then _ else
    if proc.wtiId k = proc.wtiId 2 then _ else none) = _
  have hcases : k = 0 ∨ k = 1 ∨ k = 2 := by omega
  rcases hcases with rfl | rfl | rfl
  · rw [if_pos rfl]
  · rw [if_neg (hwti (by decide)), if_pos rfl]
  · rw [if_neg (hwti (by decide)), if_neg (hwti (by decide)), if_pos rfl]

/-- Masking the input of an interrupt and freeing its mailbox. -/
theorem Agrees.release (h : Agrees b) (hused : Used c irq) (hk : k < 3)
    (hrouted : b.Routed irq proc k) :
    Agrees ((b.picMask (c.extIrqIndex irq)).setWti proc k false) := by
  have hpic (i : ℕ) (hi : i ≠ c.extIrqIndex irq) :
      ((b.picMask (c.extIrqIndex irq)).setWti proc k false).pic i = b.pic i :=
    Function.update_of_ne hi _ _
  have hself : (((b.picMask (c.extIrqIndex irq)).setWti proc k false).pic
      (c.extIrqIndex irq)).mask = false :=
    congrArg PicInput.mask (Function.update_self (c.extIrqIndex irq) _ b.pic)
  refine ⟨?_, ?_, ?_, h.vector⟩
  · intro i hactive
    by_cases hi : i = c.extIrqIndex irq
    · rw [hi, hself] at hactive
      cases hactive
    · rw [hpic i hi] at hactive
      exact h.active i hactive
  · intro irq' proc' k' hused' hk' hrouted'
    have hindex : c.extIrqIndex irq' ≠ c.extIrqIndex irq := by
      intro hindex
      have hmask := hrouted'.mask
      rw [hindex, hself] at hmask
      cases hmask
    have hold : b.Routed irq' proc' k' := (hpic _ hindex).symm.trans hrouted'
    have htaken := h.taken irq' proc' k' hused' hk' hold
    have hapart : ¬(proc' = proc ∧ k' = k) := by
      rintro ⟨rfl, rfl⟩
      exact hindex (congrArg c.extIrqIndex (h.unique hused' hused hk hold hrouted))
    refine ⟨htaken.valid, ?_, htaken.entry, htaken.first⟩
    exact ((setWti_wtiAlloc ..).trans (if_neg hapart)).trans htaken.marked
  · intro proc' k' hk' hmarked
    rw [setWti_wtiAlloc] at hmarked
    split at hmarked
    · cases hmarked
    · next hapart =>
      obtain ⟨irq', hused', hrouted'⟩ := h.owned proc' k' hk' hmarked
      have hindex : c.extIrqIndex irq' ≠ c.extIrqIndex irq := by
        intro hindex
        have heq := hused'.index_inj hused hindex
        subst heq
        exact hapart (hrouted'.eq hrouted)
      exact ⟨irq', hused', (hpic _ hindex).trans hrouted'⟩

/-! ## The invariant of the terminals -/

/-- The mailboxes agree with the PIC, and the terminals with the contexts: only a terminal in use is
routed, a terminal in a context is, and the contexts that have it are those of tasks of one
vspace. -/
structure Board.Inv (b : Board c) : Prop where
  agrees : Agrees b
  fresh : ∀ channel < c.nbTty, b.kernel.ttyChannel channel = false →
    (b.pic (c.extIrqIndex (ttyIrq channel))).mask = false
  held : ∀ t, b.kernel.context t .tty < c.nbTty →
    ∃ proc, ∃ k < 3, b.Routed (ttyIrq (b.kernel.context t .tty)) proc k
  vspace : ∀ t u, b.kernel.context t .tty < c.nbTty →
    b.kernel.context t .tty = b.kernel.context u .tty → c.vspace t = c.vspace u

theorem Board.Blank.inv (h : b.Blank) : b.Inv := by
  have hnone (t : T) : ¬b.kernel.context t .tty < c.nbTty := by
    rw [h.kernel.context t .tty]
    exact Nat.not_lt_of_lt c.nbTty_lt
  exact ⟨h.agrees, fun channel _ _ => h.pic _, fun t ht => absurd ht (hnone t),
    fun t _ ht => absurd ht (hnone t)⟩

theorem Booted.inv (h : Booted b) : b.Inv := by
  cases h with
  | alone hblank _ => exact hblank.inv
  | ioc hblank hioc halloc =>
    have hinv := hblank.inv
    obtain ⟨hagrees, -, hkernel, hpic⟩ := hinv.agrees.alloc (.inl hioc) (hblank.pic _) halloc
    have hnone (t : T) : ¬b.kernel.context t .tty < c.nbTty := by
      rw [hkernel, hblank.kernel.context t .tty]
      exact Nat.not_lt_of_lt c.nbTty_lt
    refine ⟨hagrees, ?_, fun t ht => absurd ht (hnone t), fun t _ ht => absurd ht (hnone t)⟩
    intro channel hchannel _
    rw [hpic _ (c.ioc_index _ hioc channel hchannel).symm]
    exact hblank.pic _

/-- The contexts after `_sys_tty_alloc` has found a channel. -/
theorem sysTtyAlloc_context [DecidableEq T] {d : Config T} {s : State T} {t : T} (shared : Bool)
    (hnone : ¬s.context t .tty < d.nbTty) (hlt : firstFree s.ttyChannel d.nbTty 0 < d.nbTty)
    (u : T) :
    (sysTtyAlloc d t shared s).1.context u .tty = s.context u .tty ∨
      (sysTtyAlloc d t shared s).1.context u .tty = firstFree s.ttyChannel d.nbTty 0 ∧
        d.vspace u = d.vspace t := by
  rw [sysTtyAlloc, if_neg hnone]
  dsimp only
  rw [if_pos hlt]
  cases shared with
  | true =>
    rw [if_pos rfl]
    dsimp only
    split
    · next htakes => exact .inr ⟨Function.update_self .tty _ (s.context u), htakes.1⟩
    · exact .inl rfl
  | false =>
    rw [if_neg Bool.false_ne_true, State.setSlot]
    dsimp only
    by_cases hu : u = t
    · subst hu
      rw [Function.update_self, Function.update_self]
      exact .inr ⟨rfl, rfl⟩
    · rw [Function.update_of_ne hu]
      exact .inl rfl

theorem sysTtyAlloc_ttyChannel [DecidableEq T] {d : Config T} {s : State T} {t : T}
    {shared : Bool} (hnone : ¬s.context t .tty < d.nbTty)
    (hlt : firstFree s.ttyChannel d.nbTty 0 < d.nbTty) :
    (sysTtyAlloc d t shared s).1.ttyChannel =
      Function.update s.ttyChannel (firstFree s.ttyChannel d.nbTty 0) true := by
  rw [sysTtyAlloc, if_neg hnone]
  dsimp only
  rw [if_pos hlt]
  cases shared with
  | true => rfl
  | false => rfl

theorem Board.Inv.alloc [DecidableEq T] {t : T} {shared : Bool} (h : b.Inv)
    (halloc : ttyAlloc t shared b = some b') : b'.Inv := by
  rw [ttyAlloc] at halloc
  split at halloc
  · cases halloc
    exact h
  · next hnone =>
    dsimp only at halloc
    split at halloc
    · next hlt =>
      obtain ⟨b₁, hirq, rfl⟩ := Option.map_eq_some_iff.1 halloc
      have hfree := h.fresh _ hlt (firstFree_free hlt)
      obtain ⟨hagrees, hrouted, hkernel, hpic⟩ :=
        h.agrees.alloc (.inr ⟨_, hlt, rfl⟩) hfree hirq
      have hindex {channel : ℕ} (hchannel : channel < c.nbTty)
          (hne : channel ≠ firstFree b.kernel.ttyChannel c.nbTty 0) :
          c.extIrqIndex (ttyIrq channel) ≠
            c.extIrqIndex (ttyIrq (firstFree b.kernel.ttyChannel c.nbTty 0)) :=
        fun heq => hne (c.tty_index _ hchannel _ hlt heq)
      -- No context had the new channel, since it was not routed.
      have hnew (u : T) : b.kernel.context u .tty ≠ firstFree b.kernel.ttyChannel c.nbTty 0 := by
        intro heq
        obtain ⟨proc, k, -, hold⟩ := h.held u (heq ▸ hlt)
        rw [heq] at hold
        have hmask := hold.mask
        rw [hfree] at hmask
        cases hmask
      have hcontext := sysTtyAlloc_context shared hnone hlt
      refine ⟨hagrees.withKernel _, ?_, ?_, ?_⟩
      · intro channel hchannel hmark
        dsimp only at hmark
        rw [hkernel, sysTtyAlloc_ttyChannel hnone hlt, Function.update_apply] at hmark
        split at hmark
        · cases hmark
        · next hne =>
          change (b₁.pic _).mask = false
          rw [hpic _ (hindex hchannel hne)]
          exact h.fresh channel hchannel hmark
      · intro u hu
        dsimp only at hu ⊢
        rw [hkernel] at hu ⊢
        rcases hcontext u with hsame | ⟨hgot, -⟩
        · rw [hsame] at hu ⊢
          obtain ⟨proc, k, hk, hold⟩ := h.held u hu
          exact ⟨proc, k, hk, (hpic _ (hindex hu (hnew u))).trans hold⟩
        · rw [hgot]
          obtain ⟨k, hk, hrouted⟩ := hrouted
          exact ⟨c.place t, k, hk, hrouted⟩
      · intro u u' hu heq
        dsimp only at hu heq
        rw [hkernel] at hu heq
        rcases hcontext u with hsame | ⟨hgot, hu₁⟩
        · rcases hcontext u' with hsame' | ⟨hgot', -⟩
          · rw [hsame] at hu
            rw [hsame, hsame'] at heq
            exact h.vspace u u' hu heq
          · rw [hsame, hgot'] at heq
            exact absurd heq (hnew u)
        · rcases hcontext u' with hsame' | ⟨-, hu₂⟩
          · rw [hgot, hsame'] at heq
            exact absurd heq.symm (hnew u')
          · exact hu₁.trans hu₂.symm
    · cases halloc
      exact h

/-! ## Releases -/

/-- The terminal of the task is routed to a mailbox of its processor. -/
def OnOwner (b : Board c) (t : T) : Prop :=
  ∃ k < 3, b.Routed (ttyIrq (b.kernel.context t .tty)) (c.place t) k

/-- What is asked of a release: the mailbox of the terminal is free, its PIC input is masked, and
no other mailbox or input changes. -/
structure TtyReleased (t : T) (b b' : Board c) : Prop where
  freed : ∃ proc, ∃ k < 3, b.Routed (ttyIrq (b.kernel.context t .tty)) proc k ∧
    b'.wtiAlloc proc k = false
  masked : (b'.pic (c.extIrqIndex (ttyIrq (b.kernel.context t .tty)))).mask = false
  mailboxes : ∀ proc k, ¬b.Routed (ttyIrq (b.kernel.context t .tty)) proc k →
    b'.wtiAlloc proc k = b.wtiAlloc proc k
  inputs : ∀ i, i ≠ c.extIrqIndex (ttyIrq (b.kernel.context t .tty)) → b'.pic i = b.pic i

/-- What is asked of the mailboxes: those marked are those that an interrupt is routed to. -/
def Board.Accounts (b : Board c) : Prop :=
  ∀ proc k, k < 3 → (b.wtiAlloc proc k = true ↔ ∃ irq, b.Routed irq proc k)

theorem Agrees.accounts (h : Agrees b) : b.Accounts := by
  intro proc k hk
  constructor
  · intro hmarked
    obtain ⟨irq, -, hrouted⟩ := h.owned proc k hk hmarked
    exact ⟨irq, hrouted⟩
  · rintro ⟨irq, hrouted⟩
    obtain ⟨irq', hused, hindex⟩ := h.active _ hrouted.mask
    have hrouted' : b.Routed irq' proc k := by
      rw [Board.Routed, hindex]
      exact hrouted
    exact (h.taken irq' proc k hused hk hrouted').marked

theorem channel_ne {d : Config T} {s : State T} {t : T} (ht : s.context t .tty < d.nbTty) :
    s.context t .tty ≠ noChannel :=
  (ht.trans d.nbTty_lt).ne

/-- The release of a terminal on its own processor. -/
theorem Board.Inv.release {t : T} (h : b.Inv) (ht : b.kernel.context t .tty < c.nbTty)
    (hk : k < 3) (hrouted : b.Routed (ttyIrq (b.kernel.context t .tty)) (c.place t) k) :
    ttyRelease t b = some
      { (b.picMask (c.extIrqIndex (ttyIrq (b.kernel.context t .tty)))).setWti (c.place t) k false
        with kernel := (sysTtyRelease c.toConfig t b.kernel).1 } := by
  rw [ttyRelease]
  dsimp only
  rw [if_neg (channel_ne ht), h.agrees.extIrqRelease ht hk hrouted]
  rfl

theorem sysTtyRelease_context {d : Config T} {s : State T} {t : T}
    (ht : s.context t .tty < d.nbTty) (u : T)
    (hu : (sysTtyRelease d t s).1.context u .tty < d.nbTty) :
    (sysTtyRelease d t s).1.context u .tty = s.context u .tty ∧ ¬LosesTty d t s u := by
  rw [sysTtyRelease] at hu ⊢
  rw [if_neg (channel_ne ht)] at hu ⊢
  dsimp only at hu ⊢
  split at hu
  · rw [Function.update_self] at hu
    exact absurd hu (Nat.not_lt_of_lt d.nbTty_lt)
  · next hkeeps =>
    rw [if_neg hkeeps]
    exact ⟨rfl, hkeeps⟩

theorem Board.Inv.afterRelease {t : T} (h : b.Inv) (ht : b.kernel.context t .tty < c.nbTty)
    (hk : k < 3) (hrouted : b.Routed (ttyIrq (b.kernel.context t .tty)) (c.place t) k) :
    Board.Inv (c := c)
      { (b.picMask (c.extIrqIndex (ttyIrq (b.kernel.context t .tty)))).setWti (c.place t) k false
        with kernel := (sysTtyRelease c.toConfig t b.kernel).1 } := by
  have hagrees := h.agrees.release (.inr ⟨_, ht, rfl⟩) hk hrouted
  have hpic (i : ℕ) (hi : i ≠ c.extIrqIndex (ttyIrq (b.kernel.context t .tty))) :
      ((b.picMask (c.extIrqIndex (ttyIrq (b.kernel.context t .tty)))).setWti (c.place t) k
        false).pic i = b.pic i :=
    Function.update_of_ne hi _ _
  have hchannel : (sysTtyRelease c.toConfig t b.kernel).1.ttyChannel =
      Function.update b.kernel.ttyChannel (b.kernel.context t .tty) false := by
    rw [sysTtyRelease, if_neg (channel_ne ht)]
  refine ⟨hagrees.withKernel _, ?_, ?_, ?_⟩
  · intro channel hlt hmark
    dsimp only at hmark
    rw [hchannel, Function.update_apply] at hmark
    split at hmark
    · next heq =>
      subst heq
      exact congrArg PicInput.mask (Function.update_self _ _ b.pic)
    · next hne =>
      have hindex : c.extIrqIndex (ttyIrq channel) ≠
          c.extIrqIndex (ttyIrq (b.kernel.context t .tty)) :=
        fun heq => hne (c.tty_index _ hlt _ ht heq)
      exact (congrArg PicInput.mask (hpic _ hindex)).trans (h.fresh channel hlt hmark)
  · intro u hu
    dsimp only at hu ⊢
    obtain ⟨hsame, hkeeps⟩ := sysTtyRelease_context ht u hu
    rw [hsame] at hu ⊢
    obtain ⟨proc, k', hk', hold⟩ := h.held u hu
    have hne : b.kernel.context u .tty ≠ b.kernel.context t .tty := by
      intro heq
      exact hkeeps ⟨h.vspace u t hu heq, heq⟩
    have hindex : c.extIrqIndex (ttyIrq (b.kernel.context u .tty)) ≠
        c.extIrqIndex (ttyIrq (b.kernel.context t .tty)) :=
      fun heq => hne (c.tty_index _ hu _ ht heq)
    exact ⟨proc, k', hk', (hpic _ hindex).trans hold⟩
  · intro u u' hu heq
    dsimp only at hu heq
    have hu' : (sysTtyRelease c.toConfig t b.kernel).1.context u' .tty < c.nbTty := heq ▸ hu
    have hsame := (sysTtyRelease_context ht u hu).1
    have hsame' := (sysTtyRelease_context ht u' hu').1
    rw [hsame] at hu
    rw [hsame, hsame'] at heq
    exact h.vspace u u' hu heq

/-- A release changes the marks of the processor of the task only. -/
theorem ttyRelease_other {t : T} (hrelease : ttyRelease t b = some b')
    (hproc : proc ≠ c.place t) : b'.wtiAlloc proc = b.wtiAlloc proc := by
  have hset (b₁ : Board c) (j : ℕ) :
      (b₁.setWti (c.place t) j false).wtiAlloc proc = b₁.wtiAlloc proc :=
    Function.update_of_ne hproc _ _
  rw [ttyRelease] at hrelease
  split at hrelease
  · cases hrelease
    rfl
  · obtain ⟨b₁, hirq, rfl⟩ := Option.map_eq_some_iff.1 hrelease
    change b₁.wtiAlloc proc = b.wtiAlloc proc
    rw [extIrqRelease] at hirq
    split at hirq
    · cases hirq
    · split at hirq
      · cases hirq
      · dsimp only at hirq
        split at hirq
        · cases hirq
          rfl
        · split at hirq
          · cases hirq
            exact hset _ 0
          · split at hirq
            · cases hirq
              exact hset _ 1
            · split at hirq
              · cases hirq
                exact hset _ 2
              · cases hirq

/-- A release does what is asked exactly when it is made on the processor to which the terminal is
routed. -/
theorem Board.Inv.released_iff {t : T} (h : b.Inv) (ht : b.kernel.context t .tty < c.nbTty) :
    (∃ b', ttyRelease t b = some b' ∧ TtyReleased t b b') ↔ OnOwner b t := by
  constructor
  · rintro ⟨b', hrelease, hreleased⟩
    obtain ⟨proc, k, hk, hrouted, hfree⟩ := hreleased.freed
    have hproc : proc = c.place t := by
      by_contra hne
      rw [ttyRelease_other hrelease hne] at hfree
      have hmarked := (h.agrees.taken _ proc k (.inr ⟨_, ht, rfl⟩) hk hrouted).marked
      rw [hfree] at hmarked
      cases hmarked
    exact ⟨k, hk, hproc ▸ hrouted⟩
  · rintro ⟨k, hk, hrouted⟩
    refine ⟨_, h.release ht hk hrouted, ⟨c.place t, k, hk, hrouted, ?_⟩, ?_, ?_, ?_⟩
    · exact (setWti_wtiAlloc ..).trans (if_pos ⟨rfl, rfl⟩)
    · exact congrArg PicInput.mask (Function.update_self _ _ b.pic)
    · intro proc' k' hother
      refine (setWti_wtiAlloc ..).trans (if_neg ?_)
      rintro ⟨rfl, rfl⟩
      exact hother hrouted
    · intro i hi
      exact Function.update_of_ne hi _ _

/-- Each release is made on the processor to which the terminal is routed. -/
def ReleasesOnOwner (b : Board c) : Call T → Prop
  | .alloc _ _ => True
  | .release t => b.kernel.context t .tty < c.nbTty → OnOwner b t

theorem Calls.inv [DecidableEq T] (h : Calls ReleasesOnOwner b) : b.Inv := by
  induction h with
  | init hbooted => exact hbooted.inv
  | call _ call hok hresult ih =>
    cases call with
    | alloc t shared => exact ih.alloc hresult
    | release t =>
      rw [Call.result] at hresult
      split at hresult
      · next ht =>
        obtain ⟨k, hk, hrouted⟩ := hok ht
        rw [ih.release ht hk hrouted] at hresult
        cases hresult
        exact ih.afterRelease ht hk hrouted
      · cases hresult
        exact ih

/-- In every sequence of calls whose releases are made on the processor of the terminal, the
mailboxes are accounted for in every state, and a release from there does what is asked exactly
when it is made on that processor too. -/
theorem calls_account [DecidableEq T] (h : Calls ReleasesOnOwner b) :
    b.Accounts ∧ ∀ t, b.kernel.context t .tty < c.nbTty →
      ((∃ b', ttyRelease t b = some b' ∧ TtyReleased t b b') ↔ OnOwner b t) :=
  ⟨h.inv.agrees.accounts, fun _ ht => h.inv.released_iff ht⟩

/-! ## A shared terminal -/

/-- Two tasks of one vspace, in two clusters of one processor. -/
def twoClusters : Platform Bool where
  nbTty := 3
  nbTim := 0
  nbNic := 0
  nbCma := 0
  xSize := 1
  ySize := 2
  vspace := fun _ => 0
  nbTty_lt := three_lt_noChannel
  nbTim_lt := by decide
  nbNic_lt := by decide
  nbCma_lt := by decide
  nbProcsMax := 1
  nbProcsMax_le := by decide
  place := fun t => ⟨0, t.toNat, 0, Nat.one_pos⟩
  boot := ⟨0, 0, 0, Nat.one_pos⟩
  ioc := none
  extIrqIndex := Irq.isrChannel
  ioc_type := nofun
  ioc_index := nofun
  tty_index := fun _ _ _ _ h => h

/-- The board of this platform before any call. -/
def blankBoard : Board twoClusters where
  kernel :=
    { ttyChannel := fun channel => decide (channel = 0)
      timAllocator := 0
      cmaChannel := fun _ => false
      nicRxAllocator := 0
      nicTxAllocator := 0
      context := fun _ _ => noChannel
      live := fun _ => true }
  wtiAlloc := fun _ _ => false
  wtiVector := fun proc id => if id = proc.p then isrWakup else 0
  pic := fun _ => ⟨0, (0, 0), false⟩

theorem blankBoard_booted : Booted blankBoard := by
  refine .alone ⟨⟨⟨?_, rfl, fun _ _ => rfl, rfl, rfl⟩, fun _ _ => rfl⟩, fun _ _ => rfl,
    fun _ _ => rfl, fun _ => rfl⟩ rfl
  intro channel _
  exact decide_eq_true_iff

/-- The board after the first task has allocated a shared terminal. -/
def sharedBoard : Board twoClusters :=
  ((Call.alloc false true).result blankBoard).getD blankBoard

/-- The first task can release it. -/
theorem sharedBoard_account :
    sharedBoard.Accounts ∧ ∀ t, sharedBoard.kernel.context t .tty < twoClusters.nbTty →
      ((∃ b', ttyRelease t sharedBoard = some b' ∧ TtyReleased t sharedBoard b') ↔
        OnOwner sharedBoard t) :=
  calls_account (.call (.init blankBoard_booted) (.alloc false true) trivial rfl)

/-- The second task, which got the terminal too, cannot. -/
theorem sharedBoard_not_released :
    ¬∀ b : Board twoClusters, Calls (fun _ _ => True) b →
      ∀ t, b.kernel.context t .tty < twoClusters.nbTty →
        ∃ b', ttyRelease t b = some b' ∧ TtyReleased t b b' := by
  intro hall
  obtain ⟨b', hrelease, hreleased⟩ := hall sharedBoard
    (.call (.init blankBoard_booted) (.alloc false true) trivial rfl) true (by decide)
  have hmask : (ttyRelease true sharedBoard).map (fun b => (b.pic 1).mask) = some true := rfl
  rw [hrelease] at hmask
  have hmasked : (b'.pic 1).mask = false := hreleased.masked
  rw [Option.map_some, hmasked] at hmask
  cases hmask

end GietVm.Kernel
