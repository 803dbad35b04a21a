import GietVm.Kernel.Channels

/-!
# Owners of the channels

The tables of the TTY and CMA channels agree with the slots of the contexts in every order of
calls, since a call marks a free channel and a release clears the mark of the channel that it
removes from the context. A counter agrees with them only while nothing but allocations by
tasks without a channel and releases of the last channel happen: `_sys_tim_alloc` and
`_sys_nic_alloc` increment it also when they fail or overwrite a channel of the caller, and
the release of a channel that is not the last one makes the counter name a channel in use. The
CMA channel of a NIC transfer is never released.
-/

namespace GietVm.Kernel

open GietVm.Library

variable {T : Type} {c : Config T} {s s' : State T} {t u : T}

/-- The channels of a kind that the slots record. -/
def held (κ : Kind) (s : State T) (o : T × Slot) : ℕ :=
  if o.2.kind = κ then s.context o.1 o.2 else noChannel

theorem noChannel_le (c : Config T) (κ : Kind) : c.channels κ ≤ noChannel := by
  cases κ with
  | tty => exact c.nbTty_lt.le
  | cma => exact c.nbCma_lt.le
  | nicRx | nicTx => exact c.nbNic_lt.le
  | tim => exact c.nbTim_lt.le

@[simp] theorem held_kind (k : Slot) : held k.kind s (t, k) = s.context t k := if_pos rfl

theorem held_congr {κ : Kind} (h : ∀ u k, k.kind = κ → s'.context u k = s.context u k) :
    held κ s' = held κ s := by
  funext ⟨u, k⟩
  rw [held, held]
  split
  · rename_i hk
    exact h u k hk
  · rfl

/-! ## The invariant -/

/-- The table of the TTY channels. -/
structure TtyOk (c : Config T) (s : State T) : Prop where
  reserved : 0 < c.nbTty → s.ttyChannel 0 = true
  marked : ∀ t, s.context t .tty < c.nbTty →
    s.context t .tty ≠ 0 ∧ s.ttyChannel (s.context t .tty) = true
  owned : ∀ channel, channel < c.nbTty → channel ≠ 0 → s.ttyChannel channel = true →
    ∃ t, s.live t = true ∧ s.context t .tty = channel
  vspace : ∀ t u, s.context t .tty < c.nbTty → s.context t .tty = s.context u .tty →
    c.vspace t = c.vspace u

/-- The tables and counters agree with the slots. -/
structure Agree (c : Config T) (s : State T) : Prop where
  tty : TtyOk c s
  cma : Marks c.nbCma s.cmaChannel (held .cma s)
  nic : ∀ isRx, Counts c.nbNic (s.nicAllocator isRx) (held (nicSlot isRx).kind s)
  tim : Counts c.nbTim s.timAllocator (held .tim s)
  nicCma : ∀ t isRx, s.context t (nicCmaSlot isRx) < c.nbCma ↔ s.context t (nicSlot isRx) < c.nbNic

/-- The invariant of the channels. A killed task may only have got a TTY channel, from
another task of its vspace. -/
structure Inv (c : Config T) (s : State T) : Prop where
  agree : Agree c s
  dead : ∀ t k, s.live t = false → k.kind ≠ .tty → c.channels k.kind ≤ s.context t k

/-- The condition under which the counters stand for the channels in use. A TIM or NIC channel
is allocated only by a task without one and only while there is one, with a free CMA channel
for the NIC; a task is killed only if its TIM channel is the last one allocated and if it has
no NIC channel. -/
def Disciplined (c : Config T) (s : State T) : Action T → Prop
  | .timAlloc t => ¬s.context t .tim < c.nbTim ∧ s.timAllocator < c.nbTim
  | .nicAlloc t isRx xmax ymax _ => xmax ≤ c.xSize → ymax ≤ c.ySize →
    ¬s.context t (nicSlot isRx) < c.nbNic ∧ s.nicAllocator isRx < c.nbNic ∧
      ∃ channel, channel < c.nbCma ∧ s.cmaChannel channel = false
  | .kill t => (s.context t .tim < c.nbTim → s.context t .tim + 1 = s.timAllocator) ∧
    ¬s.context t .nicRx < c.nbNic ∧ ¬s.context t .nicTx < c.nbNic
  | _ => True

theorem Initial.inv (h : Initial c s) : Inv c s := by
  have hlow (t : T) (k : Slot) : c.channels k.kind ≤ s.context t k := by
    rw [h.context t k]
    exact noChannel_le c k.kind
  have hheld (κ : Kind) (o : T × Slot) : c.channels κ ≤ held κ s o := by
    rw [held, h.context, ite_self]
    exact noChannel_le c κ
  have hcounts (κ : Kind) {count : ℕ} (hcount : count = 0) :
      Counts (c.channels κ) count (held κ s) := by
    subst hcount
    refine ⟨Nat.zero_le _, fun o ho => absurd ho (hheld κ o).not_gt,
      fun o _ ho => absurd ho (hheld κ o).not_gt, fun i hi => absurd hi (Nat.not_lt_zero i)⟩
  refine ⟨⟨⟨fun hpos => (h.unused.tty 0 hpos).mpr rfl, fun t ht => ?_, fun i hi hne hmark => ?_,
    fun t u ht => ?_⟩, ⟨fun o _ ho => absurd ho (hheld .cma o).not_gt, fun i hi => ?_⟩,
    fun isRx => ?_, hcounts .tim h.unused.tim, fun t isRx => ?_⟩, fun t k _ _ => hlow t k⟩
  · exact absurd ht (hlow t .tty).not_gt
  · exact absurd ((h.unused.tty i hi).mp hmark) hne
  · exact absurd ht (hlow t .tty).not_gt
  · rw [h.unused.cma i hi]
    refine iff_of_false Bool.false_ne_true ?_
    rintro ⟨o, ho⟩
    exact absurd hi (ho ▸ hheld .cma o).not_gt
  · cases isRx with
    | true => exact hcounts .nicRx h.unused.nicRx
    | false => exact hcounts .nicTx h.unused.nicTx
  · rw [h.context, h.context]
    exact iff_of_false (noChannel_le c .cma).not_gt (noChannel_le c .nicRx).not_gt

/-- No slot records a CMA channel that is not marked. -/
theorem Agree.not_marked (h : Agree c s) {channel : ℕ} (hlt : channel < c.nbCma)
    (hfree : s.cmaChannel channel = false) {k : Slot} (hk : k.kind = .cma) :
    s.context t k ≠ channel := by
  intro heq
  have hmark := (h.cma.mark channel hlt).mpr ⟨(t, k), (if_pos hk).trans heq⟩
  rw [hfree] at hmark
  cases hmark

/-- No slot records the value of a counter. -/
theorem ne_count (κ : Kind) {count : ℕ} (h : Counts (c.channels κ) count (held κ s))
    (hlt : count < c.channels κ) {k : Slot} (hk : k.kind = κ) : s.context t k ≠ count := by
  intro heq
  have hheld : held κ s (t, k) = count := (if_pos hk).trans heq
  have hcount := h.lt (t, k) (hheld ▸ hlt)
  omega

theorem TtyOk.congr (h : TtyOk c s) (htable : s'.ttyChannel = s.ttyChannel)
    (hcontext : ∀ t, s'.context t .tty = s.context t .tty)
    (hlive : ∀ t, s.live t = true → s'.live t = true) : TtyOk c s' := by
  refine ⟨?_, ?_, ?_, ?_⟩
  · rw [htable]
    exact h.reserved
  · intro t
    rw [htable, hcontext]
    exact h.marked t
  · rw [htable]
    intro channel hlt hne hmark
    obtain ⟨t, ht, heq⟩ := h.owned channel hlt hne hmark
    exact ⟨t, hlive t ht, (hcontext t).trans heq⟩
  · intro t u
    rw [hcontext, hcontext]
    exact h.vspace t u

/-- A channel that an action records was recorded in no slot before. -/
def Fresh (c : Config T) (s s' : State T) : Prop :=
  ∀ t k, s'.context t k ≠ s.context t k → s'.context t k < c.channels k.kind →
    ∀ u k', k'.kind = k.kind → s.context u k' ≠ s'.context t k

theorem Fresh.of_eq (hcontext : s'.context = s.context) : Fresh c s s' := by
  intro t k hne
  rw [hcontext] at hne
  exact absurd rfl hne

variable [DecidableEq T]

/-! ## Changes of one slot -/

@[simp] theorem setSlot_self (k : Slot) (value : ℕ) : (s.setSlot t k value).context t k = value := by
  simp [State.setSlot]

theorem setSlot_of_ne {k k' : Slot} {value : ℕ} (h : u ≠ t ∨ k' ≠ k) :
    (s.setSlot t k value).context u k' = s.context u k' := by
  by_cases hut : u = t
  · subst hut
    simp [State.setSlot, h.resolve_left (not_not.mpr rfl)]
  · simp [State.setSlot, hut]

section OneSlot

variable {k : Slot} {value : ℕ} (hcontext : s'.context = (s.setSlot t k value).context)
include hcontext

/-- A slot takes part in the records of its own kind. -/
theorem held_own : held k.kind s' = Function.update (held k.kind s) (t, k) value := by
  funext ⟨u, k'⟩
  rw [held, hcontext]
  by_cases heq : (u, k') = (t, k)
  · cases heq
    rw [if_pos rfl, setSlot_self, Function.update_self]
  · rw [Function.update_of_ne heq, held]
    refine if_congr Iff.rfl (setSlot_of_ne ?_) rfl
    by_contra hboth
    rw [not_or, not_not, not_not] at hboth
    exact heq (Prod.ext hboth.1 hboth.2)

/-- A slot takes no part in the records of another kind. -/
theorem held_other (κ : Kind) (hk : k.kind ≠ κ) : held κ s' = held κ s :=
  held_congr fun _ _ hk' => hcontext ▸ setSlot_of_ne (Or.inr fun heq => hk (heq ▸ hk'))

theorem TtyOk.setSlot (h : TtyOk c s) (hk : k ≠ .tty) (htable : s'.ttyChannel = s.ttyChannel)
    (hlive : s'.live = s.live) : TtyOk c s' :=
  h.congr htable (fun _ => hcontext ▸ setSlot_of_ne (Or.inr (Ne.symm hk))) fun _ => hlive ▸ id

/-- The only slot that changes gets a channel that was not recorded. -/
theorem Fresh.setSlot
    (hnone : value < c.channels k.kind → ∀ u k', k'.kind = k.kind → s.context u k' ≠ value) :
    Fresh c s s' := by
  intro u k₁ hne hlt u' k' hk
  rw [hcontext] at hne hlt ⊢
  by_cases heq : u = t ∧ k₁ = k
  · obtain ⟨rfl, rfl⟩ := heq
    rw [setSlot_self] at hlt ⊢
    exact hnone hlt u' k' hk
  · exact absurd (setSlot_of_ne (not_and_or.mp heq)) hne

/-- A change of a slot that records no NIC channel. -/
theorem Agree.nic_setSlot (h : Agree c s) (hk : ∀ isRx, k.kind ≠ (nicSlot isRx).kind)
    (hrx : s'.nicRxAllocator = s.nicRxAllocator) (htx : s'.nicTxAllocator = s.nicTxAllocator)
    (isRx : Bool) : Counts c.nbNic (s'.nicAllocator isRx) (held (nicSlot isRx).kind s') := by
  have hcount : s'.nicAllocator isRx = s.nicAllocator isRx := by
    rw [State.nicAllocator, State.nicAllocator, hrx, htx]
  rw [held_other hcontext (nicSlot isRx).kind (hk isRx), hcount]
  exact h.nic isRx

/-- A change of a slot that the NIC does not use. -/
theorem Agree.nicCma_setSlot (h : Agree c s)
    (hk : ∀ isRx, nicCmaSlot isRx ≠ k ∧ nicSlot isRx ≠ k) (u : T) (isRx : Bool) :
    s'.context u (nicCmaSlot isRx) < c.nbCma ↔ s'.context u (nicSlot isRx) < c.nbNic := by
  rw [hcontext, setSlot_of_ne (Or.inr (hk isRx).1), setSlot_of_ne (Or.inr (hk isRx).2)]
  exact h.nicCma u isRx

end OneSlot

/-! ## Allocations -/

/-- What an allocation by a task keeps and gives. -/
structure Allocated (c : Config T) (t : T) (s s' : State T) : Prop where
  agree : Agree c s'
  fresh : Fresh c s s'
  frame : ∀ u k, u ≠ t → k ≠ .tty → s'.context u k = s.context u k
  live : s'.live = s.live

omit [DecidableEq T] in
/-- A call without effect on the contexts and the tables. -/
theorem Agree.allocated (h : Agree c s) : Allocated c t s s :=
  ⟨h, Fresh.of_eq rfl, fun _ _ _ _ => rfl, rfl⟩

theorem sysTimAlloc_eq (hlt : s.timAllocator < c.nbTim) : (sysTimAlloc c t s).1 =
    { s.setSlot t .tim s.timAllocator with timAllocator := s.timAllocator + 1 } := by
  have hnb := c.nbTim_lt
  rw [sysTimAlloc, if_neg (by omega), add32_eq (by omega)]
  rfl

/-- `_sys_tim_alloc` by a task without a timer, when there is one. -/
theorem Agree.timAlloc (h : Agree c s) (ht : ¬s.context t .tim < c.nbTim)
    (hlt : s.timAllocator < c.nbTim) : Allocated c t s (sysTimAlloc c t s).1 := by
  have hstate := sysTimAlloc_eq (t := t) hlt
  generalize (sysTimAlloc c t s).1 = s' at hstate
  have hcontext : s'.context = (s.setSlot t .tim s.timAllocator).context := by rw [hstate]
  refine ⟨⟨h.tty.setSlot hcontext nofun (by rw [hstate]; rfl) (by rw [hstate]; rfl), ?_, ?_, ?_,
    fun u isRx => ?_⟩, Fresh.setSlot hcontext fun _ u k' hk => ?_, fun u k hut _ => ?_,
    by rw [hstate]; rfl⟩
  · rw [held_other hcontext .cma nofun, hstate]
    exact h.cma
  · exact h.nic_setSlot hcontext (by decide) (by rw [hstate]; rfl) (by rw [hstate]; rfl)
  · rw [show held .tim s' = _ from held_own hcontext, hstate]
    exact h.tim.take (not_lt.mp ht) hlt
  · exact h.nicCma_setSlot hcontext (by decide) u isRx
  · exact ne_count .tim h.tim hlt hk
  · rw [hcontext]
    exact setSlot_of_ne (Or.inl hut)

theorem sysFbfCmaAlloc_eq (ht : ¬s.context t .cmaFb < c.nbCma)
    (hlt : firstFree s.cmaChannel c.nbCma 0 < c.nbCma) : (sysFbfCmaAlloc c t s).1 =
    { s.setSlot t .cmaFb (firstFree s.cmaChannel c.nbCma 0) with
      cmaChannel := Function.update s.cmaChannel (firstFree s.cmaChannel c.nbCma 0) true } := by
  rw [sysFbfCmaAlloc, if_neg ht]
  simp only [if_pos hlt]
  rfl

/-- `_sys_fbf_cma_alloc`. -/
theorem Agree.fbfCmaAlloc (h : Agree c s) (t : T) :
    Allocated c t s (sysFbfCmaAlloc c t s).1 := by
  by_cases ht : s.context t .cmaFb < c.nbCma
  · rw [sysFbfCmaAlloc, if_pos ht]
    exact h.allocated
  by_cases hlt : firstFree s.cmaChannel c.nbCma 0 < c.nbCma
  · have hfree := firstFree_free hlt
    have hstate := sysFbfCmaAlloc_eq ht hlt
    generalize (sysFbfCmaAlloc c t s).1 = s' at hstate
    generalize firstFree s.cmaChannel c.nbCma 0 = channel at hlt hfree hstate
    have hcontext : s'.context = (s.setSlot t .cmaFb channel).context := by rw [hstate]
    refine ⟨⟨h.tty.setSlot hcontext nofun (by rw [hstate]; rfl) (by rw [hstate]; rfl), ?_, ?_, ?_,
      h.nicCma_setSlot hcontext (by decide)⟩, Fresh.setSlot hcontext fun _ u k' hk => ?_,
      fun u k hut _ => ?_, by rw [hstate]; rfl⟩
    · rw [show held .cma s' = _ from held_own hcontext, hstate]
      exact h.cma.take (not_lt.mp ht) hlt hfree
    · exact h.nic_setSlot hcontext (by decide) (by rw [hstate]; rfl) (by rw [hstate]; rfl)
    · rw [held_other hcontext .tim nofun, hstate]
      exact h.tim
    · exact h.not_marked hlt hfree hk
    · rw [hcontext]
      exact setSlot_of_ne (Or.inl hut)
  · rw [sysFbfCmaAlloc, if_neg ht]
    simp only [if_neg hlt]
    exact h.allocated

/-- What `_sys_nic_alloc` writes when both channels are obtained. -/
structure NicAllocated (c : Config T) (t : T) (isRx : Bool) (cmaChannel : ℕ) (s s' : State T) :
    Prop where
  context : s'.context = ((s.setSlot t (nicSlot isRx) (s.nicAllocator isRx)).setSlot t
    (nicCmaSlot isRx) cmaChannel).context
  nic : s'.nicAllocator isRx = s.nicAllocator isRx + 1
  nicOther : s'.nicAllocator (!isRx) = s.nicAllocator (!isRx)
  cma : s'.cmaChannel = Function.update s.cmaChannel cmaChannel true
  tty : s'.ttyChannel = s.ttyChannel
  tim : s'.timAllocator = s.timAllocator
  live : s'.live = s.live

theorem sysNicAlloc_spec (filled : Bool) {isRx : Bool} {xmax ymax : ℕ} (hx : xmax ≤ c.xSize)
    (hy : ymax ≤ c.ySize) (hnic : s.nicAllocator isRx < c.nbNic)
    (hcma : firstFree s.cmaChannel c.nbCma 0 < c.nbCma) :
    NicAllocated c t isRx (firstFree s.cmaChannel c.nbCma 0) s
      (sysNicAlloc c t isRx xmax ymax filled s).1 := by
  have hnb := c.nbNic_lt
  have hadd : add32 (s.nicAllocator isRx) 1 = s.nicAllocator isRx + 1 := add32_eq (by omega)
  have hcma' : firstFree (s.addNic isRx 1).cmaChannel c.nbCma 0 < c.nbCma := by
    cases isRx <;> exact hcma
  rw [sysNicAlloc, if_neg (by omega), if_neg (by omega)]
  simp only [ge_iff_le, if_neg (not_le.mpr hnic), if_pos hcma']
  cases isRx with
  | true => cases filled <;> exact ⟨rfl, hadd, rfl, rfl, rfl, rfl, rfl⟩
  | false => cases filled <;> exact ⟨rfl, hadd, rfl, rfl, rfl, rfl, rfl⟩

/-- `_sys_nic_alloc` by a task without a NIC channel, when there is one and a CMA channel. -/
theorem Agree.nicAlloc (h : Agree c s) (filled : Bool) {isRx : Bool} {xmax ymax : ℕ}
    (hok : xmax ≤ c.xSize → ymax ≤ c.ySize →
      ¬s.context t (nicSlot isRx) < c.nbNic ∧ s.nicAllocator isRx < c.nbNic ∧
        ∃ channel, channel < c.nbCma ∧ s.cmaChannel channel = false) :
    Allocated c t s (sysNicAlloc c t isRx xmax ymax filled s).1 := by
  by_cases hx : xmax ≤ c.xSize
  swap
  · rw [sysNicAlloc, if_pos (by omega)]
    exact h.allocated
  by_cases hy : ymax ≤ c.ySize
  swap
  · rw [sysNicAlloc, if_neg (by omega), if_pos (by omega)]
    exact h.allocated
  obtain ⟨ht, hnic, channel, hchannel, hmark⟩ := hok hx hy
  have hlt := firstFree_lt hchannel hmark
  have hfree := firstFree_free hlt
  have hspec := sysNicAlloc_spec (t := t) filled hx hy hnic hlt
  generalize (sysNicAlloc c t isRx xmax ymax filled s).1 = s' at hspec
  generalize firstFree s.cmaChannel c.nbCma 0 = cma at hlt hfree hspec
  have hold : ¬s.context t (nicCmaSlot isRx) < c.nbCma := fun hcma => ht ((h.nicCma t isRx).mp hcma)
  obtain ⟨s₁, hfirst, htable, hlive, hsecond⟩ : ∃ s₁ : State T,
      s₁.context = (s.setSlot t (nicSlot isRx) (s.nicAllocator isRx)).context ∧
        s₁.ttyChannel = s.ttyChannel ∧ s₁.live = s.live ∧
        s'.context = (s₁.setSlot t (nicCmaSlot isRx) cma).context :=
    ⟨_, rfl, rfl, rfl, hspec.context⟩
  have hne : nicCmaSlot isRx ≠ nicSlot isRx := by cases isRx <;> decide
  have hcma : (nicCmaSlot isRx).kind = .cma := by cases isRx <;> rfl
  have hnic_cma (b b' : Bool) : (nicCmaSlot b).kind ≠ (nicSlot b').kind := by
    cases b <;> cases b' <;> decide
  have htty (k : Slot) (hk : k = nicSlot isRx ∨ k = nicCmaSlot isRx) : k ≠ .tty := by
    cases isRx <;> rcases hk with rfl | rfl <;> decide
  refine ⟨⟨?_, ?_, fun isRx' => ?_, ?_, fun u isRx' => ?_⟩, ?_, fun u k hut _ => ?_, hspec.live⟩
  · have htty₁ : TtyOk c s₁ := h.tty.setSlot hfirst (htty _ (Or.inl rfl)) htable hlive
    exact htty₁.setSlot hsecond (htty _ (Or.inr rfl)) (hspec.tty.trans htable.symm)
      (hspec.live.trans hlive.symm)
  · have hheld := held_own hsecond
    rw [hcma, held_other hfirst .cma (hcma ▸ (hnic_cma isRx isRx).symm)] at hheld
    rw [hheld, hspec.cma]
    exact h.cma.take (by rw [← hcma, held_kind]; exact not_lt.mp hold) hlt hfree
  · rw [held_other hsecond (nicSlot isRx').kind (hnic_cma isRx isRx')]
    by_cases hdir : isRx' = isRx
    · subst hdir
      rw [held_own hfirst, hspec.nic]
      exact (h.nic isRx').take (by rw [held_kind]; exact not_lt.mp ht) hnic
    · obtain rfl : isRx' = !isRx := Bool.eq_not_of_ne hdir
      rw [held_other hfirst, hspec.nicOther]
      · exact h.nic _
      · cases isRx <;> decide
  · rw [held_other hsecond .tim (by cases isRx <;> decide),
      held_other hfirst .tim (by cases isRx <;> decide), hspec.tim]
    exact h.tim
  · by_cases heq : u = t ∧ isRx' = isRx
    · obtain ⟨rfl, rfl⟩ := heq
      rw [hsecond, setSlot_self, setSlot_of_ne (Or.inr hne.symm), hfirst, setSlot_self]
      exact iff_of_true hlt hnic
    · have hother : ∀ k, k = nicSlot isRx' ∨ k = nicCmaSlot isRx' →
          s'.context u k = s.context u k := by
        intro k hk
        have hslot : u ≠ t ∨ (k ≠ nicCmaSlot isRx ∧ k ≠ nicSlot isRx) := by
          refine (not_and_or.mp heq).imp_right fun hdir => ?_
          cases isRx <;> cases isRx' <;> rcases hk with rfl | rfl <;>
            first | exact absurd rfl hdir | decide
        rw [hsecond, setSlot_of_ne (hslot.imp_right And.left), hfirst,
          setSlot_of_ne (hslot.imp_right And.right)]
      rw [hother _ (Or.inl rfl), hother _ (Or.inr rfl)]
      exact h.nicCma u isRx'
  · intro u k hchange hbound u' k' hk
    by_cases heq : u = t ∧ k = nicCmaSlot isRx
    · obtain ⟨rfl, rfl⟩ := heq
      rw [hsecond, setSlot_self]
      exact h.not_marked hlt hfree (hk.trans hcma)
    · rw [hsecond, setSlot_of_ne (not_and_or.mp heq)] at hchange hbound ⊢
      refine Fresh.setSlot hfirst (fun hcount v k'' hk'' => ?_) u k hchange hbound u' k' hk
      have hchannels : c.channels (nicSlot isRx).kind = c.nbNic := by cases isRx <;> rfl
      exact ne_count _ (hchannels ▸ h.nic isRx) hcount hk''
  · rw [hsecond, setSlot_of_ne (Or.inl hut), hfirst]
    exact setSlot_of_ne (Or.inl hut)

/-! ## The TTY channels -/

omit [DecidableEq T] in
/-- The parts of the invariant that do not concern the TTY channels. -/
theorem Agree.of_tty (h : Agree c s) (htty : TtyOk c s')
    (hcontext : ∀ u k, k ≠ .tty → s'.context u k = s.context u k)
    (hcma : s'.cmaChannel = s.cmaChannel) (hrx : s'.nicRxAllocator = s.nicRxAllocator)
    (htx : s'.nicTxAllocator = s.nicTxAllocator) (htim : s'.timAllocator = s.timAllocator) :
    Agree c s' := by
  have hheld (κ : Kind) (hκ : κ ≠ .tty) : held κ s' = held κ s :=
    held_congr fun u k hk => hcontext u k fun heq => hκ (by rw [← hk, heq]; rfl)
  refine ⟨htty, ?_, fun isRx => ?_, ?_, fun u isRx => ?_⟩
  · rw [hheld .cma nofun, hcma]
    exact h.cma
  · have hcount : s'.nicAllocator isRx = s.nicAllocator isRx := by
      rw [State.nicAllocator, State.nicAllocator, hrx, htx]
    rw [hheld _ (by cases isRx <;> decide), hcount]
    exact h.nic isRx
  · rw [hheld .tim nofun, htim]
    exact h.tim
  · rw [hcontext u _ (by cases isRx <;> decide), hcontext u _ (by cases isRx <;> decide)]
    exact h.nicCma u isRx

section TtyTake

variable {takes : T → Prop} [DecidablePred takes] {channel : ℕ}

omit [DecidableEq T] in
/-- A channel that is not marked is not recorded, and not that of the kernel. -/
theorem TtyOk.not_marked (h : TtyOk c s) (hlt : channel < c.nbTty)
    (hfree : s.ttyChannel channel = false) :
    channel ≠ 0 ∧ ∀ u, s.context u .tty ≠ channel := by
  refine ⟨?_, fun u heq => ?_⟩
  · rintro rfl
    cases (h.reserved hlt).symm.trans hfree
  · have hmark := (h.marked u (heq ▸ hlt)).2
    rw [heq] at hmark
    cases hmark.symm.trans hfree

omit [DecidableEq T] in
/-- Tasks of one vspace without a TTY channel take one. -/
theorem TtyOk.take (h : TtyOk c s) (hlive : s.live t = true) (ht : takes t)
    (htakes : ∀ u, takes u → c.vspace u = c.vspace t ∧ ¬s.context u .tty < c.nbTty)
    (hlt : channel < c.nbTty) (hfree : s.ttyChannel channel = false)
    (hcontext : ∀ u, s'.context u .tty = if takes u then channel else s.context u .tty)
    (htable : s'.ttyChannel = Function.update s.ttyChannel channel true)
    (hsame : s'.live = s.live) : TtyOk c s' := by
  obtain ⟨hzero, hnone⟩ := h.not_marked hlt hfree
  refine ⟨fun hpos => ?_, fun u hu => ?_, fun i hi hne hmark => ?_, fun u v hu heq => ?_⟩
  · rw [htable, Function.update_of_ne hzero.symm]
    exact h.reserved hpos
  · rw [hcontext u] at hu ⊢
    rw [htable]
    split at hu
    · rename_i htu
      rw [if_pos htu]
      exact ⟨hzero, Function.update_self ..⟩
    · rename_i htu
      rw [if_neg htu, Function.update_of_ne (hnone u)]
      exact h.marked u hu
  · rw [hsame]
    by_cases hchannel : i = channel
    · exact ⟨t, hlive, by rw [hcontext t, if_pos ht, hchannel]⟩
    · rw [htable, Function.update_of_ne hchannel] at hmark
      obtain ⟨u, hu, heq⟩ := h.owned i hi hne hmark
      have htu : ¬takes u := fun htu => (htakes u htu).2 (heq ▸ hi)
      exact ⟨u, hu, by rw [hcontext u, if_neg htu, heq]⟩
  · rw [hcontext u] at hu heq
    rw [hcontext v] at heq
    by_cases htu : takes u <;> by_cases htv : takes v
    · exact (htakes u htu).1.trans (htakes v htv).1.symm
    · rw [if_pos htu, if_neg htv] at heq
      exact absurd heq.symm (hnone v)
    · rw [if_neg htu, if_pos htv] at heq
      exact absurd heq (hnone u)
    · rw [if_neg htu] at hu heq
      rw [if_neg htv] at heq
      exact h.vspace u v hu heq

end TtyTake

/-- `_sys_tty_alloc` for the calling task only. -/
theorem sysTtyAlloc_private_eq (ht : ¬s.context t .tty < c.nbTty)
    (hlt : firstFree s.ttyChannel c.nbTty 0 < c.nbTty) : (sysTtyAlloc c t false s).1 =
    { s.setSlot t .tty (firstFree s.ttyChannel c.nbTty 0) with
      ttyChannel := Function.update s.ttyChannel (firstFree s.ttyChannel c.nbTty 0) true } := by
  rw [sysTtyAlloc, if_neg ht]
  simp only [if_pos hlt]
  rfl

/-- `_sys_tty_alloc`. -/
theorem Agree.ttyAlloc (h : Agree c s) (hlive : s.live t = true) (shared : Bool) :
    Allocated c t s (sysTtyAlloc c t shared s).1 := by
  by_cases ht : s.context t .tty < c.nbTty
  · rw [sysTtyAlloc, if_pos ht]
    exact h.allocated
  by_cases hlt : firstFree s.ttyChannel c.nbTty 0 < c.nbTty
  swap
  · rw [sysTtyAlloc, if_neg ht]
    simp only [if_neg hlt]
    exact h.allocated
  have hfree := firstFree_free hlt
  generalize hchannel : firstFree s.ttyChannel c.nbTty 0 = channel at hlt hfree
  obtain ⟨-, hnone⟩ := h.tty.not_marked hlt hfree
  -- the tasks that take the channel, for both values of the argument
  obtain ⟨takes, hdec, htakes_self, htakes, hcontext⟩ : ∃ (takes : T → Prop)
      (_ : DecidablePred takes), takes t ∧
        (∀ u, takes u → c.vspace u = c.vspace t ∧ ¬s.context u .tty < c.nbTty) ∧
        (sysTtyAlloc c t shared s).1 = { s with
          ttyChannel := Function.update s.ttyChannel channel true
          context := fun u =>
            if takes u then Function.update (s.context u) .tty channel else s.context u } := by
    cases shared with
    | true =>
      refine ⟨TakesTty c t s, inferInstance, ⟨rfl, ht⟩, fun u hu => hu, ?_⟩
      rw [sysTtyAlloc, if_neg ht]
      simp only [hchannel, if_pos hlt]
      rfl
    | false =>
      refine ⟨fun u => u = t, inferInstance, rfl, fun u hu => by rw [hu]; exact ⟨rfl, ht⟩, ?_⟩
      rw [sysTtyAlloc_private_eq ht (by rw [hchannel]; exact hlt), hchannel]
      simp only [State.setSlot, State.mk.injEq, true_and, and_true]
      funext u
      rw [Function.update_apply]
      split
      · rename_i hut
        rw [hut]
      · rfl
  have hother (u : T) (k : Slot) (hk : k ≠ .tty) :
      (sysTtyAlloc c t shared s).1.context u k = s.context u k := by
    rw [hcontext]
    change (if takes u then Function.update (s.context u) .tty channel else s.context u) k = _
    split
    · exact Function.update_of_ne hk _ _
    · rfl
  have hself (u : T) : (sysTtyAlloc c t shared s).1.context u .tty =
      if takes u then channel else s.context u .tty := by
    rw [hcontext]
    change (if takes u then Function.update (s.context u) .tty channel else s.context u) .tty = _
    split
    · exact Function.update_self ..
    · rfl
  refine ⟨h.of_tty ?_ hother ?_ ?_ ?_ ?_, fun u k hne hbound v k' hk => ?_,
    fun u k _ hk => hother u k hk, by rw [hcontext]⟩
  · exact h.tty.take hlive htakes_self htakes hlt hfree hself (by rw [hcontext]) (by rw [hcontext])
  · rw [hcontext]
  · rw [hcontext]
  · rw [hcontext]
  · rw [hcontext]
  · by_cases hslot : k = .tty
    · subst hslot
      rw [hself u] at hne hbound ⊢
      have hk' : k' = .tty := by cases k' <;> first | rfl | cases hk
      subst hk'
      split at hne
      · rename_i htu
        rw [if_pos htu]
        exact hnone v
      · exact absurd rfl hne
    · exact absurd (hother u k hslot) hne

/-! ## Releases -/

/-- What one of the releases of `_ctx_kill_task` keeps and gives. -/
structure Released (c : Config T) (t : T) (k : Slot) (s s' : State T) : Prop where
  agree : Agree c s'
  slot : c.channels k.kind ≤ s'.context t k
  frame : ∀ u k', k' ≠ k → s'.context u k' = s.context u k'
  other : k ≠ .tty → ∀ u, u ≠ t → s'.context u k = s.context u k
  value : ∀ u k', s'.context u k' = s.context u k' ∨ s'.context u k' = noChannel
  live : s'.live = s.live
  tim : k ≠ .tim → s'.timAllocator = s.timAllocator

/-- There is nothing to release. -/
theorem Agree.released (h : Agree c s) {k : Slot} (ht : ¬s.context t k < c.channels k.kind)
    (release : State T → State T × ℤ) : Released c t k s (releaseSlot c t k release s) := by
  rw [releaseSlot, if_neg ht]
  exact ⟨h, not_lt.mp ht, fun _ _ _ => rfl, fun _ _ _ => rfl, fun _ _ => Or.inl rfl, rfl,
    fun _ => rfl⟩

/-- The release of the TTY channel. -/
theorem Agree.ttyRelease (h : Agree c s) :
    Released c t .tty s (releaseSlot c t .tty (sysTtyRelease c t) s) := by
  by_cases ht : s.context t .tty < c.nbTty
  swap
  · exact h.released ht _
  have hnb := c.nbTty_lt
  have hsome : s.context t .tty ≠ noChannel := by
    rw [noChannel]
    omega
  have hstate : releaseSlot c t .tty (sysTtyRelease c t) s = { s with
      context := fun u =>
        if LosesTty c t s u then Function.update (s.context u) .tty noChannel else s.context u
      ttyChannel := Function.update s.ttyChannel (s.context t .tty) false } := by
    rw [releaseSlot, if_pos (show s.context t .tty < c.channels Slot.tty.kind from ht),
      sysTtyRelease]
    simp only [if_neg hsome, State.setSlot, State.mk.injEq, true_and, and_true]
    funext u
    rw [Function.update_apply]
    split
    · rename_i hut
      subst hut
      rw [if_pos ⟨rfl, rfl⟩, Function.update_idem]
    · rfl
  generalize releaseSlot c t .tty (sysTtyRelease c t) s = s' at hstate
  have hother (u : T) (k : Slot) (hk : k ≠ .tty) : s'.context u k = s.context u k := by
    rw [hstate]
    change (if LosesTty c t s u then _ else _ : Slot → ℕ) k = _
    split
    · exact Function.update_of_ne hk _ _
    · rfl
  have hself (u : T) : s'.context u .tty =
      if LosesTty c t s u then noChannel else s.context u .tty := by
    rw [hstate]
    change (if LosesTty c t s u then _ else _ : Slot → ℕ) .tty = _
    split
    · exact Function.update_self ..
    · rfl
  -- a task that keeps its channel has another one
  have hkeeps {u : T} (hu : s'.context u .tty < c.nbTty) :
      s'.context u .tty = s.context u .tty ∧ s.context u .tty ≠ s.context t .tty := by
    rw [hself u] at hu ⊢
    split at hu
    · rw [noChannel] at hu
      omega
    · rename_i hloses
      rw [if_neg hloses]
      refine ⟨rfl, fun heq => hloses ⟨?_, heq⟩⟩
      exact h.tty.vspace u t hu heq
  have htable : s'.ttyChannel = Function.update s.ttyChannel (s.context t .tty) false := by
    rw [hstate]
  have hlive : s'.live = s.live := by rw [hstate]
  refine ⟨h.of_tty ⟨fun hpos => ?_, fun u hu => ?_, fun i hi hne hmark => ?_, fun u v hu heq => ?_⟩
    hother (by rw [hstate]) (by rw [hstate]) (by rw [hstate]) (by rw [hstate]), ?_, hother,
    fun hne => absurd rfl hne, fun u k => ?_, hlive, fun _ => by rw [hstate]⟩
  · rw [htable, Function.update_of_ne (h.tty.marked t ht).1.symm]
    exact h.tty.reserved hpos
  · obtain ⟨heq, hne⟩ := hkeeps hu
    rw [heq] at hu ⊢
    rw [htable, Function.update_of_ne hne]
    exact h.tty.marked u hu
  · rw [hlive]
    have hchannel : i ≠ s.context t .tty := by
      rintro rfl
      rw [htable, Function.update_self] at hmark
      cases hmark
    rw [htable, Function.update_of_ne hchannel] at hmark
    obtain ⟨u, hu, heq⟩ := h.tty.owned i hi hne hmark
    have hloses : ¬LosesTty c t s u := fun hl => hchannel (heq.symm.trans hl.2)
    exact ⟨u, hu, by rw [hself u, if_neg hloses, heq]⟩
  · have hv : s'.context v .tty < c.nbTty := heq ▸ hu
    rw [(hkeeps hu).1, (hkeeps hv).1] at heq
    rw [(hkeeps hu).1] at hu
    exact h.tty.vspace u v hu heq
  · rw [hself t, if_pos ⟨rfl, rfl⟩]
    exact noChannel_le c .tty
  · by_cases hk : k = .tty
    · subst hk
      rw [hself u]
      split
      · exact Or.inr rfl
      · exact Or.inl rfl
    · exact Or.inl (hother u k hk)

/-- The slot of a task is cleared. -/
theorem Released.of_setSlot {k : Slot} (hagree : Agree c s')
    (hcontext : s'.context = (s.setSlot t k noChannel).context) (hlive : s'.live = s.live)
    (htim : k ≠ .tim → s'.timAllocator = s.timAllocator) : Released c t k s s' := by
  refine ⟨hagree, ?_, fun u k' hk => ?_, fun _ u hut => ?_, fun u k' => ?_, hlive, htim⟩
  · rw [hcontext, setSlot_self]
    exact noChannel_le c k.kind
  · rw [hcontext]
    exact setSlot_of_ne (Or.inr hk)
  · rw [hcontext]
    exact setSlot_of_ne (Or.inl hut)
  · rw [hcontext]
    by_cases heq : u = t ∧ k' = k
    · obtain ⟨rfl, rfl⟩ := heq
      exact Or.inr (setSlot_self k' noChannel)
    · exact Or.inl (setSlot_of_ne (not_and_or.mp heq))

/-- The release of the timer, when it is the last one allocated. -/
theorem Agree.timRelease (h : Agree c s)
    (hlast : s.context t .tim < c.nbTim → s.context t .tim + 1 = s.timAllocator) :
    Released c t .tim s (releaseSlot c t .tim sysTimRelease s) := by
  by_cases ht : s.context t .tim < c.nbTim
  swap
  · exact h.released ht _
  have hnb := c.nbTim_lt
  have hcount := hlast ht
  have hstate : releaseSlot c t .tim sysTimRelease s =
      { s.setSlot t .tim noChannel with timAllocator := s.timAllocator - 1 } := by
    have hdec : add32 s.timAllocator 0xFFFFFFFF = s.timAllocator - 1 := by
      rw [add32]
      omega
    rw [releaseSlot, if_pos (show s.context t .tim < c.channels Slot.tim.kind from ht),
      sysTimRelease, hdec]
    rfl
  generalize releaseSlot c t .tim sysTimRelease s = s' at hstate
  have hcontext : s'.context = (s.setSlot t .tim noChannel).context := by rw [hstate]
  refine Released.of_setSlot ⟨h.tty.setSlot hcontext nofun (by rw [hstate]; rfl)
    (by rw [hstate]; rfl), ?_, ?_, ?_, h.nicCma_setSlot hcontext (by decide)⟩ hcontext
    (by rw [hstate]; rfl) fun hne => absurd rfl hne
  · rw [held_other hcontext .cma nofun, hstate]
    exact h.cma
  · exact h.nic_setSlot hcontext (by decide) (by rw [hstate]; rfl) (by rw [hstate]; rfl)
  · rw [show held .tim s' = _ from held_own hcontext, hstate]
    exact h.tim.drop hcount (noChannel_le c .tim)

/-- The release of the CMA channel of the frame buffer. -/
theorem Agree.fbfCmaRelease (h : Agree c s) :
    Released c t .cmaFb s (releaseSlot c t .cmaFb (sysFbfCmaRelease c t) s) := by
  by_cases ht : s.context t .cmaFb < c.nbCma
  swap
  · exact h.released ht _
  have hstate : releaseSlot c t .cmaFb (sysFbfCmaRelease c t) s =
      { s.setSlot t .cmaFb noChannel with
        cmaChannel := Function.update s.cmaChannel (s.context t .cmaFb) false } := by
    rw [releaseSlot, if_pos (show s.context t .cmaFb < c.channels Slot.cmaFb.kind from ht),
      sysFbfCmaRelease]
    simp only [ge_iff_le, if_neg (not_le.mpr ht), State.setSlot, Function.update_idem,
      Function.update_self]
  generalize releaseSlot c t .cmaFb (sysFbfCmaRelease c t) s = s' at hstate
  have hcontext : s'.context = (s.setSlot t .cmaFb noChannel).context := by rw [hstate]
  refine Released.of_setSlot ⟨h.tty.setSlot hcontext nofun (by rw [hstate]; rfl)
    (by rw [hstate]; rfl), ?_, ?_, ?_, h.nicCma_setSlot hcontext (by decide)⟩ hcontext
    (by rw [hstate]; rfl) fun _ => by rw [hstate]; rfl
  · rw [show held .cma s' = _ from held_own hcontext, hstate]
    exact h.cma.drop (show held .cma s (t, .cmaFb) < c.nbCma from ht) (noChannel_le c .cma)
  · exact h.nic_setSlot hcontext (by decide) (by rw [hstate]; rfl) (by rw [hstate]; rfl)
  · rw [held_other hcontext .tim nofun, hstate]
    exact h.tim

/-- `_ctx_kill_task` of a task without a NIC channel, whose timer is the last one allocated. -/
theorem Inv.kill (h : Inv c s) (hok : Disciplined c s (.kill t)) :
    Inv c (ctxKillTask c t s) ∧ Fresh c s (ctxKillTask c t s) := by
  obtain ⟨hlast, hrx, htx⟩ := hok
  have htty := h.agree.ttyRelease (t := t)
  rw [ctxKillTask]
  generalize releaseSlot c t .tty (sysTtyRelease c t) s = s₁ at htty
  have htim := htty.agree.timRelease (t := t) (by
    rw [htty.frame t .tim nofun, htty.tim nofun]
    exact hlast)
  generalize releaseSlot c t .tim sysTimRelease s₁ = s₂ at htim
  have hnic {k : Slot} (hk : ¬s.context t k < c.channels k.kind) (hne : k ≠ .tty ∧ k ≠ .tim)
      (release : State T → State T × ℤ) : releaseSlot c t k release s₂ = s₂ := by
    rw [releaseSlot, htim.frame t k hne.2, htty.frame t k hne.1, if_neg hk]
  simp only [hnic (k := .nicRx) hrx ⟨nofun, nofun⟩, hnic (k := .nicTx) htx ⟨nofun, nofun⟩]
  have hcma := htim.agree.fbfCmaRelease (t := t)
  generalize releaseSlot c t .cmaFb (sysFbfCmaRelease c t) s₂ = s₃ at hcma
  have hframe (u : T) (k : Slot) (hk : k ≠ .tty ∧ k ≠ .tim ∧ k ≠ .cmaFb) :
      s₃.context u k = s.context u k := by
    rw [hcma.frame u k hk.2.2, htim.frame u k hk.2.1, htty.frame u k hk.1]
  have hother (u : T) (hut : u ≠ t) (k : Slot) (hk : k ≠ .tty) : s₃.context u k = s.context u k := by
    by_cases hcmaFb : k = .cmaFb
    · subst hcmaFb
      rw [hcma.other nofun u hut, htim.frame u .cmaFb nofun, htty.frame u .cmaFb nofun]
    · by_cases htimer : k = .tim
      · subst htimer
        rw [hcma.frame u .tim nofun, htim.other nofun u hut, htty.frame u .tim nofun]
      · exact hframe u k ⟨hk, htimer, hcmaFb⟩
  have hlive : s₃.live = s.live := by rw [hcma.live, htim.live, htty.live]
  -- the killed task records no channel
  have hnone (k : Slot) : c.channels k.kind ≤ s₃.context t k := by
    cases k with
    | tty =>
      rw [hcma.frame t .tty nofun, htim.frame t .tty nofun]
      exact htty.slot
    | tim =>
      rw [hcma.frame t .tim nofun]
      exact htim.slot
    | cmaFb => exact hcma.slot
    | nicRx =>
      rw [hframe t .nicRx ⟨nofun, nofun, nofun⟩]
      exact not_lt.mp hrx
    | nicTx =>
      rw [hframe t .nicTx ⟨nofun, nofun, nofun⟩]
      exact not_lt.mp htx
    | cmaRx =>
      rw [hframe t .cmaRx ⟨nofun, nofun, nofun⟩]
      exact not_lt.mp fun hlt => hrx ((h.agree.nicCma t true).mp hlt)
    | cmaTx =>
      rw [hframe t .cmaTx ⟨nofun, nofun, nofun⟩]
      exact not_lt.mp fun hlt => htx ((h.agree.nicCma t false).mp hlt)
  have hagree := hcma.agree
  refine ⟨⟨⟨⟨hagree.tty.reserved, hagree.tty.marked, fun i hi hne hmark => ?_, hagree.tty.vspace⟩,
    hagree.cma, hagree.nic, hagree.tim, hagree.nicCma⟩, fun u k hdead hk => ?_⟩,
    fun u k hne hlt => ?_⟩
  · obtain ⟨u, hu, heq⟩ := hagree.tty.owned i hi hne hmark
    have hut : u ≠ t := by
      rintro rfl
      exact absurd hi (heq ▸ hnone .tty).not_gt
    exact ⟨u, (Function.update_of_ne hut _ _).trans hu, heq⟩
  · by_cases hut : u = t
    · exact hut ▸ hnone k
    · have hold : s.live u = false := by
        rw [← hlive]
        exact (Function.update_of_ne hut _ _).symm.trans hdead
      change c.channels k.kind ≤ s₃.context u k
      rw [hother u hut k (fun heq => hk (heq ▸ rfl))]
      exact h.dead u k hold hk
  · have hvalue : s₃.context u k = s.context u k ∨ s₃.context u k = noChannel := by
      rcases hcma.value u k with h₃ | h₃
      · rw [h₃]
        rcases htim.value u k with h₂ | h₂
        · rw [h₂]
          exact htty.value u k
        · exact Or.inr h₂
      · exact Or.inr h₃
    rcases hvalue with heq | heq
    · exact absurd heq hne
    · have hnot := noChannel_le c k.kind
      rw [← heq] at hnot
      exact absurd hlt hnot.not_gt

/-! ## Runs -/

omit [DecidableEq T] in
/-- What an allocation by a live task keeps. -/
theorem Allocated.inv (ha : Allocated c t s s') (h : Inv c s) (hlive : s.live t = true) :
    Inv c s' := by
  refine ⟨ha.agree, fun u k hdead hk => ?_⟩
  rw [ha.live] at hdead
  have hut : u ≠ t := by
    rintro rfl
    cases hlive.symm.trans hdead
  rw [ha.frame u k hut fun heq => hk (heq ▸ rfl)]
  exact h.dead u k hdead hk

/-- Every action that meets the condition keeps the invariant, and records only channels that
were recorded in no slot. -/
theorem Inv.act (h : Inv c s) {action : Action T} (hok : Disciplined c s action)
    (henabled : Enabled s action) : Inv c (act c action s) ∧ Fresh c s (act c action s) := by
  cases action with
  | ttyAlloc t shared =>
    have ha := h.agree.ttyAlloc henabled shared
    exact ⟨ha.inv h henabled, ha.fresh⟩
  | timAlloc t =>
    have ha := h.agree.timAlloc hok.1 hok.2
    exact ⟨ha.inv h henabled, ha.fresh⟩
  | nicAlloc t isRx xmax ymax filled =>
    have ha := h.agree.nicAlloc filled hok
    exact ⟨ha.inv h henabled.1, ha.fresh⟩
  | fbfCmaAlloc t =>
    have ha := h.agree.fbfCmaAlloc t
    exact ⟨ha.inv h henabled, ha.fresh⟩
  | kill t => exact h.kill hok
  | exec t =>
    have hlive (u : T) (hu : s.live u = true) : (ctxExecTask t s).live u = true := by
      rw [ctxExecTask]
      by_cases hut : u = t
      · subst hut
        exact Function.update_self ..
      · exact (Function.update_of_ne hut _ _).trans hu
    refine ⟨⟨⟨h.agree.tty.congr rfl (fun _ => rfl) hlive, h.agree.cma, h.agree.nic, h.agree.tim,
      h.agree.nicCma⟩, fun u k hdead hk => h.dead u k ?_ hk⟩, Fresh.of_eq rfl⟩
    by_contra hu
    cases (hlive u (by simpa using hu)).symm.trans hdead

theorem Run.inv (h : Run c (Disciplined c) s) : Inv c s := by
  induction h with
  | init h => exact h.inv
  | step _ action hok henabled ih => exact (ih.act hok henabled).1

/-! ## Free channels -/

omit [DecidableEq T] in
/-- When no live task has a channel, the allocators are as after the boot. -/
theorem Inv.unused (h : Inv c s)
    (hnone : ∀ t k, s.live t = true → c.channels k.kind ≤ s.context t k) : Unused c s := by
  have hheld (κ : Kind) (hκ : κ ≠ .tty) (o : T × Slot) : c.channels κ ≤ held κ s o := by
    rw [held]
    split
    · rename_i hk
      cases hlive : s.live o.1 with
      | true => exact hk ▸ hnone o.1 o.2 hlive
      | false => exact hk ▸ h.dead o.1 o.2 hlive (hk ▸ hκ)
    · exact noChannel_le c κ
  refine ⟨fun channel hlt => ⟨fun hmark => ?_, ?_⟩, h.agree.tim.clear (hheld .tim nofun),
    fun channel hlt => h.agree.cma.clear (hheld .cma nofun) hlt,
    (h.agree.nic true).clear (hheld .nicRx nofun), (h.agree.nic false).clear (hheld .nicTx nofun)⟩
  · by_contra hne
    obtain ⟨t, hlive, heq⟩ := h.agree.tty.owned channel hlt hne hmark
    exact absurd hlt (heq ▸ hnone t .tty hlive).not_gt
  · rintro rfl
    exact h.agree.tty.reserved hlt

/-- Different tasks without channels that allocate channels of a kind one after the other get
all channels of the kind in turn, up to the number of channels. -/
structure Available (c : Config T) (s : State T) (ts : List T) : Prop where
  tim : ts.length ≤ c.nbTim → ∀ i (_ : i < ts.length),
    (ts.foldl (fun s t => (sysTimAlloc c t s).1) s).context ts[i] .tim = i
  fbfCma : ts.length ≤ c.nbCma → ∀ i (_ : i < ts.length),
    (ts.foldl (fun s t => (sysFbfCmaAlloc c t s).1) s).context ts[i] .cmaFb = i
  nic : ∀ isRx xmax ymax filled, xmax ≤ c.xSize → ymax ≤ c.ySize → ts.length ≤ c.nbNic →
    ts.length ≤ c.nbCma → ∀ i (_ : i < ts.length),
      (ts.foldl (fun s t => (sysNicAlloc c t isRx xmax ymax filled s).1) s).context ts[i]
          (nicSlot isRx) = i ∧
        (ts.foldl (fun s t => (sysNicAlloc c t isRx xmax ymax filled s).1) s).context ts[i]
          (nicCmaSlot isRx) = i
  tty : ts.length + 1 ≤ c.nbTty → ∀ i (_ : i < ts.length),
    (ts.foldl (fun s t => (sysTtyAlloc c t false s).1) s).context ts[i] .tty = i + 1

/-- The first channels of a table are marked and the other ones are free. -/
def Filled (bound n : ℕ) (mark : ℕ → Bool) : Prop :=
  (∀ i, i < n → mark i = true) ∧ ∀ i, n ≤ i → i < bound → mark i = false

theorem Filled.next {bound n : ℕ} {mark : ℕ → Bool} (h : Filled bound n mark) (hlt : n < bound) :
    firstFree mark bound 0 = n ∧ Filled bound (n + 1) (Function.update mark n true) := by
  refine ⟨firstFree_eq hlt (h.2 n le_rfl hlt) h.1, fun i hi => ?_, fun i hi hb => ?_⟩
  · rw [Function.update_apply]
    split
    · rfl
    · exact h.1 i (by omega)
  · rw [Function.update_of_ne (by omega)]
    exact h.2 i (by omega) hb

theorem setSlot_context_of_ne {k : Slot} {value : ℕ} (h : u ≠ t) :
    (s.setSlot t k value).context u = s.context u := Function.update_of_ne h _ _

/-- All channels can be allocated as after the boot. -/
theorem Unused.available (h : Unused c s) {ts : List T} (hnodup : ts.Nodup)
    (hnone : ∀ t, t ∈ ts → ∀ k : Slot, c.channels k.kind ≤ s.context t k) : Available c s ts := by
  refine ⟨fun hlen => ?_, fun hlen => ?_, fun isRx xmax ymax filled hx hy hnic hcma => ?_,
    fun hlen => ?_⟩
  · have hall := (foldl_alloc (fun s t => s.context t) (fun s t => (sysTimAlloc c t s).1)
      (fun n s => s.timAllocator = n) (fun _ => True) (fun n r => r .tim = n) c.nbTim ?_ h.tim hnodup (by omega)
      fun _ _ => trivial).1
    · simpa only [Nat.zero_add] using hall
    · rintro n s t rfl hlt -
      rw [sysTimAlloc_eq hlt]
      exact ⟨rfl, setSlot_self .tim _, fun u hut => setSlot_context_of_ne hut⟩
  · have hall := (foldl_alloc (fun s t => s.context t) (fun s t => (sysFbfCmaAlloc c t s).1)
      (fun n s => Filled c.nbCma n s.cmaChannel) (fun r => c.nbCma ≤ r .cmaFb)
      (fun n r => r .cmaFb = n) c.nbCma ?_ ⟨fun i hi => absurd hi (Nat.not_lt_zero i), fun i _ hi => h.cma i hi⟩
      hnodup (by omega) fun t ht => hnone t ht .cmaFb).1
    · simpa only [Nat.zero_add] using hall
    · intro n s t hcount hlt hempty
      obtain ⟨hfirst, hnext⟩ := hcount.next hlt
      rw [sysFbfCmaAlloc_eq (not_lt.mpr hempty) (hfirst ▸ hlt), hfirst]
      exact ⟨hnext, setSlot_self .cmaFb n, fun u hut => setSlot_context_of_ne hut⟩
  · have hcount : s.nicAllocator isRx = 0 := by
      cases isRx with
      | true => exact h.nicRx
      | false => exact h.nicTx
    have hall := (foldl_alloc (n := 0) (fun s t => s.context t)
      (fun s t => (sysNicAlloc c t isRx xmax ymax filled s).1)
      (fun n s => Filled c.nbCma n s.cmaChannel ∧ s.nicAllocator isRx = n) (fun _ => True)
      (fun n r => r (nicSlot isRx) = n ∧ r (nicCmaSlot isRx) = n) (min c.nbNic c.nbCma) ?_
      ⟨⟨fun i hi => absurd hi (Nat.not_lt_zero i), fun i _ hi => h.cma i hi⟩, hcount⟩ hnodup
      (by omega) fun _ _ => trivial).1
    · simpa only [Nat.zero_add] using hall
    · rintro n s t ⟨hfilled, rfl⟩ hlt -
      obtain ⟨hfirst, hnext⟩ := hfilled.next (by omega)
      have ha := sysNicAlloc_spec (t := t) filled hx hy (lt_min_iff.mp hlt).1
        (hfirst ▸ (lt_min_iff.mp hlt).2)
      rw [hfirst] at ha
      refine ⟨⟨by rw [ha.cma]; exact hnext, ha.nic⟩, ⟨?_, ?_⟩, fun u hut => ?_⟩
      · rw [ha.context, setSlot_of_ne (Or.inr (by cases isRx <;> decide)), setSlot_self]
      · rw [ha.context, setSlot_self]
      · rw [ha.context, setSlot_context_of_ne hut, setSlot_context_of_ne hut]
  · have hall := (foldl_alloc (n := 0) (fun s t => s.context t)
      (fun s t => (sysTtyAlloc c t false s).1)
      (fun n s => Filled c.nbTty (n + 1) s.ttyChannel) (fun r => c.nbTty ≤ r .tty)
      (fun n r => r .tty = n + 1) (c.nbTty - 1) ?_ ⟨fun i hi => ?_, fun i hlow hi => ?_⟩ hnodup (by omega)
      fun t ht => hnone t ht .tty).1
    · simpa only [Nat.zero_add] using hall
    · intro n s t hcount hlt hempty
      obtain ⟨hfirst, hnext⟩ := hcount.next (by omega)
      rw [sysTtyAlloc_private_eq (not_lt.mpr hempty) (by omega), hfirst]
      exact ⟨hnext, setSlot_self .tty (n + 1), fun u hut => setSlot_context_of_ne hut⟩
    · exact (h.tty i (by omega)).mpr (by omega)
    · have hfree := (h.tty i hi).not.mpr (by omega)
      simpa using hfree

/-- A channel has one owner. In a run that meets the condition, a TIM, NIC or CMA channel is
recorded by one task, a TTY channel by tasks of one vspace, an allocation gives a channel that
no task holds, and all channels can be allocated when no live task holds one. -/
theorem channels_owned (h : Run c (Disciplined c) s) :
    (∀ t u k k', k.kind = k'.kind → k.kind ≠ .tty → s.context t k < c.channels k.kind →
      s.context t k = s.context u k' → t = u) ∧
    (∀ t u, s.context t .tty < c.nbTty → s.context t .tty = s.context u .tty →
      c.vspace t = c.vspace u) ∧
    (∀ action, Disciplined c s action → Enabled s action → Fresh c s (act c action s)) ∧
    ((∀ t k, s.live t = true → c.channels k.kind ≤ s.context t k) →
      Unused c s ∧ ∀ ts : List T, ts.Nodup → (∀ t, t ∈ ts → s.live t = true) →
        Available c s ts) := by
  have hinv := h.inv
  refine ⟨fun t u k k' hk hne hlt heq => ?_, hinv.agree.tty.vspace,
    fun action hok henabled => (hinv.act hok henabled).2, fun hnone => ?_⟩
  · have hunique : Exclusive (c.channels k.kind) (held k.kind s) := by
      cases hkind : k.kind with
      | tty => exact absurd hkind hne
      | cma => exact hinv.agree.cma.unique
      | nicRx => exact (hinv.agree.nic true).unique
      | nicTx => exact (hinv.agree.nic false).unique
      | tim => exact hinv.agree.tim.unique
    have hheld : held k.kind s (t, k) = held k.kind s (u, k') := by
      rw [held_kind, hk, held_kind]
      exact heq
    have hpair := hunique (t, k) (u, k') (by rw [held_kind]; exact hlt) hheld
    exact congrArg Prod.fst hpair
  · have hunused := hinv.unused hnone
    refine ⟨hunused, fun ts hnodup hlive => hunused.available hnodup fun t ht k => ?_⟩
    exact hnone t k (hlive t ht)

/-- A platform with three timers, and a CMA and a NIC channel. -/
def threeTimers : Config ℕ where
  nbTty := 1
  nbTim := 3
  nbNic := 1
  nbCma := 1
  xSize := 1
  ySize := 1
  vspace := fun _ => 0
  nbTty_lt := one_lt_noChannel
  nbTim_lt := three_lt_noChannel
  nbNic_lt := one_lt_noChannel
  nbCma_lt := one_lt_noChannel

/-- The state of its allocators after the boot. -/
def booted : State ℕ where
  ttyChannel := fun channel => decide (channel = 0)
  timAllocator := 0
  cmaChannel := fun _ => false
  nicRxAllocator := 0
  nicTxAllocator := 0
  context := fun _ _ => noChannel
  live := fun _ => true

theorem booted_initial : Initial threeTimers booted :=
  ⟨⟨fun _ _ => decide_eq_true_iff, rfl, fun _ _ => rfl, rfl, rfl⟩, fun _ _ => rfl⟩

/-- Two tasks get timers, and the one that got the last timer is killed. -/
theorem channels_owned_kill :
    let s := act threeTimers (.kill 1) (act threeTimers (.timAlloc 1)
      (act threeTimers (.timAlloc 0) booted))
    Run threeTimers (Disciplined threeTimers) s ∧ s.timAllocator = 1 ∧
      ∀ t u, s.context t .tim < 3 → s.context t .tim = s.context u .tim → t = u := by
  have hrun : Run threeTimers (Disciplined threeTimers) _ := (((Run.init booted_initial).step
    (.timAlloc 0) ⟨by decide, by decide⟩ rfl).step (.timAlloc 1) ⟨by decide, by decide⟩ rfl).step
    (.kill 1) ⟨by decide, by decide, by decide⟩ trivial
  exact ⟨hrun, by decide, fun t u => (channels_owned hrun).1 t u .tim .tim rfl nofun⟩

/-- Tasks 0 and 1 get timers, task 0 is killed, and task 2 gets the timer that task 1 holds. -/
theorem channel_of_two_tasks :
    ∃ (c : Config ℕ) (s : State ℕ), Run c (fun _ _ => True) s ∧ s.live 1 = true ∧
      s.live 2 = true ∧ s.context 1 .tim < c.nbTim ∧ s.context 1 .tim = s.context 2 .tim := by
  have hrun : Run threeTimers (fun _ _ => True) _ := ((((Run.init booted_initial).step (.timAlloc 0)
    trivial rfl).step (.timAlloc 1) trivial rfl).step (.kill 0) trivial trivial).step (.timAlloc 2)
    trivial rfl
  exact ⟨threeTimers, _, hrun, by decide, by decide, by decide, by decide⟩

end GietVm.Kernel
