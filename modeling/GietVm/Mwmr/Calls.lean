import GietVm.Mwmr.Channel

/-!
# Calls on a shared MWMR channel

Any number of tasks call the four functions on one channel. A section between
`lock_acquire` and `lock_release` is one step; a blocking call takes such steps until it
has moved its whole request, and the steps of the other tasks come in between.

The state keeps two histories, which no step reads: the words accepted from the writers and
the words delivered to the readers, in the order of the sections. A call remembers its
arguments and the words it has moved.
-/

namespace GietVm.Mwmr

open Library

/-- The four functions. -/
inductive Kind
  | nbWrite
  | nbRead
  | write
  | read
  deriving DecidableEq

/-- Whether a function moves words into the channel. -/
def Kind.writes : Kind → Prop
  | .nbWrite | .write => True
  | .nbRead | .read => False

/-- A call: the function and its arguments, with the memory of the caller at the call; the
memory and the parameters now; the words moved so far. -/
structure Call (W : Type*) where
  kind : Kind
  start : ℕ → W
  buffer₀ : ℕ
  items₀ : ℕ
  mem : ℕ → W
  buffer : ℕ
  items : ℕ
  moved : List W

variable {T W : Type*}

/-- A call at its entry. -/
def Call.enter (kind : Kind) (mem : ℕ → W) (buffer items : ℕ) : Call W :=
  { kind := kind, start := mem, buffer₀ := buffer, items₀ := items, mem := mem,
    buffer := buffer, items := items, moved := [] }

/-- The channel, the call that each task has in progress, the two histories, and the calls
that have returned, with the value of a non-blocking one. -/
structure State (T W : Type*) where
  channel : Channel W
  task : T → Option (Call W)
  accepted : List W
  delivered : List W
  returned : List (Call W × Option ℕ)

/-- The state after `mwmr_init`. -/
def State.init (T : Type*) (buffer : ℕ → W) (width nitems : ℕ) : State T W :=
  { channel := mwmrInit buffer width nitems, task := fun _ => none, accepted := [],
    delivered := [], returned := [] }

section Step

variable [DecidableEq T]

/-- A call goes on. -/
def State.continue (s : State T W) (t : T) (c : Call W) : State T W :=
  { s with task := Function.update s.task t (some c) }

/-- A call returns. -/
def State.return (s : State T W) (t : T) (c : Call W) (value : Option ℕ) : State T W :=
  { s with task := Function.update s.task t none, returned := s.returned ++ [(c, value)] }

/-- The words of a section of a writer. -/
def State.accept (s : State T W) (ch : Channel W) (words : List W) : State T W :=
  { s with channel := ch, accepted := s.accepted ++ words }

/-- The words of a section of a reader. -/
def State.deliver (s : State T W) (ch : Channel W) (words : List W) : State T W :=
  { s with channel := ch, delivered := s.delivered ++ words }

/-- A task calls a function. Without items every function returns at once, the non-blocking
ones the value 0. -/
def State.call (s : State T W) (t : T) (kind : Kind) (mem : ℕ → W) (buffer items : ℕ) :
    State T W :=
  let c := Call.enter kind mem buffer items
  if items = 0 then
    s.return t c (match kind with | .nbWrite | .nbRead => some 0 | .write | .read => none)
  else s.continue t c

/-- A call executes its next locked section. -/
def State.turn (s : State T W) (t : T) (c : Call W) : State T W :=
  match c.kind with
  | .nbWrite =>
    let r := nbMwmrWrite s.channel c.mem c.buffer c.items
    let words := wordsAt c.mem c.buffer (s.channel.writeTransfer c.items).words
    (s.accept r.1 words).return t { c with moved := c.moved ++ words } (some r.2)
  | .write =>
    let r := mwmrWriteTurn s.channel c.mem c.buffer c.items
    let words := wordsAt c.mem c.buffer (s.channel.writeTransfer c.items).words
    let c' := { c with moved := c.moved ++ words }
    match r.2 with
    | none => (s.accept r.1 words).return t c' none
    | some (buffer, items) =>
      (s.accept r.1 words).continue t { c' with buffer := buffer, items := items }
  | .nbRead =>
    let r := nbMwmrRead s.channel c.mem c.buffer c.items
    let words := wordsAt r.2.1 c.buffer (s.channel.readTransfer c.items).words
    (s.deliver r.1 words).return t { c with mem := r.2.1, moved := c.moved ++ words }
      (some r.2.2)
  | .read =>
    let r := mwmrReadTurn s.channel c.mem c.buffer c.items
    let words := wordsAt r.2.1 c.buffer (s.channel.readTransfer c.items).words
    let c' := { c with mem := r.2.1, moved := c.moved ++ words }
    match r.2.2 with
    | none => (s.deliver r.1 words).return t c' none
    | some (buffer, items) =>
      (s.deliver r.1 words).continue t { c' with buffer := buffer, items := items }

/-- The states reached from `s₀` when every request is below `2 ^ 32` words. -/
inductive Reachable (s₀ : State T W) : State T W → Prop
  | refl : Reachable s₀ s₀
  | call {s t} (kind mem buffer items) (h : Reachable s₀ s) (hidle : s.task t = none)
      (hsize : s.channel.width * items < 0x100000000) :
      Reachable s₀ (s.call t kind mem buffer items)
  | turn {s t c} (h : Reachable s₀ s) (hcall : s.task t = some c) :
      Reachable s₀ (s.turn t c)

end Step

/-! ## The invariant -/

/-- What a call has moved: a whole number of items, in the order of its buffer. A reader has
written nothing but these words, a writer nothing at all. -/
structure Call.Moved (width : ℕ) (c : Call W) (k : ℕ) : Prop where
  le : k ≤ c.items₀
  words : c.moved = wordsAt c.mem c.buffer₀ (width * k)
  kept : ∀ j, c.kind.writes ∨ j < c.buffer₀ ∨ c.buffer₀ + width * k ≤ j →
    c.mem j = c.start j

/-- A call in progress has moved the items that it no longer asks for. -/
structure Call.InProgress (width : ℕ) (c : Call W) : Prop where
  size : width * c.items₀ < 0x100000000
  items_pos : 0 < c.items
  items_le : c.items ≤ c.items₀
  buffer : c.buffer = c.buffer₀ + width * (c.items₀ - c.items)
  moved : c.Moved width (c.items₀ - c.items)
  fresh : c.kind = .nbWrite ∨ c.kind = .nbRead → c.items = c.items₀

/-- A returned call: a non-blocking one has moved as many items as its value says, a blocking
one all of them. -/
def Call.Returned (width : ℕ) (c : Call W) (value : Option ℕ) : Prop :=
  match c.kind with
  | .nbWrite | .nbRead => ∃ k, value = some k ∧ c.Moved width k
  | .write | .read => c.Moved width c.items₀

/-- The channel is a FIFO of whole items, and every call has moved what it says. -/
structure State.Inv (width depth : ℕ) (s : State T W) : Prop where
  ok : s.channel.Ok
  width_eq : s.channel.width = width
  depth_eq : s.channel.depth = depth
  fifo : s.accepted = s.delivered ++ s.channel.contents
  inProgress : ∀ t c, s.task t = some c → c.InProgress width
  returned : ∀ c value, (c, value) ∈ s.returned → c.Returned width value

/-! ## Calls -/

/-- Moving `k'` more items, next to the ones already moved. -/
theorem Call.Moved.extend {width k k' : ℕ} {c : Call W} (h : c.Moved width k)
    (hbuffer : c.buffer = c.buffer₀ + width * k) (hle : k + k' ≤ c.items₀) {mem : ℕ → W}
    (hkeep : ∀ j, c.kind.writes ∨ j < c.buffer ∨ c.buffer + width * k' ≤ j →
      mem j = c.mem j) :
    Call.Moved width { c with mem, moved := c.moved ++ wordsAt mem c.buffer (width * k') }
      (k + k') where
  le := hle
  words := by
    change c.moved ++ wordsAt mem c.buffer (width * k') = wordsAt mem c.buffer₀ _
    have hbefore : wordsAt mem c.buffer₀ (width * k) = wordsAt c.mem c.buffer₀ (width * k) :=
      wordsAt_congr fun j _ hj => hkeep j (Or.inr (Or.inl (hbuffer ▸ hj)))
    rw [Nat.mul_add, wordsAt_add, hbefore, ← hbuffer, h.words]
  kept := by
    intro j hj
    change c.kind.writes ∨ j < c.buffer₀ ∨ c.buffer₀ + width * (k + k') ≤ j at hj
    change mem j = c.start j
    rw [Nat.mul_add] at hj
    obtain hwrites | hj := hj
    · exact (hkeep j (Or.inl hwrites)).trans (h.kept j (Or.inl hwrites))
    · have hnow : mem j = c.mem j := hkeep j (Or.inr (by omega))
      exact hnow.trans (h.kept j (Or.inr (by omega)))

/-- A section of a call in progress moves `k` more items. -/
theorem Call.InProgress.moved_add {width k : ℕ} {c : Call W} (h : c.InProgress width)
    (hk : k ≤ c.items) {mem : ℕ → W}
    (hkeep : ∀ j, c.kind.writes ∨ j < c.buffer ∨ c.buffer + width * k ≤ j → mem j = c.mem j) :
    Call.Moved width { c with mem, moved := c.moved ++ wordsAt mem c.buffer (width * k) }
      (c.items₀ - c.items + k) :=
  h.moved.extend h.buffer (by have := h.items_le; omega) hkeep

/-- What a blocking call asks for after it moved `k` items. -/
theorem Call.InProgress.next {width k : ℕ} {c : Call W} (h : c.InProgress width)
    (hk : k < c.items) {mem : ℕ → W} {moved : List W}
    (hblocking : ¬(c.kind = .nbWrite ∨ c.kind = .nbRead))
    (hmoved : Call.Moved width { c with mem, moved } (c.items₀ - c.items + k)) :
    Call.InProgress width
      { c with mem, moved, buffer := c.buffer + width * k, items := c.items - k } := by
  have hle := h.items_le
  have hsum : c.items₀ - (c.items - k) = c.items₀ - c.items + k := by omega
  refine ⟨h.size, Nat.sub_pos_of_lt hk, ?_, ?_, ?_, fun hnb => absurd hnb hblocking⟩
  · change c.items - k ≤ c.items₀
    omega
  · change c.buffer + width * k = c.buffer₀ + width * (c.items₀ - (c.items - k))
    rw [hsum, Nat.mul_add, h.buffer, Nat.add_assoc]
  · change Call.Moved width _ (c.items₀ - (c.items - k))
    rw [hsum]
    exact ⟨hmoved.le, hmoved.words, hmoved.kept⟩

/-- A request in progress is below `2 ^ 32` words. -/
theorem Call.InProgress.request {width : ℕ} {c : Call W} (h : c.InProgress width) :
    width * c.items < 0x100000000 :=
  (Nat.mul_le_mul_left _ h.items_le).trans_lt h.size

/-! ## Steps -/

section Step

variable [DecidableEq T] {width depth : ℕ} {s : State T W} {t : T}

omit [DecidableEq T] in
theorem State.Inv.accept (h : s.Inv width depth) {ch : Channel W} {words : List W}
    (hwrote : s.channel.Wrote ch words) : (s.accept ch words).Inv width depth where
  ok := hwrote.ok
  width_eq := hwrote.width_eq.trans h.width_eq
  depth_eq := hwrote.depth_eq.trans h.depth_eq
  fifo := by
    change s.accepted ++ words = s.delivered ++ ch.contents
    rw [hwrote.contents, h.fifo, List.append_assoc]
  inProgress := h.inProgress
  returned := h.returned

omit [DecidableEq T] in
theorem State.Inv.deliver (h : s.Inv width depth) {ch : Channel W} {words : List W}
    (hread : s.channel.Read ch words) : (s.deliver ch words).Inv width depth where
  ok := hread.ok
  width_eq := hread.width_eq.trans h.width_eq
  depth_eq := hread.depth_eq.trans h.depth_eq
  fifo := by
    change s.accepted = (s.delivered ++ words) ++ ch.contents
    rw [List.append_assoc, ← hread.contents, h.fifo]
  inProgress := h.inProgress
  returned := h.returned

theorem State.Inv.continue (h : s.Inv width depth) {c : Call W} (hc : c.InProgress width) :
    (s.continue t c).Inv width depth where
  ok := h.ok
  width_eq := h.width_eq
  depth_eq := h.depth_eq
  fifo := h.fifo
  inProgress := by
    intro u c' hu
    change Function.update s.task t (some c) u = some c' at hu
    by_cases htask : u = t
    · rw [htask, Function.update_self] at hu
      exact Option.some.inj hu ▸ hc
    · rw [Function.update_of_ne htask] at hu
      exact h.inProgress u c' hu
  returned := h.returned

theorem State.Inv.return (h : s.Inv width depth) {c : Call W} {value : Option ℕ}
    (hc : c.Returned width value) : (s.return t c value).Inv width depth where
  ok := h.ok
  width_eq := h.width_eq
  depth_eq := h.depth_eq
  fifo := h.fifo
  inProgress := by
    intro u c' hu
    change Function.update s.task t none u = some c' at hu
    by_cases htask : u = t
    · rw [htask, Function.update_self] at hu
      cases hu
    · rw [Function.update_of_ne htask] at hu
      exact h.inProgress u c' hu
  returned := by
    intro c' value' hmem
    obtain hmem | hmem := List.mem_append.mp hmem
    · exact h.returned c' value' hmem
    · cases List.mem_singleton.mp hmem
      exact hc

/-- Starting a call keeps the invariant. -/
theorem State.Inv.call (h : s.Inv width depth) {kind : Kind} {mem : ℕ → W}
    {buffer items : ℕ} (hsize : width * items < 0x100000000) :
    (s.call t kind mem buffer items).Inv width depth := by
  have hmoved : (Call.enter kind mem buffer items).Moved width 0 :=
    ⟨Nat.zero_le _, rfl, fun _ _ => rfl⟩
  unfold State.call
  split
  · rename_i hzero
    apply h.return
    cases kind with
    | nbWrite => exact ⟨0, rfl, hmoved⟩
    | nbRead => exact ⟨0, rfl, hmoved⟩
    | write => exact hzero ▸ hmoved
    | read => exact hzero ▸ hmoved
  · rename_i hpos
    apply h.continue
    have hzero : items - items = 0 := Nat.sub_self items
    exact ⟨hsize, Nat.pos_of_ne_zero hpos, le_rfl, by simp [Call.enter], by
      simpa [Call.enter] using hmoved, fun _ => rfl⟩

/-- A non-blocking call in progress has moved nothing yet. -/
theorem Call.InProgress.moved_nb {width k : ℕ} {c : Call W} (h : c.InProgress width)
    (hnb : c.kind = .nbWrite ∨ c.kind = .nbRead) {mem : ℕ → W} {moved : List W}
    (hmoved : Call.Moved width { c with mem, moved } (c.items₀ - c.items + k)) :
    Call.Moved width { c with mem, moved } k := by
  have hnone : c.items₀ - c.items = 0 := by
    rw [h.fresh hnb]
    exact Nat.sub_self _
  rwa [hnone, Nat.zero_add] at hmoved

/-- A section that moves the rest of a request completes it. -/
theorem Call.InProgress.moved_all {width k : ℕ} {c : Call W} (h : c.InProgress width)
    (hk : k = c.items) {mem : ℕ → W} {moved : List W}
    (hmoved : Call.Moved width { c with mem, moved } (c.items₀ - c.items + k)) :
    Call.Moved width { c with mem, moved } c.items₀ := by
  rwa [hk, Nat.sub_add_cancel h.items_le] at hmoved

/-- A locked section keeps the invariant: one case for each of the four functions. -/
theorem State.Inv.turn (h : s.Inv width depth) {c : Call W} (hcall : s.task t = some c) :
    (s.turn t c).Inv width depth := by
  have hc := h.inProgress t c hcall
  have hwidth := h.width_eq
  have hsize : s.channel.width * c.items < 0x100000000 := hwidth ▸ hc.request
  have hlt : c.items < 0x100000000 :=
    (Nat.le_mul_of_pos_left _ h.ok.width_pos).trans_lt hsize
  unfold State.turn
  split
  · rename_i hkind
    obtain ⟨k, hk, hwords, hvalue, hwrote⟩ :=
      nbMwmrWrite_spec h.ok c.mem c.buffer hc.items_pos hsize
    rw [hwidth] at hwords hwrote
    have hmoved := hc.moved_nb (Or.inl hkind) (hc.moved_add hk fun _ _ => rfl)
    dsimp only
    rw [hwords]
    apply (h.accept hwrote).return
    simp only [Call.Returned, hkind]
    exact ⟨k, congrArg some hvalue, hkind ▸ hmoved⟩
  · rename_i hkind
    obtain ⟨k, hk, hwords, hwrote, hnext⟩ :=
      mwmrWriteTurn_spec h.ok c.mem c.buffer hc.items_pos hlt hsize
    rw [hwidth] at hwords hwrote hnext
    have hmoved := hc.moved_add hk fun _ _ => rfl
    dsimp only
    rw [hwords]
    obtain ⟨hlast, hall⟩ | ⟨hnext, hrest⟩ := hnext
    · rw [hlast]
      apply (h.accept hwrote).return
      simp only [Call.Returned, hkind]
      exact hkind ▸ hc.moved_all hall hmoved
    · rw [hnext]
      apply (h.accept hwrote).continue
      exact hc.next hrest (by simp [hkind]) hmoved
  · rename_i hkind
    obtain ⟨k, hk, hwords, hvalue, hread, hkeep⟩ :=
      nbMwmrRead_spec h.ok c.mem c.buffer hc.items_pos hsize
    rw [hwidth] at hwords hread hkeep
    have hwrites : ¬c.kind.writes := by simp [hkind, Kind.writes]
    have hmoved := hc.moved_nb (Or.inr hkind) (hc.moved_add hk fun j hj =>
      hkeep j (hj.resolve_left hwrites))
    dsimp only
    rw [hwords]
    apply (h.deliver hread).return
    simp only [Call.Returned, hkind]
    exact ⟨k, congrArg some hvalue, hkind ▸ hmoved⟩
  · rename_i hkind
    obtain ⟨k, hk, hwords, hread, hkeep, hnext⟩ :=
      mwmrReadTurn_spec h.ok c.mem c.buffer hc.items_pos hlt hsize
    rw [hwidth] at hwords hread hkeep hnext
    have hwrites : ¬c.kind.writes := by simp [hkind, Kind.writes]
    have hmoved := hc.moved_add hk fun j hj => hkeep j (hj.resolve_left hwrites)
    dsimp only
    rw [hwords]
    obtain ⟨hlast, hall⟩ | ⟨hnext, hrest⟩ := hnext
    · rw [hlast]
      apply (h.deliver hread).return
      simp only [Call.Returned, hkind]
      exact hkind ▸ hc.moved_all hall hmoved
    · rw [hnext]
      apply (h.deliver hread).continue
      exact hc.next hrest (by simp [hkind]) hmoved

theorem State.init_inv (T : Type*) (buffer : ℕ → W) {nitems : ℕ} (hwidth : 0 < width) :
    (State.init T buffer width nitems).Inv width (mul32 width nitems) where
  ok := mwmrInit_ok buffer hwidth
  width_eq := rfl
  depth_eq := rfl
  fifo := rfl
  inProgress := fun _ _ h => nomatch h
  returned := fun _ _ h => nomatch h

/-- The invariant holds in every reachable state. -/
theorem Reachable.inv {s₀ : State T W} (h : Reachable s₀ s) (h₀ : s₀.Inv width depth) :
    s.Inv width depth := by
  induction h with
  | refl => exact h₀
  | call kind mem buffer items _ _ hsize ih => exact ih.call (ih.width_eq ▸ hsize)
  | turn _ hcall ih => exact ih.turn hcall

/-- The channel is a FIFO without loss. In every state that any calls of any tasks reach, the
status is consistent, the words accepted so far are the words delivered so far followed by
those in the buffer, and every call has moved whole items in the order of its own buffer: as
many as a non-blocking one returns, and all of them when a blocking one returns. -/
theorem mwmr_fifo {buffer : ℕ → W} {nitems : ℕ} (hwidth : 1 ≤ width)
    (h : Reachable (State.init T buffer width nitems) s) :
    (width ∣ s.channel.sts ∧ s.channel.sts ≤ s.channel.depth ∧
      s.channel.ptw = (s.channel.ptr + s.channel.sts) % s.channel.depth ∧
      s.channel.depth = mul32 width nitems) ∧
    s.accepted = s.delivered ++ s.channel.contents ∧
    (∀ t c, s.task t = some c → ∃ k, c.Moved width k) ∧
    ∀ c value, (c, value) ∈ s.returned → c.Returned width value := by
  have hinv := h.inv (State.init_inv T buffer hwidth)
  refine ⟨⟨?_, hinv.ok.sts_le, hinv.ok.ptw_eq, hinv.depth_eq⟩, hinv.fifo, ?_, hinv.returned⟩
  · exact hinv.width_eq ▸ hinv.ok.width_dvd
  · intro t c hc
    exact ⟨_, (hinv.inProgress t c hc).moved⟩

/-- A writer of two words has filled a channel of one word. -/
theorem mwmr_fifo_full : ∃ s : State Bool ℕ,
    Reachable (State.init Bool (fun _ => 0) 1 1) s ∧ s.accepted = [7] ∧
      s.accepted = s.delivered ++ s.channel.contents := by
  have hstart : Reachable (State.init Bool (fun _ => 0) 1 1) (State.init Bool (fun _ => 0) 1 1) :=
    Reachable.refl
  have hcall := hstart.call (t := false) .write (fun i => i + 7) 0 2 rfl (by decide)
  have hturn := Reachable.turn (t := false) hcall rfl
  exact ⟨_, hturn, by decide, (mwmr_fifo (by decide) hturn).2.1⟩

end Step

end GietVm.Mwmr
