import GietVm.Library.Word
import Mathlib.Data.List.Nodup
import Mathlib.Data.Finset.Card

/-!
# Ticket locks

A ticket lock has two counters of 32 bits. A task draws the value of one of them as its
ticket and increments it atomically; it is served when the other counter shows its ticket;
and it gives the lock back by incrementing the latter.

The counters wrap around, so they say little by themselves. The histories of a lock are the
list of the tasks in the order in which they drew their tickets, the list of those that were
served, and the number of times that the lock was given back. The queue is what the first
list holds beyond this number. Tickets stand for positions as long as the queue is not
longer than `2 ^ 32`, which is so when the tasks in it are different and not too many.
-/

namespace GietVm.Library

variable {T : Type*} {current free given : ℕ} {drawn served : List T} {t u : T}

/-- The counters of a ticket lock agree with its histories, the tasks have been served in the
order in which they drew their tickets, and at most one of them has not given the lock back. -/
structure TicketOk (current free : ℕ) (drawn served : List T) (given : ℕ) : Prop where
  current_eq : current = given % 0x100000000
  free_eq : free = drawn.length % 0x100000000
  served_drawn : served <+: drawn
  given_le : given ≤ served.length
  served_le : served.length ≤ given + 1

/-- The tasks that have drawn a ticket and have not given the lock back. -/
def ticketQueue (drawn : List T) (given : ℕ) : List T := drawn.drop given

/-- A task that has drawn a ticket and has not been served. -/
def TicketWaiting (drawn served : List T) (t : T) (ticket : ℕ) : Prop :=
  ∃ i, drawn[i]? = some t ∧ served.length ≤ i ∧ ticket = i % 0x100000000

/-- A task that has been served and has not given the lock back. -/
def TicketOwner (drawn served : List T) (given : ℕ) (t : T) : Prop :=
  served.length = given + 1 ∧ drawn[given]? = some t

/-- A lock before its first use. -/
theorem ticketOk_init : TicketOk 0 0 ([] : List T) [] 0 :=
  ⟨rfl, rfl, List.nil_prefix, le_rfl, Nat.zero_le _⟩

/-- A lock has one owner. -/
theorem TicketOwner.unique (ht : TicketOwner drawn served given t)
    (hu : TicketOwner drawn served given u) : t = u :=
  Option.some.inj (ht.2.symm.trans hu.2)

/-- The owner is the first of the queue. -/
theorem TicketOwner.queue (h : TicketOwner drawn served given t) :
    ticketQueue drawn given = t :: ticketQueue drawn (given + 1) := by
  obtain ⟨hlt, hget⟩ := List.getElem?_eq_some_iff.mp h.2
  rw [ticketQueue, ticketQueue, List.drop_eq_getElem_cons hlt, hget]

/-! ## Drawing a ticket -/

theorem TicketOk.draw (h : TicketOk current free drawn served given) (t : T) :
    TicketOk current (add32 free 1) (drawn ++ [t]) served given where
  current_eq := h.current_eq
  free_eq := by
    rw [h.free_eq, add32, Nat.mod_add_mod, List.length_append, List.length_singleton]
  served_drawn := h.served_drawn.trans (List.prefix_append _ _)
  given_le := h.given_le
  served_le := h.served_le

theorem TicketOk.draw_waiting (h : TicketOk current free drawn served given) (t : T) :
    TicketWaiting (drawn ++ [t]) served t free :=
  ⟨drawn.length, List.getElem?_concat_length, h.served_drawn.length_le, h.free_eq⟩

theorem TicketOk.draw_queue (h : TicketOk current free drawn served given) (t : T) :
    ticketQueue (drawn ++ [t]) given = ticketQueue drawn given ++ [t] :=
  List.drop_append_of_le_length (h.given_le.trans h.served_drawn.length_le)

theorem TicketWaiting.draw {ticket : ℕ} (h : TicketWaiting drawn served u ticket) (t : T) :
    TicketWaiting (drawn ++ [t]) served u ticket := by
  obtain ⟨i, hget, hle, hticket⟩ := h
  obtain ⟨hlt, -⟩ := List.getElem?_eq_some_iff.mp hget
  exact ⟨i, by rw [List.getElem?_append_left hlt, hget], hle, hticket⟩

theorem TicketOwner.draw (h : TicketOwner drawn served given u) (t : T) :
    TicketOwner (drawn ++ [t]) served given u := by
  obtain ⟨hlt, -⟩ := List.getElem?_eq_some_iff.mp h.2
  exact ⟨h.1, by rw [List.getElem?_append_left hlt, h.2]⟩

/-! ## Being served -/

/-- A task whose ticket is shown is the first of the queue, and the lock has no owner. -/
theorem TicketOk.served_next (h : TicketOk current free drawn served given)
    (hqueue : (ticketQueue drawn given).length ≤ 0x100000000)
    (hwait : TicketWaiting drawn served t current) :
    served.length = given ∧ drawn[given]? = some t := by
  obtain ⟨i, hget, hle, hticket⟩ := hwait
  obtain ⟨hlt, -⟩ := List.getElem?_eq_some_iff.mp hget
  have hgiven := h.given_le
  have hcurrent := h.current_eq
  rw [ticketQueue, List.length_drop] at hqueue
  -- the positions from `given` on are less than `2 ^ 32` apart
  have heq : i = given := by omega
  rw [heq] at hget hle
  exact ⟨Nat.le_antisymm hle hgiven, hget⟩

theorem TicketOk.serve (h : TicketOk current free drawn served given)
    (hqueue : (ticketQueue drawn given).length ≤ 0x100000000)
    (hwait : TicketWaiting drawn served t current) :
    TicketOk current free drawn (served ++ [t]) given ∧
      TicketOwner drawn (served ++ [t]) given t := by
  obtain ⟨hserved, hget⟩ := h.served_next hqueue hwait
  have hlength : (served ++ [t]).length = given + 1 := by
    rw [List.length_append, List.length_singleton, hserved]
  refine ⟨⟨h.current_eq, h.free_eq, ?_, by omega, by omega⟩, hlength, hget⟩
  obtain ⟨hlt, hget'⟩ := List.getElem?_eq_some_iff.mp hget
  have htake : served = drawn.take given := by
    rw [← hserved]
    exact List.prefix_iff_eq_take.mp h.served_drawn
  rw [htake, ← hget', List.take_append_getElem]
  exact List.take_prefix _ _

/-- The other waiting tasks go on waiting. -/
theorem TicketWaiting.serve {ticket : ℕ} (h : TicketWaiting drawn served u ticket)
    (hget : drawn[served.length]? = some t) (hne : u ≠ t) :
    TicketWaiting drawn (served ++ [t]) u ticket := by
  obtain ⟨i, hi, hle, hticket⟩ := h
  refine ⟨i, hi, ?_, hticket⟩
  have hdiff : i ≠ served.length := by
    intro heq
    rw [heq, hget] at hi
    exact hne (Option.some.inj hi).symm
  rw [List.length_append, List.length_singleton]
  omega

/-! ## Giving the lock back -/

theorem TicketOk.give (h : TicketOk current free drawn served given)
    (howner : TicketOwner drawn served given t) :
    TicketOk (add32 current 1) free drawn served (given + 1) where
  current_eq := by rw [h.current_eq, add32, Nat.mod_add_mod]
  free_eq := h.free_eq
  served_drawn := h.served_drawn
  given_le := howner.1.ge
  served_le := by
    rw [howner.1]
    exact Nat.le_succ _

/-- The owner leaves the queue. -/
theorem TicketOwner.mem_give (h : TicketOwner drawn served given t)
    (hnodup : (ticketQueue drawn given).Nodup) :
    u ∈ ticketQueue drawn (given + 1) ↔ u ∈ ticketQueue drawn given ∧ u ≠ t := by
  rw [h.queue] at hnodup ⊢
  obtain ⟨hnot, -⟩ := List.nodup_cons.mp hnodup
  rw [List.mem_cons]
  constructor
  · intro hu
    exact ⟨Or.inr hu, fun heq => hnot (heq ▸ hu)⟩
  · intro hu
    exact hu.1.resolve_left hu.2

theorem ticketQueue_nodup_succ (hnodup : (ticketQueue drawn given).Nodup) :
    (ticketQueue drawn (given + 1)).Nodup := by
  rw [ticketQueue, ← List.drop_drop]
  exact hnodup.sublist (List.drop_sublist 1 _)

/-- A queue of different tasks is no longer than a set that they belong to. -/
theorem ticketQueue_length_le {tasks : Finset T} (hnodup : (ticketQueue drawn given).Nodup)
    (hmem : ∀ u ∈ ticketQueue drawn given, u ∈ tasks) :
    (ticketQueue drawn given).length ≤ tasks.card := by
  classical
  rw [← List.toFinset_card_of_nodup hnodup]
  exact Finset.card_le_card fun u hu => hmem u (List.mem_toFinset.mp hu)

/-! ## The tasks that use a lock -/

/-- The tasks that poll for a ticket and the tasks that own the lock are those of the queue,
each of them once. -/
structure TicketUse (current free : ℕ) (drawn served : List T) (given : ℕ)
    (waits : T → ℕ → Prop) (owns : T → Prop) : Prop where
  ok : TicketOk current free drawn served given
  nodup : (ticketQueue drawn given).Nodup
  mem_queue : ∀ t, t ∈ ticketQueue drawn given ↔ (∃ ticket, waits t ticket) ∨ owns t
  waiting : ∀ t ticket, waits t ticket → TicketWaiting drawn served t ticket
  owner : ∀ t, owns t → TicketOwner drawn served given t

namespace TicketUse

variable {waits waits' : T → ℕ → Prop} {owns owns' : T → Prop}

/-- A lock before its first use. -/
theorem init (hwaits : ∀ t ticket, ¬waits t ticket) (howns : ∀ t, ¬owns t) :
    TicketUse 0 0 [] [] 0 waits owns := by
  refine ⟨ticketOk_init, List.nodup_nil, fun t => ?_, fun t k h => absurd h (hwaits t k),
    fun t h => absurd h (howns t)⟩
  simp [ticketQueue, hwaits, howns]

/-- At most one task owns the lock. -/
theorem unique (h : TicketUse current free drawn served given waits owns) (ht : owns t)
    (hu : owns u) : t = u :=
  (h.owner t ht).unique (h.owner u hu)

/-- Steps that neither take nor give the lock keep its use. -/
theorem congr (h : TicketUse current free drawn served given waits owns)
    (hwaits : ∀ u ticket, waits' u ticket ↔ waits u ticket) (howns : ∀ u, owns' u ↔ owns u) :
    TicketUse current free drawn served given waits' owns' where
  ok := h.ok
  nodup := h.nodup
  mem_queue u := by simp only [h.mem_queue, hwaits, howns]
  waiting u k hu := h.waiting u k ((hwaits u k).mp hu)
  owner u hu := h.owner u ((howns u).mp hu)

/-- A task outside the queue draws a ticket. -/
theorem draw (h : TicketUse current free drawn served given waits owns)
    (hnot : ∀ ticket, ¬waits t ticket) (hnot' : ¬owns t)
    (hwaits : ∀ u ticket, waits' u ticket ↔ waits u ticket ∨ u = t ∧ ticket = free)
    (howns : ∀ u, owns' u ↔ owns u) :
    TicketUse current (add32 free 1) (drawn ++ [t]) served given waits' owns' where
  ok := h.ok.draw t
  nodup := by
    have hnew : t ∉ ticketQueue drawn given := by
      rw [h.mem_queue, not_or, not_exists]
      exact ⟨hnot, hnot'⟩
    rw [h.ok.draw_queue]
    exact List.nodup_append.mpr ⟨h.nodup, List.nodup_singleton t, fun u hu v hv heq =>
      hnew (List.mem_singleton.mp hv ▸ heq ▸ hu)⟩
  mem_queue u := by
    rw [h.ok.draw_queue, List.mem_append, List.mem_singleton, h.mem_queue, howns]
    constructor
    · rintro ((⟨k, hk⟩ | ho) | rfl)
      · exact Or.inl ⟨k, (hwaits u k).mpr (Or.inl hk)⟩
      · exact Or.inr ho
      · exact Or.inl ⟨free, (hwaits u free).mpr (Or.inr ⟨rfl, rfl⟩)⟩
    · rintro (⟨k, hk⟩ | ho)
      · rcases (hwaits u k).mp hk with hk | ⟨rfl, -⟩
        · exact Or.inl (Or.inl ⟨k, hk⟩)
        · exact Or.inr rfl
      · exact Or.inl (Or.inr ho)
  waiting u k hk := by
    rcases (hwaits u k).mp hk with hk | ⟨rfl, rfl⟩
    · exact (h.waiting u k hk).draw t
    · exact h.ok.draw_waiting u
  owner u hu := (h.owner u ((howns u).mp hu)).draw t

/-- A task whose ticket is shown becomes the owner of a lock that had none. -/
theorem serve (h : TicketUse current free drawn served given waits owns)
    (hqueue : (ticketQueue drawn given).length ≤ 0x100000000) (hwait : waits t current)
    (hwaits : ∀ u ticket, waits' u ticket ↔ waits u ticket ∧ u ≠ t)
    (howns : ∀ u, owns' u ↔ owns u ∨ u = t) :
    (∀ u, ¬owns u) ∧ TicketUse current free drawn (served ++ [t]) given waits' owns' := by
  have hticket := h.waiting t current hwait
  obtain ⟨hserved, hget⟩ := h.ok.served_next hqueue hticket
  obtain ⟨hok, howner⟩ := h.ok.serve hqueue hticket
  have hnone : ∀ u, ¬owns u := by
    intro u hu
    have := (h.owner u hu).1
    omega
  refine ⟨hnone, hok, h.nodup, fun u => ?_, fun u k hk => ?_, fun u hu => ?_⟩
  · rw [h.mem_queue, howns]
    constructor
    · rintro (⟨k, hk⟩ | ho)
      · by_cases hut : u = t
        · exact Or.inr (Or.inr hut)
        · exact Or.inl ⟨k, (hwaits u k).mpr ⟨hk, hut⟩⟩
      · exact absurd ho (hnone u)
    · rintro (⟨k, hk⟩ | ho | rfl)
      · exact Or.inl ⟨k, ((hwaits u k).mp hk).1⟩
      · exact Or.inr ho
      · exact Or.inl ⟨current, hwait⟩
  · obtain ⟨hk, hut⟩ := (hwaits u k).mp hk
    exact (h.waiting u k hk).serve (hserved ▸ hget) hut
  · rcases (howns u).mp hu with ho | rfl
    · exact absurd ho (hnone u)
    · exact howner

/-- The owner gives the lock back. -/
theorem give (h : TicketUse current free drawn served given waits owns) (ht : owns t)
    (hnot : ∀ ticket, ¬waits t ticket) (hwaits : ∀ u ticket, waits' u ticket ↔ waits u ticket)
    (howns : ∀ u, ¬owns' u) :
    TicketUse (add32 current 1) free drawn served (given + 1) waits' owns' where
  ok := h.ok.give (h.owner t ht)
  nodup := ticketQueue_nodup_succ h.nodup
  mem_queue u := by
    rw [(h.owner t ht).mem_give h.nodup, h.mem_queue]
    constructor
    · rintro ⟨⟨k, hk⟩ | ho, hne⟩
      · exact Or.inl ⟨k, (hwaits u k).mpr hk⟩
      · exact absurd (h.unique ho ht) hne
    · rintro (⟨k, hk⟩ | ho)
      · have hk := (hwaits u k).mp hk
        exact ⟨Or.inl ⟨k, hk⟩, fun heq => hnot k (heq ▸ hk)⟩
      · exact absurd ho (howns u)
  waiting u k hk := h.waiting u k ((hwaits u k).mp hk)
  owner u hu := absurd hu (howns u)

/-- The first task of the queue owns the lock or polls for the ticket that is shown. -/
theorem first (h : TicketUse current free drawn served given waits owns)
    (ht : drawn[given]? = some t) (hnot : ¬owns t) : waits t current := by
  have hfirst : (ticketQueue drawn given)[0]? = some t := by
    rw [ticketQueue, List.getElem?_drop]
    exact ht
  obtain ⟨ticket, hwait⟩ :=
    ((h.mem_queue t).mp (List.mem_of_getElem? hfirst)).resolve_right hnot
  obtain ⟨i, hi, hle, hticket⟩ := h.waiting t ticket hwait
  have hgiven : given ≤ i := h.ok.given_le.trans hle
  have hplace : (ticketQueue drawn given)[i - given]? = some t := by
    rw [ticketQueue, List.getElem?_drop, Nat.add_sub_of_le hgiven]
    exact hi
  obtain ⟨hpos, -⟩ := List.getElem?_eq_some_iff.mp hfirst
  have heq : 0 = i - given := (List.getElem?_inj hpos h.nodup).mp (hfirst.trans hplace.symm)
  have hcurrent : ticket = current := by
    rw [hticket, h.ok.current_eq]
    congr 1
    omega
  rwa [hcurrent] at hwait

/-- While a task waits, a task owns the lock or polls for the ticket that is shown. -/
theorem not_stuck (h : TicketUse current free drawn served given waits owns) {ticket : ℕ}
    (hwait : waits t ticket) : (∃ u, owns u) ∨ ∃ u, waits u current := by
  have hmem : t ∈ ticketQueue drawn given := (h.mem_queue t).mpr (Or.inl ⟨ticket, hwait⟩)
  have hlt : given < drawn.length := by
    by_contra hge
    rw [ticketQueue, List.drop_eq_nil_of_le (Nat.le_of_not_lt hge)] at hmem
    exact absurd hmem List.not_mem_nil
  by_cases howns : owns drawn[given]
  · exact Or.inl ⟨_, howns⟩
  · exact Or.inr ⟨_, h.first (List.getElem?_eq_getElem hlt) howns⟩

end TicketUse

end GietVm.Library
