import Mathlib.Data.BitVec
import Mathlib.Tactic.Common

/-!
# Writing on a terminal

A terminal shows the characters written in its `TTY_WRITE` register, and tells in its `TTY_STATUS`
register whether its transmit buffer is full. The successive values read from the status register
are arbitrary: they are the history of the device. The kernel writes on its own terminal with
`_tty0_write`, and for the user tasks with `_sys_tty_write`; both look at the status before each
character.
-/

namespace GietVm.Tty

/-- The values of `TTY_STATUS`, in the order in which they are read. -/
abbrev History := ℕ → BitVec 32

/-- The transmit buffer is full: bit 1 of the status. -/
def Full (status : BitVec 32) : Prop := status &&& 0x2 ≠ 0

instance (status : BitVec 32) : Decidable (Full status) := inferInstanceAs (Decidable (_ ≠ _))

/-- What the driver has done with a terminal. -/
structure Terminal where
  /-- How many times the status has been read. -/
  polls : ℕ
  /-- The last status read told that the buffer was full. -/
  full : Bool
  /-- The characters written. -/
  written : List UInt8
  /-- A character was written while the last status read told that the buffer was full. -/
  overrun : Bool
  deriving DecidableEq

namespace Terminal

/-- Read the status. -/
def poll (h : History) (t : Terminal) : Terminal :=
  { t with polls := t.polls + 1, full := decide (Full (h t.polls)) }

/-- Write one character. -/
def write (c : UInt8) (t : Terminal) : Terminal :=
  { t with written := t.written ++ [c], overrun := t.overrun || t.full }

end Terminal

/-- `'\n'`. -/
def newLine : UInt8 := 0x0A

/-- `'\r'`. -/
def carriageReturn : UInt8 := 0x0D

/-- Write one character, after a carriage return when it is a new line. -/
def putChar (c : UInt8) (t : Terminal) : Terminal :=
  if c = newLine then (t.write carriageReturn).write c else t.write c

/-! ## The kernel terminal -/

/-- The loop of `_tty0_write` on a full buffer: at most `k` polls, until one finds the buffer not
full. -/
def retry (h : History) : ℕ → Terminal → Terminal
  | 0, t => t
  | k + 1, t => if (t.poll h).full then retry h k (t.poll h) else t.poll h

/-- `_tty0_write`. The result is 1 as soon as the buffer is found full, whatever the retries
found. -/
def tty0Write (h : History) : List UInt8 → Terminal → ℕ × Terminal
  | [], t => (0, t)
  | c :: buffer, t =>
    if (t.poll h).full then (1, retry h 10000 (t.poll h))
    else tty0Write h buffer (putChar c (t.poll h))

/-! ## The terminals of the tasks -/

/-- The loop of `_sys_tty_write`, which returns the number of characters written. -/
def sysTtyLoop (h : History) : List UInt8 → ℕ → Terminal → ℕ × Terminal
  | [], nwritten, t => (nwritten, t)
  | c :: buffer, nwritten, t =>
    if (t.poll h).full then (nwritten, t.poll h)
    else sysTtyLoop h buffer (nwritten + 1) (putChar c (t.poll h))

/-- `_sys_tty_write`, for a task whose context has the channel `ctxTtyId`. -/
def sysTtyWrite (nbTtyChannels ctxTtyId : BitVec 32) (h : History) (buffer : List UInt8)
    (channel : BitVec 32) (t : Terminal) : ℤ × Terminal :=
  let channel := if channel = 0xFFFFFFFF then ctxTtyId else channel
  if nbTtyChannels ≤ channel then (-1, t)
  else (((sysTtyLoop h buffer 0 t).1 : ℤ), (sysTtyLoop h buffer 0 t).2)

/-! ## Characters delivered -/

/-- The characters that the device receives for a string: a carriage return comes before each new
line. -/
def expand (s : List UInt8) : List UInt8 :=
  s.flatMap fun c => if c = newLine then [carriageReturn, c] else [c]

/-- Each of the first `n` statuses read from the `start`-th on tells that the buffer is not
full. -/
def Ready (h : History) (start n : ℕ) : Prop := ∀ i < n, ¬Full (h (start + i))

namespace Terminal

/-- The terminal after a string is written with one poll for each character. -/
def deliver (t : Terminal) (s : List UInt8) : Terminal :=
  { polls := t.polls + s.length
    full := if s = [] then t.full else false
    written := t.written ++ expand s
    overrun := t.overrun }

variable (t : Terminal) (h : History)

theorem deliver_nil : t.deliver [] = t := by
  rw [deliver, expand, List.flatMap_nil, List.append_nil]
  rfl

theorem deliver_append (s s' : List UInt8) : (t.deliver s).deliver s' = t.deliver (s ++ s') := by
  rw [deliver, deliver, deliver]
  simp only [expand, List.flatMap_append, List.length_append, List.append_assoc, Nat.add_assoc,
    List.append_eq_nil_iff, mk.injEq, and_true, true_and]
  by_cases hs : s = []
  · simp only [hs, if_true, true_and]
  · by_cases hs' : s' = []
    · simp only [hs, hs', if_true, if_false, false_and]
    · simp only [hs, hs', if_false, and_self]

theorem poll_full : (t.poll h).full = decide (Full (h t.polls)) := rfl

/-- A character written after a poll that found the buffer not full. -/
theorem putChar_poll (c : UInt8) (hready : ¬Full (h t.polls)) :
    putChar c (t.poll h) = t.deliver [c] := by
  have hfull : (t.poll h).full = false := decide_eq_false hready
  rw [putChar, deliver, expand, List.flatMap_singleton, List.length_singleton,
    if_neg (List.cons_ne_nil c [])]
  split
  · rw [write, write, hfull, List.append_assoc, Bool.or_false, Bool.or_false]
    rfl
  · rw [write, hfull, Bool.or_false]
    rfl

end Terminal

/-- What both write functions do, as the history decides. Each delivers the string when every poll
finds the buffer not full; otherwise it gives up at the first poll that finds it full. -/
structure GivesUp (h : History) (giveUp : Terminal → Terminal)
    (write : List UInt8 → Terminal → Bool × Terminal) : Prop where
  ready : ∀ s t, Ready h t.polls s.length → write s t = (true, t.deliver s)
  busy : ∀ s t n, n < s.length → Ready h t.polls n → Full (h (t.polls + n)) →
    write s t = (false, giveUp (t.deliver (s.take n)))

section Writes

variable {h : History}

theorem Ready.tail {start n : ℕ} (hr : Ready h start (n + 1)) :
    ¬Full (h start) ∧ Ready h (start + 1) n := by
  constructor
  · exact hr 0 (Nat.succ_pos n)
  · intro i hi
    have := hr (i + 1) (Nat.succ_lt_succ hi)
    rwa [Nat.add_assoc, Nat.add_comm 1 i]

/-- `_tty0_write` as a success. -/
def tty0Succeeds (h : History) (s : List UInt8) (t : Terminal) : Bool × Terminal :=
  (decide ((tty0Write h s t).1 = 0), (tty0Write h s t).2)

theorem tty0Write_ready (s : List UInt8) (t : Terminal) (hr : Ready h t.polls s.length) :
    tty0Write h s t = (0, t.deliver s) := by
  induction s generalizing t with
  | nil => rw [tty0Write, Terminal.deliver_nil]
  | cons c s ih =>
    obtain ⟨hfirst, hrest⟩ := hr.tail
    rw [tty0Write, Terminal.poll_full, decide_eq_false hfirst, if_neg Bool.false_ne_true,
      Terminal.putChar_poll t h c hfirst, ih _ hrest, Terminal.deliver_append]
    rfl

theorem tty0Write_busy (s : List UInt8) (t : Terminal) (n : ℕ) (hn : n < s.length)
    (hr : Ready h t.polls n) (hfull : Full (h (t.polls + n))) :
    tty0Write h s t = (1, retry h 10000 ((t.deliver (s.take n)).poll h)) := by
  induction s generalizing t n with
  | nil => exact absurd hn (Nat.not_lt_zero n)
  | cons c s ih =>
    cases n with
    | zero =>
      rw [Nat.add_zero] at hfull
      rw [tty0Write, Terminal.poll_full, decide_eq_true hfull, if_pos rfl, List.take_zero,
        Terminal.deliver_nil]
    | succ n =>
      obtain ⟨hfirst, hrest⟩ := hr.tail
      have hfull' : Full (h ((t.deliver [c]).polls + n)) := by
        change Full (h (t.polls + 1 + n))
        rwa [Nat.add_assoc, Nat.add_comm 1 n]
      rw [tty0Write, Terminal.poll_full, decide_eq_false hfirst, if_neg Bool.false_ne_true,
        Terminal.putChar_poll t h c hfirst, ih _ n (Nat.lt_of_succ_lt_succ hn) hrest hfull',
        Terminal.deliver_append]
      rfl

theorem tty0_givesUp :
    GivesUp h (fun t => retry h 10000 (t.poll h)) (tty0Succeeds h) where
  ready := by
    intro s t hr
    rw [tty0Succeeds, tty0Write_ready s t hr]
    rfl
  busy := by
    intro s t n hn hr hfull
    rw [tty0Succeeds, tty0Write_busy s t n hn hr hfull]
    rfl

end Writes

end GietVm.Tty
