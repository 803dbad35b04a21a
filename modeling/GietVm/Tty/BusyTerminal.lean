import GietVm.Tty.Printf

/-!
# Printing on a busy terminal

What printf sends depends on the format and its arguments only; the history of the device decides
where it gives up. Both write functions give up at the first poll that finds the transmit buffer
full: `_tty0_write` retries, but returns its error even when a retry succeeds, and `_sys_tty_write`
does not retry. So a string is delivered exactly when no poll finds the buffer full.
-/

namespace GietVm.Tty

/-! ## The characters of a format -/

/-- A terminal that is never busy, which collects the characters. -/
def collect (s acc : List UInt8) : Bool × List UInt8 := (true, acc ++ s)

section Outcome

variable {h : History} {giveUp : Terminal → Terminal}
  {write : List UInt8 → Terminal → Bool × Terminal}

/-- The result of sending characters: all are delivered when no poll finds the buffer full, and
otherwise the sender gives up at the first poll that does. -/
structure Outcome (h : History) (giveUp : Terminal → Terminal) (t : Terminal) (cs : List UInt8)
    (ok : Bool) (result : Bool × Terminal) : Prop where
  ready : Ready h t.polls cs.length → result = (ok, t.deliver cs)
  busy : ∀ n < cs.length, Ready h t.polls n → Full (h (t.polls + n)) →
    result = (false, giveUp (t.deliver (cs.take n)))

theorem Outcome.nil (t : Terminal) (ok : Bool) : Outcome h giveUp t [] ok (ok, t) where
  ready := fun _ => by rw [Terminal.deliver_nil]
  busy := fun n hn => absurd hn (Nat.not_lt_zero n)

/-- Sending characters, then others when this succeeded. -/
theorem Outcome.bind {t : Terminal} {cs cs' : List UInt8} {ok : Bool} {result : Bool × Terminal}
    {next : Terminal → Bool × Terminal} (hfirst : Outcome h giveUp t cs true result)
    (hnext : ∀ t', Outcome h giveUp t' cs' ok (next t')) :
    Outcome h giveUp t (cs ++ cs') ok (if result.1 then next result.2 else result) where
  ready := by
    intro hr
    rw [List.length_append] at hr
    have hr' : Ready h (t.deliver cs).polls cs'.length := by
      intro i hi
      have := hr (cs.length + i) (Nat.add_lt_add_left hi _)
      rwa [← Nat.add_assoc] at this
    have hsent := hfirst.ready fun i hi => hr i (Nat.lt_add_right _ hi)
    rw [hsent, if_pos rfl, (hnext _).ready hr', Terminal.deliver_append]
  busy := by
    intro n hn hr hfull
    rw [List.length_append] at hn
    by_cases hcs : n < cs.length
    · rw [hfirst.busy n hcs hr hfull, if_neg Bool.false_ne_true,
        List.take_append_of_le_length hcs.le]
    · have hle : cs.length ≤ n := Nat.le_of_not_lt hcs
      obtain ⟨m, rfl⟩ := Nat.exists_eq_add_of_le hle
      have hr' : Ready h (t.deliver cs).polls m := by
        intro i hi
        have := hr (cs.length + i) (Nat.add_lt_add_left hi _)
        rwa [← Nat.add_assoc] at this
      have hfull' : Full (h ((t.deliver cs).polls + m)) := by
        rwa [← Nat.add_assoc] at hfull
      have hsent := hfirst.ready fun i hi => hr i (lt_of_lt_of_le hi hle)
      rw [hsent, if_pos rfl, (hnext _).busy m (by omega) hr' hfull', Terminal.deliver_append,
        List.take_append, List.take_of_length_le hle, Nat.add_sub_cancel_left]

theorem GivesUp.outcome (hwrite : GivesUp h giveUp write) (s : List UInt8) (t : Terminal) :
    Outcome h giveUp t s true (write s t) where
  ready := hwrite.ready s t
  busy := hwrite.busy s t

theorem writeAll_outcome (hwrite : GivesUp h giveUp write) (chunks : List (List UInt8))
    (t : Terminal) : Outcome h giveUp t chunks.flatten true (writeAll write chunks t) := by
  induction chunks generalizing t with
  | nil => exact .nil t true
  | cons chunk chunks ih =>
    exact (hwrite.outcome chunk t).bind ih

theorem writeAll_collect (chunks : List (List UInt8)) (acc : List UInt8) :
    writeAll collect chunks acc = (true, acc ++ chunks.flatten) := by
  induction chunks generalizing acc with
  | nil => rw [writeAll, List.flatten_nil, List.append_nil]
  | cons chunk chunks ih =>
    rw [writeAll, collect, if_pos rfl, ih, List.flatten_cons, List.append_assoc]

variable {directive : Arg → (format : List UInt8) → Option (Directive format)} {args : ℕ → Arg}

theorem sendText_outcome (hwrite : GivesUp h giveUp write) (format : List UInt8)
    (t : Terminal) : Outcome h giveUp t (textOf format) true (sendText write format t) := by
  rw [sendText]
  split
  · next hnil =>
    rw [hnil]
    exact .nil t true
  · exact hwrite.outcome _ t

theorem sendText_collect (format acc : List UInt8) :
    sendText collect format acc = (true, acc ++ textOf format) := by
  rw [sendText]
  split
  · next hnil => rw [hnil, List.append_nil]
  · rfl

/-- What printf sends on a terminal is what it sends on one that is never busy. -/
theorem printf_outcome (hwrite : GivesUp h giveUp write) (format : List UInt8) (next : ℕ)
    (acc : List UInt8) :
    ∃ cs, (printf directive collect args format next acc).2 = acc ++ cs ∧
      ∀ t, Outcome h giveUp t cs (printf directive collect args format next acc).1
        (printf directive write args format next t) := by
  induction hlen : format.length using Nat.strong_induction_on generalizing format next acc with
  | h n ih =>
    cases hrest : format.dropWhile (· ≠ char '%') with
    | nil =>
      refine ⟨textOf format, ?_, fun t => ?_⟩
      · rw [printf_end hrest, sendText_collect, if_pos rfl]
      · rw [printf_end hrest, printf_end hrest, sendText_collect, if_pos rfl]
        have hbind := (sendText_outcome hwrite format t).bind fun t' => Outcome.nil t' true
        rwa [List.append_nil] at hbind
    | cons p conversion =>
      cases hd : directive (args next) conversion with
      | none =>
        refine ⟨textOf format, ?_, fun t => ?_⟩
        · rw [printf_error hrest hd, sendText_collect, if_pos rfl]
        · rw [printf_error hrest hd, printf_error hrest hd, sendText_collect, if_pos rfl]
          have hbind := (sendText_outcome hwrite format t).bind fun t' => Outcome.nil t' false
          rwa [List.append_nil] at hbind
      | some d =>
        have hle := conversion_shorter format
        rw [hrest, List.tail_cons] at hle
        have hshorter : d.rest.length < n := lt_of_lt_of_le d.shorter (hlen ▸ hle)
        obtain ⟨cs, hcs, hsend⟩ := ih d.rest.length hshorter d.rest (next + d.taken)
          (acc ++ textOf format ++ d.chunks.flatten) rfl
        refine ⟨textOf format ++ (d.chunks.flatten ++ cs), ?_, fun t => ?_⟩
        · rw [printf_directive hrest hd, sendText_collect, if_pos rfl, writeAll_collect,
            if_pos rfl, hcs]
          simp only [List.append_assoc]
        · rw [printf_directive hrest hd, printf_directive hrest hd, sendText_collect, if_pos rfl,
            writeAll_collect, if_pos rfl]
          exact (sendText_outcome hwrite format t).bind fun t' =>
            (writeAll_outcome hwrite d.chunks t').bind hsend

end Outcome

/-- The characters of a format, and whether `_kernel_printf` accepts it. -/
def kernelCharacters (outside : ℤ → UInt8) (format : List UInt8) (args : ℕ → Arg) :
    Bool × List UInt8 :=
  printf (kernelDirective outside) collect args format 0 []

/-- The characters of a format, and whether `__printf` accepts it. -/
def userCharacters (ops : DoubleOps) (outside : ℤ → UInt8) (format : List UInt8)
    (args : ℕ → Arg) : Bool × List UInt8 :=
  printf (fun arg => userDirective ops outside arg .noMod) collect args format 0 []

section Functions

variable {h : History} {ops : DoubleOps} {outside : ℤ → UInt8} {format : List UInt8}
  {args : ℕ → Arg} {t : Terminal} {nbTtyChannels ctxTtyId : BitVec 32}

theorem sysTtyLoop_ready (s : List UInt8) (nwritten : ℕ) (t : Terminal)
    (hr : Ready h t.polls s.length) :
    sysTtyLoop h s nwritten t = (nwritten + s.length, t.deliver s) := by
  induction s generalizing nwritten t with
  | nil => rw [sysTtyLoop, Terminal.deliver_nil, List.length_nil, Nat.add_zero]
  | cons c s ih =>
    obtain ⟨hfirst, hrest⟩ := hr.tail
    rw [sysTtyLoop, Terminal.poll_full, decide_eq_false hfirst, if_neg Bool.false_ne_true,
      Terminal.putChar_poll t h c hfirst, ih _ _ hrest, Terminal.deliver_append,
      List.length_cons, Nat.add_right_comm, Nat.add_assoc]
    rfl

theorem sysTtyLoop_busy (s : List UInt8) (nwritten : ℕ) (t : Terminal) (n : ℕ)
    (hn : n < s.length) (hr : Ready h t.polls n) (hfull : Full (h (t.polls + n))) :
    sysTtyLoop h s nwritten t = (nwritten + n, (t.deliver (s.take n)).poll h) := by
  induction s generalizing nwritten t n with
  | nil => exact absurd hn (Nat.not_lt_zero n)
  | cons c s ih =>
    cases n with
    | zero =>
      rw [Nat.add_zero] at hfull
      rw [sysTtyLoop, Terminal.poll_full, decide_eq_true hfull, if_pos rfl, List.take_zero,
        Terminal.deliver_nil, Nat.add_zero]
    | succ n =>
      obtain ⟨hfirst, hrest⟩ := hr.tail
      have hfull' : Full (h ((t.deliver [c]).polls + n)) := by
        change Full (h (t.polls + 1 + n))
        rwa [Nat.add_assoc, Nat.add_comm 1 n]
      rw [sysTtyLoop, Terminal.poll_full, decide_eq_false hfirst, if_neg Bool.false_ne_true,
        Terminal.putChar_poll t h c hfirst,
        ih _ _ n (Nat.lt_of_succ_lt_succ hn) hrest hfull', Terminal.deliver_append,
        Nat.add_assoc, Nat.add_comm 1 n]
      rfl

theorem sysTty_givesUp (hchannel : ctxTtyId < nbTtyChannels) :
    GivesUp h (Terminal.poll h) (sysTtySucceeds nbTtyChannels ctxTtyId h 0xFFFFFFFF) where
  ready := by
    intro s t hr
    rw [sysTtySucceeds, sysTtyWrite, if_pos rfl, if_neg (BitVec.not_le.2 hchannel),
      sysTtyLoop_ready s 0 t hr, Nat.zero_add, decide_eq_true rfl]
  busy := by
    intro s t n hn hr hfull
    have hne : ¬((n : ℤ) = s.length) := by omega
    rw [sysTtySucceeds, sysTtyWrite, if_pos rfl, if_neg (BitVec.not_le.2 hchannel),
      sysTtyLoop_busy s 0 t n hn hr hfull, Nat.zero_add, decide_eq_false hne]

variable (h outside format args t) in
theorem kernelPrintf_outcome :
    Outcome h (fun t => retry h 10000 (t.poll h)) t (kernelCharacters outside format args).2
      (kernelCharacters outside format args).1 (kernelPrintf outside h format args t) := by
  obtain ⟨cs, hcs, hsend⟩ := printf_outcome
    (tty0_givesUp (h := h)) format 0 []
  rw [kernelCharacters, hcs, List.nil_append]
  exact hsend t

variable (h ops outside format args t) in
theorem gietTtyPrintf_outcome (hchannel : ctxTtyId < nbTtyChannels) :
    Outcome h (Terminal.poll h) t (userCharacters ops outside format args).2
      (userCharacters ops outside format args).1
      (gietTtyPrintf ops outside nbTtyChannels ctxTtyId h format args t) := by
  obtain ⟨cs, hcs, hsend⟩ := printf_outcome
    (sysTty_givesUp (h := h) hchannel) format 0 []
  rw [userCharacters, hcs, List.nil_append]
  exact hsend t

end Functions

/-! ## When a busy terminal is tolerated -/

/-- From the `start`-th status on, the buffer becomes free within 10000 polls for each of `n`
characters. -/
def Frees (h : History) : ℕ → ℕ → Prop
  | _, 0 => True
  | start, n + 1 =>
    ∃ k < 10000, (∀ j < k, Full (h (start + j))) ∧ ¬Full (h (start + k)) ∧
      Frees h (start + k + 1) n

/-- The buffer stayed full during 10000 of the polls made. -/
def StayedFull (h : History) (start stop : ℕ) : Prop :=
  ∃ p, start ≤ p ∧ p + 10000 ≤ stop ∧ ∀ k < 10000, Full (h (p + k))

/-- What is asked of `_tty0_write`. -/
structure WriteTolerates (h : History) (s : List UInt8) (t : Terminal) : Prop where
  delivers : Frees h t.polls s.length →
    (tty0Write h s t).1 = 0 ∧ (tty0Write h s t).2.written = t.written ++ expand s
  fails : (tty0Write h s t).1 = 1 → StayedFull h t.polls (tty0Write h s t).2.polls

/-- What is asked of printf: its characters are delivered in order and none is written to a full
buffer, and it succeeds when it accepts the format. -/
def PrintfTolerates (h : History) (t : Terminal) (characters : Bool × List UInt8)
    (result : Bool × Terminal) : Prop :=
  Frees h t.polls characters.2.length →
    result.1 = characters.1 ∧ result.2.written = t.written ++ expand characters.2 ∧
      result.2.overrun = t.overrun

/-- The first time that one of `n` characters finds the buffer full, it stays full for 10000
polls. -/
def FullForLong (h : History) (start n : ℕ) : Prop :=
  ∀ i < n, Ready h start i → Full (h (start + i)) → ∀ k < 10000, Full (h (start + i + k))

section Tolerates

variable {h : History} {start n : ℕ} {t : Terminal}

theorem exists_busy (hr : ¬Ready h start n) : ∃ i < n, Ready h start i ∧ Full (h (start + i)) := by
  induction n with
  | zero => exact absurd (fun i hi => absurd hi (Nat.not_lt_zero i)) hr
  | succ n ih =>
    by_cases hn : Ready h start n
    · refine ⟨n, Nat.lt_succ_self n, hn, ?_⟩
      by_contra hready
      apply hr
      intro i hi
      rcases Nat.lt_succ_iff_lt_or_eq.1 hi with hlt | rfl
      · exact hn i hlt
      · exact hready
    · obtain ⟨i, hi, hbusy⟩ := ih hn
      exact ⟨i, Nat.lt_succ_of_lt hi, hbusy⟩

/-- A character that finds the buffer full in a history where it becomes free finds it free within
10000 polls. -/
theorem Frees.busy {i : ℕ} (hfrees : Frees h start n) (hi : i < n) (hr : Ready h start i) :
    ∃ k < 10000, ¬Full (h (start + i + k)) := by
  induction i generalizing start n with
  | zero =>
    cases n with
    | zero => exact absurd hi (Nat.lt_irrefl 0)
    | succ n =>
      obtain ⟨k, hk, -, hready, -⟩ := hfrees
      exact ⟨k, hk, hready⟩
  | succ i ih =>
    cases n with
    | zero => exact absurd hi (Nat.not_lt_zero _)
    | succ n =>
      obtain ⟨hfirst, hrest⟩ := hr.tail
      obtain ⟨k, -, hfull, -, hnext⟩ := hfrees
      have hk : k = 0 := by
        by_contra hpos
        exact hfirst (hfull 0 (Nat.pos_of_ne_zero hpos))
      subst hk
      obtain ⟨k, hk, hready⟩ := ih hnext (Nat.lt_of_succ_lt_succ hi) hrest
      refine ⟨k, hk, ?_⟩
      rwa [Nat.add_assoc start 1 i, Nat.add_comm 1 i] at hready

theorem Frees.ready (hfrees : Frees h start n) (hlong : FullForLong h start n) :
    Ready h start n := by
  by_contra hr
  obtain ⟨i, hi, hready, hfull⟩ := exists_busy hr
  obtain ⟨k, hk, hfree⟩ := hfrees.busy hi hready
  exact hfree (hlong i hi hready hfull k hk)

/-- The retries poll at most `k` times. -/
theorem retry_polls_le (k : ℕ) (t : Terminal) : (retry h k t).polls ≤ t.polls + k := by
  induction k generalizing t with
  | zero => exact le_rfl
  | succ k ih =>
    rw [retry]
    split
    · have := ih (t.poll h)
      change _ ≤ t.polls + 1 + k at this
      omega
    · change t.polls + 1 ≤ t.polls + (k + 1)
      omega

/-- The retries go on while the buffer is full. -/
theorem le_retry_polls {k m : ℕ} (hm : m ≤ k) (t : Terminal)
    (hfull : ∀ i < m, Full (h (t.polls + i))) : t.polls + m ≤ (retry h k t).polls := by
  induction k generalizing m t with
  | zero =>
    have hzero : m = 0 := Nat.le_zero.1 hm
    subst hzero
    exact le_rfl
  | succ k ih =>
    cases m with
    | zero =>
      rw [retry]
      split
      · have := ih (Nat.zero_le k) (t.poll h) (fun i hi => absurd hi (Nat.not_lt_zero i))
        change t.polls + 1 + 0 ≤ _ at this
        omega
      · exact Nat.le_succ t.polls
    | succ m =>
      have hfirst : (t.poll h).full = true := decide_eq_true (hfull 0 (Nat.succ_pos m))
      rw [retry, if_pos hfirst]
      have hrest : ∀ i < m, Full (h ((t.poll h).polls + i)) := by
        intro i hi
        have := hfull (i + 1) (Nat.succ_lt_succ hi)
        change Full (h (t.polls + 1 + i))
        rwa [Nat.add_assoc, Nat.add_comm 1 i]
      have := ih (Nat.le_of_succ_le_succ hm) (t.poll h) hrest
      change t.polls + 1 + m ≤ _ at this
      omega

theorem retry_written (k : ℕ) (t : Terminal) : (retry h k t).written = t.written := by
  induction k generalizing t with
  | zero => rfl
  | succ k ih =>
    rw [retry]
    split
    · exact ih (t.poll h)
    · rfl

/-- After the first character that finds the buffer full, `_tty0_write` has polled a buffer full
for 10000 polls exactly when it stays so. -/
theorem stayedFull_iff {i : ℕ} (hr : Ready h start i) (hfull : Full (h (start + i)))
    (ht : t.polls = start + i) :
    StayedFull h start (retry h 10000 (t.poll h)).polls ↔ ∀ k < 10000, Full (h (start + i + k)) := by
  have hle := retry_polls_le (h := h) 10000 (t.poll h)
  change _ ≤ t.polls + 1 + 10000 at hle
  constructor
  · intro ⟨p, hp, hstop, hlong⟩
    have hge : start + i ≤ p := by
      by_contra hlt
      have hready := hr (p - start) (by omega)
      rw [Nat.add_sub_cancel' hp] at hready
      exact hready (hlong 0 (by decide))
    intro k hk
    by_cases hfirst : start + i = p
    · rw [hfirst]
      exact hlong k hk
    · have hnext : p = start + i + 1 := by omega
      cases k with
      | zero => exact hfull
      | succ k =>
        have := hlong k (by omega)
        rwa [hnext, Nat.add_assoc (start + i), Nat.add_comm 1 k] at this
  · intro hlong
    refine ⟨start + i, Nat.le_add_right _ _, ?_, hlong⟩
    have hpolls := le_retry_polls (h := h) (k := 10000) (m := 9999) (by decide) (t.poll h) (by
      intro j hj
      change Full (h (t.polls + 1 + j))
      rw [ht, Nat.add_assoc, Nat.add_comm 1 j]
      exact hlong (j + 1) (by omega))
    change t.polls + 1 + 9999 ≤ _ at hpolls
    omega

/-- The characters delivered before giving up are fewer. -/
theorem expand_take_ne {s : List UInt8} (hn : n < s.length) (l : List UInt8) :
    l ++ expand (s.take n) ≠ l ++ expand s := by
  intro heq
  have hsplit := List.append_cancel_left heq
  have hlen := congrArg List.length hsplit
  nth_rewrite 2 [← List.take_append_drop n s] at hlen
  rw [expand, expand, List.flatMap_append, List.length_append] at hlen
  have hdrop : s.drop n ≠ [] := List.drop_eq_nil_iff.not.2 (Nat.not_le_of_lt hn)
  obtain ⟨c, rest, hrest⟩ := List.exists_cons_of_ne_nil hdrop
  rw [hrest, List.flatMap_cons, List.length_append] at hlen
  split at hlen
  · rw [List.length_cons] at hlen
    omega
  · rw [List.length_cons] at hlen
    omega

/-- `_tty0_write` tolerates a busy terminal exactly when a buffer found full stays full. -/
theorem writeTolerates_iff (s : List UInt8) :
    WriteTolerates h s t ↔ FullForLong h t.polls s.length := by
  constructor
  · intro htol i hi hr hfull
    have hbusy := tty0Write_busy s t i hi hr hfull
    have hstayed := htol.fails (by rw [hbusy])
    rw [hbusy] at hstayed
    have hlen : (t.deliver (s.take i)).polls = t.polls + i := by
      change t.polls + (s.take i).length = _
      rw [List.length_take_of_le hi.le]
    exact (stayedFull_iff hr hfull hlen).1 hstayed
  · intro hlong
    constructor
    · intro hfrees
      rw [tty0Write_ready s t (hfrees.ready hlong)]
      exact ⟨rfl, rfl⟩
    · intro hone
      have hr : ¬Ready h t.polls s.length := by
        intro hr
        rw [tty0Write_ready s t hr] at hone
        cases hone
      obtain ⟨i, hi, hready, hfull⟩ := exists_busy hr
      have hlen : (t.deliver (s.take i)).polls = t.polls + i := by
        change t.polls + (s.take i).length = _
        rw [List.length_take_of_le hi.le]
      rw [tty0Write_busy s t i hi hready hfull]
      exact (stayedFull_iff hready hfull hlen).2 (hlong i hi hready hfull)

/-- printf tolerates a history in which the buffer becomes free for each character exactly when
none of them finds it full. -/
theorem Outcome.tolerant_iff {giveUp : Terminal → Terminal} {characters result}
    (hkeep : ∀ t, (giveUp t).written = t.written)
    (hout : Outcome h giveUp t characters.2 characters.1 result) :
    PrintfTolerates h t characters result ↔
      (Frees h t.polls characters.2.length → Ready h t.polls characters.2.length) := by
  constructor
  · intro htol hfrees
    by_contra hr
    obtain ⟨i, hi, hready, hfull⟩ := exists_busy hr
    have hwritten := (htol hfrees).2.1
    rw [hout.busy i hi hready hfull, hkeep] at hwritten
    exact expand_take_ne hi _ hwritten
  · intro hfree hfrees
    rw [hout.ready (hfree hfrees)]
    exact ⟨rfl, rfl, rfl⟩

end Tolerates

section Claim

variable {h h' : History} {t t' : Terminal} {s : List UInt8} {ops : DoubleOps}
  {outside : ℤ → UInt8} {format format' : List UInt8} {args args' : ℕ → Arg}
  {nbTtyChannels ctxTtyId : BitVec 32}

/-- The kernel and the user library tolerate a busy terminal exactly when no character finds the
buffer full for a short time: `_tty0_write` on a string, `_kernel_printf` and `giet_tty_printf` on
a format. -/
theorem tolerates_iff (hchannel : ctxTtyId < nbTtyChannels) :
    (WriteTolerates h s t ∧
      PrintfTolerates h t (kernelCharacters outside format args)
        (kernelPrintf outside h format args t) ∧
      PrintfTolerates h' t' (userCharacters ops outside format' args')
        (gietTtyPrintf ops outside nbTtyChannels ctxTtyId h' format' args' t')) ↔
      (FullForLong h t.polls s.length ∧
        (Frees h t.polls (kernelCharacters outside format args).2.length →
          Ready h t.polls (kernelCharacters outside format args).2.length) ∧
        (Frees h' t'.polls (userCharacters ops outside format' args').2.length →
          Ready h' t'.polls (userCharacters ops outside format' args').2.length)) := by
  have hkernel := kernelPrintf_outcome h outside format args t
  have huser := gietTtyPrintf_outcome h' ops outside format' args' t' hchannel
  have hpoll : ∀ t, (Terminal.poll h' t).written = t.written := fun _ => rfl
  rw [writeTolerates_iff, hkernel.tolerant_iff fun t => retry_written 10000 (t.poll h),
    huser.tolerant_iff hpoll]

/-- A terminal before anything is written on it. -/
def Terminal.fresh : Terminal := ⟨0, false, [], false⟩

/-- A terminal that is never busy is tolerated. -/
theorem tolerates_free :
    WriteTolerates (fun _ => 0) (chars "boot") Terminal.fresh ∧
      PrintfTolerates (fun _ => 0) Terminal.fresh
        (kernelCharacters (fun _ => 0) (chars "cpu %d") fun _ => ⟨3, 0, [], 0⟩)
        (kernelPrintf (fun _ => 0) (fun _ => 0) (chars "cpu %d") (fun _ => ⟨3, 0, [], 0⟩)
          Terminal.fresh) ∧
      PrintfTolerates (fun _ => 0) Terminal.fresh
        (userCharacters ⟨fun _ => 0, fun _ => false, fun _ => 0, fun _ => false⟩ (fun _ => 0)
          (chars "%s") fun _ => ⟨0, 0, chars "hello", 0⟩)
        (gietTtyPrintf ⟨fun _ => 0, fun _ => false, fun _ => 0, fun _ => false⟩ (fun _ => 0) 4 1
          (fun _ => 0) (chars "%s") (fun _ => ⟨0, 0, chars "hello", 0⟩) Terminal.fresh) := by
  have hready (start n : ℕ) : Ready (fun _ => 0) start n := by
    intro i _
    change ¬Full 0
    decide
  have hlong (start n : ℕ) : FullForLong (fun _ => 0) start n := by
    intro i _ _ hfull
    exact absurd hfull (hready start (i + 1) i (Nat.lt_succ_self i))
  apply (tolerates_iff (by decide)).2
  exact ⟨hlong _ _, fun _ => hready _ _, fun _ => hready _ _⟩

/-- `_tty0_write` fails on a buffer found full once. -/
theorem not_tolerates_once :
    ¬∀ (h h' : History) (t t' : Terminal) (s format format' : List UInt8) (args args' : ℕ → Arg)
      (ops : DoubleOps) (outside : ℤ → UInt8) (nbTtyChannels ctxTtyId : BitVec 32),
      ctxTtyId < nbTtyChannels →
      WriteTolerates h s t ∧
        PrintfTolerates h t (kernelCharacters outside format args)
          (kernelPrintf outside h format args t) ∧
        PrintfTolerates h' t' (userCharacters ops outside format' args')
          (gietTtyPrintf ops outside nbTtyChannels ctxTtyId h' format' args' t') := by
  intro hall
  have htol := (hall (fun i => if i = 0 then 2 else 0) (fun _ => 0) Terminal.fresh Terminal.fresh
    (chars "A") [] [] (fun _ => ⟨0, 0, [], 0⟩) (fun _ => ⟨0, 0, [], 0⟩)
    ⟨fun _ => 0, fun _ => false, fun _ => 0, fun _ => false⟩ (fun _ => 0) 4 1 (by decide)).1
  have hfrees : Frees (fun i => if i = 0 then 2 else 0) 0 1 := by
    refine ⟨1, by decide, ?_, by decide, trivial⟩
    intro j hj
    have hzero : j = 0 := Nat.lt_one_iff.1 hj
    subst hzero
    decide
  have hone : (tty0Write (fun i => if i = 0 then 2 else 0) (chars "A") Terminal.fresh).1 = 1 := rfl
  have hresult := (htol.delivers hfrees).1
  rw [hone] at hresult
  cases hresult

end Claim

end GietVm.Tty
