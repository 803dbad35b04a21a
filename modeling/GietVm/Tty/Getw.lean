import GietVm.Library.Cells
import Mathlib.Data.Nat.Digits.Defs
import Mathlib.Algebra.Order.Ring.Nat

/-!
# Reading a number on a terminal

`giet_tty_getw` keeps the digits typed on the terminal of the task in an array of 32 characters,
lets DEL and BS take the last one back, and stops at LF or when the array is full. It then computes
their value on 32 bits and takes a value smaller than the one before the last digit as the sign of
an overflow. A product by ten can wrap past the previous value, so some overflows go unseen.
-/

namespace GietVm.Tty

open GietVm.Library

/-! ## The function -/

/-- The variables of `giet_tty_getw` while it gets characters, with the characters it has echoed. -/
structure GetwState where
  buf : Cells UInt8
  length : ℕ
  done : Bool
  overflow : Bool
  echo : List UInt8

/-- The string BS/SPACE/BS. -/
def stringCancel : List UInt8 := [0x08, 0x20, 0x08]

/-- A character that is a decimal digit. -/
def IsDigit (c : UInt8) : Prop := 0x2F < c ∧ c < 0x3A

instance (c : UInt8) : Decidable (IsDigit c) := inferInstanceAs (Decidable (_ ∧ _))

/-- The analysis of one character. -/
def getwAnalyse (stringByte : UInt8) (st : GetwState) : Except ArrayFault GetwState :=
  if IsDigit stringByte then do
    let buf ← writeCell 32 st.buf st.length stringByte
    pure { st with buf, length := st.length + 1, echo := st.echo ++ [stringByte] }
  else if stringByte = 0x0A then pure { st with done := true }
  else if stringByte = 0x7F ∨ stringByte = 0x08 then
    if 0 < st.length then
      pure { st with length := st.length - 1, echo := st.echo ++ stringCancel }
    else pure st
  else pure st

/-- The test of a buffer overflow. -/
def getwTest (st : GetwState) : GetwState :=
  if 32 ≤ st.length then { st with overflow := true, done := true } else st

/-- The loop that gets characters, among those that the terminal delivers: the variables at its
end, or `none` when it still waits for a character. -/
def getwChars : List UInt8 → GetwState → Except ArrayFault (Option GetwState)
  | [], st => .ok (if st.done then some st else none)
  | stringByte :: keys, st =>
    if st.done then .ok (some st)
    else do
      let st ← getwAnalyse stringByte st
      getwChars keys (getwTest st)

/-- The conversion with overflow detection: `dec` and `overflow` after the digits from `i` on. -/
def getwConvert (buf : Cells UInt8) :
    ℕ → ℕ → BitVec 32 → BitVec 32 → Except ArrayFault (BitVec 32 × Bool)
  | 0, _, dec, _ => .ok (dec, false)
  | n + 1, i, dec, save => do
    let c ← readCell 32 buf i
    let dec := dec * 10 + (c.toBitVec.setWidth 32 - 0x30)
    if dec < save then .ok (dec, true) else getwConvert buf n (i + 1) dec dec

/-- What `giet_tty_getw` returns, with the characters it has echoed. -/
structure GetwResult where
  val : BitVec 32
  echo : List UInt8

/-- The final evaluation. -/
def getwResult (st : GetwState) (dec : BitVec 32) (overflow : Bool) : GetwResult :=
  if overflow then
    ⟨0, st.echo ++ (List.replicate st.length stringCancel).flatten ++ [0x30]⟩
  else ⟨dec, st.echo⟩

/-- `giet_tty_getw` on the characters that the terminal delivers, `none` when it still waits. -/
def gietTtyGetw (keys : List UInt8) : Except ArrayFault (Option GetwResult) := do
  match ← getwChars keys ⟨fun _ => none, 0, false, false, []⟩ with
  | none => pure none
  | some st =>
    if st.overflow then pure (some (getwResult st 0 true))
    else do
      let (dec, overflow) ← getwConvert st.buf st.length 0 0 0
      pure (some (getwResult st dec overflow))

/-! ## The number typed -/

/-- The digits kept after a character. -/
def keep (kept : List UInt8) (c : UInt8) : List UInt8 :=
  if IsDigit c then kept ++ [c]
  else if c = 0x7F ∨ c = 0x08 then kept.dropLast
  else kept

/-- From some digits kept, a sequence of characters ends with LF or with the 32nd digit kept, and
leaves some digits. -/
inductive Ended : List UInt8 → List UInt8 → List UInt8 → Prop
  | lf (kept : List UInt8) : Ended kept [0x0A] kept
  | full (kept : List UInt8) (c : UInt8) (hc : IsDigit c) (hlast : kept.length = 31) :
    Ended kept [c] (kept ++ [c])
  | key {kept keys digits : List UInt8} (c : UInt8) (hc : c ≠ 0x0A) (hroom : (keep kept c).length < 32)
    (hrest : Ended (keep kept c) keys digits) : Ended kept (c :: keys) digits

/-- The decimal value of some digits. -/
def decimalValue (digits : List UInt8) : ℕ :=
  Nat.ofDigits 10 (digits.map fun c => c.toNat - 0x30).reverse

/-- The number typed, or 0. -/
def numberTyped (digits : List UInt8) : ℕ :=
  if digits.length < 32 ∧ decimalValue digits < 0x100000000 then decimalValue digits else 0

/-- At some digit the value on 32 bits is smaller than before it. -/
def OverflowSeen (digits : List UInt8) : Prop :=
  ∃ k < digits.length, decimalValue (digits.take (k + 1)) % 0x100000000 <
    decimalValue (digits.take k) % 0x100000000

/-! ## The digits kept -/

/-- The array holds the digits kept. -/
structure GetwState.Holds (st : GetwState) (kept : List UInt8) : Prop where
  length : st.length = kept.length
  buf : ∀ (i : ℕ) (hi : i < kept.length), st.buf i = some kept[i]
  digits : ∀ c ∈ kept, IsDigit c

section Keep

variable {st : GetwState} {kept keys digits : List UInt8} {c : UInt8}

theorem GetwState.Holds.digit (h : st.Holds kept) (hc : IsDigit c) (hroom : kept.length < 32) :
    ∃ st', getwAnalyse c st = .ok st' ∧ st'.Holds (kept ++ [c]) ∧ st'.done = st.done ∧
      st'.overflow = st.overflow := by
  rw [getwAnalyse, if_pos hc, writeCell, if_pos (h.length ▸ hroom), ok_bind]
  refine ⟨_, rfl, ⟨?_, fun i hi => ?_, fun d hd => ?_⟩, rfl, rfl⟩
  · rw [List.length_append, List.length_singleton, ← h.length]
  · rw [List.length_append, List.length_singleton] at hi
    dsimp only
    obtain hlt | rfl : i < kept.length ∨ i = kept.length := by omega
    · rw [Function.update_of_ne (by rw [h.length]; omega), h.buf i hlt,
        List.getElem_append_left hlt]
    · have hlast : Function.update st.buf st.length (some c) kept.length = some c := by
        rw [← h.length, Function.update_self]
      rw [hlast, List.getElem_concat_length rfl]
  · obtain hd | hd := List.mem_append.mp hd
    · exact h.digits d hd
    · rw [List.mem_singleton.mp hd]
      exact hc

theorem GetwState.Holds.dropLast (h : st.Holds kept) : st.length = kept.length ∧
    ∀ (i : ℕ) (hi : i < kept.dropLast.length), st.buf i = some kept.dropLast[i] := by
  refine ⟨h.length, fun i hi => ?_⟩
  rw [List.getElem_dropLast]
  rw [List.length_dropLast] at hi
  exact h.buf i (by omega)

/-- A character other than LF changes the digits kept. -/
theorem GetwState.Holds.analyse (h : st.Holds kept) (hc : c ≠ 0x0A) (hroom : kept.length < 32) :
    ∃ st', getwAnalyse c st = .ok st' ∧ st'.Holds (keep kept c) ∧ st'.done = st.done ∧
      st'.overflow = st.overflow := by
  by_cases hdigit : IsDigit c
  · rw [keep, if_pos hdigit]
    exact h.digit hdigit hroom
  rw [getwAnalyse, if_neg hdigit, if_neg hc, keep, if_neg hdigit]
  by_cases hdel : c = 0x7F ∨ c = 0x08
  · rw [if_pos hdel, if_pos hdel]
    obtain ⟨hlength, hbuf⟩ := h.dropLast
    have hdigits : ∀ d ∈ kept.dropLast, IsDigit d :=
      fun d hd => h.digits d ((List.dropLast_sublist kept).subset hd)
    by_cases hpos : 0 < st.length
    · rw [if_pos hpos]
      refine ⟨_, rfl, ⟨?_, hbuf, hdigits⟩, rfl, rfl⟩
      rw [List.length_dropLast, ← hlength]
    · rw [if_neg hpos]
      refine ⟨st, rfl, ⟨?_, hbuf, hdigits⟩, rfl, rfl⟩
      rw [List.length_dropLast]
      omega
  · rw [if_neg hdel, if_neg hdel]
    exact ⟨st, rfl, h, rfl, rfl⟩

/-- The loop that gets characters keeps the digits. -/
theorem getwChars_run (h : st.Holds kept) (hend : Ended kept keys digits)
    (hroom : kept.length < 32) (hdone : st.done = false) (hoverflow : st.overflow = false)
    (rest : List UInt8) : ∃ st', getwChars (keys ++ rest) st = .ok (some st') ∧
      st'.Holds digits ∧ st'.overflow = decide (digits.length = 32) ∧ digits.length ≤ 32 := by
  have hfinished (st' : GetwState) (hdone' : st'.done = true) :
      getwChars rest st' = .ok (some st') := by
    cases rest with
    | nil => rw [getwChars, if_pos hdone']
    | cons c rest => rw [getwChars, if_pos hdone']
  induction hend generalizing st with
  | lf kept =>
    have htest : getwTest { st with done := true } = { st with done := true } :=
      if_neg (by dsimp only; rw [h.length]; omega)
    refine ⟨{ st with done := true }, ?_, ⟨h.length, h.buf, h.digits⟩, ?_, hroom.le⟩
    · rw [List.singleton_append, getwChars, if_neg (by rw [hdone]; exact Bool.false_ne_true),
        getwAnalyse, if_neg (by decide), if_pos rfl]
      change getwChars rest (getwTest { st with done := true }) = _
      rw [htest]
      exact hfinished _ rfl
    · dsimp only
      rw [hoverflow, decide_eq_false (by omega)]
  | full kept c hc hlast =>
    obtain ⟨st', hrun, hholds, hdone', hoverflow'⟩ := h.digit hc hroom
    have hlength : (kept ++ [c]).length = 32 := by
      rw [List.length_append, List.length_singleton, hlast]
    have htest : getwTest st' = { st' with overflow := true, done := true } :=
      if_pos (by rw [hholds.length, hlength])
    refine ⟨{ st' with overflow := true, done := true }, ?_,
      ⟨hholds.length, hholds.buf, hholds.digits⟩, (decide_eq_true hlength).symm, hlength.le⟩
    rw [List.singleton_append, getwChars, if_neg (by rw [hdone]; exact Bool.false_ne_true), hrun,
      ok_bind, htest]
    exact hfinished _ rfl
  | key c hc hroom' hrest ih =>
    obtain ⟨st', hrun, hholds, hdone', hoverflow'⟩ := h.analyse hc hroom
    have htest : getwTest st' = st' := if_neg (by rw [hholds.length]; omega)
    rw [List.cons_append, getwChars, if_neg (by rw [hdone]; exact Bool.false_ne_true), hrun,
      ok_bind, htest]
    exact ih hholds hroom' (hdone'.trans hdone) (hoverflow'.trans hoverflow)

end Keep

/-! ## Their value -/

section Value

variable {digits : List UInt8} {c : UInt8} {buf : Cells UInt8}

theorem decimalValue_take_succ {i : ℕ} (hi : i < digits.length) :
    decimalValue (digits.take (i + 1)) =
      10 * decimalValue (digits.take i) + (digits[i].toNat - 0x30) := by
  rw [decimalValue, decimalValue, List.take_succ_eq_append_getElem hi, List.map_append,
    List.reverse_append, List.map_singleton, List.reverse_singleton, List.singleton_append,
    Nat.ofDigits_cons, add_comm]

theorem isDigit_bounds (hc : IsDigit c) : 0x30 ≤ c.toNat ∧ c.toNat ≤ 0x39 := by
  obtain ⟨h₁, h₂⟩ := hc
  rw [UInt8.lt_iff_toNat_lt] at h₁ h₂
  have h₁' : 0x2F < c.toNat := h₁
  have h₂' : c.toNat < 0x3A := h₂
  omega

/-- One turn of the conversion, on 32 bits. -/
theorem getwConvert_value (hc : IsDigit c) (dec : BitVec 32) :
    (dec * 10 + (c.toBitVec.setWidth 32 - 0x30)).toNat =
      (10 * dec.toNat + (c.toNat - 0x30)) % 0x100000000 := by
  obtain ⟨hlow, hhigh⟩ := isDigit_bounds hc
  have hdigit : (c.toBitVec.setWidth 32 - (0x30 : BitVec 32)).toNat = c.toNat - 0x30 := by
    rw [BitVec.toNat_sub, BitVec.toNat_setWidth]
    change (0x100000000 - 0x30 + c.toNat % 0x100000000) % 0x100000000 = _
    omega
  rw [BitVec.toNat_add, hdigit, BitVec.toNat_mul]
  change (dec.toNat * 10 % 0x100000000 + (c.toNat - 0x30)) % 0x100000000 = _
  omega

/-- The conversion sees an overflow at the first digit where the value on 32 bits gets smaller. -/
theorem getwConvert_run (hbuf : ∀ (i : ℕ) (hi : i < digits.length), buf i = some digits[i])
    (hdigits : ∀ c ∈ digits, IsDigit c) (hlength : digits.length ≤ 32) (n : ℕ) {i : ℕ}
    {dec : BitVec 32} (hi : i + n = digits.length)
    (hdec : dec.toNat = decimalValue (digits.take i) % 0x100000000) :
    ∃ dec' overflow, getwConvert buf n i dec dec = .ok (dec', overflow) ∧
      (overflow = true ↔ ∃ k, i ≤ k ∧ k < digits.length ∧
        decimalValue (digits.take (k + 1)) % 0x100000000 <
          decimalValue (digits.take k) % 0x100000000) ∧
      (overflow = false → dec'.toNat = decimalValue digits % 0x100000000) := by
  induction n generalizing i dec with
  | zero =>
    refine ⟨dec, false, rfl, ⟨fun h => Bool.noConfusion h, fun ⟨k, hik, hk, _⟩ => ?_⟩, fun _ => ?_⟩
    · omega
    · rw [hdec, show i = digits.length by omega, List.take_length]
  | succ n ih =>
    have hin : i < digits.length := by omega
    have hc : IsDigit digits[i] := hdigits _ (List.getElem_mem hin)
    have hnext : (dec * 10 + (digits[i].toBitVec.setWidth 32 - 0x30)).toNat =
        decimalValue (digits.take (i + 1)) % 0x100000000 := by
      rw [getwConvert_value hc, hdec, decimalValue_take_succ hin]
      omega
    have hless : dec * 10 + (digits[i].toBitVec.setWidth 32 - 0x30) < dec ↔
        decimalValue (digits.take (i + 1)) % 0x100000000 <
          decimalValue (digits.take i) % 0x100000000 := by
      rw [BitVec.lt_def, hnext, hdec]
    rw [getwConvert, readCell, if_pos (by omega), hbuf i hin, ok_bind]
    dsimp only
    by_cases hseen : dec * 10 + (digits[i].toBitVec.setWidth 32 - 0x30) < dec
    · rw [if_pos hseen]
      exact ⟨_, true, rfl, ⟨fun _ => ⟨i, le_rfl, hin, hless.mp hseen⟩, fun _ => rfl⟩,
        fun h => Bool.noConfusion h⟩
    · rw [if_neg hseen]
      obtain ⟨dec', overflow, hrun, hiff, hvalue⟩ := ih (by omega) hnext
      refine ⟨dec', overflow, hrun, hiff.trans ⟨?_, ?_⟩, hvalue⟩
      · rintro ⟨k, hik, hk, hlt⟩
        exact ⟨k, by omega, hk, hlt⟩
      · rintro ⟨k, hik, hk, hlt⟩
        obtain rfl | hne := eq_or_ne i k
        · exact absurd (hless.mpr hlt) hseen
        · exact ⟨k, by omega, hk, hlt⟩

theorem decimalValue_take_le {i j : ℕ} (hij : i ≤ j) (hj : j ≤ digits.length) :
    decimalValue (digits.take i) ≤ decimalValue (digits.take j) := by
  induction j, hij using Nat.le_induction with
  | base => exact le_rfl
  | succ j hij ih =>
    have hstep := decimalValue_take_succ (show j < digits.length by omega)
    have := ih (by omega)
    omega

/-- No overflow is seen on a value of 32 bits. -/
theorem overflowSeen_large (h : OverflowSeen digits) : 0x100000000 ≤ decimalValue digits := by
  obtain ⟨k, hk, hlt⟩ := h
  by_contra hsmall
  have hall : decimalValue (digits.take (k + 1)) ≤ decimalValue digits := by
    have := decimalValue_take_le (show k + 1 ≤ digits.length by omega) le_rfl
    rwa [List.take_length] at this
  have hstep := decimalValue_take_le (show k ≤ k + 1 by omega) (show k + 1 ≤ digits.length by omega)
  rw [Nat.mod_eq_of_lt (by omega), Nat.mod_eq_of_lt (by omega)] at hlt
  omega

/-- A value that wraps to 0 without being seen is 0. -/
theorem decimalValue_eq_zero (hdigits : ∀ c ∈ digits, IsDigit c) (hseen : ¬ OverflowSeen digits)
    (hzero : decimalValue digits % 0x100000000 = 0) : decimalValue digits = 0 := by
  have hmono (k : ℕ) (hk : k < digits.length) : decimalValue (digits.take k) % 0x100000000 ≤
      decimalValue (digits.take (k + 1)) % 0x100000000 := by
    by_contra hlt
    exact hseen ⟨k, hk, by omega⟩
  -- the values on 32 bits do not decrease and the last one is 0
  have hwrapped (m : ℕ) (hm : m ≤ digits.length) :
      decimalValue (digits.take (digits.length - m)) % 0x100000000 = 0 := by
    induction m with
    | zero => rwa [Nat.sub_zero, List.take_length]
    | succ m ih =>
      have hstep := hmono (digits.length - (m + 1)) (by omega)
      rw [show digits.length - (m + 1) + 1 = digits.length - m by omega, ih (by omega)] at hstep
      omega
  have hvalue (k : ℕ) (hk : k ≤ digits.length) : decimalValue (digits.take k) = 0 := by
    induction k with
    | zero => rfl
    | succ k ih =>
      have hw := hwrapped (digits.length - (k + 1)) (by omega)
      have hbounds := isDigit_bounds (hdigits _ (List.getElem_mem (show k < digits.length by omega)))
      rw [show digits.length - (digits.length - (k + 1)) = k + 1 by omega,
        decimalValue_take_succ (by omega), ih (by omega)] at hw
      rw [decimalValue_take_succ (by omega), ih (by omega)]
      omega
  have := hvalue digits.length le_rfl
  rwa [List.take_length] at this

end Value

/-! ## What `giet_tty_getw` returns -/

/-- Digits followed by LF. -/
theorem ended_digits {digits : List UInt8} (hdigits : ∀ c ∈ digits, IsDigit c)
    (kept : List UInt8) (hroom : (kept ++ digits).length < 32) :
    Ended kept (digits ++ [0x0A]) (kept ++ digits) := by
  induction digits generalizing kept with
  | nil =>
    rw [List.append_nil]
    exact .lf kept
  | cons c digits ih =>
    have hc : IsDigit c := hdigits c List.mem_cons_self
    have hkeep : keep kept c = kept ++ [c] := if_pos hc
    have hcat : kept ++ c :: digits = kept ++ [c] ++ digits := by
      rw [List.append_assoc, List.singleton_append]
    rw [hcat] at hroom ⊢
    have hrest := ih (fun d hd => hdigits d (List.mem_cons_of_mem c hd)) (kept ++ [c]) hroom
    refine .key c ?_ ?_ (hkeep ▸ hrest)
    · rintro rfl
      exact absurd hc (by decide)
    · rw [hkeep]
      rw [List.length_append] at hroom
      omega

/-- `giet_tty_getw` stays inside its array and returns, and gives the number typed or 0 exactly
when the array is full, or the number holds on 32 bits, or the value on 32 bits gets smaller at
some digit. -/
theorem getw_number_iff {keys digits : List UInt8} (h : Ended [] keys digits) (rest : List UInt8) :
    (∃ r, gietTtyGetw (keys ++ rest) = .ok (some r)) ∧
      ((∃ r, gietTtyGetw (keys ++ rest) = .ok (some r) ∧ r.val.toNat = numberTyped digits) ↔
        digits.length = 32 ∨ decimalValue digits < 0x100000000 ∨ OverflowSeen digits) := by
  have hstart : (⟨fun _ => none, 0, false, false, []⟩ : GetwState).Holds [] :=
    ⟨rfl, fun i hi => absurd hi (Nat.not_lt_zero i), fun c hc => absurd hc List.not_mem_nil⟩
  obtain ⟨st, hrun, hholds, hoverflow, hle⟩ :=
    getwChars_run hstart h (Nat.succ_pos 31) rfl rfl rest
  have hget (r : GetwResult) (hr : gietTtyGetw (keys ++ rest) = .ok (some r)) (n : ℕ) :
      (∃ r, gietTtyGetw (keys ++ rest) = .ok (some r) ∧ r.val.toNat = n) ↔ r.val.toNat = n := by
    constructor
    · rintro ⟨r', hr', hn⟩
      rw [hr] at hr'
      injection hr' with hr'
      injection hr' with hr'
      rw [hr', hn]
    · exact fun hn => ⟨r, hr, hn⟩
  by_cases hfull : digits.length = 32
  · rw [decide_eq_true hfull] at hoverflow
    have hr : gietTtyGetw (keys ++ rest) = .ok (some (getwResult st 0 true)) := by
      rw [gietTtyGetw, hrun, ok_bind]
      dsimp only
      rw [if_pos hoverflow]
      rfl
    refine ⟨⟨_, hr⟩, (hget _ hr _).trans ⟨fun _ => Or.inl hfull, fun _ => ?_⟩⟩
    rw [numberTyped, if_neg (by omega)]
    rfl
  rw [decide_eq_false hfull] at hoverflow
  obtain ⟨dec, overflow, hconvert, hseen, hvalue⟩ := getwConvert_run hholds.buf hholds.digits hle
    digits.length (Nat.zero_add _) (show (0 : BitVec 32).toNat = _ from rfl)
  have hr : gietTtyGetw (keys ++ rest) = .ok (some (getwResult st dec overflow)) := by
    rw [gietTtyGetw, hrun, ok_bind]
    dsimp only
    rw [if_neg (by rw [hoverflow]; exact Bool.false_ne_true), hholds.length, hconvert]
    rfl
  have hseen' : overflow = true ↔ OverflowSeen digits := by
    refine hseen.trans ⟨?_, ?_⟩
    · rintro ⟨k, -, hk, hlt⟩
      exact ⟨k, hk, hlt⟩
    · rintro ⟨k, hk, hlt⟩
      exact ⟨k, Nat.zero_le k, hk, hlt⟩
  refine ⟨⟨_, hr⟩, (hget _ hr _).trans ?_⟩
  cases hcase : overflow with
  | true =>
    have hlarge := overflowSeen_large (hseen'.mp hcase)
    refine ⟨fun _ => Or.inr (Or.inr (hseen'.mp hcase)), fun _ => ?_⟩
    rw [numberTyped, if_neg (by omega)]
    rfl
  | false =>
    have hnot : ¬ OverflowSeen digits := fun hs => by
      rw [hseen'.mpr hs] at hcase
      cases hcase
    have hval : (getwResult st dec false).val.toNat = decimalValue digits % 0x100000000 :=
      hvalue hcase
    rw [hval]
    constructor
    · intro heq
      refine Or.inr (Or.inl ?_)
      by_contra hlarge
      rw [numberTyped, if_neg (by omega)] at heq
      have := decimalValue_eq_zero hholds.digits hnot heq
      omega
    · rintro (hfull' | hsmall | hs)
      · exact absurd hfull' hfull
      · rw [numberTyped, if_pos ⟨by omega, hsmall⟩, Nat.mod_eq_of_lt hsmall]
      · exact absurd hs hnot

/-- Before LF, the digit 7 is the number typed. -/
theorem getw_number_iff_seven : Ended [] [0x37, 0x0A] [0x37] ∧
    ((∃ r, gietTtyGetw ([0x37, 0x0A] ++ []) = .ok (some r) ∧ r.val.toNat = numberTyped [0x37]) ↔
      [(0x37 : UInt8)].length = 32 ∨ decimalValue [0x37] < 0x100000000 ∨ OverflowSeen [0x37]) :=
  have hdigit : ∀ c ∈ [(0x37 : UInt8)], IsDigit c := by simp [IsDigit]
  have hend : Ended [] [0x37, 0x0A] [0x37] := ended_digits hdigit [] (by decide)
  ⟨hend, (getw_number_iff hend []).2⟩

/-- The digits of 5000000000. -/
def fiveBillion : List UInt8 := 0x35 :: List.replicate 9 0x30

/-- For 5000000000, `giet_tty_getw` returns 705032704. -/
theorem getw_fiveBillion : Ended [] (fiveBillion ++ [0x0A]) fiveBillion ∧
    fiveBillion.length < 32 ∧ decimalValue fiveBillion = 5000000000 ∧
    ∃ r, gietTtyGetw (fiveBillion ++ [0x0A]) = .ok (some r) ∧ r.val = 705032704 ∧
      r.val.toNat ≠ numberTyped fiveBillion :=
  ⟨ended_digits (by simp [fiveBillion, IsDigit]) [] (by decide), by decide, by decide +kernel, _, rfl,
    by decide +kernel, by decide +kernel⟩

end GietVm.Tty
