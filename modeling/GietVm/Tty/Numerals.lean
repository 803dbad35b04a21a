import GietVm.Tty.Printf
import GietVm.Library.Cells

/-!
# The numerals of the two printf

The integer conversions fill the array `buf` from its end, one digit of `HexaTab` at a time, and
send what they have written. Here `buf` and `HexaTab` are arrays whose accesses are checked, and a
numeral is a string that reads back as its value, without superfluous zeros. A format is a list of
texts and conversions.

All the conversions stay inside their arrays and send numerals, but for the decimal conversion of
the least integer, whose opposite is negative, and for the 64-bit signed conversion, which
`__printf` refuses.
-/

namespace GietVm.Tty

open GietVm.Library

/-! ## The conversions on checked arrays -/

/-- `HexaTab[i]` -/
def readHexaTab (i : ℤ) : Except ArrayFault UInt8 :=
  if 0 ≤ i ∧ i < 16 then .ok ((chars "0123456789ABCDEF").getD i.toNat 0) else .error .outside

/-- `buf[last - i] = c` in an array of `size` characters. -/
def writeBack (size last i : ℕ) (buf : Cells UInt8) (c : UInt8) : Except ArrayFault (Cells UInt8) :=
  if i ≤ last then writeCell size buf (last - i) c else .error .outside

/-- The `len` characters from `&buf[last - i]` on. -/
def readBack (size last i len : ℕ) (buf : Cells UInt8) : Except ArrayFault (List UInt8) :=
  if i ≤ last then readCells size buf (last - i) len else .error .outside

/-- The loops that stop when nothing remains of a value, with the index `i` at their end. -/
def digitLoop (size last : ℕ) (base : ℤ) :
    ℕ → ℕ → ℤ → Cells UInt8 → Except ArrayFault (ℕ × Cells UInt8)
  | 0, i, _, buf => .ok (i, buf)
  | n + 1, i, val, buf => do
    let c ← readHexaTab (val.tmod base)
    let buf ← writeBack size last i buf c
    if val.tdiv base = 0 then .ok (i, buf) else digitLoop size last base n (i + 1) (val.tdiv base) buf

/-- The digits of a value, at most `imax` of them, with `len = i + 1` and
`pbuf = &buf[(imax - 1) - i]`. -/
def digitsInto (size : ℕ) (base : ℤ) (imax : ℕ) (val : ℤ) : Except ArrayFault (List UInt8) := do
  let (i, buf) ← digitLoop size (imax - 1) base imax 0 val fun _ => none
  readBack size (imax - 1) i (i + 1) buf

/-- The loop that always fills the same number of digits. -/
def fixedLoop (size last : ℕ) (base : ℤ) : ℕ → ℕ → ℤ → Cells UInt8 → Except ArrayFault (Cells UInt8)
  | 0, _, _, buf => .ok buf
  | n + 1, i, val, buf => do
    let c ← readHexaTab (val.tmod base)
    let buf ← writeBack size last i buf c
    fixedLoop size last base n (i + 1) (val.tdiv base) buf

/-- The `len` digits of a value, with `pbuf = buf`. -/
def fixedDigitsInto (size : ℕ) (base : ℤ) (len : ℕ) (val : ℤ) : Except ArrayFault (List UInt8) := do
  let buf ← fixedLoop size (len - 1) base len 0 val fun _ => none
  readCells size buf 0 len

/-- The `d` conversion. -/
def signedInto (size : ℕ) (val : BitVec 32) : Except ArrayFault (List (List UInt8)) :=
  if val.toInt < 0 then do
    let s ← digitsInto size 10 10 (-val).toInt
    pure [chars "-", s]
  else do
    let s ← digitsInto size 10 10 val.toInt
    pure [s]

/-- The digits of a value after a prefix. -/
def prefixedInto (size : ℕ) (base : ℤ) (imax : ℕ) (val : ℤ) (before : List (List UInt8)) :
    Except ArrayFault (List (List UInt8)) := do
  let s ← digitsInto size base imax val
  pure (before ++ [s])

/-- The integer conversions of `_kernel_printf`, with `buf[20]`. -/
def kernelConversionInto (arg : Arg) (c : UInt8) : Except ArrayFault (Option (List (List UInt8))) :=
  if c = char 'd' then some <$> signedInto 20 arg.int
  else if c = char 'u' then some <$> prefixedInto 20 10 10 arg.int.toNat []
  else if c = char 'x' then some <$> prefixedInto 20 16 8 arg.int.toNat [chars "0x"]
  else if c = char 'X' then do
    let s ← fixedDigitsInto 20 16 8 arg.int.toNat
    pure (some [chars "0x", s])
  else if c = char 'l' then some <$> prefixedInto 20 16 16 arg.longLong.toNat [chars "0x"]
  else pure none

/-- The `u`, `x` and `X` conversions of `__printf`, with `buf[30]`. -/
def unsignedInto (arg : Arg) (modifiers : Modifiers) (c : UInt8) :
    Except ArrayFault (List (List UInt8)) :=
  if c = char 'u' ∧ modifiers ≠ .llMod then prefixedInto 30 10 10 arg.int.toNat []
  else if modifiers = .llMod then
    if c = char 'u' ∧ arg.longLong &&& 0xFFFFFFFF00000000 = 0 then
      prefixedInto 30 10 10 (arg.longLong.setWidth 32).toNat []
    else prefixedInto 30 16 16 arg.longLong.toNat [chars "0x"]
  else prefixedInto 30 16 8 arg.int.toNat [chars "0x"]

/-- The integer conversions of `__printf`. -/
def userConversionInto (arg : Arg) (modifiers : Modifiers) (c : UInt8) :
    Except ArrayFault (Option (List (List UInt8))) :=
  if c = char 'd' then
    if modifiers = .llMod then pure none else some <$> signedInto 30 arg.int
  else if c = char 'u' ∨ c = char 'x' ∨ c = char 'X' then some <$> unsignedInto arg modifiers c
  else pure none

/-! ## Numerals -/

/-- The value of a digit. -/
def digitValue (c : UInt8) : Option ℕ := (chars "0123456789ABCDEF").idxOf? c

/-- Read a string in a base, after some digits. -/
def readDigits (base : ℕ) (s : List UInt8) (v : ℕ) : Option ℕ :=
  s.foldlM (fun v c => (digitValue c).bind fun d => if d < base then some (base * v + d) else none) v

/-- A string that reads back as a value, without superfluous zeros. -/
structure Numeral (base v : ℕ) (s : List UInt8) : Prop where
  nonempty : s ≠ []
  value : readDigits base s 0 = some v
  first : s.head? = some (char '0') → s = [char '0']

/-- A character of `HexaTab`. -/
def hexaChar (d : ℕ) : UInt8 := (chars "0123456789ABCDEF").getD d 0

theorem digitValue_hexaChar {d : ℕ} (hd : d < 16) : digitValue (hexaChar d) = some d := by
  have hall : ∀ d < 16, digitValue (hexaChar d) = some d := by decide +kernel
  exact hall d hd

theorem hexaChar_eq_zero {d : ℕ} (hd : d < 16) (h : hexaChar d = char '0') : d = 0 := by
  have := digitValue_hexaChar hd
  rw [h, show digitValue (char '0') = some 0 by decide +kernel] at this
  injection this with this
  exact this.symm

section Numerals

variable {outside : ℤ → UInt8} {b : ℕ}

theorem hexaTab_nat {d : ℕ} (hd : d < 16) : hexaTab outside (d : ℤ) = hexaChar d := by
  rw [hexaTab, if_pos ⟨Int.natCast_nonneg d, by omega⟩, hexaChar, Int.toNat_natCast]

theorem tmod_nat (v b : ℕ) : (v : ℤ).tmod (b : ℤ) = ((v % b : ℕ) : ℤ) := rfl

theorem tdiv_nat (v b : ℕ) : (v : ℤ).tdiv (b : ℤ) = ((v / b : ℕ) : ℤ) := rfl

/-- One digit of a value. -/
theorem digits_succ (hb : 2 ≤ b) (hb16 : b ≤ 16) (n v : ℕ) (buf : List UInt8) :
    digits outside b (n + 1) v buf =
      if v / b = 0 then hexaChar (v % b) :: buf
      else digits outside b n ((v / b : ℕ) : ℤ) (hexaChar (v % b) :: buf) := by
  have hd : v % b < 16 := (Nat.mod_lt v (by omega)).trans_le hb16
  rw [digits, tmod_nat, tdiv_nat, hexaTab_nat hd]
  simp only [Int.natCast_eq_zero]

/-- The digits go before what is already in the buffer. -/
theorem digits_append (hb : 2 ≤ b) (hb16 : b ≤ 16) (n v : ℕ) (buf : List UInt8) :
    digits outside b n v buf = digits outside b n v [] ++ buf := by
  induction n generalizing v buf with
  | zero => rfl
  | succ n ih =>
    rw [digits_succ hb hb16, digits_succ hb hb16]
    split
    · rfl
    · rw [ih, ih _ [_], List.append_assoc, List.singleton_append]

theorem readDigits_append (s t : List UInt8) (v : ℕ) :
    readDigits b (s ++ t) v = (readDigits b s v).bind (readDigits b t) :=
  List.foldlM_append

theorem readDigits_singleton {d : ℕ} (hd : d < b) (hb16 : b ≤ 16) (v : ℕ) :
    readDigits b [hexaChar d] v = some (b * v + d) := by
  have hvalue := digitValue_hexaChar (hd.trans_le hb16)
  rw [readDigits, List.foldlM_cons, hvalue, Option.bind_some, if_pos hd]
  rfl

/-- The digits of a value are a numeral of the value, when there is room for them. -/
theorem numeral_digits (hb : 2 ≤ b) (hb16 : b ≤ 16) (n : ℕ) {v : ℕ} (hv : v < b ^ n) (hn : 0 < n) :
    Numeral b v (digits outside b n v []) := by
  induction n generalizing v with
  | zero => exact absurd hn (lt_irrefl 0)
  | succ n ih =>
    have hd : v % b < b := Nat.mod_lt v (by omega)
    have hsplit : b * (v / b) + v % b = v := Nat.div_add_mod v b
    rw [digits_succ hb hb16]
    by_cases hzero : v / b = 0
    · rw [if_pos hzero]
      refine ⟨List.cons_ne_nil _ _, ?_, fun hfirst => ?_⟩
      · rw [readDigits_singleton hd hb16, Nat.mul_zero, Nat.zero_add, ← hsplit, hzero, Nat.mul_zero,
          Nat.zero_add, Nat.mod_mod]
      · rw [List.head?_cons] at hfirst
        injection hfirst with hfirst
        rw [hfirst]
    · have hlt : v / b < b ^ n := by
        apply Nat.div_lt_of_lt_mul
        rwa [← pow_succ']
      have hpos : 0 < n := by
        rcases Nat.eq_zero_or_pos n with rfl | hpos
        · rw [pow_zero] at hlt
          exact absurd (Nat.lt_one_iff.mp hlt) hzero
        · exact hpos
      obtain ⟨hne, hvalue, hfirst⟩ := ih hlt hpos
      rw [if_neg hzero, digits_append hb hb16]
      refine ⟨List.append_ne_nil_of_right_ne_nil _ (List.cons_ne_nil _ _), ?_, fun hhead => ?_⟩
      · rw [readDigits_append, hvalue, Option.bind_some, readDigits_singleton hd hb16, hsplit]
      · rw [List.head?_append_of_ne_nil _ hne] at hhead
        rw [hfirst hhead, show readDigits b [char '0'] 0 = some 0 from
          readDigits_singleton (show 0 < b by omega) hb16 0] at hvalue
        injection hvalue with hvalue
        exact absurd hvalue.symm hzero

theorem fixedDigits_length (base : ℤ) (n : ℕ) (val : ℤ) (buf : List UInt8) :
    (fixedDigits outside base n val buf).length = n + buf.length := by
  induction n generalizing val buf with
  | zero => rw [fixedDigits, Nat.zero_add]
  | succ n ih =>
    rw [fixedDigits, ih, List.length_cons]
    omega

theorem fixedDigits_succ (hb : 2 ≤ b) (hb16 : b ≤ 16) (n v : ℕ) (buf : List UInt8) :
    fixedDigits outside b (n + 1) v buf =
      fixedDigits outside b n ((v / b : ℕ) : ℤ) (hexaChar (v % b) :: buf) := by
  have hd : v % b < 16 := (Nat.mod_lt v (by omega)).trans_le hb16
  rw [fixedDigits, tmod_nat, tdiv_nat, hexaTab_nat hd]

theorem fixedDigits_append (hb : 2 ≤ b) (hb16 : b ≤ 16) (n v : ℕ) (buf : List UInt8) :
    fixedDigits outside b n v buf = fixedDigits outside b n v [] ++ buf := by
  induction n generalizing v buf with
  | zero => rfl
  | succ n ih =>
    rw [fixedDigits_succ hb hb16, fixedDigits_succ hb hb16, ih, ih _ [_], List.append_assoc,
      List.singleton_append]

/-- The fixed number of digits of a value reads back as the value. -/
theorem readDigits_fixedDigits (hb : 2 ≤ b) (hb16 : b ≤ 16) (n : ℕ) {v : ℕ} (hv : v < b ^ n) :
    readDigits b (fixedDigits outside b n v []) 0 = some v := by
  induction n generalizing v with
  | zero =>
    obtain rfl : v = 0 := by
      rw [pow_zero] at hv
      omega
    rfl
  | succ n ih =>
    have hd : v % b < b := Nat.mod_lt v (by omega)
    have hlt : v / b < b ^ n := by
      apply Nat.div_lt_of_lt_mul
      rwa [← pow_succ']
    rw [fixedDigits_succ hb hb16, fixedDigits_append hb hb16, readDigits_append, ih hlt,
      Option.bind_some, readDigits_singleton hd hb16, Nat.div_add_mod]

end Numerals

/-! ## The accesses to the arrays -/

/-- The characters written so far are at the end of the first `imax` ones. -/
def Filled (imax : ℕ) (acc : List UInt8) (buf : Cells UInt8) : Prop :=
  ∀ (j : ℕ) (hj : j < acc.length), buf (imax - acc.length + j) = some acc[j]

section Arrays

variable {outside : ℤ → UInt8} {b size imax : ℕ} {acc : List UInt8} {buf : Cells UInt8}

theorem readHexaTab_nat {d : ℕ} (hd : d < 16) : readHexaTab (d : ℤ) = .ok (hexaChar d) := by
  rw [readHexaTab, if_pos ⟨Int.natCast_nonneg d, by omega⟩, hexaChar, Int.toNat_natCast]

/-- Writing one more digit. -/
theorem Filled.writeBack (h : Filled imax acc buf) (hroom : acc.length < imax) (hsize : imax ≤ size)
    (c : UInt8) : ∃ buf', writeBack size (imax - 1) acc.length buf c = .ok buf' ∧
      Filled imax (c :: acc) buf' := by
  rw [Tty.writeBack, if_pos (by omega), writeCell, if_pos (by omega)]
  refine ⟨_, rfl, fun j hj => ?_⟩
  rw [List.length_cons] at hj ⊢
  cases j with
  | zero =>
    rw [show imax - (acc.length + 1) + 0 = imax - 1 - acc.length by omega, Function.update_self]
    rfl
  | succ j =>
    rw [Function.update_of_ne (by omega), List.getElem_cons_succ, ← h j (by omega)]
    congr 1
    omega

/-- What the loop has written can be sent. -/
theorem Filled.readBack (h : Filled imax acc buf) {i : ℕ} (hi : i + 1 = acc.length)
    (hroom : acc.length ≤ imax) (hsize : imax ≤ size) :
    readBack size (imax - 1) i (i + 1) buf = .ok acc := by
  rw [Tty.readBack, if_pos (by omega), hi]
  apply readCells_of_eq
  · omega
  · intro j hj
    rw [← h j hj]
    congr 1
    omega

/-- The loop stays inside its arrays, and stops when nothing remains of a value that has room. -/
theorem digitLoop_run (outside : ℤ → UInt8) (hb : 2 ≤ b) (hb16 : b ≤ 16) (hsize : imax ≤ size) (n : ℕ) {v : ℕ}
    (h : Filled imax acc buf) (hn : acc.length + n = imax) (hpos : 0 < n) (hv : v < b ^ n) :
    ∃ i buf', digitLoop size (imax - 1) b n acc.length v buf = .ok (i, buf') ∧
      i + 1 = (digits outside b n v acc).length ∧ i + 1 ≤ imax ∧
      Filled imax (digits outside b n v acc) buf' := by
  induction n generalizing v acc buf with
  | zero => exact absurd hpos (lt_irrefl 0)
  | succ n ih =>
    have hd : v % b < 16 := (Nat.mod_lt v (by omega)).trans_le hb16
    obtain ⟨buf₁, hwrite, h₁⟩ := h.writeBack (by omega) hsize (hexaChar (v % b))
    rw [digitLoop, tmod_nat, tdiv_nat, readHexaTab_nat hd, ok_bind, hwrite, ok_bind,
      digits_succ hb hb16]
    simp only [Int.natCast_eq_zero]
    by_cases hzero : v / b = 0
    · rw [if_pos hzero, if_pos hzero]
      exact ⟨acc.length, buf₁, rfl, rfl, by omega, h₁⟩
    · have hlt : v / b < b ^ n := by
        apply Nat.div_lt_of_lt_mul
        rwa [← pow_succ']
      have hmore : 0 < n := by
        rcases Nat.eq_zero_or_pos n with rfl | hmore
        · rw [pow_zero] at hlt
          exact absurd (Nat.lt_one_iff.mp hlt) hzero
        · exact hmore
      rw [if_neg hzero, if_neg hzero]
      exact ih h₁ (by rw [List.length_cons]; omega) hmore hlt

/-- The digits of a value that has room are sent from inside the array. -/
theorem digitsInto_run (outside : ℤ → UInt8) (hb : 2 ≤ b) (hb16 : b ≤ 16) (hsize : imax ≤ size)
    (hpos : 0 < imax) {v : ℕ} (hv : v < b ^ imax) :
    digitsInto size b imax v = .ok (digits outside b imax v []) := by
  have hstart : Filled imax [] fun _ => none := fun j hj => absurd hj (Nat.not_lt_zero j)
  obtain ⟨i, buf, hrun, hlength, hroom, hfilled⟩ :=
    digitLoop_run outside hb hb16 hsize imax hstart (Nat.zero_add imax) hpos hv
  rw [List.length_nil] at hrun
  rw [digitsInto, hrun]
  exact hfilled.readBack hlength (hlength ▸ hroom) hsize

theorem fixedLoop_run (outside : ℤ → UInt8) (hb : 2 ≤ b) (hb16 : b ≤ 16) (hsize : imax ≤ size)
    (n v : ℕ)
    (h : Filled imax acc buf) (hn : acc.length + n = imax) :
    ∃ buf', fixedLoop size (imax - 1) b n acc.length v buf = .ok buf' ∧
      Filled imax (fixedDigits outside b n v acc) buf' := by
  induction n generalizing v acc buf with
  | zero => exact ⟨buf, rfl, h⟩
  | succ n ih =>
    have hd : v % b < 16 := (Nat.mod_lt v (by omega)).trans_le hb16
    obtain ⟨buf₁, hwrite, h₁⟩ := h.writeBack (by omega) hsize (hexaChar (v % b))
    rw [fixedLoop, tmod_nat, tdiv_nat, readHexaTab_nat hd, ok_bind, hwrite, ok_bind,
      fixedDigits_succ hb hb16]
    exact ih (v / b) h₁ (by rw [List.length_cons]; omega)

/-- A fixed number of digits is sent from inside the array. -/
theorem fixedDigitsInto_run (outside : ℤ → UInt8) (hb : 2 ≤ b) (hb16 : b ≤ 16)
    (hsize : imax ≤ size) (v : ℕ) :
    fixedDigitsInto size b imax v = .ok (fixedDigits outside b imax v []) := by
  have hstart : Filled imax [] fun _ => none := fun j hj => absurd hj (Nat.not_lt_zero j)
  obtain ⟨buf, hrun, hfilled⟩ :=
    fixedLoop_run outside hb hb16 hsize imax v hstart (Nat.zero_add imax)
  have hlength : (fixedDigits outside b imax v []).length = imax := fixedDigits_length _ _ _ _
  rw [List.length_nil] at hrun
  rw [fixedDigitsInto, hrun, ok_bind]
  nth_rewrite 1 [← hlength]
  apply readCells_of_eq
  · omega
  · intro j hj
    rw [← hfilled j hj]
    congr 1
    omega

end Arrays

end GietVm.Tty
