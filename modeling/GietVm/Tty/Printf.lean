import GietVm.Tty.Terminal

/-!
# The two printf

`_kernel_printf` writes on the kernel terminal and goes to its panic exit on any error; `__printf`,
the body of `giet_tty_printf`, writes on the terminal of the task and reports the error, on which
the task is killed. Both send the text between two conversions in one write, and each conversion in
one or two writes. Formats and strings are given without their final NUL.
-/

namespace GietVm.Tty

/-! ## Digits -/

/-- A character as a byte. -/
def char (c : Char) : UInt8 := c.toNat.toUInt8

/-- The characters of a literal. -/
def chars (s : String) : List UInt8 := s.toList.map char

/-- `HexaTab`. An index outside the table reads whatever byte stands there in memory. -/
def hexaTab (outside : ℤ → UInt8) (i : ℤ) : UInt8 :=
  if 0 ≤ i ∧ i < 16 then (chars "0123456789ABCDEF").getD i.toNat 0 else outside i

section Digits

variable (outside : ℤ → UInt8)

/-- The loops that fill a buffer from its end with the digits of a value, and stop when nothing
remains of it. -/
def digits (base : ℤ) : ℕ → ℤ → List UInt8 → List UInt8
  | 0, _, buf => buf
  | i + 1, val, buf =>
    let buf := hexaTab outside (val.tmod base) :: buf
    if val.tdiv base = 0 then buf else digits base i (val.tdiv base) buf

/-- The loops that always fill the same number of digits. -/
def fixedDigits (base : ℤ) : ℕ → ℤ → List UInt8 → List UInt8
  | 0, _, buf => buf
  | i + 1, val, buf =>
    fixedDigits base i (val.tdiv base) (hexaTab outside (val.tmod base) :: buf)

end Digits

/-! ## Conversions -/

/-- A variadic argument, as `va_arg` gives it at each type. -/
structure Arg where
  int : BitVec 32
  longLong : BitVec 64
  str : List UInt8
  double : BitVec 64

/-- The floating-point operations on a `double`. -/
structure DoubleOps where
  /-- `(unsigned int)val.d`. -/
  intp : BitVec 64 → BitVec 32
  /-- The absolute value exceeds `0xFFFFFFFF`. -/
  big : BitVec 64 → Bool
  /-- The first nine decimals of the absolute value. -/
  decp : BitVec 64 → BitVec 32
  /-- The absolute value differs from its integer part. -/
  rest : BitVec 64 → Bool

/-- The `d` conversion: the sign, when there is one, and the digits. The opposite of the least
integer is itself. -/
def signedChunks (outside : ℤ → UInt8) (val : BitVec 32) : List (List UInt8) :=
  if val.toInt < 0 then [chars "-", digits outside 10 10 (-val).toInt []]
  else [digits outside 10 10 val.toInt []]

/-- The conversions of `_kernel_printf`, as the successive writes they make. -/
def kernelConversion (outside : ℤ → UInt8) (arg : Arg) (c : UInt8) :
    Option (List (List UInt8)) :=
  if c = char 'c' then some [[UInt8.ofBitVec (arg.int.setWidth 8)]]
  else if c = char 'd' then some (signedChunks outside arg.int)
  else if c = char 'u' then some [digits outside 10 10 arg.int.toNat []]
  else if c = char 'x' then some [chars "0x", digits outside 16 8 arg.int.toNat []]
  else if c = char 'X' then some [chars "0x", fixedDigits outside 16 8 arg.int.toNat []]
  else if c = char 'l' then some [chars "0x", digits outside 16 16 arg.longLong.toNat []]
  else if c = char 's' then some [arg.str]
  else none

/-- `modifiers`. -/
inductive Modifiers
  | noMod
  | lMod
  | llMod
  deriving DecidableEq

/-- The `e`, `f` and `g` conversions. -/
def floatChunks (ops : DoubleOps) (outside : ℤ → UInt8) (val : BitVec 64) :
    List (List UInt8) :=
  let mantissa := val &&& 0xFFFFFFFFFFFFF
  let base := (val &&& 0x7FF0000000000000) >>> 52
  let negative := val &&& 0x8000000000000000 ≠ 0
  if base = 0x7FF then
    if mantissa ≠ 0 then [chars "NaN"]
    else if negative then [chars "-inf"] else [chars "+inf"]
  else
    let sign := if negative then chars "-" else chars "+"
    if ops.big val then [sign, chars "BIG"]
    else
      let intDigits := digits outside 10 10 (ops.intp val).toNat []
      let decDigits := fixedDigits outside 10 9 (ops.decp val).toNat []
      let isvalue := (intDigits ++ decDigits).any (· ≠ char '0')
      if ¬isvalue ∧ ops.rest val then [sign, chars "TINY"]
      else [sign, intDigits ++ chars "." ++ decDigits]

/-- The `u`, `x` and `X` conversions of the user library. -/
def unsignedChunks (outside : ℤ → UInt8) (arg : Arg) (modifiers : Modifiers) (c : UInt8) :
    List (List UInt8) :=
  if c = char 'u' ∧ modifiers ≠ .llMod then [digits outside 10 10 arg.int.toNat []]
  else if modifiers = .llMod then
    if c = char 'u' ∧ arg.longLong &&& 0xFFFFFFFF00000000 = 0 then
      [digits outside 10 10 (arg.longLong.setWidth 32).toNat []]
    else [chars "0x", digits outside 16 16 arg.longLong.toNat []]
  else [chars "0x", digits outside 16 8 arg.int.toNat []]

/-- The conversions of `__printf`, as the successive writes they make. -/
def userConversion (ops : DoubleOps) (outside : ℤ → UInt8) (arg : Arg) (modifiers : Modifiers)
    (c : UInt8) : Option (List (List UInt8)) :=
  if c = char '%' then some [chars "%"]
  else if c = char 'c' then
    if modifiers ≠ .noMod then none else some [[UInt8.ofBitVec (arg.int.setWidth 8)]]
  else if c = char 'd' then
    if modifiers = .llMod then none else some (signedChunks outside arg.int)
  else if c = char 'u' ∨ c = char 'x' ∨ c = char 'X' then
    some (unsignedChunks outside arg modifiers c)
  else if c = char 's' then
    if modifiers ≠ .noMod then none else some [arg.str]
  else if c = char 'e' ∨ c = char 'f' ∨ c = char 'g' then
    some (floatChunks ops outside arg.double)
  else none

/-! ## Formats -/

/-- A conversion read at `printf_arguments`: its writes, the rest of the format, and the number of
arguments it takes. -/
structure Directive (format : List UInt8) where
  chunks : List (List UInt8)
  rest : List UInt8
  taken : ℕ
  shorter : rest.length < format.length

/-- `printf_arguments` of `_kernel_printf`. -/
def kernelDirective (outside : ℤ → UInt8) (arg : Arg) :
    (format : List UInt8) → Option (Directive format)
  | [] => none
  | c :: format =>
    (kernelConversion outside arg c).map fun chunks =>
      ⟨chunks, format, 1, Nat.lt_succ_self _⟩

/-- `printf_arguments` of `__printf`: digits and points are skipped, and each `l` counts as a
modifier. -/
def userDirective (ops : DoubleOps) (outside : ℤ → UInt8) (arg : Arg) (modifiers : Modifiers) :
    (format : List UInt8) → Option (Directive format)
  | [] => none
  | c :: format =>
    let skip (modifiers : Modifiers) : Option (Directive (c :: format)) :=
      (userDirective ops outside arg modifiers format).map fun d =>
        ⟨d.chunks, d.rest, d.taken, d.shorter.trans (Nat.lt_succ_self _)⟩
    if char '0' ≤ c ∧ c ≤ char '9' then skip modifiers
    else if c = char 'l' then
      match modifiers with
      | .noMod => skip .lMod
      | .lMod => skip .llMod
      | .llMod => none
    else if c = char '.' then skip modifiers
    else
      (userConversion ops outside arg modifiers c).map fun chunks =>
        ⟨chunks, format, if c = char '%' then 0 else 1, Nat.lt_succ_self _⟩

/-! ## The loops -/

section Printf

variable {σ : Type} (directive : Arg → (format : List UInt8) → Option (Directive format))
  (write : List UInt8 → σ → Bool × σ) (args : ℕ → Arg)

/-- Successive writes, up to the first that fails. -/
def writeAll : List (List UInt8) → σ → Bool × σ
  | [], s => (true, s)
  | chunk :: chunks, s =>
    if (write chunk s).1 then writeAll chunks (write chunk s).2 else write chunk s

/-- The text of a format, up to the next conversion. -/
def textOf (format : List UInt8) : List UInt8 := format.takeWhile (· ≠ char '%')

theorem conversion_shorter (format : List UInt8) :
    (format.dropWhile (· ≠ char '%')).tail.length ≤ format.length := by
  rw [List.length_tail]
  have := (List.dropWhile_sublist (· ≠ char '%') (l := format)).length_le
  omega

/-- The loop of both printf, from `printf_text` on. The result is false at `return_error`. -/
def printf (format : List UInt8) (next : ℕ) (s : σ) : Bool × σ :=
  let text := textOf format
  let sent := if text = [] then (true, s) else write text s
  if sent.1 then
    match _hrest : format.dropWhile (· ≠ char '%') with
    | [] => (true, sent.2)
    | _ :: conversion =>
      match directive (args next) conversion with
      | none => (false, sent.2)
      | some d =>
        let converted := writeAll write d.chunks sent.2
        if converted.1 then printf d.rest (next + d.taken) converted.2 else converted
  else sent
termination_by format.length
decreasing_by
  have hshorter := d.shorter
  have hle := conversion_shorter format
  rw [_hrest, List.tail_cons] at hle
  omega

/-- The write of the text before the next conversion. -/
def sendText (format : List UInt8) (s : σ) : Bool × σ :=
  if textOf format = [] then (true, s) else write (textOf format) s

variable {directive write args} {format : List UInt8} {next : ℕ} {s : σ}

theorem printf_end (hrest : format.dropWhile (· ≠ char '%') = []) :
    printf directive write args format next s =
      if (sendText write format s).1 then (true, (sendText write format s).2)
      else sendText write format s := by
  rw [printf]
  dsimp only
  change (if (sendText write format s).1 = true then _ else sendText write format s) = _
  split
  · split
    · rfl
    · next heq => rw [hrest] at heq; cases heq
  · rfl

theorem printf_error {p : UInt8} {conversion : List UInt8}
    (hrest : format.dropWhile (· ≠ char '%') = p :: conversion)
    (hd : directive (args next) conversion = none) :
    printf directive write args format next s =
      if (sendText write format s).1 then (false, (sendText write format s).2)
      else sendText write format s := by
  rw [printf]
  dsimp only
  change (if (sendText write format s).1 = true then _ else sendText write format s) = _
  split
  · split
    · next heq => rw [hrest] at heq; cases heq
    · next heq =>
      rw [hrest] at heq
      cases heq
      rw [hd]
      rfl
  · rfl

theorem printf_directive {p : UInt8} {conversion : List UInt8} {d : Directive conversion}
    (hrest : format.dropWhile (· ≠ char '%') = p :: conversion)
    (hd : directive (args next) conversion = some d) :
    printf directive write args format next s =
      if (sendText write format s).1 then
        if (writeAll write d.chunks (sendText write format s).2).1 then
          printf directive write args d.rest (next + d.taken)
            (writeAll write d.chunks (sendText write format s).2).2
        else writeAll write d.chunks (sendText write format s).2
      else sendText write format s := by
  rw [printf]
  dsimp only
  change (if (sendText write format s).1 = true then _ else sendText write format s) = _
  split
  · split
    · next heq => rw [hrest] at heq; cases heq
    · next heq =>
      rw [hrest] at heq
      cases heq
      rw [hd]
      rfl
  · rfl

end Printf

/-! ## The functions -/

/-- `_kernel_printf`. The result is false when it goes to its panic exit. -/
def kernelPrintf (outside : ℤ → UInt8) (h : History) (format : List UInt8) (args : ℕ → Arg)
    (t : Terminal) : Bool × Terminal :=
  printf (kernelDirective outside) (tty0Succeeds h) args format 0 t

/-- The test `ret != len` on a `SYSCALL_TTY_WRITE`, as a success. -/
def sysTtySucceeds (nbTtyChannels ctxTtyId : BitVec 32) (h : History) (channel : BitVec 32)
    (s : List UInt8) (t : Terminal) : Bool × Terminal :=
  (decide ((sysTtyWrite nbTtyChannels ctxTtyId h s channel t).1 = s.length),
    (sysTtyWrite nbTtyChannels ctxTtyId h s channel t).2)

/-- `giet_tty_printf`. The result is false when it calls `giet_exit`. -/
def gietTtyPrintf (ops : DoubleOps) (outside : ℤ → UInt8) (nbTtyChannels ctxTtyId : BitVec 32)
    (h : History) (format : List UInt8) (args : ℕ → Arg) (t : Terminal) : Bool × Terminal :=
  printf (fun arg => userDirective ops outside arg .noMod)
    (sysTtySucceeds nbTtyChannels ctxTtyId h 0xFFFFFFFF) args format 0 t

end GietVm.Tty
