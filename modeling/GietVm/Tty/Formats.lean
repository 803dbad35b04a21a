import GietVm.Tty.Numerals
import Mathlib.Data.List.TakeWhile

/-!
# What the two printf print

A format is a list of texts and integer conversions. Both printf send a list of strings, whatever
the function that writes them: the texts with each conversion replaced by the numeral of its
argument. The decimal conversion of the least integer is left out, since `_kernel_printf` and
`__printf` read outside `HexaTab` there, and so is `%lld`, which `__printf` refuses.
-/

namespace GietVm.Tty

open GietVm.Library

/-! ## Formats made of pieces -/

/-- A piece of a format: a text or a conversion. -/
inductive Piece (κ : Type)
  | text (s : List UInt8)
  | conversion (c : κ)

/-- The format of some pieces, where `spec` gives what follows the `%` of a conversion. -/
def formatOf {κ : Type} (spec : κ → List UInt8) : List (Piece κ) → List UInt8
  | [] => []
  | .text s :: pieces => s ++ formatOf spec pieces
  | .conversion c :: pieces => char '%' :: (spec c ++ formatOf spec pieces)

/-- Some pieces from an argument on, without `%` in a text and with all conversions allowed. -/
def Covered {κ : Type} (Allowed : κ → Arg → Prop) (args : ℕ → Arg) : List (Piece κ) → ℕ → Prop
  | [], _ => True
  | .text s :: pieces, next => (∀ c ∈ s, c ≠ char '%') ∧ Covered Allowed args pieces next
  | .conversion c :: pieces, next =>
    Allowed c (args next) ∧ Covered Allowed args pieces (next + 1)

/-- The text of some pieces with each conversion replaced by what it prints. -/
inductive Printed {κ : Type} (Prints : κ → Arg → List UInt8 → Prop) (args : ℕ → Arg) :
    List (Piece κ) → ℕ → List UInt8 → Prop
  | nil (next : ℕ) : Printed Prints args [] next []
  | text {pieces : List (Piece κ)} {next : ℕ} {out : List UInt8} (s : List UInt8)
    (hrest : Printed Prints args pieces next out) :
    Printed Prints args (.text s :: pieces) next (s ++ out)
  | conversion {pieces : List (Piece κ)} {next : ℕ} {out : List UInt8} {c : κ} {s : List UInt8}
    (hs : Prints c (args next) s) (hrest : Printed Prints args pieces (next + 1) out) :
    Printed Prints args (.conversion c :: pieces) next (s ++ out)

section Pieces

variable {σ : Type} {write : List UInt8 → σ → Bool × σ} {text rest : List UInt8}

theorem writeAll_append (a b : List (List UInt8)) (s : σ) :
    writeAll write (a ++ b) s =
      if (writeAll write a s).1 then writeAll write b (writeAll write a s).2
      else writeAll write a s := by
  induction a generalizing s with
  | nil => rfl
  | cons chunk a ih =>
    rw [List.cons_append, writeAll, writeAll]
    by_cases hwrite : (write chunk s).1 = true
    · rw [if_pos hwrite, if_pos hwrite, ih]
    · rw [if_neg hwrite, if_neg hwrite, if_neg hwrite]

/-- The write of a text, when there is one. -/
def textChunks (text : List UInt8) : List (List UInt8) := if text = [] then [] else [text]

theorem textChunks_flatten (text : List UInt8) : (textChunks text).flatten = text := by
  rw [textChunks]
  split
  · rename_i h
    exact h.symm
  · rw [List.flatten_singleton]

theorem sendText_eq (format : List UInt8) (s : σ) :
    sendText write format s = writeAll write (textChunks (textOf format)) s := by
  rw [sendText, textChunks]
  split
  · rfl
  · rw [writeAll, writeAll]
    split
    · rename_i h
      exact Prod.ext h rfl
    · rfl

theorem takeWhile_text (htext : ∀ c ∈ text, c ≠ char '%') :
    textOf text = text ∧ text.dropWhile (· ≠ char '%') = [] := by
  have hall : ∀ c ∈ text, decide (c ≠ char '%') = true := fun c hc => decide_eq_true (htext c hc)
  exact ⟨List.takeWhile_eq_self_iff.mpr hall, List.dropWhile_eq_nil_iff.mpr hall⟩

theorem takeWhile_conversion (htext : ∀ c ∈ text, c ≠ char '%') (rest : List UInt8) :
    textOf (text ++ char '%' :: rest) = text ∧
      (text ++ char '%' :: rest).dropWhile (· ≠ char '%') = char '%' :: rest := by
  have hall : ∀ c ∈ text, decide (c ≠ char '%') = true := fun c hc => decide_eq_true (htext c hc)
  rw [textOf, List.takeWhile_append_of_pos hall, List.dropWhile_append_of_pos hall]
  refine ⟨?_, rfl⟩
  exact List.append_nil text

variable {κ : Type} {spec : κ → List UInt8} {Prints : κ → Arg → List UInt8 → Prop}
  {Allowed : κ → Arg → Prop} {args : ℕ → Arg}
  {directive : Arg → (format : List UInt8) → Option (Directive format)}

/-- The loop of printf sends the pieces, whatever the function that writes them. -/
theorem printf_pieces
    (hdirective : ∀ c arg rest, Allowed c arg → ∃ d : Directive (spec c ++ rest),
      directive arg (spec c ++ rest) = some d ∧ d.rest = rest ∧ d.taken = 1 ∧
        Prints c arg d.chunks.flatten)
    (pieces : List (Piece κ)) (next : ℕ) (text : List UInt8) (htext : ∀ c ∈ text, c ≠ char '%')
    (h : Covered Allowed args pieces next) :
    ∃ chunks out, Printed Prints args pieces next out ∧ chunks.flatten = text ++ out ∧
      ∀ (σ : Type) (write : List UInt8 → σ → Bool × σ) (s : σ),
        printf directive write args (text ++ formatOf spec pieces) next s =
          writeAll write chunks s := by
  induction pieces generalizing next text with
  | nil =>
    obtain ⟨htake, hdrop⟩ := takeWhile_text htext
    refine ⟨textChunks text, [], .nil next, ?_, fun σ write s => ?_⟩
    · rw [textChunks_flatten, List.append_nil]
    · rw [formatOf, List.append_nil, printf_end hdrop, sendText_eq, htake]
      split
      · rename_i hsent
        exact Prod.ext hsent.symm rfl
      · rfl
  | cons piece pieces ih =>
    cases piece with
    | text s =>
      obtain ⟨hs, hrest⟩ := h
      have hall : ∀ c ∈ text ++ s, c ≠ char '%' := fun c hc =>
        (List.mem_append.mp hc).elim (htext c) (hs c)
      obtain ⟨chunks, out, hprinted, hflatten, hrun⟩ := ih next (text ++ s) hall hrest
      refine ⟨chunks, s ++ out, .text s hprinted, ?_, fun σ write st => ?_⟩
      · rw [hflatten, List.append_assoc]
      · rw [formatOf, ← List.append_assoc, hrun]
    | conversion c =>
      obtain ⟨hc, hrest⟩ := h
      obtain ⟨d, hd, hdrest, htaken, hprints⟩ :=
        hdirective c (args next) (formatOf spec pieces) hc
      obtain ⟨htake, hdrop⟩ := takeWhile_conversion htext (spec c ++ formatOf spec pieces)
      obtain ⟨chunks, out, hprinted, hflatten, hrun⟩ :=
        ih (next + 1) [] (fun c hc => absurd hc List.not_mem_nil) hrest
      refine ⟨textChunks text ++ d.chunks ++ chunks, d.chunks.flatten ++ out,
        .conversion hprints hprinted, ?_, fun σ write s => ?_⟩
      · rw [List.flatten_append, List.flatten_append, hflatten, textChunks_flatten,
          List.nil_append, List.append_assoc]
      · have hnext := hrun σ write
        rw [List.nil_append] at hnext
        rw [formatOf, printf_directive hdrop hd, sendText_eq, htake, hdrest, htaken, hnext,
          writeAll_append, writeAll_append]
        by_cases hsent : (writeAll write (textChunks text) s).1 = true
        · rw [if_pos hsent, if_pos hsent]
        · rw [if_neg hsent, if_neg hsent, if_neg hsent]

end Pieces

/-! ## The integer conversions -/

/-- A string after `0x`. -/
def Prefixed (P : List UInt8 → Prop) (s : List UInt8) : Prop := ∃ t, s = chars "0x" ++ t ∧ P t

/-- A decimal numeral with its sign. -/
def Signed (v : ℤ) (s : List UInt8) : Prop :=
  if v < 0 then ∃ t, s = chars "-" ++ t ∧ Numeral 10 (-v).toNat t else Numeral 10 v.toNat s

/-- The integer conversions of `_kernel_printf`. -/
inductive KernelInteger
  | d
  | u
  | x
  | upperX
  | l

/-- What follows `%`. -/
def KernelInteger.spec : KernelInteger → UInt8
  | .d => char 'd'
  | .u => char 'u'
  | .x => char 'x'
  | .upperX => char 'X'
  | .l => char 'l'

/-- What a conversion of `_kernel_printf` prints. -/
def KernelInteger.Prints : KernelInteger → Arg → List UInt8 → Prop
  | .d, arg => Signed arg.int.toInt
  | .u, arg => Numeral 10 arg.int.toNat
  | .x, arg => Prefixed (Numeral 16 arg.int.toNat)
  | .upperX, arg => Prefixed fun t => t.length = 8 ∧ readDigits 16 t 0 = some arg.int.toNat
  | .l, arg => Prefixed (Numeral 16 arg.longLong.toNat)

/-- The argument of `d` is not the least integer. -/
def KernelInteger.Allowed : KernelInteger → Arg → Prop
  | .d, arg => arg.int ≠ BitVec.intMin 32
  | _, _ => True

/-- The letter of an integer conversion of `__printf`. -/
inductive IntegerLetter
  | d
  | u
  | x
  | upperX
  deriving DecidableEq

/-- The character of a letter. -/
def IntegerLetter.char : IntegerLetter → UInt8
  | .d => Tty.char 'd'
  | .u => Tty.char 'u'
  | .x => Tty.char 'x'
  | .upperX => Tty.char 'X'

/-- The `l` of a conversion. -/
def Modifiers.chars : Modifiers → List UInt8
  | .noMod => []
  | .lMod => [Tty.char 'l']
  | .llMod => [Tty.char 'l', Tty.char 'l']

/-- An integer conversion of `__printf`. Its width is ignored. -/
structure UserInteger where
  width : List UInt8
  digits : ∀ c ∈ width, char '0' ≤ c ∧ c ≤ char '9'
  modifiers : Modifiers
  letter : IntegerLetter

/-- What follows `%`. -/
def UserInteger.spec (c : UserInteger) : List UInt8 :=
  c.width ++ c.modifiers.chars ++ [c.letter.char]

/-- The value of an argument read with some modifiers. -/
def unsignedValue (arg : Arg) (modifiers : Modifiers) : ℕ :=
  if modifiers = .llMod then arg.longLong.toNat else arg.int.toNat

/-- What a conversion of `__printf` prints: the 64-bit values from 2^32 on are always in base 16. -/
def UserInteger.Prints (c : UserInteger) (arg : Arg) : List UInt8 → Prop :=
  match c.letter with
  | .d => Signed arg.int.toInt
  | .u =>
    if unsignedValue arg c.modifiers < 0x100000000 then Numeral 10 (unsignedValue arg c.modifiers)
    else Prefixed (Numeral 16 (unsignedValue arg c.modifiers))
  | .x | .upperX => Prefixed (Numeral 16 (unsignedValue arg c.modifiers))

/-- The conversion is not `lld`, and the argument of `d` is not the least integer. -/
def UserInteger.Allowed (c : UserInteger) (arg : Arg) : Prop :=
  c.letter = .d → c.modifiers ≠ .llMod ∧ arg.int ≠ BitVec.intMin 32

section Conversions

variable (outside : ℤ → UInt8)

theorem numeral_ten (n : ℕ) {v : ℕ} (hv : v < 10 ^ n) (hn : 0 < n) :
    Numeral 10 v (digits outside 10 n v []) :=
  numeral_digits (b := 10) (by decide) (by decide) n hv hn

theorem numeral_sixteen (n : ℕ) {v : ℕ} (hv : v < 16 ^ n) (hn : 0 < n) :
    Numeral 16 v (digits outside 16 n v []) :=
  numeral_digits (b := 16) (by decide) (by decide) n hv hn

theorem toNat_lt_ten (v : BitVec 32) : v.toNat < 10 ^ 10 :=
  v.isLt.trans (by decide)

theorem toNat_lt_sixteen (v : BitVec 32) : v.toNat < 16 ^ 8 := v.isLt

/-- The opposite of a negative integer other than the least one is positive. -/
theorem neg_toInt {v : BitVec 32} (hmin : v ≠ BitVec.intMin 32) (hneg : v.toInt < 0) :
    (-v).toInt = ((-v.toInt).toNat : ℤ) ∧ (-v.toInt).toNat < 10 ^ 10 := by
  have hlow := BitVec.le_toInt v
  rw [BitVec.toInt_neg_of_ne_intMin hmin]
  constructor
  · omega
  · have : (-v.toInt).toNat ≤ 2 ^ 31 := by
      simp only [Nat.reduceSub] at hlow
      omega
    exact this.trans_lt (by decide)

theorem toInt_nonneg {v : BitVec 32} (hnonneg : ¬ v.toInt < 0) :
    v.toInt = (v.toInt.toNat : ℤ) ∧ v.toInt.toNat < 10 ^ 10 := by
  have hhigh := BitVec.toInt_lt (x := v)
  constructor
  · omega
  · have : v.toInt.toNat ≤ 2 ^ 31 := by
      simp only [Nat.reduceSub] at hhigh
      omega
    exact this.trans_lt (by decide)

/-- The `d` conversion prints its argument. -/
theorem signedChunks_signed {v : BitVec 32} (hmin : v ≠ BitVec.intMin 32) :
    Signed v.toInt (signedChunks outside v).flatten := by
  rw [signedChunks, Signed]
  by_cases hneg : v.toInt < 0
  · obtain ⟨hcast, hlt⟩ := neg_toInt hmin hneg
    rw [if_pos hneg, if_pos hneg, hcast]
    refine ⟨_, ?_, numeral_ten outside 10 hlt (by decide)⟩
    rw [List.flatten_cons, List.flatten_singleton]
  · obtain ⟨hcast, hlt⟩ := toInt_nonneg hneg
    rw [if_neg hneg, if_neg hneg, hcast, Int.toNat_natCast, List.flatten_singleton]
    exact numeral_ten outside 10 hlt (by decide)

theorem signedInto_run {v : BitVec 32} (hmin : v ≠ BitVec.intMin 32) {size : ℕ} (hsize : 10 ≤ size) :
    signedInto size v = .ok (signedChunks outside v) := by
  rw [signedInto, signedChunks]
  by_cases hneg : v.toInt < 0
  · obtain ⟨hcast, hlt⟩ := neg_toInt hmin hneg
    have hrun : digitsInto size 10 10 ((-v.toInt).toNat : ℤ) = .ok (digits outside 10 10 _ []) :=
      digitsInto_run (b := 10) outside (by decide) (by decide) hsize (by decide) hlt
    rw [if_pos hneg, if_pos hneg, hcast, hrun]
    rfl
  · obtain ⟨hcast, hlt⟩ := toInt_nonneg hneg
    have hrun : digitsInto size 10 10 (v.toInt.toNat : ℤ) = .ok (digits outside 10 10 _ []) :=
      digitsInto_run (b := 10) outside (by decide) (by decide) hsize (by decide) hlt
    rw [if_neg hneg, if_neg hneg, hcast, hrun]
    rfl

theorem prefixedInto_ten {size : ℕ} (hsize : 10 ≤ size) (v : BitVec 32) :
    prefixedInto size 10 10 v.toNat [] = .ok [digits outside 10 10 v.toNat []] := by
  have hrun : digitsInto size 10 10 v.toNat = .ok (digits outside 10 10 _ []) :=
    digitsInto_run (b := 10) outside (by decide) (by decide) hsize (by decide) (toNat_lt_ten v)
  rw [prefixedInto, hrun]
  rfl

theorem prefixedInto_sixteen {size imax v : ℕ} (hsize : imax ≤ size) (hpos : 0 < imax)
    (hv : v < 16 ^ imax) : prefixedInto size 16 imax v [chars "0x"] =
      .ok [chars "0x", digits outside 16 imax v []] := by
  have hrun : digitsInto size 16 imax v = .ok (digits outside 16 imax v []) :=
    digitsInto_run (b := 16) outside (by decide) (by decide) hsize hpos hv
  rw [prefixedInto, hrun]
  rfl

theorem prefixed_chunks {P : List UInt8 → Prop} {t : List UInt8} (ht : P t) :
    Prefixed P [chars "0x", t].flatten := by
  refine ⟨t, ?_, ht⟩
  rw [List.flatten_cons, List.flatten_singleton]

/-- An integer conversion of `_kernel_printf` stays inside its arrays and prints its argument. -/
theorem kernelConversion_integer {c : KernelInteger} {arg : Arg} (h : c.Allowed arg) :
    ∃ chunks, kernelConversion outside arg c.spec = some chunks ∧
      kernelConversionInto arg c.spec = .ok (some chunks) ∧ c.Prints arg chunks.flatten := by
  cases c with
  | d =>
    refine ⟨_, rfl, ?_, signedChunks_signed outside h⟩
    change some <$> signedInto 20 arg.int = _
    rw [signedInto_run outside h (by decide)]
    rfl
  | u =>
    refine ⟨_, rfl, ?_, ?_⟩
    · change some <$> prefixedInto 20 10 10 arg.int.toNat [] = _
      rw [prefixedInto_ten outside (by decide)]
      rfl
    · rw [List.flatten_singleton]
      exact numeral_ten outside 10 (toNat_lt_ten _) (by decide)
  | x =>
    refine ⟨_, rfl, ?_, prefixed_chunks (numeral_sixteen outside 8 (toNat_lt_sixteen _) (by decide))⟩
    change some <$> prefixedInto 20 16 8 arg.int.toNat [chars "0x"] = _
    rw [prefixedInto_sixteen outside (by decide) (by decide) (toNat_lt_sixteen _)]
    rfl
  | upperX =>
    refine ⟨_, rfl, ?_, prefixed_chunks ⟨fixedDigits_length _ _ _ _, ?_⟩⟩
    · have hrun : fixedDigitsInto 20 16 8 arg.int.toNat = .ok (fixedDigits outside 16 8 _ []) :=
        fixedDigitsInto_run (b := 16) outside (by decide) (by decide) (by decide) _
      change (fixedDigitsInto 20 16 8 arg.int.toNat >>= _) = _
      rw [hrun]
      rfl
    · exact readDigits_fixedDigits (b := 16) (by decide) (by decide) 8 (toNat_lt_sixteen _)
  | l =>
    refine ⟨_, rfl, ?_, prefixed_chunks (numeral_sixteen outside 16 arg.longLong.isLt (by decide))⟩
    change some <$> prefixedInto 20 16 16 arg.longLong.toNat [chars "0x"] = _
    rw [prefixedInto_sixteen outside (by decide) (by decide) arg.longLong.isLt]
    rfl

theorem kernelDirective_integer (c : KernelInteger) (arg : Arg) (rest : List UInt8)
    (h : c.Allowed arg) : ∃ d : Directive ([c.spec] ++ rest),
      kernelDirective outside arg ([c.spec] ++ rest) = some d ∧ d.rest = rest ∧ d.taken = 1 ∧
        c.Prints arg d.chunks.flatten := by
  obtain ⟨chunks, hrun, -, hprints⟩ := kernelConversion_integer outside h
  refine ⟨⟨chunks, rest, 1, Nat.lt_succ_self _⟩, ?_, rfl, rfl, hprints⟩
  change (kernelConversion outside arg c.spec).map _ = _
  rw [hrun]
  rfl

/-- The high word of a 64-bit value is 0. -/
theorem high_eq_zero_iff (v : BitVec 64) :
    v &&& 0xFFFFFFFF00000000 = 0 ↔ v.toNat < 0x100000000 := by
  have hmask : ∀ i < 64, (0xFFFFFFFF00000000 : BitVec 64).getLsbD i = decide (32 ≤ i) := by decide
  constructor
  · intro h
    change v.toNat < 2 ^ 32
    apply Nat.lt_pow_two_of_testBit
    intro i hi
    change 32 ≤ i at hi
    by_cases hin : i < 64
    · have hbit := congrArg (fun w => BitVec.getLsbD w i) h
      simp only [BitVec.getLsbD_and, hmask i hin, decide_eq_true hi, Bool.and_true] at hbit
      exact hbit.trans BitVec.getLsbD_zero
    · exact Nat.testBit_lt_two_pow (v.isLt.trans_le (Nat.pow_le_pow_right (by decide) (by omega)))
  · intro h
    apply BitVec.eq_of_getLsbD_eq
    intro i hi
    refine Eq.trans ?_ BitVec.getLsbD_zero.symm
    rw [BitVec.getLsbD_and, hmask i hi]
    by_cases hle : 32 ≤ i
    · have hbit : v.getLsbD i = false :=
        Nat.testBit_lt_two_pow (h.trans_le (Nat.pow_le_pow_right (show 0 < 2 by decide) hle))
      rw [hbit, Bool.false_and]
    · rw [decide_eq_false hle, Bool.and_false]

/-- The `u`, `x` and `X` conversions of `__printf` stay inside their arrays. -/
theorem unsignedInto_run (arg : Arg) (modifiers : Modifiers) (c : UInt8) :
    unsignedInto arg modifiers c = .ok (unsignedChunks outside arg modifiers c) := by
  rw [unsignedInto, unsignedChunks]
  split
  · exact prefixedInto_ten outside (by decide) _
  · split
    · split
      · exact prefixedInto_ten outside (by decide) _
      · exact prefixedInto_sixteen outside (by decide) (by decide) arg.longLong.isLt
    · exact prefixedInto_sixteen outside (by decide) (by decide) (toNat_lt_sixteen _)

/-- The `u` conversion prints its argument in base 10 when it holds on 32 bits. -/
theorem unsignedChunks_u (arg : Arg) (modifiers : Modifiers) :
    (unsignedValue arg modifiers < 0x100000000 →
      Numeral 10 (unsignedValue arg modifiers)
        (unsignedChunks outside arg modifiers (char 'u')).flatten) ∧
    (¬ unsignedValue arg modifiers < 0x100000000 →
      Prefixed (Numeral 16 (unsignedValue arg modifiers))
        (unsignedChunks outside arg modifiers (char 'u')).flatten) := by
  rw [unsignedValue, unsignedChunks]
  by_cases hll : modifiers = .llMod
  · rw [if_pos hll, if_neg (fun h => h.2 hll), if_pos hll]
    by_cases hhigh : arg.longLong &&& 0xFFFFFFFF00000000 = 0
    · have hlt := (high_eq_zero_iff arg.longLong).mp hhigh
      have hwidth : (arg.longLong.setWidth 32).toNat = arg.longLong.toNat := by
        rw [BitVec.toNat_setWidth, Nat.mod_eq_of_lt hlt]
      rw [if_pos ⟨rfl, hhigh⟩]
      refine ⟨fun _ => ?_, fun hge => absurd hlt hge⟩
      rw [List.flatten_singleton, ← hwidth]
      exact numeral_ten outside 10 (toNat_lt_ten _) (by decide)
    · rw [if_neg (fun h => hhigh h.2)]
      exact ⟨fun hlt => absurd ((high_eq_zero_iff arg.longLong).mpr hlt) hhigh,
        fun _ => prefixed_chunks (numeral_sixteen outside 16 arg.longLong.isLt (by decide))⟩
  · rw [if_neg hll, if_pos ⟨rfl, hll⟩]
    refine ⟨fun _ => ?_, fun hge => absurd arg.int.isLt hge⟩
    rw [List.flatten_singleton]
    exact numeral_ten outside 10 (toNat_lt_ten _) (by decide)

/-- The `x` and `X` conversions print their argument in base 16. -/
theorem unsignedChunks_x (arg : Arg) (modifiers : Modifiers) {c : UInt8} (hc : c ≠ char 'u') :
    Prefixed (Numeral 16 (unsignedValue arg modifiers))
      (unsignedChunks outside arg modifiers c).flatten := by
  have hu : ¬ (c = char 'u' ∧ modifiers ≠ .llMod) := fun h => hc h.1
  have hlow : ¬ (c = char 'u' ∧ arg.longLong &&& 0xFFFFFFFF00000000 = 0) := fun h => hc h.1
  rw [unsignedValue, unsignedChunks, if_neg hu, if_neg hlow]
  by_cases hll : modifiers = .llMod
  · rw [if_pos hll, if_pos hll]
    exact prefixed_chunks (numeral_sixteen outside 16 arg.longLong.isLt (by decide))
  · rw [if_neg hll, if_neg hll]
    exact prefixed_chunks (numeral_sixteen outside 8 (toNat_lt_sixteen _) (by decide))

variable (ops : DoubleOps)

/-- An integer conversion of `__printf` stays inside its arrays and prints its argument. -/
theorem userConversion_integer {c : UserInteger} {arg : Arg} (h : c.Allowed arg) :
    ∃ chunks, userConversion ops outside arg c.modifiers c.letter.char = some chunks ∧
      userConversionInto arg c.modifiers c.letter.char = .ok (some chunks) ∧
        c.Prints arg chunks.flatten := by
  obtain ⟨width, hwidth, modifiers, letter⟩ := c
  dsimp only
  have hunsigned (letter : UInt8) (hchars : letter = char 'u' ∨ letter = char 'x' ∨
      letter = char 'X') (hd : letter ≠ char 'd') : userConversionInto arg modifiers letter =
        .ok (some (unsignedChunks outside arg modifiers letter)) := by
    rw [userConversionInto, if_neg hd, if_pos hchars, unsignedInto_run outside]
    rfl
  cases letter with
  | d =>
    obtain ⟨hll, hmin⟩ := h rfl
    dsimp only at hll
    refine ⟨signedChunks outside arg.int, ?_, ?_, signedChunks_signed outside hmin⟩
    · change (if modifiers = .llMod then none else some (signedChunks outside arg.int)) = _
      rw [if_neg hll]
    · change (if modifiers = .llMod then pure none else some <$> signedInto 30 arg.int) = _
      rw [if_neg hll, signedInto_run outside hmin (by decide)]
      rfl
  | u =>
    refine ⟨_, rfl, hunsigned _ (Or.inl rfl) (by decide), ?_⟩
    obtain ⟨hsmall, hlarge⟩ := unsignedChunks_u outside arg modifiers
    rw [UserInteger.Prints]
    dsimp only
    split
    · rename_i hlt
      exact hsmall hlt
    · rename_i hge
      exact hlarge hge
  | x =>
    exact ⟨_, rfl, hunsigned _ (Or.inr (Or.inl rfl)) (by decide),
      unsignedChunks_x outside arg modifiers (by decide)⟩
  | upperX =>
    exact ⟨_, rfl, hunsigned _ (Or.inr (Or.inr rfl)) (by decide),
      unsignedChunks_x outside arg modifiers (by decide)⟩

/-- What a conversion says, without its format. -/
def Directive.result {format : List UInt8} (d : Directive format) :
    List (List UInt8) × List UInt8 × ℕ := (d.chunks, d.rest, d.taken)

/-- The letter of a conversion is none of the characters that `printf_arguments` skips. -/
theorem userDirective_letter (letter : IntegerLetter) (arg : Arg) (modifiers : Modifiers)
    (rest : List UInt8) :
    (userDirective ops outside arg modifiers (letter.char :: rest)).map Directive.result =
      (userConversion ops outside arg modifiers letter.char).map fun chunks =>
        (chunks, rest, 1) := by
  rw [userDirective.eq_def]
  cases letter <;>
  · dsimp only [IntegerLetter.char]
    rw [if_neg (by decide), if_neg (by decide), if_neg (by decide), Option.map_map]
    rfl

theorem userDirective_width {width : List UInt8} (hwidth : ∀ c ∈ width, char '0' ≤ c ∧ c ≤ char '9')
    (arg : Arg) (modifiers : Modifiers) (rest : List UInt8) :
    (userDirective ops outside arg modifiers (width ++ rest)).map Directive.result =
      (userDirective ops outside arg modifiers rest).map Directive.result := by
  induction width with
  | nil => rfl
  | cons c width ih =>
    rw [List.cons_append, userDirective.eq_def]
    dsimp only
    rw [if_pos (hwidth c List.mem_cons_self), Option.map_map,
      ← ih fun d hd => hwidth d (List.mem_cons_of_mem c hd)]
    rfl

theorem userDirective_modifiers (arg : Arg) (modifiers : Modifiers) (rest : List UInt8) :
    (userDirective ops outside arg .noMod (modifiers.chars ++ rest)).map Directive.result =
      (userDirective ops outside arg modifiers rest).map Directive.result := by
  have hfirst (rest : List UInt8) :
      (userDirective ops outside arg .noMod (char 'l' :: rest)).map Directive.result =
        (userDirective ops outside arg .lMod rest).map Directive.result := by
    rw [userDirective.eq_def]
    dsimp only
    rw [if_neg (by decide), if_pos rfl, Option.map_map]
    rfl
  have hsecond (rest : List UInt8) :
      (userDirective ops outside arg .lMod (char 'l' :: rest)).map Directive.result =
        (userDirective ops outside arg .llMod rest).map Directive.result := by
    rw [userDirective.eq_def]
    dsimp only
    rw [if_neg (by decide), if_pos rfl, Option.map_map]
    rfl
  cases modifiers with
  | noMod => rfl
  | lMod => exact hfirst rest
  | llMod => exact (hfirst _).trans (hsecond rest)

/-- `printf_arguments` of `__printf` on an integer conversion. -/
theorem userDirective_spec (c : UserInteger) (arg : Arg) (rest : List UInt8) :
    (userDirective ops outside arg .noMod (c.spec ++ rest)).map Directive.result =
      (userConversion ops outside arg c.modifiers c.letter.char).map fun chunks =>
        (chunks, rest, 1) := by
  rw [UserInteger.spec, List.append_assoc, List.append_assoc,
    userDirective_width outside ops c.digits, userDirective_modifiers, List.singleton_append,
    userDirective_letter]

theorem userDirective_integer (c : UserInteger) (arg : Arg) (rest : List UInt8)
    (h : c.Allowed arg) : ∃ d : Directive (c.spec ++ rest),
      userDirective ops outside arg .noMod (c.spec ++ rest) = some d ∧ d.rest = rest ∧
        d.taken = 1 ∧ c.Prints arg d.chunks.flatten := by
  obtain ⟨chunks, hrun, -, hprints⟩ := userConversion_integer outside ops h
  have hspec := userDirective_spec outside ops c arg rest
  rw [hrun] at hspec
  obtain ⟨d, hd, hresult⟩ := Option.map_eq_some_iff.mp hspec
  rw [Directive.result] at hresult
  injection hresult with hchunks hresult
  injection hresult with hrest htaken
  exact ⟨d, hd, hrest, htaken, hchunks ▸ hprints⟩

end Conversions

/-! ## What is printed -/

/-- On a format of texts and integer conversions, both printf send, through any terminal, the texts
with each conversion replaced by the numeral of its argument, and each conversion stays inside
`buf` and `HexaTab` and sends only characters that it has written. The conversion `%lld` of
`giet_tty_printf` is refused, and nothing is said of `%d` on the least integer. -/
theorem printf_numerals (outside : ℤ → UInt8) (ops : DoubleOps) (args : ℕ → Arg) :
    (∀ pieces : List (Piece KernelInteger), Covered KernelInteger.Allowed args pieces 0 →
      ∃ chunks, Printed KernelInteger.Prints args pieces 0 chunks.flatten ∧
        ∀ (h : History) (t : Terminal),
          kernelPrintf outside h (formatOf (fun c => [c.spec]) pieces) args t =
            writeAll (tty0Succeeds h) chunks t) ∧
    (∀ pieces : List (Piece UserInteger), Covered UserInteger.Allowed args pieces 0 →
      ∃ chunks, Printed UserInteger.Prints args pieces 0 chunks.flatten ∧
        ∀ (nbTtyChannels ctxTtyId : BitVec 32) (h : History) (t : Terminal),
          gietTtyPrintf ops outside nbTtyChannels ctxTtyId h (formatOf UserInteger.spec pieces)
              args t =
            writeAll (sysTtySucceeds nbTtyChannels ctxTtyId h 0xFFFFFFFF) chunks t) ∧
    (∀ (c : KernelInteger) (arg : Arg), c.Allowed arg → ∃ chunks,
      kernelConversion outside arg c.spec = some chunks ∧
        kernelConversionInto arg c.spec = .ok (some chunks)) ∧
    (∀ (c : UserInteger) (arg : Arg), c.Allowed arg → ∃ chunks,
      userConversion ops outside arg c.modifiers c.letter.char = some chunks ∧
        userConversionInto arg c.modifiers c.letter.char = .ok (some chunks)) ∧
    ∀ (c : UserInteger) (arg : Arg) (rest : List UInt8), c.letter = .d → c.modifiers = .llMod →
      userDirective ops outside arg .noMod (c.spec ++ rest) = none := by
  have hnil : ∀ c ∈ ([] : List UInt8), c ≠ char '%' := fun c hc => absurd hc List.not_mem_nil
  refine ⟨fun pieces hcovered => ?_, fun pieces hcovered => ?_, fun c arg hc => ?_,
    fun c arg hc => ?_, fun c arg rest hletter hll => ?_⟩
  · obtain ⟨chunks, out, hprinted, hflatten, hrun⟩ :=
      printf_pieces (kernelDirective_integer outside) pieces 0 [] hnil hcovered
    rw [List.nil_append] at hflatten
    exact ⟨chunks, hflatten ▸ hprinted, fun h t => hrun Terminal (tty0Succeeds h) t⟩
  · obtain ⟨chunks, out, hprinted, hflatten, hrun⟩ :=
      printf_pieces (userDirective_integer outside ops) pieces 0 [] hnil hcovered
    rw [List.nil_append] at hflatten
    exact ⟨chunks, hflatten ▸ hprinted, fun nbTtyChannels ctxTtyId h t =>
      hrun Terminal (sysTtySucceeds nbTtyChannels ctxTtyId h 0xFFFFFFFF) t⟩
  · obtain ⟨chunks, hrun, hinto, -⟩ := kernelConversion_integer outside hc
    exact ⟨chunks, hrun, hinto⟩
  · obtain ⟨chunks, hrun, hinto, -⟩ := userConversion_integer outside ops hc
    exact ⟨chunks, hrun, hinto⟩
  · have hspec := userDirective_spec outside ops c arg rest
    rw [hletter, hll] at hspec
    exact Option.map_eq_none_iff.mp hspec

theorem printf_numerals_five (outside : ℤ → UInt8) :
    ∃ chunks, Printed KernelInteger.Prints (fun _ => ⟨5, 5, [], 0⟩)
        [.text (chars "x="), .conversion .d] 0 chunks.flatten ∧
      ∀ (h : History) (t : Terminal),
        kernelPrintf outside h (formatOf (fun c : KernelInteger => [c.spec])
            [.text (chars "x="), .conversion .d]) (fun _ => ⟨5, 5, [], 0⟩) t =
          writeAll (tty0Succeeds h) chunks t :=
  (printf_numerals outside ⟨fun _ => 0, fun _ => false, fun _ => 0, fun _ => false⟩
    fun _ => ⟨5, 5, [], 0⟩).1 _
      ⟨by simp [chars, char], show (5 : BitVec 32) ≠ BitVec.intMin 32 by decide, trivial⟩

/-- `giet_tty_printf` sends nothing for `%lld`, and the digits of the least integer are read
outside `HexaTab`. -/
theorem printf_lld_refused :
    gietTtyPrintf ⟨fun _ => 0, fun _ => false, fun _ => 0, fun _ => false⟩ (fun _ => 0) 4 1
        (fun _ => 0) (chars "%lld") (fun _ => ⟨5, 5, [], 0⟩) ⟨0, false, [], false⟩ =
      (false, ⟨0, false, [], false⟩) ∧
    signedInto 30 (BitVec.intMin 32) = .error .outside ∧
    signedInto 20 (BitVec.intMin 32) = .error .outside := by
  refine ⟨?_, by decide +kernel, by decide +kernel⟩
  have hrest : (chars "%lld").dropWhile (· ≠ char '%') =
      char '%' :: [char 'l', char 'l', char 'd'] := by decide +kernel
  have hsend : textOf (chars "%lld") = [] := by decide +kernel
  rw [gietTtyPrintf, printf_error hrest rfl, sendText, if_pos hsend]
  rfl

end GietVm.Tty
