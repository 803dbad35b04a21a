import GietVm.Library.Positional
import Mathlib.Algebra.Order.Group.Nat
import Mathlib.Tactic.SplitIfs

/-!
# Numeric attributes of the mapping

`getIntValue` and `getPaddrValue` read the numeric attributes of the XML mapping: a decimal or a
prefixed hexadecimal numeral on 32 bits, and a prefixed hexadecimal one on 64 bits. Each loop stops
at the end of the string or after a number of characters, and does not look at what is behind. So a
numeral with more digits loses the last ones, and an empty numeral is accepted.

A string is the list of its characters before the null one.
-/

namespace GietVm.Xml

open Library

/-! ## The functions -/

/-- The digits of the decimal loop. -/
def decDigit (c : UInt8) : Option ℕ := if 0x30 ≤ c ∧ c ≤ 0x39 then some (c.toNat - 48) else none

/-- The digits of the hexadecimal loops. -/
def hexDigit (c : UInt8) : Option ℕ :=
  if 0x30 ≤ c ∧ c ≤ 0x39 then some (c.toNat - 48)
  else if 0x61 ≤ c ∧ c ≤ 0x66 then some (c.toNat - 87)
  else if 0x41 ≤ c ∧ c ≤ 0x46 then some (c.toNat - 55)
  else none

/-- A loop on the characters, for the turns that are left: the value, or none when it refuses. -/
def readDigits (digit : UInt8 → Option ℕ) (base modulus : ℕ) : ℕ → List UInt8 → ℕ → Option ℕ
  | 0, _, value => some value
  | _ + 1, [], value => some value
  | i + 1, c :: string, value =>
    match digit c with
    | none => none
    | some d => readDigits digit base modulus i string ((value * base + d) % modulus)

/-- The characters behind `0x` or `0X`. -/
def hexPart : List UInt8 → Option (List UInt8)
  | a :: x :: digits => if a = 0x30 ∧ (x = 0x78 ∨ x = 0x58) then some digits else none
  | _ => none

/-- The value and `ok` at the end of a loop. -/
def finish : Option ℕ → ℕ × ℕ
  | some value => (value, 1)
  | none => (0, 0)

/-- `getIntValue` on the string that the XML reader gives: the value, and `ok`. -/
def getIntValue : Option (List UInt8) → ℕ × ℕ
  | none => (0, 0)
  | some string =>
    match hexPart string with
    | some digits => finish (readDigits hexDigit 16 (2 ^ 32) 8 digits 0)
    | none => finish (readDigits decDigit 10 (2 ^ 32) 9 string 0)

/-- `getPaddrValue` on the string that the XML reader gives: the value, and `ok`. -/
def getPaddrValue : Option (List UInt8) → ℕ × ℕ
  | none => (0, 0)
  | some string =>
    match hexPart string with
    | some digits => finish (readDigits hexDigit 16 (2 ^ 64) 16 digits 0)
    | none => (0, 0)

/-! ## The numerals -/

/-- The digits 0 to 9. -/
def decDigits : List UInt8 := [0x30, 0x31, 0x32, 0x33, 0x34, 0x35, 0x36, 0x37, 0x38, 0x39]

/-- The digits a to f. -/
def lowerDigits : List UInt8 := [0x61, 0x62, 0x63, 0x64, 0x65, 0x66]

/-- The digits A to F. -/
def upperDigits : List UInt8 := [0x41, 0x42, 0x43, 0x44, 0x45, 0x46]

/-- A decimal digit and its value. -/
def IsDecDigit (c : UInt8) (d : ℕ) : Prop := decDigits[d]? = some c

/-- A hexadecimal digit and its value. -/
def IsHexDigit (c : UInt8) (d : ℕ) : Prop :=
  (decDigits ++ lowerDigits)[d]? = some c ∨ (decDigits ++ upperDigits)[d]? = some c

/-- The prefixed hexadecimal numerals, and their values. -/
def HexNumeral (string : List UInt8) (v : ℕ) : Prop :=
  ∃ x digits, (x = 0x78 ∨ x = 0x58) ∧ string = 0x30 :: x :: digits ∧ Numeral IsHexDigit 16 digits v

/-- The decimal numerals and the prefixed hexadecimal ones, and their values. -/
def IntNumeral (string : List UInt8) (v : ℕ) : Prop :=
  Numeral IsDecDigit 10 string v ∨ HexNumeral string v

/-- A result is exact: `ok` is set for the numerals below a power of two and for no other string, and
the result is the value of the numeral. -/
def ReadsExactly (IsNumeral : List UInt8 → ℕ → Prop) (width : ℕ) (string : List UInt8)
    (result : ℕ × ℕ) : Prop :=
  (result.2 = 1 ↔ ∃ v, IsNumeral string v ∧ v < 2 ^ width) ∧
    ∀ v, IsNumeral string v → v < 2 ^ width → result.1 = v

/-! ## The digits -/

theorem decDigit_iff (c : UInt8) (d : ℕ) : decDigit c = some d ↔ IsDecDigit c d := by
  constructor
  · have hall : ∀ n < 256, ∀ d ∈ decDigit (UInt8.ofNat n), decDigits[d]? = some (UInt8.ofNat n) := by
      decide +kernel
    intro h
    have hc := hall c.toNat c.toNat_lt
    rw [UInt8.ofNat_toNat] at hc
    exact hc d h
  · have hall : ∀ d < 10, ∀ c ∈ decDigits[d]?, decDigit c = some d := by decide +kernel
    intro h
    exact hall d (List.getElem?_eq_some_iff.mp h).1 c h

theorem hexDigit_iff (c : UInt8) (d : ℕ) : hexDigit c = some d ↔ IsHexDigit c d := by
  constructor
  · have hall : ∀ n < 256, ∀ d ∈ hexDigit (UInt8.ofNat n),
        (decDigits ++ lowerDigits)[d]? = some (UInt8.ofNat n) ∨
          (decDigits ++ upperDigits)[d]? = some (UInt8.ofNat n) := by
      decide +kernel
    intro h
    have hc := hall c.toNat c.toNat_lt
    rw [UInt8.ofNat_toNat] at hc
    exact hc d h
  · have hlower : ∀ d < 16, ∀ c ∈ (decDigits ++ lowerDigits)[d]?, hexDigit c = some d := by
      decide +kernel
    have hupper : ∀ d < 16, ∀ c ∈ (decDigits ++ upperDigits)[d]?, hexDigit c = some d := by
      decide +kernel
    rintro (h | h)
    · exact hlower d (List.getElem?_eq_some_iff.mp h).1 c h
    · exact hupper d (List.getElem?_eq_some_iff.mp h).1 c h

/-! ## One loop -/

section Loop

variable {digit : UInt8 → Option ℕ} {Digit : UInt8 → ℕ → Prop} {base limit width modulus : ℕ}

/-- The loop extends the value of the characters that it has read. -/
theorem readDigits_extends (hlt : ∀ c d, digit c = some d → d < base) (hbase : 0 < base)
    (hpow : base ^ limit ≤ modulus) (i : ℕ) {pre string : List UInt8} {value : ℕ}
    (hpre : numeralValue digit base pre = some value) (hi : pre.length + i ≤ limit) :
    readDigits digit base modulus i string value =
      numeralValue digit base (pre ++ string.take i) := by
  induction i generalizing pre string value with
  | zero =>
    rw [readDigits, List.take_zero, List.append_nil, hpre]
  | succ i ih =>
    cases string with
    | nil =>
      rw [readDigits, List.take_nil, List.append_nil, hpre]
    | cons c string =>
      have hsplit : pre ++ (c :: string).take (i + 1) = pre ++ [c] ++ string.take i := by
        rw [List.take_succ_cons, List.append_assoc]
        rfl
      rw [readDigits, hsplit]
      cases hc : digit c with
      | none =>
        symm
        apply numeralValue_eq_none_iff.mpr
        exact ⟨c, List.mem_append_left _ (List.mem_append_right _ (List.mem_singleton_self c)), hc⟩
      | some d =>
        have hnext : numeralValue digit base (pre ++ [c]) = some (value * base + d) :=
          numeralValue_concat_eq_some.mpr ⟨value, d, hpre, hc, rfl⟩
        have hlength : (pre ++ [c]).length = pre.length + 1 := by
          rw [List.length_append, List.length_singleton]
        have hbound : value * base + d < modulus := by
          have hvalue := numeralValue_lt hlt hnext
          rw [hlength] at hvalue
          have hle : base ^ (pre.length + 1) ≤ base ^ limit := Nat.pow_le_pow_right hbase (by omega)
          omega
        dsimp only
        rw [Nat.mod_eq_of_lt hbound]
        exact ih hnext (by omega)

/-- The loop gives the value of the first characters. -/
theorem readDigits_eq (hlt : ∀ c d, digit c = some d → d < base) (hbase : 0 < base)
    (hpow : base ^ limit ≤ modulus) (string : List UInt8) :
    readDigits digit base modulus limit string 0 = numeralValue digit base (string.take limit) := by
  have hempty : ([] : List UInt8).length + limit ≤ limit := by
    rw [List.length_nil, Nat.zero_add]
  exact readDigits_extends hlt hbase hpow limit numeralValue_nil hempty

/-- The strings that a loop reads exactly: those that are not empty and have no more characters than
it reads, or a character that it refuses, or only zeros. -/
def Readable (digit : UInt8 → Option ℕ) (limit : ℕ) (string : List UInt8) : Prop :=
  string ≠ [] ∧ (string.length ≤ limit ∨ (∃ c ∈ string.take limit, digit c = none) ∨
    ∀ c ∈ string, c = 0x30)

/-- A loop that gives the value of a string reads it exactly, when this value fits. -/
theorem readsExactly_finish (hdigit : ∀ c d, digit c = some d ↔ Digit c d) {string : List UInt8}
    (hne : string ≠ []) (hfit : ∀ v, numeralValue digit base string = some v → v < 2 ^ width) :
    ReadsExactly (Numeral Digit base) width string (finish (numeralValue digit base string)) := by
  have hnumeral : ∀ v, Numeral Digit base string v ↔ numeralValue digit base string = some v := by
    intro v
    rw [numeral_iff hdigit]
    exact ⟨fun h => h.2, fun h => ⟨hne, h⟩⟩
  cases hvalue : numeralValue digit base string with
  | none =>
    refine ⟨iff_of_false nofun ?_, fun v hv => ?_⟩
    · rintro ⟨v, hv, -⟩
      rw [hnumeral, hvalue] at hv
      cases hv
    · rw [hnumeral, hvalue] at hv
      cases hv
  | some a =>
    refine ⟨iff_of_true rfl ⟨a, (hnumeral a).mpr hvalue, hfit a hvalue⟩, fun v hv _ => ?_⟩
    rw [hnumeral, hvalue] at hv
    exact Option.some.inj hv

/-- A numeral that is longer than what is read is worth what is read only when it is zero. -/
theorem eq_zero_of_take {string : List UInt8} {v : ℕ} (hbase : 2 ≤ base)
    (hlong : limit < string.length) (htake : numeralValue digit base (string.take limit) = some v)
    (hvalue : numeralValue digit base string = some v) : v = 0 := by
  have hsplit := @numeralValue_append _ digit base (string.take limit) (string.drop limit)
  rw [List.take_append_drop, hvalue, htake, Option.bind_some] at hsplit
  obtain ⟨b, -, hb⟩ := Option.map_eq_some_iff.mp hsplit.symm
  have hpos : (string.drop limit).length ≠ 0 := by
    rw [List.length_drop]
    omega
  have hpow : 2 ≤ base ^ (string.drop limit).length := by
    calc 2 ≤ base := hbase
      _ ≤ base ^ (string.drop limit).length := Nat.le_self_pow hpos base
  have hmul : v * 2 ≤ v * base ^ (string.drop limit).length := Nat.mul_le_mul_left v hpow
  omega

/-- A loop reads a string exactly if and only if the string is one of those. -/
theorem readDigits_exact_iff (hdigit : ∀ c d, digit c = some d ↔ Digit c d)
    (hlt : ∀ c d, digit c = some d → d < base) (hbase : 2 ≤ base)
    (hzero : ∀ c, digit c = some 0 ↔ c = 0x30) (hpow : base ^ limit ≤ 2 ^ width)
    (string : List UInt8) :
    ReadsExactly (Numeral Digit base) width string
        (finish (readDigits digit base (2 ^ width) limit string 0)) ↔
      Readable digit limit string := by
  have hpos : 0 < base := by omega
  rw [readDigits_eq hlt hpos hpow]
  constructor
  · intro h
    obtain ⟨hok, hvalue⟩ := h
    have hne : string ≠ [] := by
      rintro rfl
      rw [List.take_nil, numeralValue_nil] at hok
      obtain ⟨v, hv, -⟩ := hok.mp rfl
      exact ((numeral_iff hdigit).mp hv).1 rfl
    refine ⟨hne, ?_⟩
    by_cases hshort : string.length ≤ limit
    · exact Or.inl hshort
    · right
      cases htake : numeralValue digit base (string.take limit) with
      | none => exact Or.inl (numeralValue_eq_none_iff.mp htake)
      | some a =>
        right
        rw [htake] at hok hvalue
        obtain ⟨v, hv, hsmall⟩ := hok.mp rfl
        have hsame : a = v := hvalue v hv hsmall
        have hstring := ((numeral_iff hdigit).mp hv).2
        rw [hsame] at htake
        have hnull := eq_zero_of_take hbase (Nat.lt_of_not_le hshort) htake hstring
        rw [hnull, numeralValue_eq_zero_iff hpos] at hstring
        exact fun c hc => (hzero c).mp (hstring c hc)
  · rintro ⟨hne, hcases⟩
    -- what is read is worth the whole string, and fits
    have hread : numeralValue digit base (string.take limit) = numeralValue digit base string ∧
        ∀ v, numeralValue digit base string = some v → v < 2 ^ width := by
      obtain hshort | ⟨c, hc, hnone⟩ | hzeros := hcases
      · refine ⟨by rw [List.take_of_length_le hshort], fun v hv => ?_⟩
        have hle : base ^ string.length ≤ base ^ limit := Nat.pow_le_pow_right hpos hshort
        have hv' := numeralValue_lt hlt hv
        omega
      · have hwhole : numeralValue digit base string = none :=
          numeralValue_eq_none_iff.mpr ⟨c, List.mem_of_mem_take hc, hnone⟩
        rw [hwhole]
        exact ⟨numeralValue_eq_none_iff.mpr ⟨c, hc, hnone⟩, nofun⟩
      · have hdigits : ∀ c ∈ string, digit c = some 0 := fun c hc => (hzero c).mpr (hzeros c hc)
        rw [(numeralValue_eq_zero_iff hpos).mpr hdigits]
        refine ⟨(numeralValue_eq_zero_iff hpos).mpr fun c hc => hdigits c (List.mem_of_mem_take hc),
          fun v hv => ?_⟩
        rw [← Option.some.inj hv]
        exact Nat.two_pow_pos width
    rw [hread.1]
    exact readsExactly_finish hdigit hne hread.2

end Loop

/-! ## The two functions -/

section Attributes

variable {string digits : List UInt8} {v : ℕ}

theorem hexPart_eq_some_iff : hexPart string = some digits ↔
    ∃ x, (x = 0x78 ∨ x = 0x58) ∧ string = 0x30 :: x :: digits := by
  constructor
  · intro h
    match string with
    | [] => cases h
    | [_] => cases h
    | a :: x :: rest =>
      rw [hexPart] at h
      split_ifs at h with hmarker
      rw [hmarker.1, Option.some.inj h]
      exact ⟨x, hmarker.2, rfl⟩
  · rintro ⟨x, hx, rfl⟩
    exact if_pos ⟨rfl, hx⟩

/-- Behind the prefix is the hexadecimal numeral. -/
theorem hexNumeral_iff (h : hexPart string = some digits) :
    HexNumeral string v ↔ Numeral IsHexDigit 16 digits v := by
  obtain ⟨x, hx, rfl⟩ := hexPart_eq_some_iff.mp h
  constructor
  · rintro ⟨x', digits', -, heq, hv⟩
    obtain ⟨-, heq⟩ := List.cons.inj heq
    obtain ⟨-, rfl⟩ := List.cons.inj heq
    exact hv
  · exact fun hv => ⟨x, digits, hx, rfl, hv⟩

theorem not_hexNumeral (h : hexPart string = none) : ¬HexNumeral string v := by
  rintro ⟨x, digits, hx, hstring, -⟩
  rw [hexPart_eq_some_iff.mpr ⟨x, hx, hstring⟩] at h
  cases h

/-- A string with the prefix is no decimal numeral. -/
theorem intNumeral_iff_hex (h : hexPart string = some digits) :
    IntNumeral string v ↔ Numeral IsHexDigit 16 digits v := by
  rw [← hexNumeral_iff h]
  refine ⟨fun hv => hv.resolve_left fun hdec => ?_, Or.inr⟩
  obtain ⟨x, hx, rfl⟩ := hexPart_eq_some_iff.mp h
  have hvalue := ((numeral_iff decDigit_iff).mp hdec).2
  have hnone : numeralValue decDigit 10 (0x30 :: x :: digits) = none := by
    apply numeralValue_eq_none_iff.mpr
    refine ⟨x, List.mem_cons_of_mem _ List.mem_cons_self, ?_⟩
    obtain rfl | rfl := hx <;> decide
  rw [hnone] at hvalue
  cases hvalue

theorem intNumeral_iff_dec (h : hexPart string = none) :
    IntNumeral string v ↔ Numeral IsDecDigit 10 string v :=
  ⟨fun hv => hv.resolve_right (not_hexNumeral h), Or.inl⟩

/-- Exactness only depends on which numbers the string is a numeral of. -/
theorem readsExactly_congr {P Q : List UInt8 → ℕ → Prop} {width : ℕ} {result : ℕ × ℕ}
    (h : ∀ v, P string v ↔ Q digits v) :
    ReadsExactly P width string result ↔ ReadsExactly Q width digits result := by
  unfold ReadsExactly
  simp only [h]

end Attributes

theorem decDigit_lt (c : UInt8) (d : ℕ) (h : decDigit c = some d) : d < 10 :=
  (List.getElem?_eq_some_iff.mp ((decDigit_iff c d).mp h)).1

theorem hexDigit_lt (c : UInt8) (d : ℕ) (h : hexDigit c = some d) : d < 16 := by
  obtain h | h := (hexDigit_iff c d).mp h
  · exact (List.getElem?_eq_some_iff.mp h).1
  · exact (List.getElem?_eq_some_iff.mp h).1

theorem decDigit_zero (c : UInt8) : decDigit c = some 0 ↔ c = 0x30 := by
  rw [decDigit_iff]
  exact ⟨fun h => (Option.some.inj h).symm, fun h => congrArg some h.symm⟩

theorem hexDigit_zero (c : UInt8) : hexDigit c = some 0 ↔ c = 0x30 := by
  rw [hexDigit_iff]
  constructor
  · rintro (h | h)
    · exact (Option.some.inj h).symm
    · exact (Option.some.inj h).symm
  · exact fun h => Or.inl (congrArg some h.symm)

/-- The strings that `getIntValue` reads exactly. -/
def IntReadable (string : List UInt8) : Prop :=
  match hexPart string with
  | some digits => Readable hexDigit 8 digits
  | none => Readable decDigit 9 string

/-- The strings that `getPaddrValue` reads exactly. -/
def PaddrReadable (string : List UInt8) : Prop :=
  match hexPart string with
  | some digits => Readable hexDigit 16 digits
  | none => True

theorem getIntValue_exact_iff (string : List UInt8) :
    ReadsExactly IntNumeral 32 string (getIntValue (some string)) ↔ IntReadable string := by
  cases h : hexPart string with
  | some digits =>
    have hresult : getIntValue (some string) =
        finish (readDigits hexDigit 16 (2 ^ 32) 8 digits 0) := by
      simp only [getIntValue, h]
    have hreadable : IntReadable string = Readable hexDigit 8 digits := by
      simp only [IntReadable, h]
    have hpow : 16 ^ 8 ≤ 2 ^ 32 := by decide
    rw [hresult, hreadable, readsExactly_congr fun v => intNumeral_iff_hex h]
    exact readDigits_exact_iff hexDigit_iff hexDigit_lt (by decide) hexDigit_zero hpow digits
  | none =>
    have hresult : getIntValue (some string) =
        finish (readDigits decDigit 10 (2 ^ 32) 9 string 0) := by
      simp only [getIntValue, h]
    have hreadable : IntReadable string = Readable decDigit 9 string := by
      simp only [IntReadable, h]
    have hpow : 10 ^ 9 ≤ 2 ^ 32 := by decide
    rw [hresult, hreadable, readsExactly_congr fun v => intNumeral_iff_dec h]
    exact readDigits_exact_iff decDigit_iff decDigit_lt (by decide) decDigit_zero hpow string

theorem getPaddrValue_exact_iff (string : List UInt8) :
    ReadsExactly HexNumeral 64 string (getPaddrValue (some string)) ↔ PaddrReadable string := by
  cases h : hexPart string with
  | some digits =>
    have hresult : getPaddrValue (some string) =
        finish (readDigits hexDigit 16 (2 ^ 64) 16 digits 0) := by
      simp only [getPaddrValue, h]
    have hreadable : PaddrReadable string = Readable hexDigit 16 digits := by
      simp only [PaddrReadable, h]
    have hpow : 16 ^ 16 ≤ 2 ^ 64 := by decide
    rw [hresult, hreadable, readsExactly_congr fun v => hexNumeral_iff h]
    exact readDigits_exact_iff hexDigit_iff hexDigit_lt (by decide) hexDigit_zero hpow digits
  | none =>
    have hresult : getPaddrValue (some string) = (0, 0) := by
      simp only [getPaddrValue, h]
    have hreadable : PaddrReadable string = True := by
      simp only [PaddrReadable, h]
    rw [hresult, hreadable]
    refine iff_of_true ⟨iff_of_false Nat.zero_ne_one ?_, fun v hv => ?_⟩ trivial
    · rintro ⟨v, hv, -⟩
      exact not_hexNumeral h hv
    · exact absurd hv (not_hexNumeral h)

/-- The numeric attributes are read exactly if and only if they are not empty and have no more digits
than the loop reads, or a character that it refuses, or only zeros. -/
theorem attributes_exact_iff (string : List UInt8) :
    (ReadsExactly IntNumeral 32 string (getIntValue (some string)) ↔ IntReadable string) ∧
      (ReadsExactly HexNumeral 64 string (getPaddrValue (some string)) ↔ PaddrReadable string) :=
  ⟨getIntValue_exact_iff string, getPaddrValue_exact_iff string⟩

/-- The last digit of 1000000000 is lost. -/
theorem getIntValue_not_exact :
    getIntValue (some (0x31 :: List.replicate 9 0x30)) = (100000000, 1) ∧
      ¬ReadsExactly IntNumeral 32 (0x31 :: List.replicate 9 0x30)
        (getIntValue (some (0x31 :: List.replicate 9 0x30))) := by
  have hread : getIntValue (some (0x31 :: List.replicate 9 0x30)) = (100000000, 1) := by
    decide +kernel
  refine ⟨hread, fun h => ?_⟩
  have hnumeral : IntNumeral (0x31 :: List.replicate 9 0x30) 1000000000 := by
    apply Or.inl
    rw [numeral_iff decDigit_iff]
    exact ⟨List.cons_ne_nil _ _, by decide +kernel⟩
  have hvalue := h.2 _ hnumeral (by decide)
  rw [hread] at hvalue
  revert hvalue
  decide

end GietVm.Xml
