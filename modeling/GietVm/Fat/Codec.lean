import GietVm.Fat.Names
import Mathlib.Data.List.GetD
import Mathlib.Data.List.TakeWhile

/-!
# Encoding and decoding a name

`_add_dir_entry` cuts a name into parts of 13 characters, one for each LFN entry, and pads
the last part with zeros. `_get_name_from_long` stops at the first zero, but also at the first
byte 0xFF. Decoding the entries of a name therefore gives the name up to its first 0xFF: the
name itself exactly when it has none.

The scanners only look at the 32 bytes of an entry, which is what the congruence lemmas of
the last section say.
-/

namespace GietVm.Fat

open GietVm.Library

/-! ## Reading a part of a name -/

/-- A character that `_get_name_from_long` copies. -/
def isLongChar (c : UInt8) : Bool := c != 0x00 && c != 0xFF

/-- A character that its decoding keeps. -/
def isKept (c : UInt8) : Bool := c != 0xFF

/-- Every second byte from an offset on. -/
def everySecond (buffer : ℕ → UInt8) : ℕ → ℕ → List UInt8
  | 0, _ => []
  | n + 1, offset => buffer offset :: everySecond buffer n (offset + 2)

/-- The bytes of an LFN entry that hold characters, in the order of the name. -/
def nameBytes : List ℕ := [1, 3, 5, 7, 9, 14, 16, 18, 20, 22, 24, 28, 30]

theorem longPart_eq (buffer : ℕ → UInt8) (n offset : ℕ) :
    longPart buffer n offset = ((everySecond buffer n offset).takeWhile isLongChar,
      !(everySecond buffer n offset).all isLongChar) := by
  induction n generalizing offset with
  | zero => rfl
  | succ n ih =>
    rw [longPart, everySecond, ih]
    by_cases hc : buffer offset = 0x00 ∨ buffer offset = 0xFF
    · have hno : isLongChar (buffer offset) = false := by
        rcases hc with hc | hc <;> rw [hc] <;> rfl
      rw [if_pos hc]
      simp [hno]
    · have hyes : isLongChar (buffer offset) = true := by
        rw [not_or] at hc
        simp [isLongChar, hc.1, hc.2]
      rw [if_neg hc]
      simp [hyes]

/-- `_get_name_from_long` copies the characters of an entry up to a terminator. -/
theorem getNameFromLong_eq (buffer : ℕ → UInt8) :
    getNameFromLong buffer = (nameBytes.map buffer).takeWhile isLongChar := by
  have hsplit : nameBytes.map buffer =
      everySecond buffer 5 1 ++ (everySecond buffer 6 14 ++ everySecond buffer 2 28) := rfl
  have hwhole {l : List UInt8} (h : l.all isLongChar = true) : l.takeWhile isLongChar = l :=
    List.takeWhile_eq_self_iff.mpr (by simpa using h)
  have happend (l r : List UInt8) : (l ++ r).takeWhile isLongChar =
      if l.all isLongChar then l ++ r.takeWhile isLongChar else l.takeWhile isLongChar := by
    cases h : l.all isLongChar with
    | true => rw [List.takeWhile_append_of_pos (by simpa using h), if_pos rfl]
    | false =>
      rw [List.takeWhile_append, if_neg]
      · simp
      · intro hlen
        have := List.takeWhile_eq_self_iff.mp ((List.takeWhile_prefix _).eq_of_length hlen)
        rw [List.all_eq_true.mpr this] at h
        cases h
  rw [hsplit, happend, happend]
  simp only [getNameFromLong, longPart_eq]
  cases h₁ : (everySecond buffer 5 1).all isLongChar with
  | false => simp
  | true =>
    cases h₂ : (everySecond buffer 6 14).all isLongChar with
    | false => simp [hwhole h₁]
    | true => simp [hwhole h₁, hwhole h₂]

/-! ## The bytes of an LFN entry -/

section Long

variable {name : List UInt8} {ord : UInt8}

theorem longEntryBytes_length (length : ℕ) (is : List ℕ) (c : ℕ) :
    (longEntryBytes name length ord is c).length = is.length := by
  induction is generalizing c with
  | nil => rfl
  | cons i is ih =>
    rw [longEntryBytes]
    split
    · simp [ih]
    · split
      · simp [ih]
      · split
        · simp [ih]
        · split <;> simp [ih]

/-- The bytes that hold characters get the characters in order, then zeros. -/
theorem longEntryBytes_char (is : List ℕ) (m c i : ℕ) (hi : is[m]? = some i)
    (hname : isNameByte i = true) :
    (longEntryBytes name name.length ord is c).getD m 0 =
      charAt name (c + (is.take m).countP fun i => isNameByte i) := by
  have hpad {k : ℕ} (hk : ¬ k < name.length) : charAt name k = 0 := by
    rw [charAt, List.getD_eq_default _ _ (by omega)]
  have hzero : isNameByte 0 = false := rfl
  induction is generalizing m c with
  | nil => simp at hi
  | cons j is ih =>
    cases m with
    | zero =>
      obtain rfl : j = i := by simpa using hi
      have hj₀ : j ≠ 0 := by
        rintro rfl
        cases hname
      have hj₁ : j ≠ 11 := by
        rintro rfl
        cases hname
      have hj₂ : j ≠ 12 := by
        rintro rfl
        cases hname
      rw [longEntryBytes, if_neg hj₀]
      by_cases hc : c < name.length
      · rw [if_pos ⟨hname, hc⟩]
        simp
      · rw [if_neg (fun h => hc h.2), if_neg hj₁, if_neg hj₂]
        simp [hpad hc]
    | succ m =>
      have hi' : is[m]? = some i := by simpa using hi
      rw [longEntryBytes, List.take_succ_cons, List.countP_cons]
      by_cases hj : isNameByte j = true
      · have hj₀ : j ≠ 0 := by
          rintro rfl
          cases hj
        rw [if_neg hj₀, if_pos hj]
        by_cases hc : c < name.length
        · rw [if_pos ⟨hj, hc⟩, List.getD_cons_succ, ih m (c + 1) hi']
          congr 1
          omega
        · have hj₁ : j ≠ 11 := by
            rintro rfl
            cases hj
          have hj₂ : j ≠ 12 := by
            rintro rfl
            cases hj
          rw [if_neg (fun h => hc h.2), if_neg hj₁, if_neg hj₂, List.getD_cons_succ, ih m c hi',
            hpad (by omega), hpad (by omega)]
      · have hcount (k : ℕ) : k + (if isNameByte j = true then 1 else 0) = k := by
          rw [if_neg hj, Nat.add_zero]
        rw [hcount]
        split
        · rw [List.getD_cons_succ, ih m c hi']
        · rw [if_neg (fun h => hj h.1)]
          split
          · rw [List.getD_cons_succ, ih m c hi']
          · split <;> rw [List.getD_cons_succ, ih m c hi']

/-- The other bytes are fixed. -/
theorem longEntryBytes_other (length : ℕ) (is : List ℕ) (m c i : ℕ) (hi : is[m]? = some i)
    (hname : isNameByte i = false) :
    (longEntryBytes name length ord is c).getD m 0 =
      if i = 0 then ord else if i = 11 then 0x0F else if i = 12 then 0xCA else 0x00 := by
  induction is generalizing m c with
  | nil => simp at hi
  | cons j is ih =>
    cases m with
    | zero =>
      obtain rfl : j = i := by simpa using hi
      rw [longEntryBytes]
      simp only [hname, Bool.false_eq_true, false_and, if_false]
      split
      · rfl
      · split
        · rfl
        · split <;> rfl
    | succ m =>
      have hi' : is[m]? = some i := by simpa using hi
      rw [longEntryBytes]
      split
      · rw [List.getD_cons_succ, ih m c hi']
      · split
        · rw [List.getD_cons_succ, ih m (c + 1) hi']
        · split
          · rw [List.getD_cons_succ, ih m c hi']
          · split <;> rw [List.getD_cons_succ, ih m c hi']

/-- The LFN entry that holds the characters from `c` on. -/
def longEntry (name : List UInt8) (ord : UInt8) (c : ℕ) : ℕ → UInt8 := fun j =>
  (longEntryBytes name name.length ord (List.range 32) c).getD j 0

theorem longEntry_ord (c : ℕ) : longEntry name ord c 0 = ord :=
  longEntryBytes_other _ _ 0 c 0 rfl rfl

theorem longEntry_attr (c : ℕ) : longEntry name ord c 11 = 0x0F :=
  longEntryBytes_other _ _ 11 c 11 rfl rfl

theorem map_longEntry (c : ℕ) :
    nameBytes.map (longEntry name ord c) = (List.range 13).map fun j => charAt name (c + j) := by
  have hbyte (m i j : ℕ) (hi : (List.range 32)[m]? = some i) (hname : isNameByte i = true)
      (hj : ((List.range 32).take m).countP (fun i => isNameByte i) = j) :
      longEntry name ord c m = charAt name (c + j) := by
    rw [← hj]
    exact longEntryBytes_char _ m c i hi hname
  simp only [nameBytes, List.map_cons, List.map_nil, hbyte 1 1 0 rfl rfl rfl,
    hbyte 3 3 1 rfl rfl rfl, hbyte 5 5 2 rfl rfl rfl, hbyte 7 7 3 rfl rfl rfl,
    hbyte 9 9 4 rfl rfl rfl, hbyte 14 14 5 rfl rfl rfl, hbyte 16 16 6 rfl rfl rfl,
    hbyte 18 18 7 rfl rfl rfl, hbyte 20 20 8 rfl rfl rfl, hbyte 22 22 9 rfl rfl rfl,
    hbyte 24 24 10 rfl rfl rfl, hbyte 28 28 11 rfl rfl rfl, hbyte 30 30 12 rfl rfl rfl]
  rfl

/-- Characters followed by zeros are read up to the first 0xFF. -/
theorem takeWhile_padded (l : List UInt8) (n : ℕ) (hl : ∀ c ∈ l, c ≠ 0) :
    ((List.range n).map fun j => l.getD j 0).takeWhile isLongChar =
      (l.take n).takeWhile isKept := by
  induction n generalizing l with
  | zero => rfl
  | succ n ih =>
    rw [List.range_succ_eq_map, List.map_cons, List.map_map]
    cases l with
    | nil => rfl
    | cons a l =>
      have ha : isLongChar a = isKept a := by
        have := hl a List.mem_cons_self
        simp [isLongChar, isKept, this]
      have htail : (List.range n).map ((fun j => (a :: l).getD j 0) ∘ Nat.succ) =
          (List.range n).map fun j => l.getD j 0 :=
        List.map_congr_left fun j _ => by simp
      rw [htail, List.take_succ_cons]
      simp only [List.getD_cons_zero, List.takeWhile_cons, ha,
        ih l fun c hc => hl c (List.mem_cons_of_mem _ hc)]

/-- Decoding an LFN entry of a name. -/
theorem getNameFromLong_longEntry (hname : ∀ c ∈ name, c ≠ 0) (ord : UInt8) (c : ℕ) :
    getNameFromLong (longEntry name ord c) = ((name.drop c).take 13).takeWhile isKept := by
  rw [getNameFromLong_eq, map_longEntry]
  have hdrop (j : ℕ) : charAt name (c + j) = (name.drop c).getD j 0 := by
    rw [charAt, List.getD_eq_getElem?_getD, List.getD_eq_getElem?_getD, List.getElem?_drop]
  simp only [hdrop]
  exact takeWhile_padded _ 13 fun x hx => hname x (List.mem_of_mem_drop hx)

end Long

/-! ## The bytes of a NORMAL entry -/

section Normal

variable {name : List UInt8} {info : EntryInfo}

theorem normalEntryBytes_length (length : ℕ) (is : List ℕ) (c : ℕ) :
    (normalEntryBytes name length info is c).length = is.length := by
  induction is generalizing c with
  | nil => rfl
  | cons i is ih =>
    rw [normalEntryBytes]
    split <;> simp [ih]

theorem normalEntryBytes_other (length : ℕ) (is : List ℕ) (m c i : ℕ) (hi : is[m]? = some i)
    (h8 : 8 ≤ i) : (normalEntryBytes name length info is c).getD m 0 = normalByte info i := by
  induction is generalizing m c with
  | nil => simp at hi
  | cons j is ih =>
    cases m with
    | zero =>
      obtain rfl : j = i := by simpa using hi
      rw [normalEntryBytes, if_neg (by omega), List.getD_cons_zero]
    | succ m =>
      have hi' : is[m]? = some i := by simpa using hi
      rw [normalEntryBytes]
      split
      · rw [List.getD_cons_succ, ih m (c + 1) hi']
      · rw [List.getD_cons_succ, ih m c hi']

/-- The NORMAL entry of a name. -/
def normalEntry (name : List UInt8) (info : EntryInfo) : ℕ → UInt8 := fun j =>
  (normalEntryBytes name name.length info (List.range 32) 0).getD j 0

theorem normalEntry_first (hname : 0 < name.length) :
    normalEntry name info 0 = toUpper (charAt name 0) := by
  have hrange : List.range 32 = 0 :: (List.range 31).map Nat.succ := List.range_succ_eq_map
  rw [normalEntry, hrange, normalEntryBytes, if_pos ⟨by omega, hname⟩, List.getD_cons_zero]

theorem normalEntry_other {j : ℕ} (h8 : 8 ≤ j) (hj : j < 32) :
    normalEntry name info j = normalByte info j :=
  normalEntryBytes_other _ _ j 0 j (by rw [List.getElem?_range hj]) h8

theorem readEntry_one (offset : ℕ) (buffer : ℕ → UInt8) (le : Bool) :
    readEntry offset 1 buffer le = (buffer offset).toNat := by
  cases le <;> simp [readEntry]

theorem readEntry_two (offset : ℕ) (buffer : ℕ → UInt8) :
    readEntry offset 2 buffer true =
      0x100 * (buffer (offset + 1)).toNat + (buffer offset).toNat := by
  simp [readEntry, List.range_succ]

theorem readEntry_four (offset : ℕ) (buffer : ℕ → UInt8) :
    readEntry offset 4 buffer true =
      0x100 * (0x100 * (0x100 * (buffer (offset + 3)).toNat + (buffer (offset + 2)).toNat) +
        (buffer (offset + 1)).toNat) + (buffer offset).toNat := by
  simp [readEntry, List.range_succ]

theorem normalEntry_attr : readEntry 11 1 (normalEntry name info) false =
    if info.isDir then 0x10 else 0x20 := by
  rw [readEntry_one, normalEntry_other (by omega) (by omega)]
  cases h : info.isDir <;> simp [normalByte, h]

/-- The fields of a NORMAL entry are those it was written with. -/
theorem entryInfo_normalEntry (hcluster : info.cluster < 0x100000000)
    (hsize : info.size < 0x100000000) : entryInfo (normalEntry name info) = info := by
  obtain ⟨cluster, size, isDir⟩ := info
  simp only at hcluster hsize
  have hbyte (j : ℕ) (h8 : 8 ≤ j) (hj : j < 32) :
      normalEntry name ⟨cluster, size, isDir⟩ j = normalByte ⟨cluster, size, isDir⟩ j :=
    normalEntry_other h8 hj
  rw [entryInfo, normalEntry_attr, readEntry_two, readEntry_two, readEntry_four]
  simp only [hbyte 20 (by omega) (by omega), hbyte 21 (by omega) (by omega),
    hbyte 26 (by omega) (by omega), hbyte 27 (by omega) (by omega),
    hbyte 28 (by omega) (by omega), hbyte 29 (by omega) (by omega),
    hbyte 30 (by omega) (by omega), hbyte 31 (by omega) (by omega), normalByte,
    EntryInfo.mk.injEq]
  norm_num
  refine ⟨by omega, by omega, ?_⟩
  cases isDir <;> simp

end Normal

/-! ## Putting the parts together -/

theorem cString_append_zero {l rest : List UInt8} (hl : ∀ c ∈ l, c ≠ 0) :
    cString (l ++ 0 :: rest) = l := by
  rw [cString, List.takeWhile_append_of_pos (by simpa using hl)]
  simp

/-- A string that fills the array up to the next copy is continued by it. -/
theorem cString_take {l rest more : List UInt8} {n : ℕ} (hl : ∀ c ∈ l, c ≠ 0)
    (hn : l.length ≤ n) :
    cString ((l ++ 0 :: rest).take n ++ more) =
      if l.length = n then l ++ cString more else l := by
  split
  · rename_i h
    subst h
    rw [List.take_left' rfl, cString, List.takeWhile_append_of_pos (by simpa using hl)]
    rfl
  · rename_i h
    obtain ⟨m, hm⟩ : ∃ m, n - l.length = m + 1 := ⟨n - l.length - 1, by omega⟩
    rw [List.take_append, List.take_of_length_le hn, hm, List.take_succ_cons, List.append_assoc,
      List.cons_append]
    exact cString_append_zero hl

theorem takeWhile_append_kept (l r : List UInt8) :
    (l ++ r).takeWhile isKept =
      if (l.takeWhile isKept).length = l.length then l.takeWhile isKept ++ r.takeWhile isKept
      else l.takeWhile isKept := by
  rw [List.takeWhile_append]
  split
  · rename_i h
    rw [(List.takeWhile_prefix _).eq_of_length h]
  · rfl

theorem mem_takeWhile_ne_zero {l : List UInt8} (hl : ∀ c ∈ l, c ≠ 0) :
    ∀ c ∈ l.takeWhile isKept, c ≠ 0 :=
  fun c hc => hl c ((List.takeWhile_prefix _).subset hc)

theorem length_part_le (l : List UInt8) (n : ℕ) : ((l.take n).takeWhile isKept).length ≤ n :=
  ((List.takeWhile_prefix _).length_le).trans (by simp)

/-- The scanner after the LFN entries of a name. -/
def LfnScan.holds (scan : LfnScan) (name : List UInt8) (nbLfn : ℕ) : Prop :=
  scan.lfn = nbLfn ∧ scan.lfn1 = some ((name.take 13).takeWhile isKept) ∧
    (2 ≤ nbLfn → scan.lfn2 = some (((name.drop 13).take 13).takeWhile isKept)) ∧
    (3 ≤ nbLfn → scan.lfn3 = some (((name.drop 26).take 13).takeWhile isKept))

/-- The parts of a name put together give the name up to its first 0xFF. -/
theorem LfnScan.holds.cname {scan : LfnScan} {name : List UInt8} {length nbLfn : ℕ}
    (h : scan.holds name nbLfn) (hlen : checkNameLength name = some (length, nbLfn))
    (hname : ∀ c ∈ name, c ≠ 0) (buffer : ℕ → UInt8) :
    scan.cname buffer = some (name.takeWhile isKept) := by
  obtain ⟨hlfn, h₁, h₂, h₃⟩ := h
  have hz₁ := mem_takeWhile_ne_zero (l := name.take 13) fun c hc =>
    hname c (List.mem_of_mem_take hc)
  have hz₂ := mem_takeWhile_ne_zero (l := (name.drop 13).take 13) fun c hc =>
    hname c (List.mem_of_mem_drop (List.mem_of_mem_take hc))
  have hz₃ := mem_takeWhile_ne_zero (l := (name.drop 26).take 13) fun c hc =>
    hname c (List.mem_of_mem_drop (List.mem_of_mem_take hc))
  have hl₁ := length_part_le name 13
  have hl₂ := length_part_le (name.drop 13) 13
  set p₁ := (name.take 13).takeWhile isKept with hp₁
  set p₂ := ((name.drop 13).take 13).takeWhile isKept with hp₂
  set p₃ := ((name.drop 26).take 13).takeWhile isKept with hp₃
  have hcopy : strcpyAt (List.replicate 32 0) 0 p₁ =
      some (p₁ ++ 0 :: (List.replicate 32 (0 : UInt8)).drop (p₁.length + 1)) := by
    rw [strcpyAt, if_pos (by omega), List.take_zero, List.nil_append, Nat.zero_add]
  rw [checkNameLength] at hlen
  split at hlen
  · -- one entry: the name has at most 13 characters
    rename_i hle
    obtain ⟨-, rfl⟩ : name.length = length ∧ 1 = nbLfn := by simpa using hlen
    rw [LfnScan.cname, hlfn]
    simp only [h₁, hcopy, Option.bind_eq_bind, Option.bind_some, Option.pure_def]
    rw [cString_append_zero hz₁, hp₁, List.take_of_length_le hle]
  · rename_i hgt₁
    have hlen₁ : (name.take 13).length = 13 := by
      rw [List.length_take]
      omega
    split at hlen
    · -- two entries
      rename_i hle
      obtain ⟨-, rfl⟩ : name.length = length ∧ 2 = nbLfn := by simpa using hlen
      have hdrop : (name.drop 13).take 13 = name.drop 13 := by
        rw [List.take_of_length_le]
        rw [List.length_drop]
        omega
      rw [LfnScan.cname, hlfn]
      simp only [h₁, h₂ le_rfl, hcopy, Option.bind_eq_bind, Option.bind_some, Option.pure_def]
      rw [strcpyAt, if_pos (by omega), Option.bind_some, List.append_assoc,
        cString_take hz₁ hl₁, cString_append_zero hz₂]
      conv_rhs => rw [← List.take_append_drop 13 name, takeWhile_append_kept, hlen₁, ← hp₁,
        ← hdrop, ← hp₂]
    · rename_i hgt₂
      split at hlen
      · -- three entries
        rename_i hle
        obtain ⟨-, rfl⟩ : name.length = length ∧ 3 = nbLfn := by simpa using hlen
        have hdrop : (name.drop 26).take 13 = name.drop 26 := by
          rw [List.take_of_length_le]
          rw [List.length_drop]
          omega
        have hl₃ : p₃.length ≤ 5 := by
          refine ((List.takeWhile_prefix _).length_le).trans ?_
          rw [hdrop, List.length_drop]
          omega
        have hlen₂ : ((name.drop 13).take 13).length = 13 := by
          rw [List.length_take, List.length_drop]
          omega
        rw [LfnScan.cname, hlfn]
        simp only [h₁, h₂ (by omega), h₃ le_rfl, hcopy, Option.bind_eq_bind, Option.bind_some,
          Option.pure_def]
        rw [strcpyAt, if_pos (by omega), Option.bind_some, strcpyAt, if_pos (by omega),
          Option.bind_some]
        have htake (r : List UInt8) :
            ((p₁ ++ 0 :: (List.replicate 32 (0 : UInt8)).drop (p₁.length + 1)).take 13 ++ r).take 26 =
              (p₁ ++ 0 :: (List.replicate 32 (0 : UInt8)).drop (p₁.length + 1)).take 13 ++
                r.take 13 := by
          have h13 : ((p₁ ++ 0 :: (List.replicate 32 (0 : UInt8)).drop
              (p₁.length + 1)).take 13).length = 13 := by
            simp only [List.length_take, List.length_append, List.length_cons, List.length_drop,
              List.length_replicate]
            omega
          rw [List.take_append, h13, List.take_of_length_le (by rw [h13]; omega)]
        rw [List.append_assoc (List.take 13 _), htake, List.append_assoc, List.append_assoc,
          cString_take hz₁ hl₁, cString_take hz₂ hl₂, cString_append_zero hz₃]
        conv_rhs => rw [← List.take_append_drop 13 name, takeWhile_append_kept, hlen₁, ← hp₁,
          ← List.take_append_drop 13 (name.drop 13), takeWhile_append_kept, hlen₂, ← hp₂,
          List.drop_drop, ← hdrop, ← hp₃]
      · cases hlen

/-! ## The scanners look at 32 bytes -/

/-- Two entries with the same bytes. -/
def SameEntry (e e' : ℕ → UInt8) : Prop := ∀ j < 32, e j = e' j

section Congr

variable {e e' : ℕ → UInt8}

theorem SameEntry.readEntry (h : SameEntry e e') {offset size : ℕ} (hin : offset + size ≤ 32)
    (le : Bool) : readEntry offset size e le = readEntry offset size e' le := by
  have hfold (l : List ℕ) (hl : ∀ n ∈ l, n < size) (r : ℕ) :
      l.foldl (fun res n => 0x100 * res + (e (offset + n)).toNat) r =
        l.foldl (fun res n => 0x100 * res + (e' (offset + n)).toNat) r := by
    refine List.foldl_ext _ _ r fun a b hb => ?_
    rw [h (offset + b) (by have := hl b hb; omega)]
  rw [Fat.readEntry, Fat.readEntry, hfold _ (by simp), hfold _ (by simp)]

theorem SameEntry.getNameFromLong (h : SameEntry e e') :
    getNameFromLong e = getNameFromLong e' := by
  rw [getNameFromLong_eq, getNameFromLong_eq]
  congr 1
  refine List.map_congr_left fun j hj => h j ?_
  revert j
  decide

theorem SameEntry.shortPart (h : SameEntry e e') (n i : ℕ) (hin : n + i ≤ 32) :
    shortPart e n i = shortPart e' n i := by
  induction n generalizing i with
  | zero => rfl
  | succ n ih => rw [Fat.shortPart, Fat.shortPart, h i (by omega), ih (i + 1) (by omega)]

theorem SameEntry.getNameFromShort (h : SameEntry e e') :
    getNameFromShort e = getNameFromShort e' := by
  rw [Fat.getNameFromShort, Fat.getNameFromShort, h.shortPart 8 0 (by omega),
    h.shortPart 3 8 (by omega)]

theorem SameEntry.record (h : SameEntry e e') (scan : LfnScan) (ord : ℕ) :
    scan.record ord e = scan.record ord e' := by
  rw [LfnScan.record, LfnScan.record, h.getNameFromLong]

theorem SameEntry.cname (h : SameEntry e e') (scan : LfnScan) : scan.cname e = scan.cname e' := by
  rw [LfnScan.cname, LfnScan.cname, h.getNameFromShort]

theorem SameEntry.entryInfo (h : SameEntry e e') : entryInfo e = entryInfo e' := by
  rw [Fat.entryInfo, Fat.entryInfo, h.readEntry (by omega), h.readEntry (by omega),
    h.readEntry (by omega), h.readEntry (by omega)]

end Congr

end GietVm.Fat
