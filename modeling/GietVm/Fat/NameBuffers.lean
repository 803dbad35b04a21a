import GietVm.Fat.Listing
import GietVm.Library.Cells

/-!
# The buffers of the scanners

The scanners put the parts of a name into arrays of 16 bytes and join them in an array of 32 or
36 bytes. Here these arrays are memory: a byte that nothing has written for the current entry
cannot be read, and an access outside an array ends the computation with an error.
`_get_name_from_long` is given with its four loops.

The names decoded by these functions are those of `getNameFromLong` and of the scanners on
lists, and the accesses that end with an error are exactly those that the scanners on lists
report.
-/

namespace GietVm.Fat

open GietVm.Library

/-! ## Arrays of characters -/

/-- The array holds a string at an offset. -/
def HoldsString (a : Cells UInt8) (offset : ℕ) (l : List UInt8) : Prop :=
  ∀ i ≤ l.length, a (offset + i) = (l ++ [0])[i]?

theorem holdsString_putCells (a : Cells UInt8) (offset : ℕ) (l : List UInt8) :
    HoldsString (putCells a offset (l ++ [0])) offset l := by
  intro i hi
  rw [putCells, if_pos, Nat.add_sub_cancel_left]
  rw [List.length_append, List.length_singleton]
  omega

/-! ## `_get_name_from_long` -/

/-- The variables of `_get_name_from_long`. -/
structure LongState where
  nameOffset : ℕ
  bufferOffset : ℕ
  j : ℕ
  eof : Bool
  name : Cells UInt8

/-- One of the three inner loops of `_get_name_from_long`. -/
def copyLongChars (buffer : ℕ → UInt8) (length : ℕ) : ℕ → LongState → Except ArrayFault LongState
  | 0, _ => .error .endless
  | fuel + 1, st =>
    if st.j ≠ length ∧ st.eof = false then
      if 32 ≤ st.bufferOffset then .error .outside
      else if buffer st.bufferOffset = 0x00 ∨ buffer st.bufferOffset = 0xFF then
        copyLongChars buffer length fuel { st with eof := true }
      else do
        let name ← writeCell 16 st.name st.nameOffset (buffer st.bufferOffset)
        copyLongChars buffer length fuel { st with
          name := name
          bufferOffset := st.bufferOffset + 2
          j := st.j + 2
          nameOffset := st.nameOffset + 1 }
    else .ok st

/-- The outer loop of `_get_name_from_long`. -/
def copyLongParts (buffer : ℕ → UInt8) : ℕ → LongState → Except ArrayFault LongState
  | 0, _ => .error .endless
  | fuel + 1, st =>
    if st.bufferOffset ≠ 32 ∧ st.eof = false then do
      let st ← copyLongChars buffer 10 (fuel + 1) st
      let st ← copyLongChars buffer 12 (fuel + 1)
        { st with bufferOffset := st.bufferOffset + 3, j := 0 }
      let st ← copyLongChars buffer 4 (fuel + 1)
        { st with bufferOffset := st.bufferOffset + 2, j := 0 }
      copyLongParts buffer fuel st
    else .ok st

/-- `_get_name_from_long` into an array of 16 bytes. -/
def getNameFromLongInto (fuel : ℕ) (buffer : ℕ → UInt8) (name : Cells UInt8) :
    Except ArrayFault (Cells UInt8) := do
  let st ← copyLongParts buffer fuel ⟨0, 1, 0, false, name⟩
  writeCell 16 st.name st.nameOffset 0

section Long

variable {buffer : ℕ → UInt8}

theorem longPart_length_le (buffer : ℕ → UInt8) (n offset : ℕ) :
    (longPart buffer n offset).1.length ≤ n := by
  induction n generalizing offset with
  | zero => exact le_rfl
  | succ n ih =>
    rw [longPart]
    split
    · exact Nat.zero_le _
    · have := ih (offset + 2)
      simp only [List.length_cons]
      omega

/-- A part that is not ended by a terminator is full. -/
theorem longPart_full (buffer : ℕ → UInt8) (n offset : ℕ)
    (h : (longPart buffer n offset).2 = false) : (longPart buffer n offset).1.length = n := by
  induction n generalizing offset with
  | zero => rfl
  | succ n ih =>
    rw [longPart] at h ⊢
    split
    · rename_i hend
      rw [if_pos hend] at h
      cases h
    · rename_i hend
      rw [if_neg hend] at h
      rw [List.length_cons, ih _ h]

/-- An inner loop copies one part of the name. -/
theorem copyLongChars_run (buffer : ℕ → UInt8) (n fuel nameOffset bufferOffset j : ℕ)
    (name : Cells UInt8)
    (hfuel : n + 2 ≤ fuel) (hroom : nameOffset + n ≤ 16) (hin : bufferOffset + 2 * n ≤ 33) :
    copyLongChars buffer (j + 2 * n) fuel ⟨nameOffset, bufferOffset, j, false, name⟩ = .ok
      ⟨nameOffset + (longPart buffer n bufferOffset).1.length,
        bufferOffset + 2 * (longPart buffer n bufferOffset).1.length,
        j + 2 * (longPart buffer n bufferOffset).1.length,
        (longPart buffer n bufferOffset).2,
        putCells name nameOffset (longPart buffer n bufferOffset).1⟩ := by
  induction n generalizing fuel nameOffset bufferOffset j name with
  | zero =>
    obtain ⟨fuel, rfl⟩ := Nat.exists_eq_add_of_le' hfuel
    rw [copyLongChars, if_neg (by simp), longPart, List.length_nil, putCells_nil]
    rfl
  | succ n ih =>
    obtain ⟨fuel, rfl⟩ := Nat.exists_eq_add_of_le' (show 1 ≤ fuel by omega)
    have hmore : j ≠ j + 2 * (n + 1) ∧ false = false := ⟨by omega, rfl⟩
    rw [copyLongChars, if_pos hmore, if_neg (by dsimp only; omega), longPart]
    dsimp only
    by_cases hend : buffer bufferOffset = 0x00 ∨ buffer bufferOffset = 0xFF
    · obtain ⟨fuel, rfl⟩ := Nat.exists_eq_add_of_le' (show 1 ≤ fuel by omega)
      rw [if_pos hend, if_pos hend, copyLongChars, if_neg (by simp), List.length_nil,
        putCells_nil]
      rfl
    · rw [if_neg hend, if_neg hend, writeCell, if_pos (by omega)]
      have hlength : j + 2 + 2 * n = j + 2 * (n + 1) := by omega
      have hnext := ih fuel (nameOffset + 1) (bufferOffset + 2) (j + 2)
        (Function.update name nameOffset (some (buffer bufferOffset))) (by omega) (by omega)
        (by omega)
      change copyLongChars buffer _ fuel _ = _
      rw [← hlength, hnext, putCells_cons, List.length_cons]
      congr 2 <;> omega

/-- A loop after the end of the name does nothing. -/
theorem copyLongChars_eof {fuel : ℕ} (length : ℕ) {st : LongState} (hfuel : 1 ≤ fuel)
    (heof : st.eof = true) : copyLongChars buffer length fuel st = .ok st := by
  obtain ⟨fuel, rfl⟩ := Nat.exists_eq_add_of_le' hfuel
  rw [copyLongChars, if_neg]
  rw [heof]
  exact fun h => Bool.noConfusion h.2

/-- The loop turns once. -/
theorem copyLongParts_turn {fuel : ℕ} {st st' : LongState}
    (h : (do
      let st ← copyLongChars buffer 10 (fuel + 2) st
      let st ← copyLongChars buffer 12 (fuel + 2)
        { st with bufferOffset := st.bufferOffset + 3, j := 0 }
      copyLongChars buffer 4 (fuel + 2) { st with bufferOffset := st.bufferOffset + 2, j := 0 })
        = .ok st')
    (hmore : st.bufferOffset ≠ 32 ∧ st.eof = false)
    (hend : st'.bufferOffset = 32 ∨ st'.eof = true) :
    copyLongParts buffer (fuel + 2) st = .ok st' := by
  have hstop : ¬ (st'.bufferOffset ≠ 32 ∧ st'.eof = false) := by
    rintro ⟨h32, heof⟩
    obtain hend | hend := hend
    · exact h32 hend
    · rw [hend] at heof
      cases heof
  rw [copyLongParts, if_pos hmore]
  cases h₁ : copyLongChars buffer 10 (fuel + 2) st with
  | error e =>
    rw [h₁] at h
    cases h
  | ok st₁ =>
    rw [h₁] at h
    change (copyLongChars buffer 12 (fuel + 2) _ >>= _) = _ at h
    change (copyLongChars buffer 12 (fuel + 2) _ >>= _) = _
    cases h₂ : copyLongChars buffer 12 (fuel + 2)
        { st₁ with bufferOffset := st₁.bufferOffset + 3, j := 0 } with
    | error e =>
      rw [h₂] at h
      cases h
    | ok st₂ =>
      rw [h₂] at h
      change copyLongChars buffer 4 (fuel + 2) _ = _ at h
      change (copyLongChars buffer 4 (fuel + 2) _ >>= _) = _
      rw [h]
      change copyLongParts buffer (fuel + 1) st' = _
      rw [copyLongParts, if_neg hstop]

/-- `_get_name_from_long` ends on every entry, stays inside its buffer and writes the name and its
final NUL. -/
theorem getNameFromLongInto_run (buffer : ℕ → UInt8) (name : Cells UInt8) {fuel : ℕ}
    (hfuel : 8 ≤ fuel) : getNameFromLongInto fuel buffer name =
      .ok (putCells name 0 (getNameFromLong buffer ++ [0])) := by
  obtain ⟨fuel, rfl⟩ := Nat.exists_eq_add_of_le' (show 2 ≤ fuel by omega)
  suffices h : ∃ st, copyLongParts buffer (fuel + 2) ⟨0, 1, 0, false, name⟩ = .ok st ∧
      st.nameOffset = (getNameFromLong buffer).length ∧
      st.name = putCells name 0 (getNameFromLong buffer) by
    obtain ⟨st, hloop, hoffset, hname⟩ := h
    have hlength := getNameFromLong_length_le buffer
    rw [getNameFromLongInto, hloop]
    change writeCell 16 st.name st.nameOffset 0 = _
    have hwrite := writeCell_end 16 0 name (getNameFromLong buffer) 0
    rw [Nat.zero_add, if_pos (by omega)] at hwrite
    rw [hoffset, hname, hwrite]
  have hfirst := copyLongChars_run buffer 5 (fuel + 2) 0 1 0 name (by omega) (by omega) (by omega)
  simp only [Nat.zero_add] at hfirst
  have hmore : (1 : ℕ) ≠ 32 ∧ false = false := ⟨by decide, rfl⟩
  have hstop (length : ℕ) (nameOffset bufferOffset j : ℕ) (name : Cells UInt8) :
      copyLongChars buffer length (fuel + 2) ⟨nameOffset, bufferOffset, j, true, name⟩ =
        .ok ⟨nameOffset, bufferOffset, j, true, name⟩ :=
    copyLongChars_eof length (by omega) rfl
  rw [getNameFromLong]
  dsimp only
  cases heof₁ : (longPart buffer 5 1).2 with
  | true =>
    rw [heof₁] at hfirst
    refine ⟨⟨(longPart buffer 5 1).1.length, 1 + 2 * (longPart buffer 5 1).1.length + 3 + 2, 0,
      true, putCells name 0 (longPart buffer 5 1).1⟩,
      copyLongParts_turn ?_ hmore (Or.inr rfl), rfl, rfl⟩
    rw [hfirst, ok_bind, hstop, ok_bind]
    exact hstop 4 _ _ _ _
  | false =>
    have hfull₁ := longPart_full buffer 5 1 heof₁
    rw [heof₁, hfull₁] at hfirst
    have hsecond := copyLongChars_run buffer 6 (fuel + 2) 5 14 0
      (putCells name 0 (longPart buffer 5 1).1) (by omega) (by omega) (by omega)
    have hjoin := putCells_append name 0 (longPart buffer 5 1).1 (longPart buffer 6 14).1
    rw [hfull₁] at hjoin
    rw [hjoin, Nat.zero_add] at hsecond
    cases heof₂ : (longPart buffer 6 14).2 with
    | true =>
      rw [heof₂] at hsecond
      refine ⟨⟨5 + (longPart buffer 6 14).1.length,
        14 + 2 * (longPart buffer 6 14).1.length + 2, 0, true,
        putCells name 0 ((longPart buffer 5 1).1 ++ (longPart buffer 6 14).1)⟩,
        copyLongParts_turn ?_ hmore (Or.inr rfl), ?_, rfl⟩
      · rw [hfirst, ok_bind, hsecond, ok_bind]
        exact hstop 4 _ _ _ _
      · change 5 + _ = ((longPart buffer 5 1).1 ++ (longPart buffer 6 14).1).length
        rw [List.length_append, hfull₁]
    | false =>
      have hfull₂ := longPart_full buffer 6 14 heof₂
      rw [heof₂, hfull₂] at hsecond
      have hthird := copyLongChars_run buffer 2 (fuel + 2) 11 28 0
        (putCells name 0 ((longPart buffer 5 1).1 ++ (longPart buffer 6 14).1))
        (by omega) (by omega) (by omega)
      have hjoin := putCells_append name 0 ((longPart buffer 5 1).1 ++ (longPart buffer 6 14).1)
        (longPart buffer 2 28).1
      rw [List.length_append, hfull₁, hfull₂] at hjoin
      simp only [hjoin, Nat.zero_add] at hthird
      refine ⟨⟨11 + (longPart buffer 2 28).1.length, 28 + 2 * (longPart buffer 2 28).1.length,
        2 * (longPart buffer 2 28).1.length, (longPart buffer 2 28).2, putCells name 0
          ((longPart buffer 5 1).1 ++ (longPart buffer 6 14).1 ++ (longPart buffer 2 28).1)⟩,
        copyLongParts_turn ?_ hmore ?_, ?_, rfl⟩
      · rw [hfirst, ok_bind, hsecond, ok_bind]
        exact hthird
      · cases heof₃ : (longPart buffer 2 28).2 with
        | true => exact Or.inr rfl
        | false =>
          refine Or.inl ?_
          change 28 + 2 * (longPart buffer 2 28).1.length = 32
          rw [longPart_full buffer 2 28 heof₃]
      · change 11 + _ = ((longPart buffer 5 1).1 ++ (longPart buffer 6 14).1 ++
          (longPart buffer 2 28).1).length
        rw [List.length_append, List.length_append, hfull₁, hfull₂]

end Long

/-! ## `_strcpy` -/

/-- The loop of `_strcpy` from an array of `srcSize` bytes into one of `size` bytes. -/
def strcpyFrom (size srcSize : ℕ) (src : Cells UInt8) :
    ℕ → ℕ → ℕ → Cells UInt8 → Except ArrayFault (Cells UInt8)
  | 0, _, _, _ => .error .endless
  | fuel + 1, i, at_, dest => do
    let c ← readCell srcSize src i
    if c ≠ 0 then do
      let dest ← writeCell size dest at_ c
      strcpyFrom size srcSize src fuel (i + 1) (at_ + 1) dest
    else writeCell size dest at_ 0

/-- `_strcpy` of a part of a name at an offset of an array of `size` bytes. -/
def strcpyInto (fuel size : ℕ) (dest : Cells UInt8) (offset : ℕ) (src : Cells UInt8) :
    Except ArrayFault (Cells UInt8) :=
  strcpyFrom size 16 src fuel 0 offset dest

section Strcpy

variable {size offset : ℕ} {src dest : Cells UInt8} {l : List UInt8}

/-- A copy of a string stays inside the array if the string and its NUL fit. -/
theorem strcpyFrom_run (size offset : ℕ) (dest : Cells UInt8) (hsrc : HoldsString src 0 l)
    (hl : ∀ c ∈ l, c ≠ 0) (hl16 : l.length < 16) {fuel : ℕ} (hfuel : l.length + 1 ≤ fuel) :
    strcpyInto fuel size dest offset src =
      if offset + l.length < size then .ok (putCells dest offset (l ++ [0]))
      else .error .outside := by
  suffices h : ∀ (n i at_ : ℕ) (dest : Cells UInt8) (fuel : ℕ), i + n = l.length → n + 1 ≤ fuel →
      strcpyFrom size 16 src fuel i at_ dest =
        if at_ + n < size then .ok (putCells dest at_ (l.drop i ++ [0])) else .error .outside by
    have := h l.length 0 offset dest fuel (Nat.zero_add _) hfuel
    rwa [List.drop_zero] at this
  intro n
  induction n with
  | zero =>
    intro i at_ dest fuel hi hfuel
    obtain ⟨fuel, rfl⟩ := Nat.exists_eq_add_of_le' hfuel
    obtain rfl : i = l.length := hi
    have hread : src l.length = some 0 := by
      have := hsrc l.length le_rfl
      rwa [Nat.zero_add, List.getElem?_concat_length] at this
    rw [strcpyFrom, readCell, if_pos (by omega), hread, ok_bind]
    rw [if_neg (fun h => h rfl), writeCell, Nat.add_zero, List.drop_of_length_le (by omega),
      List.nil_append, putCells_cons, putCells_nil]
  | succ n ih =>
    intro i at_ dest fuel hi hfuel
    obtain ⟨fuel, rfl⟩ := Nat.exists_eq_add_of_le' (show 1 ≤ fuel by omega)
    have hin : i < l.length := by omega
    have hread : src i = some l[i] := by
      have := hsrc i (by omega)
      rwa [Nat.zero_add, List.getElem?_append_left hin, List.getElem?_eq_getElem hin] at this
    rw [strcpyFrom, readCell, if_pos (by omega), hread, ok_bind,
      if_pos (hl _ (List.getElem_mem hin)), writeCell]
    by_cases hfits : at_ < size
    · rw [if_pos hfits, ok_bind, ih (i + 1) (at_ + 1) _ fuel (by omega) (by omega),
        List.drop_eq_getElem_cons hin, List.cons_append, putCells_cons,
        show at_ + 1 + n = at_ + (n + 1) by omega]
    · rw [if_neg hfits, if_neg (by omega)]
      rfl

/-- A copy of a part that has not been written. -/
theorem strcpyFrom_unwritten (hsrc : src 0 = none) {fuel : ℕ} (hfuel : 1 ≤ fuel) :
    strcpyInto fuel size dest offset src = .error .unwritten := by
  obtain ⟨fuel, rfl⟩ := Nat.exists_eq_add_of_le' hfuel
  rw [strcpyInto, strcpyFrom, readCell, if_pos (by decide), hsrc]
  rfl

end Strcpy

/-! ## `_get_name_from_short` -/

/-- The two loops of `_get_name_from_short`, with the index in the name. The dot comes before the
first character of the extension. -/
def copyShortChars (size : ℕ) (buffer : ℕ → UInt8) :
    ℕ → ℕ → ℕ → Cells UInt8 → Except ArrayFault (ℕ × Cells UInt8)
  | 0, _, j, name => .ok (j, name)
  | n + 1, i, j, name =>
    if buffer i = 0x20 then .ok (j, name)
    else if i = 8 then do
      let name ← writeCell size name j 0x2E
      let name ← writeCell size name (j + 1) (toLower (buffer i))
      copyShortChars size buffer n (i + 1) (j + 2) name
    else do
      let name ← writeCell size name j (toLower (buffer i))
      copyShortChars size buffer n (i + 1) (j + 1) name

/-- `_get_name_from_short` into an array of `size` bytes. -/
def getNameFromShortInto (size : ℕ) (buffer : ℕ → UInt8) (name : Cells UInt8) :
    Except ArrayFault (Cells UInt8) := do
  let (j, name) ← copyShortChars size buffer 8 0 0 name
  let (j, name) ← copyShortChars size buffer 3 8 j name
  writeCell size name j 0

/-- The characters that `_get_name_from_short` writes before its final NUL. -/
def shortChars (buffer : ℕ → UInt8) : List UInt8 :=
  shortPart buffer 8 0 ++
    if shortPart buffer 3 8 = [] then [] else 0x2E :: shortPart buffer 3 8

section Short

variable {size : ℕ} {buffer : ℕ → UInt8}

theorem shortPart_length_le (buffer : ℕ → UInt8) (n i : ℕ) :
    (shortPart buffer n i).length ≤ n := by
  induction n generalizing i with
  | zero => exact le_rfl
  | succ n ih =>
    rw [shortPart]
    split
    · exact Nat.zero_le _
    · have := ih (i + 1)
      simp only [List.length_cons]
      omega

theorem shortChars_length_le (buffer : ℕ → UInt8) : (shortChars buffer).length ≤ 12 := by
  have hname := shortPart_length_le buffer 8 0
  have hext := shortPart_length_le buffer 3 8
  rw [shortChars, List.length_append]
  split
  · rw [List.length_nil]
    omega
  · rw [List.length_cons]
    omega

/-- Outside the first character of the extension, a loop copies the characters up to a blank. -/
theorem copyShortChars_run (n : ℕ) {i j : ℕ} (name : Cells UInt8) (hi : i + n ≤ 8 ∨ 8 < i)
    (hroom : j + n ≤ size) : copyShortChars size buffer n i j name =
      .ok (j + (shortPart buffer n i).length, putCells name j (shortPart buffer n i)) := by
  induction n generalizing i j name with
  | zero =>
    rw [copyShortChars, shortPart, List.length_nil, putCells_nil]
    rfl
  | succ n ih =>
    rw [copyShortChars, shortPart]
    by_cases hblank : buffer i = 0x20
    · rw [if_pos hblank, if_pos hblank, List.length_nil, putCells_nil]
      rfl
    · rw [if_neg hblank, if_neg hblank, if_neg (by omega), writeCell, if_pos (by omega), ok_bind,
        ih _ (by omega) (by omega), putCells_cons, List.length_cons]
      congr 2
      omega

/-- The name and its extension fit in the arrays of the scanners. -/
theorem getNameFromShortInto_run (hsize : 13 ≤ size) (name : Cells UInt8) :
    getNameFromShortInto size buffer name = .ok (putCells name 0 (shortChars buffer ++ [0])) := by
  have hname := shortPart_length_le buffer 8 0
  have hext := shortPart_length_le buffer 2 (8 + 1)
  have hlength := shortChars_length_le buffer
  suffices h : (do
      let (j, name) ← copyShortChars size buffer 8 0 0 name
      copyShortChars size buffer 3 8 j name) =
      .ok (0 + (shortChars buffer).length, putCells name 0 (shortChars buffer)) by
    have hwrite := writeCell_end size 0 name (shortChars buffer) 0
    rw [if_pos (by omega)] at hwrite
    rw [← hwrite]
    change (copyShortChars size buffer 8 0 0 name >>= fun r =>
      copyShortChars size buffer 3 8 r.1 r.2 >>= fun r => writeCell size r.2 r.1 0) = _
    rw [← bind_assoc, show (copyShortChars size buffer 8 0 0 name >>= fun r =>
      copyShortChars size buffer 3 8 r.1 r.2) = _ from h]
    rfl
  rw [copyShortChars_run 8 name (Or.inl (by omega)) (by omega), ok_bind]
  change copyShortChars size buffer 3 8 _ _ = _
  have hdot : shortPart buffer 3 8 =
      if buffer 8 = 0x20 then [] else toLower (buffer 8) :: shortPart buffer 2 (8 + 1) := rfl
  rw [copyShortChars, shortChars, hdot]
  by_cases hblank : buffer 8 = 0x20
  · rw [if_pos hblank, if_pos hblank, if_pos rfl, List.append_nil]
  · rw [if_neg hblank, if_neg hblank, if_pos rfl, if_neg (List.cons_ne_nil _ _), writeCell,
      if_pos (by omega), ok_bind, writeCell, if_pos (by omega), ok_bind,
      copyShortChars_run 2 _ (Or.inr (by omega)) (by omega), ← putCells_append, putCells_cons,
      putCells_cons, List.length_append, List.length_cons, List.length_cons]
    congr 2
    omega

end Short

end GietVm.Fat
