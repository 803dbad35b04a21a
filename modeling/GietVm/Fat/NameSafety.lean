import GietVm.Fat.NameBuffers

/-!
# Decoding the names of a directory

`_get_child_from_parent`, `_file_info_no_cache` and `_fat_readdir` read the entries of a
directory one after the other, whatever bytes another system has left there. The loop is given
once, with the size of the array that gets the name and the test that stops it. The bytes of
the three parts count as written for the current entry until an entry that is not an LFN entry
has been read, while the number of parts survives the free entries.

The loop stays inside its arrays exactly when each NORMAL entry that it reaches comes just
after its parts, none of them missing and the third one short enough.
-/

namespace GietVm.Fat

open GietVm.Library

/-! ## The scanners -/

/-- The variables `lfn`, `lfn1`, `lfn2` and `lfn3` of a scanner. -/
structure NameScan where
  lfn : ℕ
  lfn1 : Cells UInt8
  lfn2 : Cells UInt8
  lfn3 : Cells UInt8

/-- The variables at the beginning of a scanner. -/
def NameScan.start : NameScan := ⟨0, fun _ => none, fun _ => none, fun _ => none⟩

/-- After an entry that is not an LFN entry, the bytes of the parts belong to no current entry. -/
def NameScan.forget (scan : NameScan) : NameScan :=
  ⟨scan.lfn, fun _ => none, fun _ => none, fun _ => none⟩

/-- What a scanner does with an LFN entry. -/
def NameScan.recordInto (fuel : ℕ) (scan : NameScan) (ord : ℕ) (buffer : ℕ → UInt8) :
    Except ArrayFault NameScan :=
  let seq := ord % 4
  let lfn := if seq > scan.lfn then seq else scan.lfn
  if seq = 1 then do
    let name ← getNameFromLongInto fuel buffer scan.lfn1
    pure ⟨lfn, name, scan.lfn2, scan.lfn3⟩
  else if seq = 2 then do
    let name ← getNameFromLongInto fuel buffer scan.lfn2
    pure ⟨lfn, scan.lfn1, name, scan.lfn3⟩
  else if seq = 3 then do
    let name ← getNameFromLongInto fuel buffer scan.lfn3
    pure ⟨lfn, scan.lfn1, scan.lfn2, name⟩
  else pure ⟨lfn, scan.lfn1, scan.lfn2, scan.lfn3⟩

/-- The name that a scanner builds for a NORMAL entry in an array of `size` bytes. -/
def NameScan.nameInto (fuel size : ℕ) (scan : NameScan) (buffer : ℕ → UInt8)
    (cname : Cells UInt8) : Except ArrayFault (Cells UInt8) :=
  match scan.lfn with
  | 0 => getNameFromShortInto size buffer cname
  | 1 => strcpyInto fuel size cname 0 scan.lfn1
  | 2 => do
    let cname ← strcpyInto fuel size cname 0 scan.lfn1
    strcpyInto fuel size cname 13 scan.lfn2
  | _ => do
    let cname ← strcpyInto fuel size cname 0 scan.lfn1
    let cname ← strcpyInto fuel size cname 13 scan.lfn2
    strcpyInto fuel size cname 26 scan.lfn3

theorem NameScan.nameInto_two {fuel size : ℕ} {scan : NameScan} {buffer : ℕ → UInt8}
    {cname : Cells UInt8} (h : scan.lfn = 2) : scan.nameInto fuel size buffer cname =
      strcpyInto fuel size cname 0 scan.lfn1 >>= fun cname =>
        strcpyInto fuel size cname 13 scan.lfn2 := by
  rw [NameScan.nameInto, h]
  rfl

theorem NameScan.nameInto_three {fuel size : ℕ} {scan : NameScan} {buffer : ℕ → UInt8}
    {cname : Cells UInt8} (h : scan.lfn = 3) : scan.nameInto fuel size buffer cname =
      strcpyInto fuel size cname 0 scan.lfn1 >>= fun cname =>
        strcpyInto fuel size cname 13 scan.lfn2 >>= fun cname =>
          strcpyInto fuel size cname 26 scan.lfn3 := by
  rw [NameScan.nameInto, h]
  rfl

/-- The string in an array of `size` bytes. -/
def arrayString (size : ℕ) (a : Cells UInt8) : List UInt8 :=
  cString ((List.range size).map fun i => (a i).getD 0)

/-- The loop of a scanner on `n` entries from entry `i` on. -/
def scanNames (fuel size : ℕ) (stop : List UInt8 → Bool) (entry : ℕ → ℕ → UInt8) :
    ℕ → ℕ → NameScan → Cells UInt8 → Except ArrayFault Unit
  | 0, _, _, _ => .ok ()
  | n + 1, i, scan, cname =>
    let attr := readEntry 11 1 (entry i) false
    let ord := readEntry 0 1 (entry i) false
    if ord = noMoreEntry then .ok ()
    else if ord = freeEntry then scanNames fuel size stop entry n (i + 1) scan.forget cname
    else if attr = attrLongNameMask then do
      let scan ← scan.recordInto fuel ord (entry i)
      scanNames fuel size stop entry n (i + 1) scan cname
    else do
      let cname ← scan.nameInto fuel size (entry i) cname
      if stop (arrayString size cname) then .ok ()
      else scanNames fuel size stop entry n (i + 1) .start cname

/-- The decoding of `_get_child_from_parent`, which stops at the name that it searches. -/
def getChildFromParentNames (fuel : ℕ) (name : List UInt8) (entry : ℕ → ℕ → UInt8) (n : ℕ) :
    Except ArrayFault Unit :=
  scanNames fuel 32 (fun cname => decide (name = cname)) entry n 0 .start fun _ => none

/-- The decoding of `_file_info_no_cache`, which stops at the name that it searches. -/
def fileInfoNoCacheNames (fuel : ℕ) (name : List UInt8) (entry : ℕ → ℕ → UInt8) (n : ℕ) :
    Except ArrayFault Unit :=
  scanNames fuel 32 (fun cname => decide (name = cname)) entry n 0 .start fun _ => none

/-- The decoding of `_fat_readdir`, which stops at the first NORMAL entry. -/
def fatReaddirNames (fuel : ℕ) (entry : ℕ → ℕ → UInt8) (n : ℕ) : Except ArrayFault Unit :=
  scanNames fuel 36 (fun _ => true) entry n 0 .start fun _ => none

/-! ## What a directory must say -/

/-- The number of parts and the parts of the current entry, without those before the last entry
that is not an LFN entry. -/
def LfnScan.forget (scan : LfnScan) : LfnScan := { lfn := scan.lfn }

/-- The LFN entries before an entry: the largest number since the last NORMAL entry, and the
parts that come just before the entry. -/
def pendingAt (entry : ℕ → ℕ → UInt8) : ℕ → LfnScan
  | 0 => {}
  | i + 1 =>
    if readEntry 0 1 (entry i) false = freeEntry then (pendingAt entry i).forget
    else if readEntry 11 1 (entry i) false = attrLongNameMask then
      (pendingAt entry i).record (readEntry 0 1 (entry i) false) (entry i)
    else {}

/-- No part is missing, and the third one fits in an array of `size` bytes. -/
structure LfnScan.Complete (scan : LfnScan) (size : ℕ) : Prop where
  first : 1 ≤ scan.lfn → scan.lfn1 ≠ none
  second : 2 ≤ scan.lfn → scan.lfn2 ≠ none
  third : 3 ≤ scan.lfn → ∃ part, scan.lfn3 = some part ∧ 26 + part.length < size

/-- The name of a NORMAL entry after its parts. -/
def LfnScan.fullName (scan : LfnScan) (buffer : ℕ → UInt8) : List UInt8 :=
  match scan.lfn with
  | 0 => getNameFromShort buffer
  | 1 => joinParts [scan.lfn1.getD []]
  | 2 => joinParts [scan.lfn1.getD [], scan.lfn2.getD []]
  | _ => joinParts [scan.lfn1.getD [], scan.lfn2.getD [], scan.lfn3.getD []]

/-- A scanner goes past an entry: it is not the end of the directory and its name does not stop
the scanner. -/
def Passed (stop : List UInt8 → Bool) (entry : ℕ → ℕ → UInt8) (j : ℕ) : Prop :=
  readEntry 0 1 (entry j) false ≠ noMoreEntry ∧
    (IsNormal (entry j) → stop ((pendingAt entry j).fullName (entry j)) = false)

/-- Among `n` entries from entry `i` on, each NORMAL entry that a scanner reaches comes just after
its parts. -/
def DecodableFrom (size : ℕ) (stop : List UInt8 → Bool) (entry : ℕ → ℕ → UInt8) (i n : ℕ) : Prop :=
  ∀ k, i ≤ k → k < i + n → (∀ j, i ≤ j → j < k → Passed stop entry j) → IsNormal (entry k) →
    (pendingAt entry k).Complete size

/-- Each NORMAL entry that a scanner reaches comes just after its parts. -/
abbrev Decodable (size : ℕ) (stop : List UInt8 → Bool) (entry : ℕ → ℕ → UInt8) (n : ℕ) : Prop :=
  DecodableFrom size stop entry 0 n

/-! ## Strings in arrays -/

section Strings

variable {a : Cells UInt8} {offset k : ℕ} {l r : List UInt8}

theorem cString_append_nul (l rest : List UInt8) : cString (l ++ 0 :: rest) = cString l := by
  induction l with
  | nil => rfl
  | cons c l ih =>
    rw [cString, cString, List.cons_append, List.takeWhile_cons, List.takeWhile_cons]
    split
    · rw [← cString, ← cString, ih]
    · rfl

theorem cString_self (hl : ∀ c ∈ l, c ≠ 0) : cString l = l := by
  rw [cString, List.takeWhile_eq_self_iff]
  intro c hc
  exact decide_eq_true (hl c hc)

/-- The string in an array that holds it. -/
theorem HoldsString.arrayString {size : ℕ} (h : HoldsString a 0 l) (hsize : l.length < size) :
    arrayString size a = cString l := by
  have htake : ((List.range size).map fun i => (a i).getD 0).take (l.length + 1) = l ++ [0] := by
    refine List.ext_getElem? fun i => ?_
    by_cases hi : i < l.length + 1
    · have hread := h i (by omega)
      rw [Nat.zero_add] at hread
      rw [List.getElem?_take_of_lt hi, List.getElem?_map, List.getElem?_range (by omega),
        Option.map_some, hread, List.getElem?_eq_getElem (by simpa using hi), Option.getD_some]
    · rw [List.getElem?_eq_none (by simp; omega), List.getElem?_eq_none (by simp; omega)]
  rw [Fat.arrayString, ← List.take_append_drop (l.length + 1) (List.map _ _), htake,
    List.append_assoc]
  exact cString_append_nul l _

theorem HoldsString.below (h : HoldsString a offset l) (hk : offset + l.length < k) :
    HoldsString (putCells a k r) offset l := by
  intro i hi
  rw [putCells_below (by omega)]
  exact h i hi

/-- A string that ends where another one is copied is continued by it. -/
theorem HoldsString.append (h : HoldsString a offset l) (hk : offset + l.length = k) :
    HoldsString (putCells a k (r ++ [0])) offset (l ++ r) := by
  intro i hi
  rw [List.length_append] at hi
  rw [List.append_assoc]
  by_cases hlt : i < l.length
  · rw [putCells_below (by omega), h i hlt.le, List.getElem?_append_left hlt,
      List.getElem?_append_left hlt]
  · have hr := holdsString_putCells a k r (i - l.length) (by omega)
    rw [List.getElem?_append_right (by omega), ← hr]
    congr 1
    omega

variable {p₁ p₂ p₃ : List UInt8}

theorem joinParts_one (p : List UInt8) : joinParts [p] = p := by
  rw [joinParts, joinParts, List.append_nil, ite_self]

theorem holdsString_two (a : Cells UInt8) (p₂ : List UInt8) (hl₁ : p₁.length ≤ 13) :
    HoldsString (putCells (putCells a 0 (p₁ ++ [0])) 13 (p₂ ++ [0])) 0 (joinParts [p₁, p₂]) := by
  have h₁ := holdsString_putCells a 0 p₁
  rw [joinParts, joinParts_one]
  split
  · exact h₁.append (by omega)
  · exact h₁.below (by omega)

theorem holdsString_three (a : Cells UInt8) (hl₁ : p₁.length ≤ 13) (hl₂ : p₂.length ≤ 13) :
    HoldsString (putCells (putCells (putCells a 0 (p₁ ++ [0])) 13 (p₂ ++ [0])) 26 (p₃ ++ [0])) 0
      (joinParts [p₁, p₂, p₃]) := by
  have h₂ := holdsString_two a p₂ hl₁
  rw [joinParts, joinParts_one] at h₂
  rw [joinParts, joinParts, joinParts_one]
  split
  · rename_i hfull
    rw [if_pos hfull] at h₂
    split
    · rw [← List.append_assoc]
      refine h₂.append ?_
      rw [List.length_append]
      omega
    · refine h₂.below ?_
      rw [List.length_append]
      omega
  · rename_i hshort
    rw [if_neg hshort] at h₂
    exact h₂.below (by omega)

end Strings

/-! ## The scanners on memory and on lists -/

/-- An array holds a part of the current entry, if there is one. -/
def PartMatches (a : Cells UInt8) : Option (List UInt8) → Prop
  | none => a 0 = none
  | some p => HoldsString a 0 p ∧ (∀ c ∈ p, c ≠ 0) ∧ p.length ≤ 13

/-- The variables of a scanner on memory and on lists. -/
structure NameScan.Matches (scan : NameScan) (parts : LfnScan) : Prop where
  lfn : scan.lfn = parts.lfn
  small : parts.lfn ≤ 3
  first : PartMatches scan.lfn1 parts.lfn1
  second : PartMatches scan.lfn2 parts.lfn2
  third : PartMatches scan.lfn3 parts.lfn3

section Matches

variable {fuel size : ℕ} {scan : NameScan} {parts : LfnScan} {buffer : ℕ → UInt8}

theorem NameScan.matches_start : NameScan.start.Matches {} :=
  ⟨rfl, Nat.zero_le _, rfl, rfl, rfl⟩

theorem NameScan.Matches.forget (h : scan.Matches parts) : scan.forget.Matches parts.forget :=
  ⟨h.lfn, h.small, rfl, rfl, rfl⟩

/-- Decoding an LFN entry into the array of its part. -/
theorem getNameFromLongInto_matches (hfuel : 16 ≤ fuel) (buffer : ℕ → UInt8) (a : Cells UInt8) :
    ∃ a', getNameFromLongInto fuel buffer a = .ok a' ∧
      PartMatches a' (some (getNameFromLong buffer)) :=
  ⟨_, getNameFromLongInto_run buffer a (by omega), holdsString_putCells a 0 _,
    getNameFromLong_ne_zero buffer, getNameFromLong_length_le buffer⟩

/-- An LFN entry never makes a scanner leave its arrays. -/
theorem NameScan.Matches.record (h : scan.Matches parts) (hfuel : 16 ≤ fuel) (ord : ℕ)
    (buffer : ℕ → UInt8) : ∃ scan', scan.recordInto fuel ord buffer = .ok scan' ∧
      scan'.Matches (parts.record ord buffer) := by
  have hseq : ord % 4 < 4 := Nat.mod_lt _ (by decide)
  have hlfn : (if ord % 4 > scan.lfn then ord % 4 else scan.lfn) =
      if ord % 4 > parts.lfn then ord % 4 else parts.lfn := by rw [h.lfn]
  have hsmall : (if ord % 4 > parts.lfn then ord % 4 else parts.lfn) ≤ 3 := by
    have := h.small
    split <;> omega
  obtain ⟨a₁, hrun₁, ha₁⟩ := getNameFromLongInto_matches hfuel buffer scan.lfn1
  obtain ⟨a₂, hrun₂, ha₂⟩ := getNameFromLongInto_matches hfuel buffer scan.lfn2
  obtain ⟨a₃, hrun₃, ha₃⟩ := getNameFromLongInto_matches hfuel buffer scan.lfn3
  rw [NameScan.recordInto, LfnScan.record]
  obtain hzero | hone | htwo | hthree : ord % 4 = 0 ∨ ord % 4 = 1 ∨ ord % 4 = 2 ∨ ord % 4 = 3 := by
    omega
  · rw [hzero] at hlfn hsmall ⊢
    exact ⟨_, rfl, hlfn, hsmall, h.first, h.second, h.third⟩
  · rw [hone] at hlfn hsmall ⊢
    rw [if_pos rfl, hrun₁]
    exact ⟨_, rfl, hlfn, hsmall, ha₁, h.second, h.third⟩
  · rw [htwo] at hlfn hsmall ⊢
    rw [if_neg (by decide), if_pos rfl, hrun₂]
    exact ⟨_, rfl, hlfn, hsmall, h.first, ha₂, h.third⟩
  · rw [hthree] at hlfn hsmall ⊢
    rw [if_neg (by decide), if_neg (by decide), if_pos rfl, hrun₃]
    exact ⟨_, rfl, hlfn, hsmall, h.first, h.second, ha₃⟩

/-- Copying a part that is missing. -/
theorem strcpyInto_none {a dest : Cells UInt8} {offset : ℕ} (h : PartMatches a none)
    (hfuel : 16 ≤ fuel) : strcpyInto fuel size dest offset a = .error .unwritten :=
  strcpyFrom_unwritten h (by omega)

/-- Copying a part. -/
theorem strcpyInto_some (size offset : ℕ) (dest : Cells UInt8) {a : Cells UInt8} {p : List UInt8}
    (h : PartMatches a (some p)) (hfuel : 16 ≤ fuel) : strcpyInto fuel size dest offset a =
      if offset + p.length < size then .ok (putCells dest offset (p ++ [0]))
      else .error .outside := by
  obtain ⟨hholds, hzero, hlength⟩ := h
  exact strcpyFrom_run size offset dest hholds hzero (by omega) (by omega)

/-- A scanner builds the name of an entry whose parts are complete. -/
theorem NameScan.Matches.name (h : scan.Matches parts) (hfuel : 16 ≤ fuel) (hsize : 27 ≤ size)
    (hcomplete : parts.Complete size) (buffer : ℕ → UInt8) (cname : Cells UInt8) :
    ∃ cname', scan.nameInto fuel size buffer cname = .ok cname' ∧
      arrayString size cname' = parts.fullName buffer := by
  obtain ⟨lfn, lfn1, lfn2, lfn3⟩ := parts
  obtain ⟨rfl, hsmall, h₁, h₂, h₃⟩ := h
  obtain ⟨hc₁, hc₂, hc₃⟩ := hcomplete
  rw [LfnScan.fullName]
  dsimp only at hsmall h₁ h₂ h₃ hc₁ hc₂ hc₃ ⊢
  obtain hzero | hone | htwo | hthree :
      scan.lfn = 0 ∨ scan.lfn = 1 ∨ scan.lfn = 2 ∨ scan.lfn = 3 := by omega
  · rw [NameScan.nameInto, hzero]
    have hlength := shortChars_length_le buffer
    exact ⟨_, getNameFromShortInto_run (by omega) cname,
      (holdsString_putCells cname 0 (shortChars buffer)).arrayString (by omega)⟩
  all_goals
    obtain ⟨p₁, rfl⟩ := Option.ne_none_iff_exists'.mp (hc₁ (by omega))
    have hcopy₁ := strcpyInto_some size 0 cname h₁ hfuel
    obtain ⟨-, hzero₁, hlength₁⟩ := h₁
    rw [if_pos (by omega)] at hcopy₁
  · rw [NameScan.nameInto, hone]
    refine ⟨_, hcopy₁, ?_⟩
    change _ = joinParts [p₁]
    rw [joinParts_one, (holdsString_putCells cname 0 p₁).arrayString (by omega),
      cString_self hzero₁]
  all_goals
    obtain ⟨p₂, rfl⟩ := Option.ne_none_iff_exists'.mp (hc₂ (by omega))
    have hcopy₂ := strcpyInto_some size 13 (putCells cname 0 (p₁ ++ [0])) h₂ hfuel
    obtain ⟨-, hzero₂, hlength₂⟩ := h₂
    rw [if_pos (by omega)] at hcopy₂
  · rw [NameScan.nameInto_two htwo, htwo]
    refine ⟨putCells (putCells cname 0 (p₁ ++ [0])) 13 (p₂ ++ [0]), ?_, ?_⟩
    · rw [hcopy₁, ok_bind, hcopy₂]
    · change _ = joinParts [p₁, p₂]
      have hlength : (joinParts [p₁, p₂]).length < size := by
        rw [joinParts, joinParts_one]
        split
        · rw [List.length_append]
          omega
        · omega
      rw [(holdsString_two cname p₂ hlength₁).arrayString hlength, cString_self]
      rw [joinParts, joinParts_one]
      split
      · intro c hc
        exact (List.mem_append.mp hc).elim (hzero₁ c) (hzero₂ c)
      · exact hzero₁
  · obtain ⟨p₃, rfl, hfits⟩ := hc₃ (by omega)
    have hcopy₃ := strcpyInto_some size 26
      (putCells (putCells cname 0 (p₁ ++ [0])) 13 (p₂ ++ [0])) h₃ hfuel
    obtain ⟨-, hzero₃, hlength₃⟩ := h₃
    rw [if_pos hfits] at hcopy₃
    rw [NameScan.nameInto_three hthree, hthree]
    refine ⟨putCells (putCells (putCells cname 0 (p₁ ++ [0])) 13 (p₂ ++ [0])) 26 (p₃ ++ [0]),
      ?_, ?_⟩
    · rw [hcopy₁, ok_bind, hcopy₂, ok_bind, hcopy₃]
    · change _ = joinParts [p₁, p₂, p₃]
      have hjoin : (∀ c ∈ joinParts [p₁, p₂, p₃], c ≠ 0) ∧
          (joinParts [p₁, p₂, p₃]).length < size := by
        rw [joinParts, joinParts, joinParts_one]
        split
        · split
          · refine ⟨fun c hc => ?_, ?_⟩
            · obtain hc | hc := List.mem_append.mp hc
              · exact hzero₁ c hc
              · exact (List.mem_append.mp hc).elim (hzero₂ c) (hzero₃ c)
            · rw [List.length_append, List.length_append]
              omega
          · refine ⟨fun c hc => (List.mem_append.mp hc).elim (hzero₁ c) (hzero₂ c), ?_⟩
            rw [List.length_append]
            omega
        · exact ⟨hzero₁, by omega⟩
      rw [(holdsString_three cname hlength₁ hlength₂).arrayString hjoin.2, cString_self hjoin.1]

/-- A scanner that builds a name has all the parts of the entry. -/
theorem NameScan.Matches.complete (h : scan.Matches parts) (hfuel : 16 ≤ fuel)
    {cname cname' : Cells UInt8} (hname : scan.nameInto fuel size buffer cname = .ok cname') :
    parts.Complete size := by
  obtain ⟨lfn, lfn1, lfn2, lfn3⟩ := parts
  obtain ⟨rfl, hsmall, h₁, h₂, h₃⟩ := h
  dsimp only at hsmall h₁ h₂ h₃
  obtain hzero | hone | htwo | hthree :
      scan.lfn = 0 ∨ scan.lfn = 1 ∨ scan.lfn = 2 ∨ scan.lfn = 3 := by omega
  · exact ⟨fun hle => absurd hle (by dsimp only; omega), fun hle => absurd hle (by dsimp only; omega),
      fun hle => absurd hle (by dsimp only; omega)⟩
  · rw [NameScan.nameInto, hone] at hname
    refine ⟨fun _ hnone => ?_, fun hle => absurd hle (by dsimp only; omega),
      fun hle => absurd hle (by dsimp only; omega)⟩
    dsimp only at hnone
    subst hnone
    rw [show strcpyInto fuel size cname 0 scan.lfn1 = _ from strcpyInto_none h₁ hfuel] at hname
    cases hname
  · rw [NameScan.nameInto_two htwo] at hname
    refine ⟨fun _ hnone => ?_, fun _ hnone => ?_, fun hle => absurd hle (by dsimp only; omega)⟩
    · dsimp only at hnone
      subst hnone
      rw [strcpyInto_none h₁ hfuel] at hname
      cases hname
    · dsimp only at hnone
      subst hnone
      cases hcopy : strcpyInto fuel size cname 0 scan.lfn1 with
      | error e =>
        rw [hcopy] at hname
        cases hname
      | ok a =>
        rw [hcopy, ok_bind, strcpyInto_none h₂ hfuel] at hname
        cases hname
  · rw [NameScan.nameInto_three hthree] at hname
    cases hcopy₁ : strcpyInto fuel size cname 0 scan.lfn1 with
    | error e =>
      rw [hcopy₁] at hname
      cases hname
    | ok a₁ =>
      rw [hcopy₁, ok_bind] at hname
      cases hcopy₂ : strcpyInto fuel size a₁ 13 scan.lfn2 with
      | error e =>
        rw [hcopy₂] at hname
        cases hname
      | ok a₂ =>
        rw [hcopy₂, ok_bind] at hname
        refine ⟨fun _ hnone => ?_, fun _ hnone => ?_, fun _ => ?_⟩
        · dsimp only at hnone
          subst hnone
          rw [strcpyInto_none h₁ hfuel] at hcopy₁
          cases hcopy₁
        · dsimp only at hnone
          subst hnone
          rw [strcpyInto_none h₂ hfuel] at hcopy₂
          cases hcopy₂
        · cases lfn3 with
          | none =>
            rw [strcpyInto_none h₃ hfuel] at hname
            cases hname
          | some p₃ =>
            refine ⟨p₃, rfl, ?_⟩
            by_contra hfits
            rw [strcpyInto_some size 26 a₂ h₃ hfuel, if_neg hfits] at hname
            cases hname

end Matches

/-! ## When the scanners stay inside their arrays -/

section Scanners

variable {fuel size : ℕ} {stop : List UInt8 → Bool} {entry : ℕ → ℕ → UInt8}

theorem decodableFrom_zero (i : ℕ) : DecodableFrom size stop entry i 0 :=
  fun _ hle hlt => absurd hlt (by omega)

theorem decodableFrom_succ (i n : ℕ) : DecodableFrom size stop entry i (n + 1) ↔
    (IsNormal (entry i) → (pendingAt entry i).Complete size) ∧
      (Passed stop entry i → DecodableFrom size stop entry (i + 1) n) := by
  constructor
  · intro h
    refine ⟨h i le_rfl (by omega) fun j hle hlt => absurd hlt (by omega),
      fun hpassed k hle hlt hbefore => h k (by omega) (by omega) fun j hj hjk => ?_⟩
    obtain rfl | hne := eq_or_ne i j
    · exact hpassed
    · exact hbefore j (by omega) hjk
  · intro h k hle hlt hbefore
    obtain rfl | hne := eq_or_ne i k
    · exact h.1
    · exact h.2 (hbefore i le_rfl (by omega)) k (by omega) (by omega)
        fun j hj hjk => hbefore j (by omega) hjk

/-- From variables that hold the entries before it, the loop stays inside its arrays exactly when
the entries that follow can be decoded. -/
theorem scanNames_iff (hfuel : 16 ≤ fuel) (hsize : 27 ≤ size) (n : ℕ) {i : ℕ} {scan : NameScan}
    {cname : Cells UInt8} (h : scan.Matches (pendingAt entry i)) :
    scanNames fuel size stop entry n i scan cname = .ok () ↔
      DecodableFrom size stop entry i n := by
  induction n generalizing i scan cname with
  | zero => exact ⟨fun _ => decodableFrom_zero i, fun _ => rfl⟩
  | succ n ih =>
    rw [decodableFrom_succ, scanNames]
    by_cases hend : readEntry 0 1 (entry i) false = noMoreEntry
    · rw [if_pos hend]
      exact ⟨fun _ => ⟨fun hn => absurd hend hn.1, fun hp => absurd hend hp.1⟩, fun _ => rfl⟩
    rw [if_neg hend]
    by_cases hfree : readEntry 0 1 (entry i) false = freeEntry
    · rw [if_pos hfree]
      have hnext : scan.forget.Matches (pendingAt entry (i + 1)) := by
        rw [pendingAt, if_pos hfree]
        exact h.forget
      have hnot : ¬ IsNormal (entry i) := fun hn => hn.2.1 hfree
      rw [ih hnext]
      exact ⟨fun hrest => ⟨fun hn => absurd hn hnot, fun _ => hrest⟩,
        fun hall => hall.2 ⟨hend, fun hn => absurd hn hnot⟩⟩
    rw [if_neg hfree]
    by_cases hlong : readEntry 11 1 (entry i) false = attrLongNameMask
    · rw [if_pos hlong]
      obtain ⟨scan', hrun, hmatches⟩ :=
        h.record hfuel (readEntry 0 1 (entry i) false) (entry i)
      have hnext : scan'.Matches (pendingAt entry (i + 1)) := by
        rw [pendingAt, if_neg hfree, if_pos hlong]
        exact hmatches
      have hnot : ¬ IsNormal (entry i) := fun hn => hn.2.2 hlong
      rw [hrun, ok_bind, ih hnext]
      exact ⟨fun hrest => ⟨fun hn => absurd hn hnot, fun _ => hrest⟩,
        fun hall => hall.2 ⟨hend, fun hn => absurd hn hnot⟩⟩
    rw [if_neg hlong]
    have hnormal : IsNormal (entry i) := ⟨hend, hfree, hlong⟩
    by_cases hcomplete : (pendingAt entry i).Complete size
    · obtain ⟨cname', hrun, hname⟩ := h.name hfuel hsize hcomplete (entry i) cname
      have hnext : NameScan.start.Matches (pendingAt entry (i + 1)) := by
        rw [pendingAt, if_neg hfree, if_neg hlong]
        exact NameScan.matches_start
      rw [hrun, ok_bind, hname]
      by_cases hstop : stop ((pendingAt entry i).fullName (entry i)) = true
      · rw [if_pos hstop]
        refine ⟨fun _ => ⟨fun _ => hcomplete, fun hp => ?_⟩, fun _ => rfl⟩
        rw [hp.2 hnormal] at hstop
        cases hstop
      · rw [if_neg hstop, ih hnext]
        exact ⟨fun hrest => ⟨fun _ => hcomplete, fun _ => hrest⟩,
          fun hall => hall.2 ⟨hend, fun _ => Bool.eq_false_iff.mpr hstop⟩⟩
    · refine ⟨fun hrun => ?_, fun hall => absurd (hall.1 hnormal) hcomplete⟩
      cases hname : scan.nameInto fuel size (entry i) cname with
      | error e =>
        rw [hname] at hrun
        cases hrun
      | ok cname' => exact absurd (h.complete hfuel hname) hcomplete

/-- The three scanners stay inside their arrays, and read no byte of a part that was not written
for the current entry, exactly when each NORMAL entry that they reach comes just after its parts,
none of them missing and the third one at most 5 characters long, or 9 in `_fat_readdir`. -/
theorem scanners_inside_iff (fuel : ℕ) (hfuel : 16 ≤ fuel) (name : List UInt8)
    (entry : ℕ → ℕ → UInt8) (n : ℕ) :
    (getChildFromParentNames fuel name entry n = .ok () ↔
      Decodable 32 (fun cname => decide (name = cname)) entry n) ∧
    (fileInfoNoCacheNames fuel name entry n = .ok () ↔
      Decodable 32 (fun cname => decide (name = cname)) entry n) ∧
    (fatReaddirNames fuel entry n = .ok () ↔ Decodable 36 (fun _ => true) entry n) :=
  ⟨scanNames_iff hfuel (by decide) n NameScan.matches_start,
    scanNames_iff hfuel (by decide) n NameScan.matches_start,
    scanNames_iff hfuel (by decide) n NameScan.matches_start⟩

/-- A name of 40 characters as another system writes it: four LFN entries and the NORMAL one. -/
def longForeignName : ℕ → ℕ → UInt8 := fun i =>
  let name := List.replicate 40 0x61
  if i = 0 then longEntry name 0x44 39
  else if i = 1 then longEntry name 0x03 26
  else if i = 2 then longEntry name 0x02 13
  else if i = 3 then longEntry name 0x01 0
  else normalEntry name ⟨3, 0, false⟩

theorem scanners_inside_iff_long :
    16 ≤ 16 ∧ (fatReaddirNames 16 longForeignName 5 = .ok () ↔
      Decodable 36 (fun _ => true) longForeignName 5) :=
  ⟨le_rfl, (scanners_inside_iff 16 le_rfl [] longForeignName 5).2.2⟩

/-- The third part of that name overflows the arrays. -/
theorem scanners_outside_long :
    getChildFromParentNames 16 [0x62] longForeignName 5 = .error .outside ∧
      fileInfoNoCacheNames 16 [0x62] longForeignName 5 = .error .outside ∧
      fatReaddirNames 16 longForeignName 5 = .error .outside := by
  exact ⟨by decide +kernel, by decide +kernel, by decide +kernel⟩

end Scanners

/-! ## Names written and read again -/

section Codec

/-- The entry that `_add_dir_entry` writes in a state of its FSM. -/
def writtenEntry (name : List UInt8) (info : EntryInfo) (length nbLfn step : ℕ) : ℕ → UInt8 :=
  fun j => (stepBytes name info length nbLfn step).getD j 0

/-- A scanner reads the LFN entries that `_add_dir_entry` writes from state `n + 2` to state 3. -/
def recordWritten (fuel : ℕ) (name : List UInt8) (info : EntryInfo) (length nbLfn : ℕ) :
    ℕ → NameScan → Except ArrayFault NameScan
  | 0, scan => .ok scan
  | n + 1, scan => do
    let buffer := writtenEntry name info length nbLfn (n + 3)
    let scan ← scan.recordInto fuel (readEntry 0 1 buffer false) buffer
    recordWritten fuel name info length nbLfn n scan

variable {fuel length nbLfn : ℕ} {name : List UInt8} {info : EntryInfo}

/-- The parts on memory follow those on lists. -/
theorem recordWritten_matches (name : List UInt8) (info : EntryInfo) (length nbLfn : ℕ)
    (hfuel : 16 ≤ fuel) (n : ℕ) {scan : NameScan} {parts : LfnScan}
    (h : scan.Matches parts) :
    ∃ scan', recordWritten fuel name info length nbLfn n scan = .ok scan' ∧
      scan'.Matches ((List.range n).reverse.foldl (fun parts t =>
        parts.record (readEntry 0 1 (writtenEntry name info length nbLfn (t + 3)) false)
          (writtenEntry name info length nbLfn (t + 3))) parts) := by
  induction n generalizing scan parts with
  | zero => exact ⟨scan, rfl, h⟩
  | succ n ih =>
    obtain ⟨scan₁, hrecord, h₁⟩ := h.record hfuel
      (readEntry 0 1 (writtenEntry name info length nbLfn (n + 3)) false)
      (writtenEntry name info length nbLfn (n + 3))
    obtain ⟨scan₂, hrest, h₂⟩ := ih h₁
    refine ⟨scan₂, ?_, ?_⟩
    · rw [recordWritten, hrecord]
      exact hrest
    · rw [List.range_succ, List.reverse_append]
      exact h₂

/-- The number of an LFN entry written for a part. -/
def writtenOrd (nbLfn t : ℕ) : UInt8 := UInt8.ofNat (if nbLfn = t + 1 then 0x41 + t else t + 1)

theorem writtenEntry_long {t : ℕ} (ht : t < 3) (hlength : length = name.length) :
    writtenEntry name info length nbLfn (t + 3) =
      longEntry name (writtenOrd nbLfn t) (13 * t) := by
  subst hlength
  obtain rfl | rfl | rfl : t = 0 ∨ t = 1 ∨ t = 2 := by omega
  all_goals
    funext j
    rw [writtenEntry, stepBytes, longEntry, writtenOrd]
    split <;> rfl

theorem writtenEntry_ord {t : ℕ} (ht : t < 3) (hlength : length = name.length) :
    readEntry 0 1 (writtenEntry name info length nbLfn (t + 3)) false % 4 = t + 1 := by
  rw [writtenEntry_long ht hlength, readEntry_one, longEntry_ord, writtenOrd]
  obtain rfl | rfl | rfl : t = 0 ∨ t = 1 ∨ t = 2 := by omega
  all_goals split <;> rfl

/-- Decoding the LFN entry written for a part. -/
theorem getNameFromLong_writtenEntry {t : ℕ} (ht : t < 3) (hlength : length = name.length)
    (hname : ∀ c ∈ name, c ≠ 0) :
    getNameFromLong (writtenEntry name info length nbLfn (t + 3)) =
      ((name.drop (13 * t)).take 13).takeWhile isKept := by
  rw [writtenEntry_long ht hlength, getNameFromLong_longEntry hname]

/-- The parts of the current entry after the LFN entries written for a name. -/
def writtenParts (name : List UInt8) (info : EntryInfo) (length nbLfn : ℕ) : LfnScan :=
  (List.range nbLfn).reverse.foldl (fun parts t =>
    parts.record (readEntry 0 1 (writtenEntry name info length nbLfn (t + 3)) false)
      (writtenEntry name info length nbLfn (t + 3))) {}

/-- A part of a name. -/
def namePart (name : List UInt8) (t : ℕ) : List UInt8 :=
  ((name.drop (13 * t)).take 13).takeWhile isKept

theorem writtenParts_eq (hnb : nbLfn ≤ 3) (hlength : length = name.length)
    (hname : ∀ c ∈ name, c ≠ 0) : writtenParts name info length nbLfn =
      ⟨nbLfn, if 1 ≤ nbLfn then some (namePart name 0) else none,
        if 2 ≤ nbLfn then some (namePart name 1) else none,
        if 3 ≤ nbLfn then some (namePart name 2) else none⟩ := by
  have hseq (t : ℕ) (ht : t < 3) :
      readEntry 0 1 (writtenEntry name info length nbLfn (t + 3)) false % 4 = t + 1 :=
    writtenEntry_ord ht hlength
  have hpart (t : ℕ) (ht : t < 3) :
      getNameFromLong (writtenEntry name info length nbLfn (t + 3)) = namePart name t :=
    getNameFromLong_writtenEntry ht hlength hname
  obtain rfl | rfl | rfl | rfl : nbLfn = 0 ∨ nbLfn = 1 ∨ nbLfn = 2 ∨ nbLfn = 3 := by omega
  · rfl
  all_goals
    simp [writtenParts, LfnScan.record, List.range_succ, hseq, hpart]

theorem namePart_length_le (name : List UInt8) (t : ℕ) :
    (namePart name t).length ≤ name.length - 13 * t :=
  ((List.takeWhile_prefix _).length_le).trans
    ((List.length_take_le' 13 _).trans (List.length_drop).le)

/-- The parts of a name of at most 31 bytes fit in the arrays. -/
theorem writtenParts_complete {size : ℕ} (hnb : nbLfn ≤ 3) (hlength : length = name.length)
    (hname : ∀ c ∈ name, c ≠ 0) (hlen : name.length ≤ 31) (hsize : 32 ≤ size) :
    (writtenParts name info length nbLfn).Complete size := by
  rw [writtenParts_eq hnb hlength hname]
  refine ⟨fun hle => ?_, fun hle => ?_, fun hle => ⟨namePart name 2, if_pos hle, ?_⟩⟩
  · dsimp only at hle ⊢
    rw [if_pos hle]
    exact Option.some_ne_none _
  · dsimp only at hle ⊢
    rw [if_pos hle]
    exact Option.some_ne_none _
  · have := namePart_length_le name 2
    omega

/-- The parts of a name put together. -/
theorem writtenParts_fullName (hpos : 1 ≤ nbLfn) (hnb : nbLfn ≤ 3)
    (hlength : length = name.length) (hname : ∀ c ∈ name, c ≠ 0) (hlen : name.length ≤ 13 * nbLfn)
    (buffer : ℕ → UInt8) :
    (writtenParts name info length nbLfn).fullName buffer = name.takeWhile isKept := by
  rw [writtenParts_eq hnb hlength hname, ← joinParts_chunks nbLfn hlen]
  obtain rfl | rfl | rfl : nbLfn = 1 ∨ nbLfn = 2 ∨ nbLfn = 3 := by omega
  all_goals rfl

/-- The LFN entries that `_add_dir_entry` writes for a name of at most 31 bytes give the name back
to each scanner, and `_get_name_from_long` ends on every entry and writes at most 14 bytes. -/
theorem names_written_read (fuel : ℕ) (hfuel : 16 ≤ fuel) :
    (∀ (name : List UInt8) (info : EntryInfo), 1 ≤ name.length → name.length ≤ 31 →
      (∀ c ∈ name, c ≠ 0x00 ∧ c ≠ 0xFF) →
      ∃ nbLfn, checkNameLength name = some (name.length, nbLfn) ∧
        ∃ scan, recordWritten fuel name info name.length nbLfn nbLfn .start = .ok scan ∧
          ∀ size, size = 32 ∨ size = 36 → ∀ (buffer : ℕ → UInt8) (cname : Cells UInt8),
            ∃ cname', scan.nameInto fuel size buffer cname = .ok cname' ∧
              arrayString size cname' = name) ∧
    ∀ (buffer : ℕ → UInt8) (a : Cells UInt8), ∃ l : List UInt8, l.length ≤ 14 ∧
      getNameFromLongInto fuel buffer a = .ok (putCells a 0 l) := by
  refine ⟨fun name info _ hlen hchars => ?_, fun buffer a => ?_⟩
  · have hname : ∀ c ∈ name, c ≠ 0 := fun c hc => (hchars c hc).1
    have hkept : name.takeWhile isKept = name := by
      rw [List.takeWhile_eq_self_iff]
      exact fun c hc => bne_iff_ne.mpr (hchars c hc).2
    obtain ⟨nbLfn, hcheck, hpos, hnb, hparts⟩ : ∃ nbLfn,
        checkNameLength name = some (name.length, nbLfn) ∧ 1 ≤ nbLfn ∧ nbLfn ≤ 3 ∧
          name.length ≤ 13 * nbLfn := by
      rw [checkNameLength]
      split
      · exact ⟨1, rfl, by omega, by omega, by omega⟩
      · split
        · exact ⟨2, rfl, by omega, by omega, by omega⟩
        · exact ⟨3, rfl, by omega, by omega, by omega⟩
    obtain ⟨scan, hrun, hmatches⟩ := recordWritten_matches name info name.length nbLfn hfuel nbLfn
      NameScan.matches_start
    refine ⟨nbLfn, hcheck, scan, hrun, fun size hsize buffer cname => ?_⟩
    have hcomplete : (writtenParts name info name.length nbLfn).Complete size :=
      writtenParts_complete hnb rfl hname hlen (by omega)
    obtain ⟨cname', hcname, hstring⟩ :=
      NameScan.Matches.name hmatches hfuel (by omega) hcomplete buffer cname
    refine ⟨cname', hcname, hstring.trans ?_⟩
    exact (writtenParts_fullName hpos hnb rfl hname hparts buffer).trans hkept
  · refine ⟨getNameFromLong buffer ++ [0], ?_, getNameFromLongInto_run buffer a (by omega)⟩
    have := getNameFromLong_length_le buffer
    rw [List.length_append, List.length_singleton]
    omega

theorem names_written_read_one : 16 ≤ 16 ∧ ∃ nbLfn,
    checkNameLength [0x61] = some (1, nbLfn) ∧
      ∃ scan, recordWritten 16 [0x61] ⟨3, 0, false⟩ 1 nbLfn nbLfn .start = .ok scan := by
  obtain ⟨nbLfn, hcheck, scan, hrun, -⟩ := (names_written_read 16 le_rfl).1 [0x61] ⟨3, 0, false⟩
    (by decide) (by decide) (by simp)
  exact ⟨le_rfl, nbLfn, hcheck, scan, hrun⟩

end Codec

end GietVm.Fat
