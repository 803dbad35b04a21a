import GietVm.Fat.State

/-!
# Names in paths and in directory entries

A string is the list of its characters without the final NUL. A directory entry has 32
bytes. A name of up to 31 characters is stored in one to three LFN entries, in reverse
order, followed by a NORMAL entry with the upper-cased first eight characters, the cluster
and the size. The scanners (`_get_child_from_parent` and `_file_info_no_cache` have the
same one) keep the number of LFN entries met and the part of the name that each one holds
until the next NORMAL entry.
-/

namespace GietVm.Fat

open GietVm.Library

/-- The character `/`. -/
abbrev slash : UInt8 := 0x2F

/-- The character at an index of a string, which ends with NUL. -/
def charAt (pathname : List UInt8) (i : ℕ) : UInt8 := pathname.getD i 0

/-- `_to_lower` -/
def toLower (c : UInt8) : UInt8 := if 0x41 ≤ c ∧ c ≤ 0x5A then c ||| 0x20 else c

/-- `_to_upper` -/
def toUpper (c : UInt8) : UInt8 := if 0x61 ≤ c ∧ c ≤ 0x7A then c &&& 0xDF else c

/-! ## Paths -/

/-- Read characters up to a separator, at most `room` of them. -/
def readName (pathname : List UInt8) (room i : ℕ) : Option (List UInt8) :=
  if charAt pathname i = slash ∨ charAt pathname i = 0 then some []
  else match room with
    | 0 => none
    | room + 1 => (readName pathname room (i + 1)).map (charAt pathname i :: ·)

/-- `_get_name_from_path`: the next name and the new `nb_read`, `none` when it is too long. -/
def getNameFromPath (pathname : List UInt8) (nbRead : ℕ) : Option (List UInt8 × ℕ) :=
  let start := if charAt pathname nbRead = slash then nbRead + 1 else nbRead
  (readName pathname nameMaxSize start).map fun name =>
    (name, if charAt pathname (start + name.length) = slash then start + name.length + 1
      else start + name.length)

/-- The loop of `_get_last_name`, which reads at least one character in each turn. -/
def readLastName (pathname : List UInt8) : ℕ → ℕ → Option (List UInt8) → Option (List UInt8)
  | 0, _, name => name
  | turns + 1, nbRead, name =>
    if charAt pathname nbRead ≠ 0 then
      match getNameFromPath pathname nbRead with
      | none => none
      | some (name, nbRead) => readLastName pathname turns nbRead (some name)
    else name

/-- `_get_last_name`: `none` when it leaves no string in its output array. -/
def getLastName (pathname : List UInt8) : Option (List UInt8) :=
  readLastName pathname pathname.length 0 none

/-! ## Names read from entries -/

/-- The string at the start of an array. -/
def cString (l : List UInt8) : List UInt8 := l.takeWhile (· ≠ 0)

/-- The characters of a short name up to a blank. -/
def shortPart (buffer : ℕ → UInt8) : ℕ → ℕ → List UInt8
  | 0, _ => []
  | n + 1, i => if buffer i = 0x20 then [] else toLower (buffer i) :: shortPart buffer n (i + 1)

/-- `_get_name_from_short` -/
def getNameFromShort (buffer : ℕ → UInt8) : List UInt8 :=
  let ext := shortPart buffer 3 8
  cString (shortPart buffer 8 0 ++ if ext = [] then [] else 0x2E :: ext)

/-- One of the three loops of `_get_name_from_long`, with the flag `eof`. -/
def longPart (buffer : ℕ → UInt8) : ℕ → ℕ → List UInt8 × Bool
  | 0, _ => ([], false)
  | n + 1, offset =>
    if buffer offset = 0x00 ∨ buffer offset = 0xFF then ([], true)
    else (buffer offset :: (longPart buffer n (offset + 2)).1, (longPart buffer n (offset + 2)).2)

/-- `_get_name_from_long` -/
def getNameFromLong (buffer : ℕ → UInt8) : List UInt8 :=
  let part1 := longPart buffer 5 1
  if part1.2 then part1.1
  else
    let part2 := longPart buffer 6 14
    if part2.2 then part1.1 ++ part2.1 else part1.1 ++ part2.1 ++ (longPart buffer 2 28).1

/-- The variables `lfn`, `lfn1`, `lfn2` and `lfn3` of a scanner. A part not written yet is
uninitialised. -/
structure LfnScan where
  lfn : ℕ := 0
  lfn1 : Option (List UInt8) := none
  lfn2 : Option (List UInt8) := none
  lfn3 : Option (List UInt8) := none

/-- What a scanner does with an LFN entry. -/
def LfnScan.record (scan : LfnScan) (ord : ℕ) (buffer : ℕ → UInt8) : LfnScan :=
  let seq := ord % 4
  { lfn := if seq > scan.lfn then seq else scan.lfn
    lfn1 := if seq = 1 then some (getNameFromLong buffer) else scan.lfn1
    lfn2 := if seq = 2 then some (getNameFromLong buffer) else scan.lfn2
    lfn3 := if seq = 3 then some (getNameFromLong buffer) else scan.lfn3 }

/-- `_strcpy` into `cname[32]` at an offset, `none` when the array overflows. -/
def strcpyAt (cname : List UInt8) (offset : ℕ) (source : List UInt8) : Option (List UInt8) :=
  if offset + source.length < 32 then
    some (cname.take offset ++ source ++ 0 :: cname.drop (offset + source.length + 1))
  else none

/-- The string that a scanner builds in `cname` for a NORMAL entry, `none` when it reads an
uninitialised part or overflows the array. -/
def LfnScan.cname (scan : LfnScan) (buffer : ℕ → UInt8) : Option (List UInt8) :=
  let cname := List.replicate 32 0
  match scan.lfn with
  | 0 => some (getNameFromShort buffer)
  | 1 => do
    let cname ← strcpyAt cname 0 (← scan.lfn1)
    pure (cString cname)
  | 2 => do
    let cname ← strcpyAt cname 0 (← scan.lfn1)
    let cname ← strcpyAt cname 13 (← scan.lfn2)
    pure (cString cname)
  | _ => do
    let cname ← strcpyAt cname 0 (← scan.lfn1)
    let cname ← strcpyAt cname 13 (← scan.lfn2)
    let cname ← strcpyAt cname 26 (← scan.lfn3)
    pure (cString cname)

/-- What a NORMAL entry says about its file or directory. -/
structure EntryInfo where
  cluster : ℕ
  size : ℕ
  isDir : Bool
  deriving DecidableEq

/-- The fields read from a NORMAL entry. -/
def entryInfo (buffer : ℕ → UInt8) : EntryInfo where
  cluster := 0x10000 * readEntry 20 2 buffer true + readEntry 26 2 buffer true
  size := readEntry 28 4 buffer true
  isDir := readEntry 11 1 buffer false / attrDirectory % 2 = 1

/-- How the scan of a cluster ends. -/
inductive ScanResult
  /-- All the entries have been read. -/
  | next (scan : LfnScan)
  /-- `NO_MORE_ENTRY` has been met. -/
  | noMore
  /-- The entry at an offset has the searched name. -/
  | found (offset : ℕ) (info : EntryInfo) (scan : LfnScan)
  /-- The name of an entry is undefined. -/
  | undefined

/-- The scan of `n` entries of a cluster for a name. -/
def scanEntries (name : List UInt8) (buffer : Block) : ℕ → ℕ → LfnScan → ScanResult
  | 0, _, scan => .next scan
  | n + 1, offset, scan =>
    let entry := pointer buffer offset
    let attr := readEntry 11 1 entry false
    let ord := readEntry 0 1 entry false
    if ord = noMoreEntry then .noMore
    else if ord = freeEntry then scanEntries name buffer n (offset + 32) scan
    else if attr = attrLongNameMask then
      scanEntries name buffer n (offset + 32) (scan.record ord entry)
    else match scan.cname entry with
      | none => .undefined
      | some cname =>
        if name = cname then .found offset (entryInfo entry) { scan with lfn := 0 }
        else scanEntries name buffer n (offset + 32) { scan with lfn := 0 }

/-! ## Entries written -/

/-- `_check_name_length`: the length and the number of LFN entries, `none` when the name is
too long. -/
def checkNameLength (name : List UInt8) : Option (ℕ × ℕ) :=
  if name.length ≤ 13 then some (name.length, 1)
  else if name.length ≤ 26 then some (name.length, 2)
  else if name.length ≤ 31 then some (name.length, 3)
  else none

/-- The bytes of an LFN entry that hold characters. -/
def isNameByte (i : ℕ) : Bool :=
  (1 ≤ i && i ≤ 10 && i % 2 = 1) || (14 ≤ i && i ≤ 25 && i % 2 = 0) ||
    (28 ≤ i && i ≤ 31 && i % 2 = 0)

/-- The loop that writes the bytes `i` of an LFN entry, from the character `c` on. -/
def longEntryBytes (name : List UInt8) (length : ℕ) (ord : UInt8) : List ℕ → ℕ → List UInt8
  | [], _ => []
  | i :: rest, c =>
    if i = 0 then ord :: longEntryBytes name length ord rest c
    else if isNameByte i ∧ c < length then
      charAt name c :: longEntryBytes name length ord rest (c + 1)
    else if i = 11 then 0x0F :: longEntryBytes name length ord rest c
    else if i = 12 then 0xCA :: longEntryBytes name length ord rest c
    else 0x00 :: longEntryBytes name length ord rest c

/-- Byte `i` of a NORMAL entry after its name. -/
def normalByte (info : EntryInfo) (i : ℕ) : UInt8 :=
  if i < 11 then 0x20
  else if i = 11 then if info.isDir then 0x10 else 0x20
  else if i = 20 then UInt8.ofNat (info.cluster / 0x10000)
  else if i = 21 then UInt8.ofNat (info.cluster / 0x1000000)
  else if i = 26 then UInt8.ofNat info.cluster
  else if i = 27 then UInt8.ofNat (info.cluster / 0x100)
  else if i = 28 then UInt8.ofNat info.size
  else if i = 29 then UInt8.ofNat (info.size / 0x100)
  else if i = 30 then UInt8.ofNat (info.size / 0x10000)
  else if i = 31 then UInt8.ofNat (info.size / 0x1000000)
  else 0x00

/-- The loop that writes the bytes `i` of a NORMAL entry, from the character `c` on. -/
def normalEntryBytes (name : List UInt8) (length : ℕ) (info : EntryInfo) :
    List ℕ → ℕ → List UInt8
  | [], _ => []
  | i :: rest, c =>
    if i < 8 ∧ c < length then
      toUpper (charAt name c) :: normalEntryBytes name length info rest (c + 1)
    else normalByte info i :: normalEntryBytes name length info rest c

/-- The bytes that `_add_dir_entry` writes in each state of its FSM. -/
def stepBytes (name : List UInt8) (info : EntryInfo) (length nbLfn : ℕ) : ℕ → List UInt8
  | 5 => longEntryBytes name length (if nbLfn = 3 then 0x43 else 0x03) (List.range 32) 26
  | 4 => longEntryBytes name length (if nbLfn = 2 then 0x42 else 0x02) (List.range 32) 13
  | 3 => longEntryBytes name length (if nbLfn = 1 then 0x41 else 0x01) (List.range 32) 0
  | 2 => normalEntryBytes name length info (List.range 32) 0
  | _ => [0x00]

end GietVm.Fat
