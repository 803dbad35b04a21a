import GietVm.Fat.Sections

/-!
# Concurrent calls on the descriptors

Any number of tasks execute the calls of the file system. A locked section is one step, and so
is each access that a call makes without the lock: `_fat_read` checks the descriptor before it
takes the lock, `_fat_file_info` and the end of `_fat_opendir` never take it, and
`_fat_readdir` is a sequence of calls of `_fat_file_info` and `_fat_read`, followed by a section
of its own when it reaches the end of the directory.

The state records the accesses made in the sections. It also records, for each adjustment of the
seek by `_fat_readdir`, the opening of the descriptor when the end of the directory was read and
the opening when the adjustment is made.
-/

namespace GietVm.Fat.Shared

open GietVm.Library

/-- Who calls `_fat_read`: a task that reads some bytes, or `_fat_readdir` with the partial names
that it has collected. -/
inductive Caller
  | read (count : ℕ)
  | readdir (scan : LfnScan)

/-- The number of bytes that are read. -/
def Caller.count : Caller → ℕ
  | .read count => count
  | .readdir _ => 32

/-- Where a task is in the calls. -/
inductive Pc
  /-- Outside the calls. -/
  | out
  /-- In `_fat_read`, before the test that the file is open. -/
  | readCheck (fd : ℕ) (c : Caller)
  /-- In `_fat_read`, waiting for the lock. -/
  | readLock (fd : ℕ) (c : Caller)
  /-- In `_fat_file_info`, before the test that the file is open. -/
  | infoCheck (fd : ℕ)
  /-- In `_fat_file_info`, before it reads the size, the offset and the type. -/
  | infoSize (fd : ℕ)
  | infoOffset (fd : ℕ)
  | infoIsDir (fd : ℕ)
  /-- In `_fat_readdir`, waiting for the lock to seek back. The end of the directory was read
  from the given opening. -/
  | seekBack (fd opening : ℕ)
  /-- In `_fat_opendir`, before it reads the type of the inode. -/
  | opendirTest (fd : ℕ)

/-- What `_fat_readdir` does with an entry. -/
inductive EntryKind
  | noMore
  | free
  | longName
  | regular
  deriving DecidableEq

/-- The tests of `_fat_readdir` on an entry. -/
def entryKind (buf : ℕ → UInt8) : EntryKind :=
  let attr := readEntry 11 1 buf false
  let ord := readEntry 0 1 buf false
  if ord = noMoreEntry then .noMore
  else if ord = freeEntry then .free
  else if attr = attrLongNameMask then .longName
  else .regular

/-- The entry that `_fat_readdir` returns (`fat_dirent_t`). The name is missing when a part of
it was never read. -/
structure Dirent where
  info : EntryInfo
  name : Option (List UInt8)

/-- The end of a call. -/
structure Return (T : Type) where
  task : T
  code : ℤ
  entry : Option Dirent

/-- The file system, the positions of the tasks, the calls that have returned, the accesses made
in the sections, the adjustments, and the tasks that are about to seek back on each descriptor. -/
structure State (T : Type) where
  files : Files
  pc : T → Pc
  returns : List (Return T)
  trail : List Access
  adjusts : List (ℕ × ℕ)
  behind : ℕ → List T

/-- The state after the initialisation. -/
def State.init (T : Type) : State T :=
  { files := .init, pc := fun _ => .out, returns := [], trail := [], adjusts := [],
    behind := fun _ => [] }

/-- What a task does next: it calls a function, or it goes on with its call. In the second case
`loaded` tells whether the clusters can be loaded, `buf` is what is read, and `garbage` is what
the memory of a released inode says about its type. -/
inductive Act
  | open (pathname : List UInt8) (flags : ℕ) (io : OpenIo)
  | opendir (pathname : List UInt8) (io : OpenIo)
  | close (fd : ℕ) (io : CloseIo)
  | read (fd count : ℕ)
  | write (fd count : ℕ) (io : WriteIo)
  | lseek (fd seek : ℕ) (whence : Whence)
  | readdir (fd : ℕ)
  | remove (pathname : List UInt8) (shouldBeDir : Bool) (io : RemoveIo)
  | turn (loaded : Bool) (buf : ℕ → UInt8) (garbage : Bool)

/-- Arguments are 32-bit values. -/
def Act.Possible : Act → Prop
  | .read _ count | .write _ count _ => count < 0x100000000
  | .lseek _ seek _ => seek < 0x100000000
  | _ => True

/-- The type of the inode of a descriptor, read without the lock. -/
def Files.isDirOf (f : Files) (garbage : Bool) (fd : ℕ) : Bool :=
  if f.Live (f.fd fd).inode then (f.inode (f.fd fd).inode).isDir else garbage

variable {T : Type} [DecidableEq T]

namespace State

variable (s : State T) (t : T)

/-- A task goes on at another point. -/
def goto (pc : Pc) : State T := { s with pc := Function.update s.pc t pc }

/-- A call returns. -/
def finish (code : ℤ) (entry : Option Dirent) : State T :=
  { s with pc := Function.update s.pc t .out, returns := s.returns ++ [⟨t, code, entry⟩] }

/-- A section is executed. -/
def locked {α : Type} (x : SectionM α) : State T :=
  { s with files := (x s.files).state, trail := s.trail ++ (x s.files).log }

/-- A call whose whole body is one section. -/
def call (x : SectionM ℤ) : State T := (s.locked x).finish t (x s.files).value none

/-- What follows the section of `_fat_read`, which has returned a code. -/
def afterRead (fd : ℕ) (buf : ℕ → UInt8) (code : ℤ) : Caller → State T
  | .read _ => s.finish t code none
  | .readdir scan =>
    if code ≠ 32 then s.finish t fat32IoError none
    else
      match entryKind buf with
      | .noMore =>
        { s.goto t (.seekBack fd (s.files.fd fd).opening) with
          behind := Function.update s.behind fd (t :: s.behind fd) }
      | .free => s.goto t (.readCheck fd (.readdir scan))
      | .longName =>
        s.goto t (.readCheck fd (.readdir (scan.record (readEntry 0 1 buf false) buf)))
      | .regular => s.finish t fat32Ok (some ⟨entryInfo buf, scan.cname buf⟩)

/-- Whether the bytes read are a regular entry and the caller returns it. -/
def returnsEntry (c : Caller) (buf : ℕ → UInt8) : Bool :=
  match c with
  | .read _ => false
  | .readdir _ => entryKind buf = .regular

/-- The next step of a call in progress. -/
def turn (loaded : Bool) (buf : ℕ → UInt8) (garbage : Bool) : State T :=
  match s.pc t with
  | .out => s
  | .readCheck fd c =>
    if !(s.files.fd fd).allocated then s.afterRead t fd buf fat32NotOpen c
    else s.goto t (.readLock fd c)
  | .readLock fd c =>
    let x := fatReadSection fd c.count loaded (returnsEntry c buf)
    (s.locked x).afterRead t fd buf (x s.files).value c
  | .infoCheck fd =>
    if !(s.files.fd fd).allocated then s.finish t fat32NotOpen none
    else s.goto t (.infoSize fd)
  | .infoSize fd => s.goto t (.infoOffset fd)
  | .infoOffset fd => s.goto t (.infoIsDir fd)
  | .infoIsDir fd =>
    if s.files.isDirOf garbage fd then s.goto t (.readCheck fd (.readdir {}))
    else s.finish t fat32NotADirectory none
  | .seekBack fd opening =>
    { (s.locked (seekBackSection fd)).finish t fat32NoMoreEntries none with
      adjusts := s.adjusts ++ [(opening, (s.files.fd fd).opening)]
      behind := Function.update s.behind fd ((s.behind fd).erase t) }
  | .opendirTest fd =>
    if s.files.isDirOf garbage fd then s.finish t fd none
    else s.finish t fat32NotADirectory none

/-- A step of a task. A task in a call only goes on with it. -/
def step : Act → State T
  | .turn loaded buf garbage => s.turn t loaded buf garbage
  | .open pathname flags io =>
    match s.pc t with
    | .out => s.call t (fatOpen io pathname flags)
    | _ => s
  | .opendir pathname io =>
    match s.pc t with
    | .out =>
      let x := fatOpen io pathname 1
      if (x s.files).value < 0 then s.call t x
      else (s.locked x).goto t (.opendirTest (x s.files).value.toNat)
    | _ => s
  | .close fd io =>
    match s.pc t with
    | .out =>
      if fd ≥ openFilesMax then s.finish t fat32InvalidFd none else s.call t (fatClose io fd)
    | _ => s
  | .read fd count =>
    match s.pc t with
    | .out =>
      if fd ≥ openFilesMax then s.finish t fat32InvalidFd none
      else s.goto t (.readCheck fd (.read count))
    | _ => s
  | .write fd count io =>
    match s.pc t with
    | .out => s.call t (fatWrite io fd count)
    | _ => s
  | .lseek fd seek whence =>
    match s.pc t with
    | .out =>
      if fd ≥ openFilesMax then s.finish t fat32InvalidFd none
      else s.call t (fatLseek fd seek whence)
    | _ => s
  | .readdir fd =>
    match s.pc t with
    | .out =>
      if fd ≥ openFilesMax then s.finish t fat32InvalidFd none else s.goto t (.infoCheck fd)
    | _ => s
  | .remove pathname shouldBeDir io =>
    match s.pc t with
    | .out => s.call t (fatRemove io pathname shouldBeDir)
    | _ => s

end State

/-- The executions whose steps all meet a condition. -/
inductive Run (ok : State T → T → Act → Prop) : State T → Prop
  | start : Run ok (.init T)
  | step {s : State T} {t : T} {a : Act} (hrun : Run ok s) (hpossible : a.Possible)
      (hok : ok s t a) : Run ok (s.step t a)

/-! ## What the calls promise -/

/-- The passages follow each other from a position to another, without gap or overlap. -/
def Follow : ℕ → List Passage → ℕ → Prop
  | start, [], stop => start = stop
  | start, p :: rest, stop => p.start = start ∧ Follow (start + p.length) rest stop

/-- The entries returned are those that have been passed over, each one once. -/
structure Descriptor.EachOnce (d : Descriptor) : Prop where
  nodup : d.handed.Nodup
  handed_eq : d.handed = (d.passed.filter (·.entry)).map (·.start)
  follow : Follow d.origin d.passed d.seek

/-- What holds of the accesses, of the adjustments and of the open directories. -/
structure State.Valid (s : State T) : Prop where
  accesses : ∀ a ∈ s.trail, a.Valid
  adjusts : ∀ e ∈ s.adjusts, e.1 = e.2
  entries : ∀ fd, (s.files.fd fd).allocated = true →
    (s.files.inode (s.files.fd fd).inode).isDir = true → (s.files.fd fd).EachOnce

/-! ## The condition -/

/-- A call is about to seek back on a descriptor of a directory. -/
def State.Pending (s : State T) (fd : ℕ) : Prop :=
  (s.files.inode (s.files.fd fd).inode).isDir = true ∧ ∃ t opening, s.pc t = .seekBack fd opening

/-- A transfer of `count` bytes on a descriptor keeps clear of a call that is about to seek back,
unless it is itself a `_fat_readdir` that finds the end of the directory. On a directory it does
not go over the largest position. -/
def State.Clear (s : State T) (fd count : ℕ) (atEnd : Prop) : Prop :=
  ((s.files.inode (s.files.fd fd).inode).isDir = true →
    (s.files.fd fd).seek + count < 0x100000000) ∧
  (count ≠ 0 → s.Pending fd → atEnd)

/-- The caller is `_fat_readdir` and the entry read is the end of the directory. -/
def Caller.AtEnd (c : Caller) (buf : ℕ → UInt8) : Prop :=
  match c with
  | .read _ => False
  | .readdir _ => entryKind buf = .noMore

/-- A step is orderly when it does not close a descriptor that a call uses after it has checked
it or read the end of the directory, does not release the inode of an open descriptor or of its
parent directory, and does not move the position of a descriptor between the end of a directory
and the step back. -/
def Orderly (s : State T) (t : T) (a : Act) : Prop :=
  match s.pc t, a with
  | .out, .close fd _ =>
    ∀ u, (∀ c, s.pc u ≠ .readLock fd c) ∧ ∀ opening, s.pc u ≠ .seekBack fd opening
  | .out, .remove pathname shouldBeDir io =>
    ∀ p parent, (checkRemove io pathname shouldBeDir s.files).value = .ok (p, parent) →
      ∀ fd, (s.files.fd fd).allocated = true →
        (s.files.fd fd).inode ≠ p ∧ (s.files.inode (s.files.fd fd).inode).parent ≠ some p
  | .out, .lseek fd _ _ => ¬ s.Pending fd
  | .out, .write fd count io => io.loaded = true → s.Clear fd count False
  | .readLock fd c, .turn loaded buf _ => loaded = true → s.Clear fd c.count (c.AtEnd buf)
  | _, _ => True

end GietVm.Fat.Shared
