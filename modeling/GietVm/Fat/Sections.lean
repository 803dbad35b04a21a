import GietVm.Fat.Files
import GietVm.Library.Logged
import GietVm.Library.Word

/-!
# The locked sections of the file system calls

What a call does between the acquisition and the release of `_fat.fat_lock` is one section. A
section works on the descriptors and on the inodes, and records each access to the inode or the
seek of a descriptor, and each access to an inode.

The content of the files, of the caches and of the device is not in the state: what a section
finds there, and whether an access to the device fails, are arguments of the section. Names and
paths are those of the other modules. The addresses of inodes are never used twice, and a
released inode keeps its last fields: what the code reads there is not specified, and such an
access is recorded as one.

A descriptor carries its history since it was opened or repositioned, which no section reads.
-/

namespace GietVm.Fat.Shared

open GietVm.Library

/-! ## Descriptors and inodes -/

/-- An inode: its name and type, its size, its references and its place in the Inode-Tree. The
children are the list that starts at `child` and goes on with `next`. -/
structure Node where
  name : List UInt8
  isDir : Bool
  size : ℕ
  count : ℕ
  parent : Option Ptr
  children : List Ptr
  released : Bool

/-- A move of the position of a descriptor over some bytes. In a directory, `entry` tells that a
call of `_fat_readdir` has found a regular entry there and returned it. -/
structure Passage where
  start : ℕ
  length : ℕ
  entry : Bool

/-- A descriptor with its history: the number of the opening, the position it was last given,
the moves since then, and the positions of the entries returned since then. -/
structure Descriptor extends FileDesc where
  opening : ℕ
  origin : ℕ
  passed : List Passage
  handed : List ℕ

/-- The descriptors, the inodes, and the number of openings made so far. -/
structure Files where
  fd : ℕ → Descriptor
  inode : Ptr → Node
  root : Ptr
  brk : Ptr
  openings : ℕ

namespace Files

variable (f : Files)

/-- The inode is allocated and not released. -/
def Live (p : Ptr) : Prop := p < f.brk ∧ (f.inode p).released = false

instance (p : Ptr) : Decidable (f.Live p) := inferInstanceAs (Decidable (_ ∧ _))

def setNode (p : Ptr) (node : Node) : Files := { f with inode := Function.update f.inode p node }

def setDesc (i : ℕ) (d : Descriptor) : Files := { f with fd := Function.update f.fd i d }

/-- The state that `_fat_init` leaves. -/
def init : Files where
  fd := fun _ => { seek := 0, inode := 0, allocated := false, readOnly := false, opening := 0,
                   origin := 0, passed := [], handed := [] }
  inode := fun _ => ⟨[slash], true, 0, 0, none, [], false⟩
  root := 0
  brk := 1
  openings := 0

end Files

/-- An access to the inode or the seek of a descriptor, with whether it is allocated at that
moment, or an access to an inode, with whether it is live at that moment. -/
inductive Access
  | desc (fd : ℕ) (allocated : Bool)
  | inode (p : Ptr) (live : Bool)
  deriving DecidableEq

/-- The access is to something in use. -/
def Access.Valid : Access → Prop
  | .desc _ allocated => allocated = true
  | .inode _ live => live = true

/-- What a call does under the lock. -/
abbrev SectionM := LoggedM Files Access

/-- Record an access to an inode. -/
def touch (p : Ptr) : SectionM Unit := .record fun f => .inode p (decide (f.Live p))

def getNode (p : Ptr) : SectionM Node := do
  touch p
  let f ← LoggedM.look
  pure (f.inode p)

def modifyNode (p : Ptr) (g : Node → Node) : SectionM Unit := do
  touch p
  LoggedM.change fun f => f.setNode p (g (f.inode p))

/-- Record accesses to several inodes. -/
def touchAll : List Ptr → SectionM Unit
  | [] => pure ()
  | p :: rest => do
    touch p
    touchAll rest

/-- Record an access to the parent of an inode, if there is one. -/
def touchParent (node : Node) : SectionM Unit :=
  match node.parent with
  | none => pure ()
  | some parent => touch parent

/-- Read the inode and the seek of a descriptor. -/
def getDesc (i : ℕ) : SectionM Descriptor := do
  LoggedM.record fun f => .desc i (f.fd i).allocated
  let f ← LoggedM.look
  pure (f.fd i)

/-- Write the seek of a descriptor. -/
def modifyDesc (i : ℕ) (g : Descriptor → Descriptor) : SectionM Unit := do
  LoggedM.record fun f => .desc i (f.fd i).allocated
  LoggedM.change fun f => f.setDesc i (g (f.fd i))

/-! ## Lookups -/

/-- What the scan of the content of a directory for a name finds. -/
abbrev DirScan := Ptr → List UInt8 → DirSearch

/-- `_allocate_one_inode` -/
def allocateOneInode (name : List UInt8) (isDir : Bool) (size : ℕ) : SectionM Ptr := do
  let f ← LoggedM.look
  LoggedM.change fun f =>
    { f.setNode f.brk ⟨name, isDir, size, 0, none, [], false⟩ with brk := f.brk + 1 }
  pure f.brk

/-- `_add_inode_in_tree` -/
def addInodeInTree (child parent : Ptr) : SectionM Unit := do
  modifyNode child fun node => { node with parent := some parent }
  modifyNode parent fun node => { node with children := child :: node.children }

/-- The search of a name among the children of a directory. -/
def findChild (name : List UInt8) : List Ptr → SectionM (Option Ptr)
  | [] => pure none
  | current :: next => do
    let node ← getNode current
    if name = node.name then pure (some current) else findChild name next

/-- `_get_child_from_parent` -/
def getChildFromParent (scan : DirScan) (parent : Ptr) (name : List UInt8) :
    SectionM ChildLookup := do
  let father ← getNode parent
  match ← findChild name father.children with
  | some current => pure (.found current)
  | none =>
    match scan parent name with
    | .ioError => pure .ioError
    | .endOfDir => pure .notFound
    | .found _ info => do
      let inode ← allocateOneInode name info.isDir info.size
      addInodeInTree inode parent
      pure (.found inode)

/-- The inode that a component of a path designates in a directory. -/
def resolveName (scan : DirScan) (parent : Ptr) (name : List UInt8) : SectionM ChildLookup := do
  if name = [0x2E, 0x2E] then do
    let father ← getNode parent
    match father.parent with
    | some p => pure (.found p)
    | none => pure (.found parent)
  else if name = [0x2E] then pure (.found parent)
  else getChildFromParent scan parent name

/-- The loop of `_get_inode_from_path`. It reads at least one character in each turn but the last
one, so that it never uses up its turns. -/
def resolvePath (scan : DirScan) (pathname : List UInt8) : ℕ → Ptr → ℕ → SectionM PathLookup
  | 0, _, _ => pure .noParent
  | turns + 1, parent, nbRead =>
    match getNameFromPath pathname nbRead with
    | none => pure .nameTooLong
    | some (name, nbRead) => do
      let last := charAt pathname nbRead = 0
      match ← resolveName scan parent name with
      | .ioError => pure .noParent
      | .notFound => pure (if last then .absent parent else .noParent)
      | .found child =>
        if last then pure (.found child) else resolvePath scan pathname turns child nbRead

/-- `_get_inode_from_path` -/
def getInodeFromPath (scan : DirScan) (pathname : List UInt8) : SectionM PathLookup := do
  let f ← LoggedM.look
  if pathname = [slash] then pure (.found f.root)
  else resolvePath scan pathname (pathname.length + 1) f.root 0

/-! ## Opening and closing -/

/-- What `_fat_open` meets outside the state: the content of the directories, and whether the
updates of the parent directory, of the FAT and of the entry of a truncated file succeed. -/
structure OpenIo where
  scan : DirScan
  created : Bool
  clustersReleased : Bool
  entryUpdated : Bool

/-- The part of `_fat_open` that creates a file. -/
def createFile (io : OpenIo) (pathname : List UInt8) (parent : Ptr) :
    SectionM (Except ℤ Ptr) := do
  let child ← allocateOneInode ((getLastName pathname).getD []) false 0
  addInodeInTree child parent
  touch child
  touch parent
  if io.created then pure (.ok child) else pure (.error fat32IoError)

/-- The part of `_fat_open` that empties a file: `true` stands for an error. -/
def truncateFile (io : OpenIo) (child : Ptr) : SectionM Bool := do
  modifyNode child fun node => { node with size := 0 }
  let node ← getNode child
  if io.clustersReleased then do
    touchParent node
    pure (!io.entryUpdated)
  else pure true

/-- A descriptor that has just been opened. -/
def Descriptor.opened (child : Ptr) (readOnly : Bool) (opening : ℕ) : Descriptor :=
  { seek := 0, inode := child, allocated := true, readOnly := readOnly, opening := opening,
    origin := 0, passed := [], handed := [] }

/-- The part of `_fat_open` that follows the search of the inode. -/
def openInode (io : OpenIo) (child : Ptr) (readOnly truncate : Bool) : SectionM ℤ := do
  let f ← LoggedM.look
  match findFreeFd fun i => (f.fd i).toFileDesc with
  | none => pure fat32TooManyOpenFiles
  | some fdId => do
    LoggedM.change fun f =>
      { f.setDesc fdId (.opened child readOnly f.openings) with openings := f.openings + 1 }
    modifyNode child fun node => { node with count := add32 node.count 1 }
    let node ← getNode child
    if truncate ∧ ¬ readOnly ∧ ¬ node.isDir then
      if ← truncateFile io child then pure fat32IoError else pure fdId
    else pure fdId

/-- `_fat_open`, with the flags `O_RDONLY` (bit 0), `O_TRUNC` (bit 4) and `O_CREATE` (bit 5). -/
def fatOpen (io : OpenIo) (pathname : List UInt8) (flags : ℕ) : SectionM ℤ := do
  let create := flags.testBit 5
  let readOnly := flags.testBit 0
  let truncate := flags.testBit 4
  match ← getInodeFromPath io.scan pathname with
  | .noParent => pure fat32FileNotFound
  | .nameTooLong => pure fat32NameTooLong
  | .absent parent =>
    if create then do
      match ← createFile io pathname parent with
      | .error code => pure code
      | .ok child => openInode io child readOnly false
    else pure fat32FileNotFound
  | .found child => openInode io child readOnly truncate

/-- Whether the updates of the device by `_fat_close` succeed, for the file and for its parent
directory. -/
structure CloseIo where
  flushed : Bool
  parentFlushed : Bool

/-- What `_fat_close` does when the last descriptor of an inode is closed: `true` stands for an
error. -/
def closeInode (io : CloseIo) (node : Node) : SectionM Bool :=
  if node.count ≠ 0 then pure false
  else if io.flushed then do
    touchParent node
    pure (node.parent.isSome && !io.parentFlushed)
  else pure true

/-- `_fat_close` -/
def fatClose (io : CloseIo) (fdId : ℕ) : SectionM ℤ := do
  let f ← LoggedM.look
  if !(f.fd fdId).allocated then pure fat32NotOpen
  else do
    let d ← getDesc fdId
    modifyNode d.inode fun node => { node with count := sub32 node.count 1 }
    let node ← getNode d.inode
    let failed ← closeInode io node
    if failed then pure fat32IoError
    else do
      LoggedM.change fun f => f.setDesc fdId { f.fd fdId with allocated := false }
      pure fat32Ok

/-! ## Reading and writing -/

/-- The number of bytes that the loop of `_fat_read` and `_fat_write` moves. -/
def movedFrom (t : Transfer) : ℕ → ℕ → ℕ → ℕ
  | 0, _, done => done
  | more + 1, clusterId, done => movedFrom t more (clusterId + 1) (add32 done (t.range clusterId).2)

/-- The number of bytes that a transfer of `count` bytes moves from `seek` on. -/
def bytesMoved (seek count : ℕ) : ℕ :=
  let t := transfer seek count
  movedFrom t (t.lastClusterId + 1 - t.firstClusterId) t.firstClusterId 0

/-- A descriptor with another position and another history. -/
def Descriptor.place (d : Descriptor) (seek origin : ℕ) (passed : List Passage)
    (handed : List ℕ) : Descriptor :=
  { d with seek := seek, origin := origin, passed := passed, handed := handed }

/-- The position of a descriptor moves over `done` bytes. `entry` tells that a regular entry is
read there and returned. -/
def Descriptor.move (d : Descriptor) (done : ℕ) (entry : Bool) : Descriptor :=
  d.place (add32 d.seek done) d.origin
    (if done = 0 then d.passed else d.passed ++ [⟨d.seek, done, entry⟩])
    (if entry then d.handed ++ [d.seek] else d.handed)

/-- The section of `_fat_read`, which follows its checks: `loaded` tells that the clusters can be
loaded in the cache, and `entry` that the 32 bytes there are a regular entry and the caller
returns it. -/
def fatReadSection (fdId count : ℕ) (loaded entry : Bool) : SectionM ℤ := do
  let d ← getDesc fdId
  let node ← getNode d.inode
  if add32 count d.seek > node.size ∧ ¬ node.isDir then pure 0
  else if loaded then do
    let done := bytesMoved d.seek count
    modifyDesc fdId fun d => d.move done (entry && done == 32)
    pure (int32 done)
  else pure fat32IoError

/-- What `_fat_write` meets outside the state: whether there are enough free clusters, and
whether the entry of the file can be updated and its clusters loaded. -/
structure WriteIo where
  enoughSpace : Bool
  entryUpdated : Bool
  loaded : Bool

/-- What `_fat_write` does before it moves bytes, when the file grows: the code of an error if
there is one. -/
def growFile (io : WriteIo) (p : Ptr) (oldSize newSize : ℕ) : SectionM (Option ℤ) :=
  if newSize > oldSize then do
    modifyNode p fun node => { node with size := newSize }
    if clustersOfSize newSize > clustersOfSize oldSize ∧ ¬ io.enoughSpace then
      pure (some fat32NoFreeSpace)
    else do
      let node ← getNode p
      touchParent node
      if io.entryUpdated then pure none else pure (some fat32IoError)
  else pure none

/-- `_fat_write` -/
def fatWrite (io : WriteIo) (fdId count : ℕ) : SectionM ℤ := do
  let f ← LoggedM.look
  if fdId ≥ openFilesMax then pure fat32InvalidFd
  else if !(f.fd fdId).allocated then pure fat32NotOpen
  else if (f.fd fdId).readOnly then pure fat32ReadOnly
  else do
    let d ← getDesc fdId
    let node ← getNode d.inode
    match ← growFile io d.inode node.size (add32 d.seek count) with
    | some code => pure code
    | none =>
      if io.loaded then do
        let done := bytesMoved d.seek count
        modifyDesc fdId fun d => d.move done false
        pure (int32 done)
      else pure fat32IoError

/-- A descriptor is given a new position. -/
def Descriptor.reposition (d : Descriptor) (seek : ℕ) : Descriptor :=
  d.place seek seek [] []

/-- `_fat_lseek` -/
def fatLseek (fdId seek : ℕ) (whence : Whence) : SectionM ℤ := do
  let f ← LoggedM.look
  if !(f.fd fdId).allocated then pure fat32NotOpen
  else
    match whence with
    | .other => pure fat32InvalidArg
    | .seekSet => do
      modifyDesc fdId fun d => d.reposition seek
      pure (int32 seek)
    | .seekCur => do
      let d ← getDesc fdId
      modifyDesc fdId fun d => d.reposition (add32 d.seek seek)
      pure (int32 (add32 d.seek seek))

/-- A descriptor goes back to the entry it has just read. -/
def Descriptor.back (d : Descriptor) : Descriptor :=
  d.place (sub32 d.seek 32) d.origin d.passed.dropLast d.handed

/-- The section of `_fat_readdir` that seeks back to the end of the directory. -/
def seekBackSection (fdId : ℕ) : SectionM Unit := modifyDesc fdId Descriptor.back

/-! ## Removing -/

/-- What `_fat_remove` meets outside the state: the content of the directories, the number of
entries of the directory to remove, if it can be read, and whether the updates of the device
succeed. -/
structure RemoveIo where
  scan : DirScan
  entries : Option ℕ
  updated : Bool

/-- What `_fat_remove` and `_remove_node_from_fs` check before an inode is released: the inode
and its parent, or the code of an error. -/
def checkRemove (io : RemoveIo) (pathname : List UInt8) (shouldBeDir : Bool) :
    SectionM (Except ℤ (Ptr × Ptr)) := do
  match ← getInodeFromPath io.scan pathname with
  | .absent _ => pure (.error fat32FileNotFound)
  | .noParent => pure (.error fat32FileNotFound)
  | .nameTooLong => pure (.error fat32NameTooLong)
  | .found p => do
    let node ← getNode p
    if node.isDir ∧ ¬ shouldBeDir then pure (.error fat32IsDirectory)
    else if ¬ node.isDir ∧ shouldBeDir then pure (.error fat32NotADirectory)
    else if ¬ node.isDir ∧ node.count ≠ 0 then pure (.error fat32IsOpen)
    else if node.isDir ∧ io.entries = none then pure (.error fat32IoError)
    else if node.isDir ∧ io.entries.getD 0 > 2 then pure (.error fat32DirectoryNotEmpty)
    else
      match node.parent with
      | none => pure (.error fat32IoError)
      | some parent => do
        touch parent
        if io.updated then pure (.ok (p, parent)) else pure (.error fat32IoError)

/-- `_remove_inode_from_tree`, and the release of the inode. -/
def removeInode (p parent : Ptr) : SectionM Unit := do
  let father ← getNode parent
  touchAll father.children
  modifyNode parent fun node => { node with children := node.children.filter (· ≠ p) }
  modifyNode p fun node => { node with released := true }

/-- `_fat_remove` -/
def fatRemove (io : RemoveIo) (pathname : List UInt8) (shouldBeDir : Bool) : SectionM ℤ := do
  match ← checkRemove io pathname shouldBeDir with
  | .error code => pure code
  | .ok (p, parent) => do
    removeInode p parent
    pure fat32Ok

end GietVm.Fat.Shared
