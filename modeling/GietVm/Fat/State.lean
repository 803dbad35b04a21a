import GietVm.Library.Bytes
import GietVm.Library.RadixTree
import GietVm.Library.Exits

/-!
# The state of the FAT32 file system

The state gathers the FAT descriptor of `fat32.c`, the inodes, the two buffers of the boot
loader, and what the code reaches outside: the kernel heap, the memory of the caller and
the block device.

A pointer is the number of its `_malloc` call, so addresses are never reused and a pointer
to a released inode designates nothing. A 64-tree is a value whose cells carry their
addresses. The content of a new 4 Kbytes buffer is whatever the heap hands out. Each access
to the device succeeds or fails according to `fails`, and a failed access transfers nothing.

`_exit`, the uses of memory that C leaves undefined (a null or dangling pointer, a cell read
with the wrong type, an uninitialised string, an array overflow) and loops that outlast
their fuel end the computation with an error. The lock and the messages are left out.
-/

namespace GietVm.Fat

open GietVm.Library

/-- A 32-bit value. -/
abbrev u32 (n : ℕ) : ℕ := n % 0x100000000

/-- A pointer that is not null. -/
abbrev Ptr := ℕ

/-- A cluster buffer. -/
abbrev Block := Bytes 4096

/-- `GIET_OPEN_FILES_MAX` -/
abbrev openFilesMax : ℕ := 16

/-- `NAME_MAX_SIZE` -/
abbrev nameMaxSize : ℕ := 31

/-- `FREE_CLUSTER` -/
abbrev freeCluster : ℕ := 0

/-- `END_OF_CHAIN_CLUSTER_MIN` -/
abbrev endOfChainClusterMin : ℕ := 0x0FFFFFF8

/-- `END_OF_CHAIN_CLUSTER_MAX` -/
abbrev endOfChainClusterMax : ℕ := 0x0FFFFFFF

/-- `ATTR_LONG_NAME_MASK` -/
abbrev attrLongNameMask : ℕ := 0x0F

/-- `ATTR_DIRECTORY` -/
abbrev attrDirectory : ℕ := 0x10

/-- `FREE_ENTRY` -/
abbrev freeEntry : ℕ := 0xE5

/-- `NO_MORE_ENTRY` -/
abbrev noMoreEntry : ℕ := 0

/-- A cluster descriptor (`fat_cache_desc_t`), with the addresses of its two cells. -/
structure Desc where
  address : Ptr
  bufferAddress : Ptr
  lba : ℕ
  dirty : Bool
  buffer : Block

/-- A node of a cache has a child for each of 64 slots. -/
instance slots_neZero : NeZero 64 := ⟨by decide⟩

/-- A File-Cache or the Fat-Cache. -/
abbrev CacheTree := RadixTree 64 Desc

/-- An inode (`fat_inode_t`). The name is the string that `name[32]` holds. -/
structure Inode where
  parent : Option Ptr
  next : Option Ptr
  child : Option Ptr
  cache : CacheTree
  cluster : ℕ
  size : ℕ
  count : ℕ
  dentry : ℕ
  levels : ℕ
  isDir : Bool
  name : List UInt8

/-- A file descriptor (`fat_file_desc_t`). -/
structure FileDesc where
  seek : ℕ
  inode : Ptr
  allocated : Bool
  readOnly : Bool

/-- The block device, with the number of accesses made so far. -/
structure Device where
  disk : Disk
  fails : ℕ → Bool
  accesses : ℕ

/-- The file system with everything it reads and writes. -/
structure FatState where
  /-- The descriptor `_fat` of type `fat_desc_t`. -/
  blockBuffer : Bytes 512
  fd : ℕ → FileDesc
  inodeTreeRoot : Ptr
  fatCacheRoot : CacheTree
  fatCacheLevels : ℕ
  blockBufferLba : ℕ
  initialized : Bool
  fatLba : ℕ
  fatSectors : ℕ
  dataLba : ℕ
  dataSectors : ℕ
  fsInfoLba : ℕ
  firstFreeCluster : ℕ
  freeClustersNumber : ℕ
  /-- The buffers `_fat_buffer_fat` and `_fat_buffer_data` of the boot loader. -/
  bufferFat : Block
  bufferFatLba : ℕ
  bufferData : Block
  bufferDataLba : ℕ
  /-- The kernel heap: the next address, the live inodes, the released cells, and the
  content of the buffer handed out at each address. -/
  brk : Ptr
  inodes : Ptr → Option Inode
  freed : List Ptr
  garbage : Ptr → Block
  /-- The memory of the caller. -/
  memory : ℕ → UInt8
  device : Device

/-- The state before `_fat_init`. -/
def FatState.boot (device : Device) (garbage : Ptr → Block) (memory : ℕ → UInt8) : FatState where
  blockBuffer := fun _ => 0
  fd := fun _ => ⟨0, 0, false, false⟩
  inodeTreeRoot := 0
  fatCacheRoot := .null
  fatCacheLevels := 0
  blockBufferLba := 0
  initialized := false
  fatLba := 0
  fatSectors := 0
  dataLba := 0
  dataSectors := 0
  fsInfoLba := 0
  firstFreeCluster := 0
  freeClustersNumber := 0
  bufferFat := fun _ => 0
  bufferFatLba := 0
  bufferData := fun _ => 0
  bufferDataLba := 0
  brk := 1
  inodes := fun _ => none
  freed := []
  garbage := garbage
  memory := memory
  device := device

/-- How a call can end without returning. -/
inductive FatError
  /-- `_cluster_to_lba()`: cluster smaller than 2. -/
  | clusterSmallerThan2
  /-- `_allocate_one_buffer()`: slot not empty. -/
  | slotNotEmpty
  /-- `_free()`: illegal pointer. -/
  | illegalPointer
  /-- A use of memory that C leaves undefined. -/
  | undefined
  /-- The fuel of a loop is used up. -/
  | endless
  deriving DecidableEq, Repr

/-- A computation on the file system. -/
abbrev FatM := EStateM FatError FatState

/-! ## Heap and pointers -/

/-- `_malloc` never fails: the kernel exits when its heap is exhausted. -/
def malloc : FatM Ptr := fun s => .ok s.brk { s with brk := s.brk + 1 }

/-- `_free` -/
def free (p : Ptr) : FatM Unit := modify fun s => { s with freed := p :: s.freed }

/-- Read through an inode pointer. -/
def getInode (p : Ptr) : FatM Inode := fun s =>
  match s.inodes p with
  | some inode => .ok inode s
  | none => .error .undefined s

/-- The state with one inode replaced. -/
def FatState.setInode (s : FatState) (p : Ptr) (inode : Inode) : FatState :=
  { s with inodes := Function.update s.inodes p (some inode) }

/-- Write through an inode pointer. -/
def modifyInode (p : Ptr) (f : Inode → Inode) : FatM Unit := fun s =>
  match s.inodes p with
  | some inode => .ok () (s.setInode p (f inode))
  | none => .error .undefined s

/-- `_free` of an inode. -/
def freeInode (p : Ptr) : FatM Unit := fun s =>
  match s.inodes p with
  | some _ => .ok () { s with inodes := Function.update s.inodes p none, freed := p :: s.freed }
  | none => .error .undefined s

/-! ## The device -/

/-- `_fat_ioc_access` of `n` bytes to memory, `none` when it fails. -/
def Device.read (n lba : ℕ) (d : Device) : Option (Bytes n) × Device :=
  (if d.fails d.accesses then none else some (d.disk.load n lba),
    { d with accesses := d.accesses + 1 })

/-- `_fat_ioc_access` of a buffer to the device. Returns whether it fails. -/
def Device.write {n : ℕ} (lba : ℕ) (b : Bytes n) (d : Device) : Bool × Device :=
  (d.fails d.accesses,
    { d with
      disk := if d.fails d.accesses then d.disk else d.disk.store lba b
      accesses := d.accesses + 1 })

/-- `_fat_ioc_access` from the device: `none` stands for a non-zero return code. -/
def iocRead (n lba : ℕ) : FatM (Option (Bytes n)) := fun s =>
  .ok (s.device.read n lba).1 { s with device := (s.device.read n lba).2 }

/-- `_fat_ioc_access` to the device: `true` stands for a non-zero return code. -/
def iocWrite {n : ℕ} (lba : ℕ) (b : Bytes n) : FatM Bool := fun s =>
  .ok (s.device.write lba b).1 { s with device := (s.device.write lba b).2 }

/-! ## Numbers and addresses -/

/-- `_get_levels_from_size` -/
def getLevelsFromSize (size : ℕ) : ℕ :=
  if size ≤ 2 ^ 18 then 1
  else if size ≤ 2 ^ 24 then 2
  else if size ≤ 2 ^ 30 then 3
  else 4

/-- `_read_entry`: the integer in `size` bytes of a directory entry. -/
def readEntry (offset size : ℕ) (buffer : ℕ → UInt8) (littleEndian : Bool) : ℕ :=
  if littleEndian then
    (List.range size).reverse.foldl (fun res n => 0x100 * res + (buffer (offset + n)).toNat) 0
  else
    (List.range size).foldl (fun res n => 0x100 * res + (buffer (offset + n)).toNat) 0

/-- A pointer into a buffer. -/
def pointer {n : ℕ} (b : Bytes n) (offset : ℕ) : ℕ → UInt8 := fun i => b.get (offset + i)

/-- `_cluster_to_lba` -/
def clusterToLba (cluster : ℕ) : FatM ℕ := fun s =>
  if cluster < 2 then .error .clusterSmallerThan2 s
  else .ok (u32 ((cluster - 2) * 8 + s.dataLba)) s

end GietVm.Fat
