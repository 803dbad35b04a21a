import GietVm.Library.Tiling

/-!
# The buddy allocator shared by the kernel heap and the user heaps

The kernel heap of `kernel_malloc.c` and the user heaps of `malloc.c` are two copies of
one algorithm. Both files agree on the size index, on the initialisation, on
`split_block`, `get_block` and `update_free_array`, and on the layout: the NEXT pointers
of the free lists are words stored in the free blocks, and the `alloc[]` bytes are
stored at the end of the heap segment. The common part is written once here, with the
minimal block size as a parameter; what the copies do differently stays with each copy.

Addresses and words are 32-bit values, memory is an array of bytes. A call that ends in
`_exit` or `giet_exit` is an error that carries the state it leaves behind.
-/

namespace GietVm.Malloc

open GietVm.Library (Block)

/-- A 32-bit machine word. -/
abbrev u32 (n : ℕ) : ℕ := n % 0x100000000

/-- The byte at each address. -/
abbrev Mem := ℕ → UInt8

/-- The little-endian word at an address. -/
def readWord (mem : Mem) (a : ℕ) : ℕ :=
  (mem a).toNat + 0x100 * (mem (a + 1)).toNat + 0x10000 * (mem (a + 2)).toNat +
    0x1000000 * (mem (a + 3)).toNat

/-- Store a byte. -/
def writeByte (mem : Mem) (a v : ℕ) : Mem := fun x => if x = a then UInt8.ofNat v else mem x

/-- Store a little-endian word. -/
def writeWord (mem : Mem) (a v : ℕ) : Mem := fun x =>
  if x = a then UInt8.ofNat v
  else if x = a + 1 then UInt8.ofNat (v / 0x100)
  else if x = a + 2 then UInt8.ofNat (v / 0x10000)
  else if x = a + 3 then UInt8.ofNat (v / 0x1000000)
  else mem x

/-- Reset `size` bytes from `base` on. -/
def fillZero (mem : Mem) (base size : ℕ) : Mem := fun x =>
  if u32 (x + 0x100000000 - base) < size then 0 else mem x

/-- The heap descriptor, without its lock. Only the user heaps have the word `init`. -/
structure Heap where
  init : ℕ
  heapBase : ℕ
  heapSize : ℕ
  allocBase : ℕ
  allocSize : ℕ
  free : ℕ → ℕ

/-- A heap descriptor with the memory that holds the heap segment. -/
structure HeapState where
  heap : Heap
  mem : Mem

/-- The exits of the allocator, and the two accesses that C leaves undefined. -/
inductive HeapError
  | heapNotFound
  | notPowerOfTwo
  | segmentNotAligned
  | zeroSize
  | notInitialized
  | noMoreSpace
  | alreadyAllocated
  | illegalPointer
  | notAllocated
  | notAligned
  /-- A shift by 32 or more, or an access outside `free[32]`. -/
  | outOfBounds
  /-- A free list without end. -/
  | endlessList
  deriving DecidableEq, Repr

/-- A computation on the heap state that may exit. -/
abbrev HeapM := EStateM HeapError HeapState

/-- The macro `GET_SIZE_INDEX`: the first index whose power of two reaches the size. -/
def getSizeIndex (size : ℕ) : ℕ :=
  ((List.range 32).find? fun i => size ≤ 2 ^ i).getD 32

/-- Read `heap->free[index]`. -/
def getFree (index : ℕ) : HeapM ℕ := fun s =>
  if index < 32 then .ok (s.heap.free index) s else .error .outOfBounds s

/-- Write `heap->free[index]`. -/
def setFree (index v : ℕ) : HeapM Unit := fun s =>
  if index < 32 then
    .ok () { s with heap := { s.heap with free := Function.update s.heap.free index v } }
  else .error .outOfBounds s

/-- Read the NEXT pointer stored in a block. -/
def readNext (a : ℕ) : HeapM ℕ := fun s => .ok (readWord s.mem a) s

/-- Write the NEXT pointer stored in a block. -/
def writeNext (a v : ℕ) : HeapM Unit := fun s => .ok () { s with mem := writeWord s.mem a v }

/-- `1 << index` on a 32-bit word. -/
def shiftOne (index : ℕ) : HeapM ℕ := fun s =>
  if index < 32 then .ok (2 ^ index) s else .error .outOfBounds s

/-- Push a block on a free list: the old head becomes its NEXT pointer. -/
def pushFree (index a : ℕ) : HeapM Unit := do
  writeNext a (← getFree index)
  setFree index a

/-- `split_block`: push the upper halves until the requested index is reached. -/
def splitBlock (vaddr : ℕ) : (searchedIndex requestedIndex : ℕ) → HeapM ℕ
  | 0, _ => throw .outOfBounds
  | searchedIndex + 1, requestedIndex => do
    let new := u32 (vaddr + (← shiftOne searchedIndex))
    pushFree searchedIndex new
    if searchedIndex = requestedIndex then return vaddr
    else splitBlock vaddr searchedIndex requestedIndex

/-- `get_block`: pop the first block of the first non-empty list from `searchedIndex` on. -/
def getBlock (searchedIndex requestedIndex : ℕ) : HeapM ℕ :=
  if h : 32 ≤ searchedIndex then throw .outOfBounds
  else do
    let s ← get
    if 2 ^ searchedIndex > s.heap.heapSize then return 0
    else do
      let vaddr ← getFree searchedIndex
      if vaddr = 0 then getBlock (searchedIndex + 1) requestedIndex
      else do
        let next ← readNext vaddr
        setFree searchedIndex next
        if searchedIndex = requestedIndex then return vaddr
        else splitBlock vaddr searchedIndex requestedIndex
termination_by 32 - searchedIndex

/-- The word that points to the current block of a free list: the list head, or the NEXT
pointer of the block before it. -/
inductive Slot
  | head
  | next (a : ℕ)
  deriving DecidableEq, Repr

/-- Write through the pointer `prev`. -/
def writeSlot (sizeIndex : ℕ) : Slot → ℕ → HeapM Unit
  | .head, v => setFree sizeIndex v
  | .next a, v => writeNext a v

/-- The scan of one free list for the companion block, as the loop of
`update_free_array` runs it: the slot pointing to the companion, if it is met before the
null pointer. A list of different non-null pointers is shorter than the bound. -/
def scanFree (mem : Mem) (companion : ℕ) : (bound : ℕ) → Slot → ℕ → Option (Option Slot)
  | 0, _, _ => none
  | bound + 1, prev, iter =>
    if iter = 0 then some none
    else if iter = companion then some (some prev)
    else scanFree mem companion bound (.next iter) (readWord mem iter)

/-- `update_free_array`: merge the released block with its companion as long as the
companion is free, and push the result. -/
def updateFreeArray (base sizeIndex : ℕ) : HeapM Unit :=
  if h : 32 ≤ sizeIndex then throw .outOfBounds
  else do
    let size := 2 ^ sizeIndex
    let companionBase :=
      if base &&& size = 0 then u32 (base + size) else u32 (base + 0x100000000 - size)
    let mergedBase := if base &&& size = 0 then base else u32 (base + 0x100000000 - size)
    let s ← get
    match scanFree s.mem companionBase 0x100000000 .head (s.heap.free sizeIndex) with
    | none => throw .endlessList
    | some none => pushFree sizeIndex base
    | some (some prev) => do
      writeSlot sizeIndex prev (← readNext companionBase)
      updateFreeArray mergedBase (sizeIndex + 1)
termination_by 32 - sizeIndex

/-- The first blocks of `heap_init`: one block for each index from `index` down to
`allocIndex`, from `base` upwards. -/
def initFreeBlocks (allocIndex : ℕ) : (index base : ℕ) → HeapM Unit
  | index, base =>
    if index < allocIndex then return ()
    else do
      setFree index base
      writeNext base 0
      match index with
      | 0 => throw .outOfBounds
      | index + 1 => initFreeBlocks allocIndex index (u32 (base + 2 ^ (index + 1)))

/-- The part of `heap_init` that both copies share: check the segment, reset the
`free[]` and `alloc[]` arrays, and cut the segment into blocks. -/
def heapInit (minBlockSize heapBase heapSize : ℕ) : HeapM Unit := do
  let heapIndex := getSizeIndex heapSize
  if heapSize ≠ 2 ^ heapIndex then throw .notPowerOfTwo
  if heapBase % heapSize ≠ 0 then throw .segmentNotAligned
  let allocSize := max (heapSize / minBlockSize) minBlockSize
  let allocIndex := getSizeIndex allocSize
  let allocBase := u32 (heapBase + heapSize + 0x100000000 - allocSize)
  modify fun s =>
    { heap := { s.heap with heapBase, heapSize, allocBase, allocSize, free := fun _ => 0 }
      mem := fillZero s.mem allocBase allocSize }
  -- with `heap_index` 0 the first index of the loop wraps around
  if heapIndex = 0 then throw .outOfBounds
  initFreeBlocks allocIndex (heapIndex - 1) heapBase

/-- The address of the `alloc[]` byte of a block. -/
def allocPtr (minBlockSize : ℕ) (heap : Heap) (base : ℕ) : ℕ :=
  u32 (heap.allocBase + u32 (base + 0x100000000 - heap.heapBase) / minBlockSize)

/-- The part of `remote_malloc` after the checks of its arguments. -/
def mallocBlock (minBlockSize size : ℕ) : HeapM ℕ := do
  let size := if size < minBlockSize then minBlockSize else size
  let requestedIndex := getSizeIndex size
  let base ← getBlock requestedIndex requestedIndex
  if base = 0 then throw .noMoreSpace
  else do
    let s ← get
    let ptr := allocPtr minBlockSize s.heap base
    if s.mem ptr ≠ 0 then throw .alreadyAllocated
    else do
      set { s with mem := writeByte s.mem ptr requestedIndex }
      return base

/-- The checks of `free`: the address of the `alloc[]` byte and the size index of the
released block. -/
def checkReleased (minBlockSize base : ℕ) : HeapM (ℕ × ℕ) := do
  let s ← get
  if base < s.heap.heapBase ∨ base ≥ u32 (s.heap.heapBase + s.heap.heapSize) then
    throw .illegalPointer
  else do
    let ptr := allocPtr minBlockSize s.heap base
    let sizeIndex := (s.mem ptr).toNat
    if sizeIndex = 0 then throw .notAllocated
    else if base % (← shiftOne sizeIndex) ≠ 0 then throw .notAligned
    else return (ptr, sizeIndex)

end GietVm.Malloc
