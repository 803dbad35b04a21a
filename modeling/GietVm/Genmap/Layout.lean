import GietVm.Genmap.Serial
import GietVm.Genmap.Accessors

/-!
# What `cbin` writes is what the kernel reads

Each object is written as a record with its fields in the order of the C structure, so reading the
structure gives the fields back. The arrays follow each other, and the counts of the header are
their lengths, so the address that the kernel computes for an array is the one where it was
written. `Written` collects what a mapping that was written successfully gives the kernel to read.
-/

namespace GietVm.Genmap

open GietVm.Library

/-! ## Scripts that go on -/

section Script

variable {α β : Type} {x : Script α} {f : α → Script β} {b : β}

theorem script_bind_iff : (x >>= f) = .ok b ↔ ∃ a, x = .ok a ∧ f a = .ok b := by
  cases x with
  | error e =>
    constructor
    · intro h
      cases h
    · intro ⟨a, ha, _⟩
      cases ha
  | ok a =>
    constructor
    · intro h
      exact ⟨a, rfl, h⟩
    · intro ⟨a', ha, h⟩
      cases ha
      exact h

theorem require_iff {p : Prop} [Decidable p] {e : GenmapError} {u : Unit} :
    require p e = .ok u ↔ p := by
  unfold require
  split
  · next h => exact iff_of_true rfl h
  · next h => exact iff_of_false (by intro h'; cases h') h

theorem assertThat_iff {p : Prop} [Decidable p] {u : Unit} : assertThat p = .ok u ↔ p :=
  require_iff

/-- A test that a script passed. -/
theorem require_bind_iff {p : Prop} [Decidable p] {e : GenmapError} {f : Unit → Script β} :
    (require p e >>= f) = .ok b ↔ p ∧ f () = .ok b := by
  rw [script_bind_iff]
  constructor
  · intro ⟨_, hp, hf⟩
    exact ⟨require_iff.1 hp, hf⟩
  · intro ⟨hp, hf⟩
    exact ⟨(), require_iff.2 hp, hf⟩

theorem script_pure_iff {a b : β} : (pure a : Script β) = .ok b ↔ a = b := by
  constructor
  · intro h
    cases h
    rfl
  · intro h
    rw [h]
    rfl

end Script

/-! ## Numbers and strings -/

theorem int2bytes_eq (nbytes : ℕ) (val : ℤ) :
    int2bytes nbytes val = littleEndian nbytes val := by
  apply List.map_congr_left
  intro n _
  have hshift : val >>> (n <<< 3) = val / 2 ^ (8 * n) := by
    rw [Int.shiftRight_eq_div_pow, Nat.shiftLeft_eq, Nat.mul_comm]
    norm_cast
  rw [lowBits, hshift]
  apply BitVec.eq_of_toInt_eq
  rw [BitVec.toInt_ofInt, BitVec.toInt_ofInt]
  exact Int.emod_bmod _ _

@[simp] theorem int2bytes_length (nbytes : ℕ) (val : ℤ) :
    (int2bytes nbytes val).length = nbytes := by
  rw [int2bytes_eq, littleEndian_length]

/-- The bytes of a string field. -/
def padded (nbytes : ℕ) (s : Text) : Text := s ++ List.replicate (nbytes - s.length) 0

theorem str2bytes_iff {nbytes : ℕ} {s bytes : Text} :
    str2bytes nbytes s = .ok bytes ↔ s.length < nbytes - 1 ∧ padded nbytes s = bytes := by
  rw [str2bytes, require_bind_iff, script_pure_iff, padded]

theorem padded_length {nbytes : ℕ} {s : Text} (h : s.length < nbytes - 1) :
    (padded nbytes s).length = nbytes := by
  rw [padded, List.length_append, List.length_replicate]
  omega

theorem chars_eq {mem : ByteMemory} {a : Address} {bytes : Text} (h : mem.Holds a bytes) :
    chars mem a bytes.length = bytes := by
  apply List.ext_getElem
  · rw [chars, List.length_map, List.length_range]
  · intro i _ hi
    simp only [chars, List.getElem_map, List.getElem_range]
    exact h i hi

/-! ## Fields of a record -/

section Fields

variable {mem : ByteMemory} {a : Address}

theorem word_int {v : ℤ} (h : mem.Holds a (int2bytes 4 v)) :
    mem.loadWord a = BitVec.ofInt 32 v := by
  rw [int2bytes_eq] at h
  exact h.loadWord

theorem word_nat {n : ℕ} (h : mem.Holds a (int2bytes 4 n)) :
    mem.loadWord a = BitVec.ofNat 32 n := by
  rw [word_int h, BitVec.ofInt_natCast]

theorem words_int {v : ℤ} (h : mem.Holds a (int2bytes 8 v)) :
    mem.loadWord a = BitVec.ofInt 32 v ∧ mem.loadWord (a + 4) = BitVec.ofInt 32 (v / 2 ^ 32) := by
  rw [int2bytes_eq] at h
  exact h.loadWords

theorem byte_nat {n : ℕ} (h : mem.Holds a (int2bytes 1 n)) : mem a = BitVec.ofNat 8 n := by
  have hget := h 0 (by rw [int2bytes_length]; exact Nat.one_pos)
  rw [BitVec.add_zero] at hget
  rw [hget]
  simp only [int2bytes_eq, littleEndian, List.getElem_map, List.getElem_range]
  rw [Nat.mul_zero, pow_zero, Int.ediv_one, BitVec.ofInt_natCast]

theorem byte_zero (h : mem.Holds a (int2bytes 1 0)) : mem a = 0 := byte_nat h

theorem words_zero (h : mem.Holds a (int2bytes 8 0)) :
    mem.loadWord a = 0 ∧ mem.loadWord (a + 4) = 0 := by
  have hwords := words_int h
  rw [Int.zero_ediv] at hwords
  exact hwords

theorem chars_padded {nbytes : ℕ} {s : Text} (hlt : s.length < nbytes - 1)
    (h : mem.Holds a (padded nbytes s)) : chars mem a nbytes = padded nbytes s := by
  have := chars_eq h
  rwa [padded_length hlt] at this

end Fields

/-! ## Records -/

/-- The record of a cluster. -/
def Cluster.record (c : Cluster) : MappingCluster where
  x := BitVec.ofNat 32 c.x
  y := BitVec.ofNat 32 c.y
  psegs := BitVec.ofNat 32 c.psegs.length
  psegOffset := BitVec.ofNat 32 (firstIndex (·.index) c.psegs)
  procs := BitVec.ofNat 32 c.procs.length
  procOffset := BitVec.ofNat 32 (firstIndex (·.index) c.procs)
  periphs := BitVec.ofNat 32 c.periphs.length
  periphOffset := BitVec.ofNat 32 (firstIndex (·.index) c.periphs)

theorem Cluster.cbin_spec {c : Cluster} {k : ℕ} {bytes : Text} (h : c.cbin k = .ok bytes) :
    c.index = k ∧ bytes.length = 32 ∧
      ∀ mem a, ByteMemory.Holds mem a bytes → readCluster mem a = c.record := by
  simp only [Cluster.cbin, require_bind_iff, script_pure_iff] at h
  obtain ⟨hk, rfl⟩ := h
  refine ⟨hk, by simp, ?_⟩
  intro mem a hmem
  simp only [ByteMemory.holds_append, int2bytes_length, List.length_append] at hmem
  obtain ⟨⟨⟨⟨⟨⟨⟨h0, h1⟩, h2⟩, h3⟩, h4⟩, h5⟩, h6⟩, h7⟩ := hmem
  rw [readCluster, record, MappingCluster.mk.injEq]
  exact ⟨word_nat h0, word_nat h1, word_nat h2, word_nat h3, word_nat h4, word_nat h5, word_nat h6,
    word_nat h7⟩

theorem headIndex_iff {α : Type} {index : α → ℕ} {l : List α} {k : ℕ} :
    headIndex index l = .ok k ↔ l ≠ [] ∧ firstIndex index l = k := by
  cases l with
  | nil =>
    constructor
    · intro h
      cases h
    · intro h
      exact absurd rfl h.1
  | cons o rest =>
    constructor
    · intro h
      cases h
      exact ⟨List.cons_ne_nil _ _, rfl⟩
    · intro h
      rw [← h.2]
      rfl

/-- The record of a pseg. -/
def Pseg.record (c : Cluster) (p : Pseg) : MappingPseg where
  name := padded 32 p.name
  baseLow := BitVec.ofInt 32 p.base
  baseHigh := BitVec.ofInt 32 (p.base / 2 ^ 32)
  lengthLow := BitVec.ofInt 32 p.size
  lengthHigh := BitVec.ofInt 32 (p.size / 2 ^ 32)
  type := BitVec.ofNat 32 p.segtype.id
  clusterid := BitVec.ofNat 32 c.index
  nextVseg := 0

theorem Pseg.cbin_spec {c : Cluster} {p : Pseg} {k : ℕ} {bytes : Text}
    (h : p.cbin c k = .ok bytes) :
    p.index = k ∧ p.name.length < 31 ∧ bytes.length = 60 ∧
      ∀ mem a, ByteMemory.Holds mem a bytes → readPseg mem a = p.record c := by
  simp only [Pseg.cbin, script_bind_iff, require_iff, exists_const, str2bytes_iff,
    script_pure_iff] at h
  obtain ⟨hk, _, ⟨hname, rfl⟩, rfl⟩ := h
  refine ⟨hk, hname, by simp [padded_length hname], ?_⟩
  intro mem a hmem
  simp only [ByteMemory.holds_append, int2bytes_length, List.length_append,
    padded_length hname] at hmem
  obtain ⟨⟨⟨⟨⟨h0, h1⟩, h2⟩, h3⟩, h4⟩, h5⟩ := hmem
  rw [readPseg, record, MappingPseg.mk.injEq]
  obtain ⟨hbaseLow, hbaseHigh⟩ := words_int h1
  obtain ⟨hlengthLow, hlengthHigh⟩ := words_int h2
  rw [add_assoc] at hbaseHigh hlengthHigh
  exact ⟨chars_padded hname h0, hbaseLow, hbaseHigh, hlengthLow, hlengthHigh, word_nat h3,
    word_nat h4, word_int h5⟩

/-- The record of a vspace. -/
def Vspace.record (s : Vspace) : MappingVspace where
  name := padded 32 s.name
  startVsegId := BitVec.ofNat 32 (lastIndex (fun v => v.name = s.startname) (·.index) s.vsegs)
  vsegs := BitVec.ofNat 32 s.vsegs.length
  tasks := BitVec.ofNat 32 s.tasks.length
  vsegOffset := BitVec.ofNat 32 (firstIndex (·.index) s.vsegs)
  taskOffset := BitVec.ofNat 32 (firstIndex (·.index) s.tasks)
  active := BitVec.ofNat 32 s.active.toNat

theorem Vspace.cbin_spec {s : Vspace} {k : ℕ} {bytes : Text} (h : s.cbin k = .ok bytes) :
    s.index = k ∧ s.name.length < 31 ∧
      lastIndex (fun v => v.name = s.startname) (·.index) s.vsegs ≠ 0xFFFFFFFF ∧
      s.vsegs ≠ [] ∧ s.tasks ≠ [] ∧ bytes.length = 56 ∧
      ∀ mem a, ByteMemory.Holds mem a bytes → readVspace mem a = s.record := by
  simp only [Vspace.cbin, script_bind_iff, require_iff, exists_const, str2bytes_iff, headIndex_iff,
    script_pure_iff] at h
  obtain ⟨hk, hstart, _, ⟨hvsegs, rfl⟩, _, ⟨htasks, rfl⟩, _, ⟨hname, rfl⟩, rfl⟩ := h
  refine ⟨hk, hname, hstart, hvsegs, htasks, by simp [padded_length hname], ?_⟩
  intro mem a hmem
  simp only [ByteMemory.holds_append, int2bytes_length, List.length_append,
    padded_length hname] at hmem
  obtain ⟨⟨⟨⟨⟨⟨h0, h1⟩, h2⟩, h3⟩, h4⟩, h5⟩, h6⟩ := hmem
  rw [readVspace, record, MappingVspace.mk.injEq]
  exact ⟨chars_padded hname h0, word_nat h1, word_nat h2, word_nat h3, word_nat h4, word_nat h5,
    word_nat h6⟩

/-- The index that a task has for its heap. -/
def Task.heapId (s : Vspace) (t : Task) : ℕ :=
  if t.heapname = [] then 0
  else lastIndex (fun v => v.name = t.heapname) (·.index) s.vsegs

/-- The record of a task. -/
def Task.record (m : Mapping) (s : Vspace) (t : Task) : MappingTask where
  name := padded 32 t.name
  clusterid := BitVec.ofInt 32 (t.x * m.ySize + t.y)
  proclocid := BitVec.ofInt 32 t.p
  trdid := BitVec.ofInt 32 t.trdid
  stackVsegId := BitVec.ofNat 32 (lastIndex (fun v => v.name = t.stackname) (·.index) s.vsegs)
  heapVsegId := BitVec.ofNat 32 (t.heapId s)
  startid := BitVec.ofInt 32 t.startid
  ltid := 0

theorem Task.cbin_spec {m : Mapping} {s : Vspace} {t : Task} {k : ℕ} {bytes : Text}
    (h : t.cbin m s k = .ok bytes) :
    t.index = k ∧ t.name.length < 31 ∧
      lastIndex (fun v => v.name = t.stackname) (·.index) s.vsegs ≠ 0xFFFFFFFF ∧
      t.heapId s ≠ 0xFFFFFFFF ∧ bytes.length = 60 ∧
      ∀ mem a, ByteMemory.Holds mem a bytes → readTask mem a = t.record m s := by
  simp only [Task.cbin, script_bind_iff, require_iff, exists_const, str2bytes_iff,
    script_pure_iff] at h
  obtain ⟨hk, hstack, hheap, _, ⟨hname, rfl⟩, rfl⟩ := h
  refine ⟨hk, hname, hstack, hheap, by simp [padded_length hname], ?_⟩
  intro mem a hmem
  simp only [ByteMemory.holds_append, int2bytes_length, List.length_append,
    padded_length hname] at hmem
  obtain ⟨⟨⟨⟨⟨⟨⟨h0, h1⟩, h2⟩, h3⟩, h4⟩, h5⟩, h6⟩, h7⟩ := hmem
  rw [readTask, record, MappingTask.mk.injEq]
  exact ⟨chars_padded hname h0, word_int h1, word_int h2, word_int h3, word_nat h4, word_nat h5,
    word_int h6, word_int h7⟩

/-- The index that a vseg has for its pseg, in the cluster at a place. -/
def Vseg.psegId (m : Mapping) (v : Vseg) (cluster : ℕ) : ℕ :=
  lastIndex (fun p => v.psegname = p.name) (·.index) (m.psegsAt cluster)

/-- The record of a vseg. -/
def Vseg.record (m : Mapping) (v : Vseg) (cluster : ℕ) : MappingVseg where
  name := padded 32 v.name
  binpath := padded 64 v.binpath
  vbase := BitVec.ofInt 32 v.vbase
  pbaseLow := 0
  pbaseHigh := 0
  length := BitVec.ofInt 32 v.length
  psegid := BitVec.ofNat 32 (v.psegId m cluster)
  mode := BitVec.ofNat 32 v.mode.id
  type := BitVec.ofNat 32 v.vtype.id
  mapped := 0
  ident := BitVec.ofNat 8 v.identity.toNat
  isLocal := BitVec.ofNat 8 v.isLocal.toNat
  big := BitVec.ofNat 8 v.big.toNat

theorem Vseg.cbin_spec {m : Mapping} {v : Vseg} {k : ℕ} {bytes : Text}
    (h : v.cbin m k = .ok bytes) :
    v.index = k ∧ v.name.length < 31 ∧ v.binpath.length < 63 ∧
      ∃ cluster, m.clusterAt v.x v.y = .ok cluster ∧
      v.psegId m cluster ≠ 0xFFFFFFFF ∧ bytes.length = 128 ∧
      ∀ mem a, ByteMemory.Holds mem a bytes → readVseg mem a = v.record m cluster := by
  simp only [Vseg.cbin, script_bind_iff, require_iff, exists_const, str2bytes_iff,
    script_pure_iff] at h
  obtain ⟨hk, cluster, hcluster, hpseg, _, ⟨hname, rfl⟩, _, ⟨hpath, rfl⟩, rfl⟩ := h
  refine ⟨hk, hname, hpath, cluster, hcluster, hpseg,
    by simp [padded_length hname, padded_length hpath], ?_⟩
  intro mem a hmem
  simp only [ByteMemory.holds_append, int2bytes_length, List.length_append,
    padded_length hname, padded_length hpath] at hmem
  obtain ⟨⟨⟨⟨⟨⟨⟨⟨⟨⟨⟨h0, h1⟩, h2⟩, h3⟩, h4⟩, h5⟩, h6⟩, h7⟩, h8⟩, h9⟩, h10⟩, h11⟩ := hmem
  rw [readVseg, record, MappingVseg.mk.injEq]
  obtain ⟨hlow, hhigh⟩ := words_zero h3
  rw [add_assoc] at hhigh
  exact ⟨chars_padded hname h0, chars_padded hpath h1, word_int h2, hlow, hhigh, word_int h4,
    word_nat h5, word_nat h6, word_nat h7, byte_zero h8, byte_nat h9, byte_nat h10, byte_nat h11⟩

/-- The record of a processor. -/
def Processor.record (p : Processor) : MappingProc where
  index := BitVec.ofInt 32 p.lpid

theorem Processor.cbin_spec {p : Processor} {k : ℕ} {bytes : Text} (h : p.cbin k = .ok bytes) :
    p.index = k ∧ bytes.length = 4 ∧
      ∀ mem a, ByteMemory.Holds mem a bytes → readProc mem a = p.record := by
  simp only [Processor.cbin, require_bind_iff, script_pure_iff] at h
  obtain ⟨hk, rfl⟩ := h
  refine ⟨hk, int2bytes_length _ _, ?_⟩
  intro mem a hmem
  rw [readProc, record, word_int hmem]

/-- The record of an interrupt. -/
def Irq.record (q : Irq) : MappingIrq where
  srctype := BitVec.ofNat 32 q.irqtype.id
  srcid := BitVec.ofInt 32 q.srcid
  isr := BitVec.ofNat 32 q.isrtype.id
  channel := BitVec.ofInt 32 q.channel
  destXy := 0
  destId := 0

theorem Irq.cbin_spec {q : Irq} {k : ℕ} {bytes : Text} (h : q.cbin k = .ok bytes) :
    q.index = k ∧ bytes.length = 24 ∧
      ∀ mem a, ByteMemory.Holds mem a bytes → readIrq mem a = q.record := by
  simp only [Irq.cbin, require_bind_iff, script_pure_iff] at h
  obtain ⟨hk, rfl⟩ := h
  refine ⟨hk, by simp, ?_⟩
  intro mem a hmem
  simp only [ByteMemory.holds_append, int2bytes_length, List.length_append] at hmem
  obtain ⟨⟨⟨⟨⟨h0, h1⟩, h2⟩, h3⟩, h4⟩, h5⟩ := hmem
  rw [readIrq, record, MappingIrq.mk.injEq]
  exact ⟨word_nat h0, word_int h1, word_nat h2, word_int h3, word_int h4, word_int h5⟩

/-- The record of a peripheral. -/
def Periph.record (p : Periph) : MappingPeriph where
  type := BitVec.ofNat 32 p.ptype.id
  subtype := BitVec.ofNat 32 p.subtypeId
  psegid := BitVec.ofNat 32 p.pseg.index
  channels := BitVec.ofInt 32 p.channels
  arg0 := BitVec.ofInt 32 p.arg0
  arg1 := BitVec.ofInt 32 p.arg1
  arg2 := BitVec.ofInt 32 p.arg2
  arg3 := BitVec.ofInt 32 p.arg3
  irqs := BitVec.ofNat 32 p.irqs.length
  irqOffset := BitVec.ofNat 32 (firstIndex (·.index) p.irqs)

theorem Periph.cbin_spec {p : Periph} {k : ℕ} {bytes : Text} (h : p.cbin k = .ok bytes) :
    p.index = k ∧ bytes.length = 40 ∧
      ∀ mem a, ByteMemory.Holds mem a bytes → readPeriph mem a = p.record := by
  simp only [Periph.cbin, require_bind_iff, script_pure_iff] at h
  obtain ⟨hk, rfl⟩ := h
  refine ⟨hk, by simp, ?_⟩
  intro mem a hmem
  simp only [ByteMemory.holds_append, int2bytes_length, List.length_append] at hmem
  obtain ⟨⟨⟨⟨⟨⟨⟨⟨⟨h0, h1⟩, h2⟩, h3⟩, h4⟩, h5⟩, h6⟩, h7⟩, h8⟩, h9⟩ := hmem
  rw [readPeriph, record, MappingPeriph.mk.injEq]
  exact ⟨word_nat h0, word_nat h1, word_nat h2, word_int h3, word_int h4, word_int h5, word_int h6,
    word_int h7, word_nat h8, word_nat h9⟩

/-- The record of the header. -/
def Mapping.headerRecord (m : Mapping) : MappingHeader where
  signature := BitVec.ofNat 32 0xDACE2014
  xSize := BitVec.ofNat 32 m.xSize
  ySize := BitVec.ofNat 32 m.ySize
  xWidth := BitVec.ofNat 32 m.xWidth
  yWidth := BitVec.ofNat 32 m.yWidth
  xIo := BitVec.ofInt 32 m.xIo
  yIo := BitVec.ofInt 32 m.yIo
  irqPerProc := BitVec.ofInt 32 m.irqPerProc
  useRamDisk := BitVec.ofNat 32 m.useRamdisk.toNat
  globals := BitVec.ofNat 32 m.totalGlobals
  vspaces := BitVec.ofNat 32 m.totalVspaces
  psegs := BitVec.ofNat 32 m.totalPsegs
  vsegs := BitVec.ofNat 32 m.totalVsegs
  tasks := BitVec.ofNat 32 m.totalTasks
  procs := BitVec.ofNat 32 m.totalProcs
  irqs := BitVec.ofNat 32 m.totalIrqs
  periphs := BitVec.ofNat 32 m.totalPeriphs
  name := padded 64 m.name

theorem Mapping.cbinHeader_spec {m : Mapping} {bytes : Text} (h : m.cbinHeader = .ok bytes) :
    bytes.length = 132 ∧
      ∀ mem a, ByteMemory.Holds mem a bytes → readHeader mem a = m.headerRecord := by
  simp only [Mapping.cbinHeader, script_bind_iff, str2bytes_iff, script_pure_iff, headerWords,
    List.flatMap_cons, List.flatMap_nil, List.append_nil] at h
  obtain ⟨_, ⟨hname, rfl⟩, rfl⟩ := h
  refine ⟨by simp [padded_length hname], ?_⟩
  intro mem a hmem
  simp only [ByteMemory.holds_append, int2bytes_length, List.length_append, add_assoc,
    ← BitVec.ofNat_add] at hmem
  obtain ⟨⟨h0, h1, h2, h3, h4, h5, h6, h7, h8, h9, h10, h11, h12, h13, h14, h15, h16⟩, h17⟩ := hmem
  rw [readHeader, headerRecord, MappingHeader.mk.injEq]
  exact ⟨word_nat h0, word_nat h1, word_nat h2, word_nat h3, word_nat h4, word_int h5, word_int h6,
    word_int h7, word_nat h8, word_nat h9, word_nat h10, word_nat h11, word_nat h12, word_nat h13,
    word_nat h14, word_nat h15, word_nat h16, chars_padded hname h17⟩

/-! ## Arrays -/

section Arrays

variable {α : Type} {cbin : α → ℕ → Script Text} {l : List α} {bytes : Text}

/-- The records of an array. -/
theorem cbinAll_records {index : ℕ} (h : cbinAll cbin index l = .ok bytes) :
    ∃ records : List Text, bytes = records.flatten ∧ records.length = l.length ∧
      ∀ k o, l[k]? = some o → ∃ r, records[k]? = some r ∧ cbin o (index + k) = .ok r := by
  induction l generalizing index bytes with
  | nil =>
    rw [cbinAll, script_pure_iff] at h
    refine ⟨[], h.symm, rfl, ?_⟩
    intro k o hk
    cases hk
  | cons first rest ih =>
    rw [cbinAll, script_bind_iff] at h
    obtain ⟨r, hr, h⟩ := h
    rw [script_bind_iff] at h
    obtain ⟨others, hothers, h⟩ := h
    rw [script_pure_iff] at h
    obtain ⟨records, rfl, hlen, hrecords⟩ := ih hothers
    refine ⟨r :: records, h.symm, by rw [List.length_cons, List.length_cons, hlen], ?_⟩
    intro k o hk
    cases k with
    | zero =>
      have ho : first = o := Option.some.inj hk
      rw [← ho]
      exact ⟨r, rfl, hr⟩
    | succ k =>
      obtain ⟨r', hr', hcbin⟩ := hrecords k o hk
      refine ⟨r', hr', ?_⟩
      rwa [Nat.add_assoc, Nat.add_comm 1] at hcbin

/-- An array of records of one size, as it is read. -/
theorem cbinAll_spec (size : ℕ) (rel : α → ℕ → ByteMemory → Address → Prop)
    (hspec : ∀ o k r, cbin o k = .ok r →
      r.length = size ∧ ∀ mem a, ByteMemory.Holds mem a r → rel o k mem a)
    (h : cbinAll cbin 0 l = .ok bytes) :
    bytes.length = size * l.length ∧ ∀ mem a, ByteMemory.Holds mem a bytes →
      ∀ k o, l[k]? = some o → rel o k mem (elementAt a size (BitVec.ofNat 32 k)) := by
  obtain ⟨records, rfl, hlen, hrecords⟩ := cbinAll_records h
  have hsize : ∀ r ∈ records, r.length = size := by
    intro r hr
    obtain ⟨k, hk, rfl⟩ := List.getElem_of_mem hr
    obtain ⟨r', hr', hcbin⟩ := hrecords k l[k] (List.getElem?_eq_getElem (hlen ▸ hk))
    rw [List.getElem?_eq_getElem hk] at hr'
    rw [Option.some.inj hr']
    exact (hspec _ _ _ hcbin).1
  refine ⟨by rw [ByteMemory.flatten_length hsize, hlen], ?_⟩
  intro mem a hmem k o hk
  obtain ⟨r, hr, hcbin⟩ := hrecords k o hk
  rw [Nat.zero_add] at hcbin
  have hrecord := hmem.record hsize hr
  rw [BitVec.ofNat_mul] at hrecord
  exact (hspec _ _ _ hcbin).2 mem _ hrecord

end Arrays

/-! ## The whole image -/

/-- The totals are the numbers of objects. -/
structure Mapping.Counted (m : Mapping) : Prop where
  clusters : m.clusters.length = m.xSize * m.ySize
  globals : m.globs.length = m.totalGlobals
  psegs : m.clusterPsegs.length = m.totalPsegs
  vspaces : m.vspaces.length = m.totalVspaces
  vsegs : m.vsegs.length = m.totalVsegs
  tasks : m.vspaceTasks.length = m.totalTasks
  procs : m.procs.length = m.totalProcs
  irqs : m.irqs.length = m.totalIrqs
  periphs : m.periphs.length = m.totalPeriphs

/-- The boot loader has copied the file. The length of the segment, which it compares with the size
of the file, is a 32-bit number, and the constants of the mesh come from the same mapping. -/
structure Loaded (im : Image) (a : MappingArgs) (bytes : Text) : Prop where
  holds : im.mem.Holds im.base bytes
  fits : bytes.length < 2 ^ 32
  config : im.config = ⟨BitVec.ofNat 32 a.xSize, BitVec.ofNat 32 a.ySize⟩

/-- What a mapping that was written gives the kernel to read. -/
structure Written (im : Image) (m : Mapping) : Prop where
  header : im.header = m.headerRecord
  clusters : ∀ k c, m.clusters[k]? = some c →
    c.index = k ∧ im.cluster (BitVec.ofNat 32 k) = c.record
  psegs : ∀ k o, m.clusterPsegs[k]? = some o →
    (o.2.index = k ∧ o.2.name.length < 31) ∧ im.pseg (BitVec.ofNat 32 k) = o.2.record o.1
  vspaces : ∀ k s, m.vspaces[k]? = some s →
    (s.index = k ∧ s.name.length < 31 ∧
      lastIndex (fun v => v.name = s.startname) (·.index) s.vsegs ≠ 0xFFFFFFFF ∧
      s.vsegs ≠ [] ∧ s.tasks ≠ []) ∧ im.vspace (BitVec.ofNat 32 k) = s.record
  vsegs : ∀ k v, m.vsegs[k]? = some v →
    (v.index = k ∧ v.name.length < 31 ∧ v.binpath.length < 63) ∧
      ∃ cluster, m.clusterAt v.x v.y = .ok cluster ∧
      v.psegId m cluster ≠ 0xFFFFFFFF ∧ im.vseg (BitVec.ofNat 32 k) = v.record m cluster
  tasks : ∀ k o, m.vspaceTasks[k]? = some o →
    (o.2.index = k ∧ o.2.name.length < 31 ∧
      lastIndex (fun v => v.name = o.2.stackname) (·.index) o.1.vsegs ≠ 0xFFFFFFFF ∧
      o.2.heapId o.1 ≠ 0xFFFFFFFF) ∧ im.task (BitVec.ofNat 32 k) = o.2.record m o.1
  procs : ∀ k p, m.procs[k]? = some p → p.index = k ∧ im.proc (BitVec.ofNat 32 k) = p.record
  irqs : ∀ k q, m.irqs[k]? = some q → q.index = k ∧ im.irq (BitVec.ofNat 32 k) = q.record
  periphs : ∀ k p, m.periphs[k]? = some p →
    p.index = k ∧ im.periph (BitVec.ofNat 32 k) = p.record
  small : 132 + 32 * m.clusters.length + 60 * m.clusterPsegs.length + 56 * m.vspaces.length +
    128 * m.vsegs.length + 60 * m.vspaceTasks.length + 4 * m.procs.length + 24 * m.irqs.length +
    40 * m.periphs.length < 2 ^ 32

/-- The address after an array. -/
theorem next_base {base b : Address} {n size count : ℕ} {w : Word}
    (hb : b = base + BitVec.ofNat 32 n) (hw : w = BitVec.ofNat 32 count) :
    b + BitVec.ofNat 32 size * w = base + BitVec.ofNat 32 (n + size * count) := by
  rw [hb, hw, ← BitVec.ofNat_mul, add_assoc, ← BitVec.ofNat_add]

theorem cbin_written {im : Image} {m : Mapping} {bytes : Text} (hcount : m.Counted)
    (h : m.cbin = .ok bytes) (hload : Loaded im m.toMappingArgs bytes) : Written im m := by
  simp only [Mapping.cbin, script_bind_iff, script_pure_iff] at h
  obtain ⟨header, hheader, clusters, hclusters, psegs, hpsegs, vspaces, hvspaces, vsegs, hvsegs,
    tasks, htasks, procs, hprocs, irqs, hirqs, periphs, hperiphs, rfl⟩ := h
  obtain ⟨lheader, rheader⟩ := Mapping.cbinHeader_spec hheader
  obtain ⟨lclusters, rclusters⟩ := cbinAll_spec mappingClusterSize
    (fun c k mem a => c.index = k ∧ readCluster mem a = c.record)
    (by
      intro c k r hr
      obtain ⟨hk, hlen, hread⟩ := Cluster.cbin_spec hr
      exact ⟨hlen, fun mem a hm => ⟨hk, hread mem a hm⟩⟩) hclusters
  obtain ⟨lpsegs, rpsegs⟩ := cbinAll_spec mappingPsegSize
    (fun o k mem a => (o.2.index = k ∧ o.2.name.length < 31) ∧ readPseg mem a = o.2.record o.1)
    (by
      intro o k r hr
      obtain ⟨hk, hname, hlen, hread⟩ := Pseg.cbin_spec hr
      exact ⟨hlen, fun mem a hm => ⟨⟨hk, hname⟩, hread mem a hm⟩⟩) hpsegs
  obtain ⟨lvspaces, rvspaces⟩ := cbinAll_spec mappingVspaceSize
    (fun s k mem a => (s.index = k ∧ s.name.length < 31 ∧
      lastIndex (fun v => v.name = s.startname) (·.index) s.vsegs ≠ 0xFFFFFFFF ∧
      s.vsegs ≠ [] ∧ s.tasks ≠ []) ∧ readVspace mem a = s.record)
    (by
      intro s k r hr
      obtain ⟨hk, hname, hstart, hvsegs, htasks, hlen, hread⟩ := Vspace.cbin_spec hr
      exact ⟨hlen, fun mem a hm => ⟨⟨hk, hname, hstart, hvsegs, htasks⟩, hread mem a hm⟩⟩) hvspaces
  obtain ⟨lvsegs, rvsegs⟩ := cbinAll_spec mappingVsegSize
    (fun v k mem a => (v.index = k ∧ v.name.length < 31 ∧ v.binpath.length < 63) ∧ ∃ cluster,
      m.clusterAt v.x v.y = .ok cluster ∧ v.psegId m cluster ≠ 0xFFFFFFFF ∧
        readVseg mem a = v.record m cluster)
    (by
      intro v k r hr
      obtain ⟨hk, hname, hpath, cluster, hcluster, hpseg, hlen, hread⟩ := Vseg.cbin_spec hr
      exact ⟨hlen, fun mem a hm =>
        ⟨⟨hk, hname, hpath⟩, cluster, hcluster, hpseg, hread mem a hm⟩⟩) hvsegs
  obtain ⟨ltasks, rtasks⟩ := cbinAll_spec mappingTaskSize
    (fun o k mem a => (o.2.index = k ∧ o.2.name.length < 31 ∧
      lastIndex (fun v => v.name = o.2.stackname) (·.index) o.1.vsegs ≠ 0xFFFFFFFF ∧
      o.2.heapId o.1 ≠ 0xFFFFFFFF) ∧ readTask mem a = o.2.record m o.1)
    (by
      intro o k r hr
      obtain ⟨hk, hname, hstack, hheap, hlen, hread⟩ := Task.cbin_spec hr
      exact ⟨hlen, fun mem a hm => ⟨⟨hk, hname, hstack, hheap⟩, hread mem a hm⟩⟩) htasks
  obtain ⟨lprocs, rprocs⟩ := cbinAll_spec mappingProcSize
    (fun p k mem a => p.index = k ∧ readProc mem a = p.record)
    (by
      intro p k r hr
      obtain ⟨hk, hlen, hread⟩ := Processor.cbin_spec hr
      exact ⟨hlen, fun mem a hm => ⟨hk, hread mem a hm⟩⟩) hprocs
  obtain ⟨lirqs, rirqs⟩ := cbinAll_spec mappingIrqSize
    (fun q k mem a => q.index = k ∧ readIrq mem a = q.record)
    (by
      intro q k r hr
      obtain ⟨hk, hlen, hread⟩ := Irq.cbin_spec hr
      exact ⟨hlen, fun mem a hm => ⟨hk, hread mem a hm⟩⟩) hirqs
  obtain ⟨lperiphs, rperiphs⟩ := cbinAll_spec mappingPeriphSize
    (fun p k mem a => p.index = k ∧ readPeriph mem a = p.record)
    (by
      intro p k r hr
      obtain ⟨hk, hlen, hread⟩ := Periph.cbin_spec hr
      exact ⟨hlen, fun mem a hm => ⟨hk, hread mem a hm⟩⟩) hperiphs
  obtain ⟨hholds, hfits, hconfig⟩ := hload
  simp only [List.length_append, lheader, lclusters, lpsegs, lvspaces, lvsegs, ltasks, lprocs,
    lirqs, lperiphs] at hfits
  simp only [ByteMemory.holds_append, List.length_append, lheader, lclusters, lpsegs, lvspaces,
    lvsegs, ltasks, lprocs, lirqs] at hholds
  obtain ⟨⟨⟨⟨⟨⟨⟨⟨mheader, mclusters⟩, mpsegs⟩, mvspaces⟩, mvsegs⟩, mtasks⟩, mprocs⟩, mirqs⟩,
    mperiphs⟩ := hholds
  have hread : im.header = m.headerRecord := rheader _ _ mheader
  have bpsegs : im.getPsegBase =
      im.base + BitVec.ofNat 32 (132 + mappingClusterSize * m.clusters.length) := by
    rw [Image.getPsegBase, hconfig, mul_assoc, ← BitVec.ofNat_mul, next_base rfl rfl,
      hcount.clusters]
    rfl
  have bvspaces : im.getVspaceBase = _ :=
    next_base bpsegs (by rw [hread]; exact congrArg (BitVec.ofNat 32) hcount.psegs.symm)
  have bvsegs : im.getVsegBase = _ :=
    next_base bvspaces (by rw [hread]; exact congrArg (BitVec.ofNat 32) hcount.vspaces.symm)
  have btasks : im.getTaskBase = _ :=
    next_base bvsegs (by rw [hread]; exact congrArg (BitVec.ofNat 32) hcount.vsegs.symm)
  have bprocs : im.getProcBase = _ :=
    next_base btasks (by rw [hread]; exact congrArg (BitVec.ofNat 32) hcount.tasks.symm)
  have birqs : im.getIrqBase = _ :=
    next_base bprocs (by rw [hread]; exact congrArg (BitVec.ofNat 32) hcount.procs.symm)
  have bperiphs : im.getPeriphBase = _ :=
    next_base birqs (by rw [hread]; exact congrArg (BitVec.ofNat 32) hcount.irqs.symm)
  rw [← bpsegs] at mpsegs
  rw [← bvspaces] at mvspaces
  rw [← bvsegs] at mvsegs
  rw [← btasks] at mtasks
  rw [← bprocs] at mprocs
  rw [← birqs] at mirqs
  rw [← bperiphs] at mperiphs
  exact ⟨hread, rclusters _ _ mclusters, rpsegs _ _ mpsegs, rvspaces _ _ mvspaces,
    rvsegs _ _ mvsegs, rtasks _ _ mtasks, rprocs _ _ mprocs, rirqs _ _ mirqs,
    rperiphs _ _ mperiphs, hfits⟩

end GietVm.Genmap
