import GietVm.Boot.ElfLoad
import GietVm.Library.Bits
import Mathlib.Tactic.SplitIfs

/-!
# What a load leaves

When the load of a file ends on all the processors, the loadable segments are in the vsegs that have
their virtual address, no other byte has changed, and only bytes of the file have been read. This
holds when the headers and the segments are inside the file, every vseg of a segment lies in a
cluster with processors and has room for the size that the engine copies, and the copies neither
touch the buffer nor bring different bytes to one address.

Each step of a processor leaves each byte of the memory as it was, or gives it the byte that a copy
brings there. So what a processor has copied remains, whatever the others do.
-/

namespace GietVm.Boot.Elf

open Library

/-! ## The file -/

/-- The byte of a file at an offset. -/
def fileByte (image : List UInt8) (i : ℕ) : UInt8 := image.getD i 0

/-- `e_phoff` -/
def phoff (image : List UInt8) : ℕ := word (fileByte image) 28

/-- `e_phnum` -/
def phnum (image : List UInt8) : ℕ := half (fileByte image) 44

/-- The program header of a segment. -/
def phdr (image : List UInt8) (seg : ℕ) : Phdr :=
  phdrAt (fileByte image) (phoff image + 32 * seg)

/-- A loadable segment of the file. -/
def Loadable (image : List UInt8) (ph : Phdr) : Prop :=
  ∃ seg < phnum image, phdr image seg = ph ∧ ph.type = ptLoad

/-- A vseg that the load scans has the virtual address of a loadable segment. -/
def Matched (image : List UInt8) (vsegs : List Vseg) (ph : Phdr) (v : Vseg) : Prop :=
  Loadable image ph ∧ v ∈ vsegs ∧ v.vbase = ph.vaddr

/-- The size that the engine copies. -/
def Config.copySize (c : Config) (filesz : ℕ) : ℕ := if c.useMwrCpy then dmaSize filesz else filesz

/-- A copy brings a byte to an address. -/
def Target (c : Config) (image : List UInt8) (vsegs : List Vseg) (a : ℕ) (b : UInt8) : Prop :=
  ∃ ph v i, Matched image vsegs ph v ∧ i < c.copySize ph.filesz ∧ a = v.pbase + i ∧
    b = fileByte image (ph.offset + i)

/-- An address of the file in the buffer. -/
def InImage (c : Config) (image : List UInt8) (a : ℕ) : Prop :=
  c.elfBuffer ≤ a ∧ a < c.elfBuffer + image.length

/-- The file is in the buffer. -/
def FileAt (c : Config) (image : List UInt8) (mem : Memory) : Prop :=
  ∀ i < image.length, mem (c.elfBuffer + i) = fileByte image i

/-! ## The property and the condition -/

/-- The load is complete and confined: `mem₀` is the memory before it. -/
structure Loaded (c : Config) (image : List UInt8) (vsegs : List Vseg) (mem₀ : Memory) (s : State) :
    Prop where
  content : ∀ ph v, Matched image vsegs ph v → ∀ i < ph.filesz,
    image[ph.offset + i]? = some (s.mem (v.pbase + i))
  frame : ∀ a, (∀ ph v, Matched image vsegs ph v → ¬(v.pbase ≤ a ∧ a < v.pbase + v.length)) →
    s.mem a = mem₀ a
  reads : ∀ a ∈ s.reads, InImage c image a

/-- The file, the mapping and the processors are such that a load can be complete and confined. -/
structure Fits (c : Config) (image : List UInt8) (vsegs : List Vseg) (procs : List ℕ) : Prop where
  header : 46 ≤ image.length
  table : ∀ seg < phnum image,
    phoff image + 32 * seg + (if (phdr image seg).type = ptLoad then 24 else 4) ≤ image.length
  source : ∀ ph v, Matched image vsegs ph v → 0 < ph.filesz →
    ph.offset + ph.filesz ≤ image.length ∧ ph.offset + c.copySize ph.filesz ≤ image.length
  executed : ∀ ph v, Matched image vsegs ph v → 0 < ph.filesz → v.clusterXy ∈ procs
  room : ∀ ph v, Matched image vsegs ph v → c.copySize ph.filesz ≤ v.length
  inCluster : ∀ ph v, Matched image vsegs ph v → c.useMwrCpy = false →
    v.pbase % 2 ^ 32 + ph.filesz ≤ 2 ^ 32
  apart : ∀ a b, Target c image vsegs a b → ¬InImage c image a
  agree : ∀ a b b', Target c image vsegs a b → Target c image vsegs a b' → b = b'

/-! ## The fields of the file -/

section Fields

variable {m m' : ℕ → UInt8} {a a' : ℕ}

theorem half_congr (h : ∀ i < 2, m (a + i) = m' (a' + i)) : half m a = half m' a' := by
  have hzero := h 0 (by decide)
  have hone := h 1 (by decide)
  rw [Nat.add_zero, Nat.add_zero] at hzero
  rw [half, half, hzero, hone]

theorem word_congr (h : ∀ i < 4, m (a + i) = m' (a' + i)) : word m a = word m' a' := by
  have hlow : half m a = half m' a' := half_congr fun i hi => h i (by omega)
  have hhigh : half m (a + 2) = half m' (a' + 2) := by
    apply half_congr
    intro i hi
    rw [Nat.add_assoc, Nat.add_assoc]
    exact h (2 + i) (by omega)
  rw [word, word, hlow, hhigh]

theorem phdrAt_congr (h : ∀ i < 24, m (a + i) = m' (a' + i)) : phdrAt m a = phdrAt m' a' := by
  have hfield : ∀ n ≤ 20, word m (a + n) = word m' (a' + n) := by
    intro n hn
    apply word_congr
    intro i hi
    rw [Nat.add_assoc, Nat.add_assoc]
    exact h (n + i) (by omega)
  have htype : word m a = word m' a' := hfield 0 (by decide)
  rw [phdrAt, phdrAt, htype, hfield 4 (by decide), hfield 8 (by decide), hfield 16 (by decide),
    hfield 20 (by decide)]

end Fields

variable {c : Config} {vsegs : List Vseg} {procs : List ℕ} {image : List UInt8}

/-- The addresses of a field of the file. -/
theorem fieldAddresses_inImage {offset n : ℕ} (hlen : image.length ≤ elfBufferSize)
    (h : offset + n ≤ image.length) :
    ∀ a ∈ fieldAddresses (c.elfBuffer + offset) n, InImage c image a := by
  intro a ha
  obtain ⟨i, hi, rfl⟩ := List.mem_map.mp ha
  have hi := List.mem_range.mp hi
  have hinside := c.inside
  have hmod : (c.elfBuffer + offset + i) % 2 ^ 32 = c.elfBuffer + offset + i := by
    apply Nat.mod_eq_of_lt
    omega
  rw [hmod]
  constructor <;> omega

/-- The memory at an address of the file, which the 32-bit addresses do not change. -/
theorem FileAt.mod {mem : Memory} (hfile : FileAt c image mem)
    (hlen : image.length ≤ elfBufferSize) {i : ℕ} (hi : i < image.length) :
    mem ((c.elfBuffer + i) % 2 ^ 32) = fileByte image i := by
  have hinside := c.inside
  have hmod : (c.elfBuffer + i) % 2 ^ 32 = c.elfBuffer + i := by
    apply Nat.mod_eq_of_lt
    omega
  rw [hmod]
  exact hfile i hi

/-! ## The sizes -/

/-- The coprocessor copies at least the size of a segment that fits in the buffer. -/
theorem le_dmaSize {size : ℕ} (h : size ≤ elfBufferSize) : size ≤ dmaSize size := by
  have hsize : size < 2 ^ (6 + 26) := lt_of_le_of_lt h (by decide)
  have hlow : size &&& 0x3F = size % 64 := Nat.and_two_pow_sub_one_eq_mod size 6
  have hhigh : size &&& 0xFFFFFFC0 = size / 64 * 64 := and_high_eq hsize
  unfold elfBufferSize at h
  rw [dmaSize, hlow, hhigh, add32]
  split_ifs <;> omega

theorem Fits.le_copySize (hfits : Fits c image vsegs procs) (hlen : image.length ≤ elfBufferSize)
    {ph : Phdr} {v : Vseg} (h : Matched image vsegs ph v) : ph.filesz ≤ c.copySize ph.filesz := by
  rw [Config.copySize]
  split_ifs with hmwr
  · apply le_dmaSize
    obtain hzero | hpos := Nat.eq_zero_or_pos ph.filesz
    · rw [hzero]
      exact Nat.zero_le _
    · have hsource := (hfits.source ph v h hpos).1
      omega
  · exact Nat.le_refl _

/-- The cluster of a vseg is the one with its coordinates. -/
theorem local_iff {cxy : ℕ} {v : Vseg} : v.Local c cxy ↔ v.clusterXy = cxy := by
  constructor
  · rintro ⟨hx, hy⟩
    rw [Nat.shiftRight_eq_div_pow, Nat.shiftRight_eq_div_pow] at hx
    rw [Nat.and_two_pow_sub_one_eq_mod, Nat.and_two_pow_sub_one_eq_mod] at hy
    rw [← Nat.div_add_mod v.clusterXy (2 ^ c.yWidth), hx, hy, Nat.div_add_mod]
  · intro h
    exact ⟨by rw [h], by rw [h]⟩

/-! ## What is copied -/

/-- The first bytes of a segment are in a vseg. -/
def CopiedTo (image : List UInt8) (mem : Memory) (ph : Phdr) (v : Vseg) (n : ℕ) : Prop :=
  ∀ i < n, mem (v.pbase + i) = fileByte image (ph.offset + i)

/-- A segment is in the vsegs of a list that have its virtual address and lie in a cluster. -/
def VsegsDone (c : Config) (image : List UInt8) (cxy : ℕ) (mem : Memory) (ph : Phdr)
    (l : List Vseg) : Prop :=
  ∀ v ∈ l, v.vbase = ph.vaddr → v.Local c cxy → CopiedTo image mem ph v ph.filesz

/-- The first loadable segments are in the vsegs of a cluster. -/
def SegsDone (c : Config) (image : List UInt8) (vsegs : List Vseg) (cxy : ℕ) (mem : Memory)
    (seg : ℕ) : Prop :=
  ∀ k < seg, k < phnum image → (phdr image k).type = ptLoad →
    VsegsDone c image cxy mem (phdr image k) vsegs

/-- Each byte of the memory is kept, or is the one that a copy brings. -/
def MemStep (c : Config) (image : List UInt8) (vsegs : List Vseg) (mem mem' : Memory) : Prop :=
  ∀ a, mem' a = mem a ∨ Target c image vsegs a (mem' a)

theorem MemStep.rfl {mem : Memory} : MemStep c image vsegs mem mem := fun _ => Or.inl (Eq.refl _)

section Keep

variable {mem mem' : Memory} {ph : Phdr} {v : Vseg} {n : ℕ}

/-- Bytes that are copied remain. -/
theorem CopiedTo.keep (hfits : Fits c image vsegs procs) (hstep : MemStep c image vsegs mem mem')
    (hmatched : Matched image vsegs ph v) (hn : n ≤ c.copySize ph.filesz)
    (h : CopiedTo image mem ph v n) : CopiedTo image mem' ph v n := by
  intro i hi
  obtain hsame | htarget := hstep (v.pbase + i)
  · rw [hsame]
    exact h i hi
  · exact hfits.agree _ _ _ htarget ⟨ph, v, i, hmatched, by omega, rfl, rfl⟩

theorem VsegsDone.keep (hfits : Fits c image vsegs procs) (hlen : image.length ≤ elfBufferSize)
    (hstep : MemStep c image vsegs mem mem') {cxy : ℕ} {l : List Vseg} (hl : l ⊆ vsegs)
    (hph : Loadable image ph) (h : VsegsDone c image cxy mem ph l) :
    VsegsDone c image cxy mem' ph l := by
  intro v hv hvaddr hlocal
  have hmatched : Matched image vsegs ph v := ⟨hph, hl hv, hvaddr⟩
  exact (h v hv hvaddr hlocal).keep hfits hstep hmatched (hfits.le_copySize hlen hmatched)

theorem SegsDone.keep (hfits : Fits c image vsegs procs) (hlen : image.length ≤ elfBufferSize)
    (hstep : MemStep c image vsegs mem mem') {cxy seg : ℕ}
    (h : SegsDone c image vsegs cxy mem seg) : SegsDone c image vsegs cxy mem' seg :=
  fun k hk hnum htype =>
    (h k hk hnum htype).keep hfits hlen hstep (List.Subset.refl _) ⟨k, hnum, rfl, htype⟩

/-- The file remains in the buffer. -/
theorem FileAt.keep (hfits : Fits c image vsegs procs) (hstep : MemStep c image vsegs mem mem')
    (h : FileAt c image mem) : FileAt c image mem' := by
  intro i hi
  obtain hsame | htarget := hstep (c.elfBuffer + i)
  · rw [hsame]
    exact h i hi
  · exact absurd ⟨by omega, by omega⟩ (hfits.apart _ _ htarget)

end Keep

/-! ## The invariant -/

/-- The locals of the loop on the vsegs. -/
structure FrameOk (c : Config) (image : List UInt8) (vsegs : List Vseg) (cxy : ℕ) (mem : Memory)
    (f : Frame) : Prop where
  pht : f.pht = add32 c.elfBuffer (phoff image)
  nsegments : f.nsegments = phnum image
  seg : f.seg < phnum image
  ph : f.ph = phdr image f.seg
  type : f.ph.type = ptLoad
  before : SegsDone c image vsegs cxy mem f.seg

/-- A copy of the segment of a frame in a vseg of the cluster, of which some bytes are copied. -/
structure CopyOk (c : Config) (image : List UInt8) (vsegs : List Vseg) (cxy : ℕ) (mem : Memory)
    (f : Frame) (v : Vseg) (n : ℕ) : Prop where
  frame : FrameOk c image vsegs cxy mem f
  vsegs : ∃ pre, vsegs = pre ++ v :: f.todo ∧ VsegsDone c image cxy mem f.ph pre
  vbase : v.vbase = f.ph.vaddr
  size : n ≤ c.copySize f.ph.filesz
  copied : CopiedTo image mem f.ph v n

/-- The registers of the loop of `_physical_memcpy`, after some words. -/
structure MemcpyOk (c : Config) (image : List UInt8) (ph : Phdr) (v : Vseg) (k : Memcpy) (n : ℕ) :
    Prop where
  engine : c.useMwrCpy = false
  more : 4 * n < ph.filesz
  size : ph.filesz % 4 = 0
  iter : k.iter = ph.filesz / 4 - n
  src : k.srcLsb = c.elfBuffer + ph.offset + 4 * n
  dstMsb : k.dstMsb = v.pbase / 2 ^ 32
  dstLsb : k.dstLsb = v.pbase % 2 ^ 32 + 4 * n
  data : ∀ bytes, k.data = some bytes → bytes = readBytes (fileByte image) (ph.offset + 4 * n) 4

/-- What is left for the copy coprocessor, after some bytes. -/
structure DmaOk (c : Config) (ph : Phdr) (v : Vseg) (k : Dma) (n : ℕ) : Prop where
  engine : c.useMwrCpy = true
  size : k.size + n = dmaSize ph.filesz
  src : 0 < ph.filesz → k.src = c.elfBuffer + ph.offset + n
  dst : k.dst = v.pbase + n

/-- What holds of a processor. -/
def PcOk (c : Config) (image : List UInt8) (vsegs : List Vseg) (cxy : ℕ) (mem : Memory) : Pc → Prop
  | .header => True
  | .segment pht nsegments seg => pht = add32 c.elfBuffer (phoff image) ∧
      nsegments = phnum image ∧ SegsDone c image vsegs cxy mem seg
  | .scan f _ => FrameOk c image vsegs cxy mem f ∧
      ∃ pre, vsegs = pre ++ f.todo ∧ VsegsDone c image cxy mem f.ph pre
  | .memcpy f k => ∃ v n, CopyOk c image vsegs cxy mem f v (4 * n) ∧ MemcpyOk c image f.ph v k n
  | .dma f k => ∃ v n, CopyOk c image vsegs cxy mem f v n ∧ DmaOk c f.ph v k n
  | .done => SegsDone c image vsegs cxy mem (phnum image)
  | .exited => True

/-- What holds of all the processors while none of them is stopped. -/
structure Good (c : Config) (image : List UInt8) (vsegs : List Vseg) (procs : List ℕ)
    (mem₀ : Memory) (s : State) : Prop where
  file : FileAt c image s.mem
  frame : MemStep c image vsegs mem₀ s.mem
  reads : ∀ a ∈ s.reads, InImage c image a
  pcs : ∀ cxy ∈ procs, PcOk c image vsegs cxy s.mem (s.pc cxy)

/-- A processor that does not come to the end: it is stopped, or in a loop of `_physical_memcpy` that
an exception ends. -/
def Stuck : Pc → Prop
  | .memcpy _ k => k.iter = 0 ∨ (2 ^ 31 ≤ k.iter ∧ k.iter < 2 ^ 32)
  | .exited => True
  | _ => False

theorem FrameOk.loadable {cxy : ℕ} {mem : Memory} {f : Frame}
    (h : FrameOk c image vsegs cxy mem f) : Loadable image f.ph :=
  ⟨f.seg, h.seg, h.ph.symm, h.type⟩

theorem CopyOk.matched {cxy n : ℕ} {mem : Memory} {f : Frame} {v : Vseg}
    (h : CopyOk c image vsegs cxy mem f v n) : Matched image vsegs f.ph v := by
  obtain ⟨pre, hvsegs, -⟩ := h.vsegs
  refine ⟨h.frame.loadable, ?_, h.vbase⟩
  rw [hvsegs]
  exact List.mem_append_right _ List.mem_cons_self

section Keep

variable {mem mem' : Memory} {cxy : ℕ}

theorem FrameOk.keep (hfits : Fits c image vsegs procs) (hlen : image.length ≤ elfBufferSize)
    (hstep : MemStep c image vsegs mem mem') {f : Frame} (h : FrameOk c image vsegs cxy mem f) :
    FrameOk c image vsegs cxy mem' f :=
  { h with before := h.before.keep hfits hlen hstep }

theorem CopyOk.keep (hfits : Fits c image vsegs procs) (hlen : image.length ≤ elfBufferSize)
    (hstep : MemStep c image vsegs mem mem') {f : Frame} {v : Vseg} {n : ℕ}
    (h : CopyOk c image vsegs cxy mem f v n) : CopyOk c image vsegs cxy mem' f v n := by
  obtain ⟨pre, hvsegs, hdone⟩ := h.vsegs
  have hsub : pre ⊆ vsegs := by
    rw [hvsegs]
    exact List.subset_append_left _ _
  exact { h with
    frame := h.frame.keep hfits hlen hstep
    vsegs := ⟨pre, hvsegs, hdone.keep hfits hlen hstep hsub h.frame.loadable⟩
    copied := h.copied.keep hfits hstep h.matched h.size }

/-- What holds of a processor remains when another one takes a step. -/
theorem PcOk.keep (hfits : Fits c image vsegs procs) (hlen : image.length ≤ elfBufferSize)
    (hstep : MemStep c image vsegs mem mem') {pc : Pc} (h : PcOk c image vsegs cxy mem pc) :
    PcOk c image vsegs cxy mem' pc := by
  cases pc with
  | header => trivial
  | segment pht nsegments seg =>
    obtain ⟨hpht, hnum, hdone⟩ := h
    exact ⟨hpht, hnum, hdone.keep hfits hlen hstep⟩
  | scan f found =>
    obtain ⟨hframe, pre, hvsegs, hdone⟩ := h
    have hsub : pre ⊆ vsegs := by
      rw [hvsegs]
      exact List.subset_append_left _ _
    exact ⟨hframe.keep hfits hlen hstep, pre, hvsegs,
      hdone.keep hfits hlen hstep hsub hframe.loadable⟩
  | memcpy f k =>
    obtain ⟨v, n, hcopy, hk⟩ := h
    exact ⟨v, n, hcopy.keep hfits hlen hstep, hk⟩
  | dma f k =>
    obtain ⟨v, n, hcopy, hk⟩ := h
    exact ⟨v, n, hcopy.keep hfits hlen hstep, hk⟩
  | done => exact SegsDone.keep hfits hlen hstep h
  | exited => trivial

end Keep

/-- A step that changes the memory as a copy does, and after which its processor is as it must be. -/
theorem Good.next (hfits : Fits c image vsegs procs) (hlen : image.length ≤ elfBufferSize)
    {mem₀ mem : Memory} {s : State} (hgood : Good c image vsegs procs mem₀ s) {cxy : ℕ}
    {reads : List ℕ} {pc : Pc} (hmem : MemStep c image vsegs s.mem mem)
    (hreads : ∀ a ∈ reads, InImage c image a) (hpc : PcOk c image vsegs cxy mem pc) :
    Good c image vsegs procs mem₀ (s.next cxy mem reads pc) := by
  refine ⟨hgood.file.keep hfits hmem, fun a => ?_, fun a ha => ?_, fun q hq => ?_⟩
  · change mem a = mem₀ a ∨ Target c image vsegs a (mem a)
    obtain hsame | htarget := hmem a
    · rw [hsame]
      exact hgood.frame a
    · exact Or.inr htarget
  · obtain ha | ha := List.mem_append.mp ha
    · exact hgood.reads a ha
    · exact hreads a ha
  · change PcOk c image vsegs q mem (Function.update s.pc cxy pc q)
    by_cases hqc : q = cxy
    · rw [hqc, Function.update_self]
      exact hpc
    · rw [Function.update_of_ne hqc]
      exact (hgood.pcs q hq).keep hfits hlen hmem

/-! ## The steps -/

section Steps

variable {mem₀ : Memory} {s : State} {cxy : ℕ}

theorem Good.headerStep (hfits : Fits c image vsegs procs) (hlen : image.length ≤ elfBufferSize)
    (hgood : Good c image vsegs procs mem₀ s) :
    Good c image vsegs procs mem₀ (headerStep c cxy s) ∨ Stuck ((headerStep c cxy s).pc cxy) := by
  have hheader := hfits.header
  have hphoff : word s.mem (c.elfBuffer + 28) = phoff image := by
    apply word_congr
    intro i hi
    rw [Nat.add_assoc]
    exact hgood.file (28 + i) (by omega)
  have hphnum : half s.mem (c.elfBuffer + 44) = phnum image := by
    apply half_congr
    intro i hi
    rw [Nat.add_assoc]
    exact hgood.file (44 + i) (by omega)
  unfold Elf.headerStep
  dsimp only
  rw [hphoff, hphnum]
  by_cases hzero : phoff image = 0
  · rw [if_pos hzero]
    right
    change Stuck (Function.update s.pc cxy .exited cxy)
    rw [Function.update_self]
    trivial
  · rw [if_neg hzero]
    left
    apply hgood.next hfits hlen MemStep.rfl
    · intro a ha
      obtain ha | ha := List.mem_append.mp ha
      · exact fieldAddresses_inImage hlen (by omega) a ha
      · exact fieldAddresses_inImage hlen (by omega) a ha
    · exact ⟨rfl, rfl, fun k hk => absurd hk (Nat.not_lt_zero k)⟩

theorem none_read : ∀ a ∈ ([] : List ℕ), InImage c image a := fun _ ha => absurd ha List.not_mem_nil

/-- A processor that stops is stuck. -/
theorem stuck_exited {mem : Memory} {reads : List ℕ} :
    Stuck ((s.next cxy mem reads .exited).pc cxy) := by
  change Stuck (Function.update s.pc cxy .exited cxy)
  rw [Function.update_self]
  trivial

theorem Good.segmentStep (hfits : Fits c image vsegs procs) (hlen : image.length ≤ elfBufferSize)
    (hgood : Good c image vsegs procs mem₀ s) {pht nsegments seg : ℕ}
    (hpc : PcOk c image vsegs cxy s.mem (.segment pht nsegments seg)) :
    Good c image vsegs procs mem₀ (segmentStep vsegs cxy s pht nsegments seg) ∨
      Stuck ((segmentStep vsegs cxy s pht nsegments seg).pc cxy) := by
  obtain ⟨rfl, rfl, hdone⟩ := hpc
  unfold Elf.segmentStep
  by_cases hend : phnum image ≤ seg
  · rw [if_pos hend]
    left
    apply hgood.next hfits hlen MemStep.rfl none_read
    exact fun k hk => hdone k (by omega)
  rw [if_neg hend]
  have hseg : seg < phnum image := by omega
  by_cases haligned : add32 c.elfBuffer (phoff image) % 4 ≠ 0
  · rw [if_pos haligned]
    exact Or.inr stuck_exited
  rw [if_neg haligned]
  dsimp only
  have htable := hfits.table seg hseg
  have hfour : phoff image + 32 * seg + 4 ≤ image.length := by
    split_ifs at htable <;> omega
  have hinside := c.inside
  have hpht : add32 c.elfBuffer (phoff image) + 32 * seg =
      c.elfBuffer + (phoff image + 32 * seg) := by
    rw [add32_eq (by omega), Nat.add_assoc]
  rw [hpht]
  have htype : (phdrAt (fun b => s.mem (b % 2 ^ 32)) (c.elfBuffer + (phoff image + 32 * seg))).type =
      (phdr image seg).type := by
    apply word_congr
    intro i hi
    rw [Nat.add_assoc c.elfBuffer]
    exact hgood.file.mod hlen (by omega)
  by_cases hload : (phdr image seg).type = ptLoad
  · rw [if_pos hload] at htable
    have hph : phdrAt (fun b => s.mem (b % 2 ^ 32)) (c.elfBuffer + (phoff image + 32 * seg)) =
        phdr image seg := by
      apply phdrAt_congr
      intro i hi
      rw [Nat.add_assoc c.elfBuffer]
      exact hgood.file.mod hlen (by omega)
    rw [hph, if_pos hload]
    by_cases hmemsz : (phdr image seg).memsz ≠ (phdr image seg).filesz
    · rw [if_pos hmemsz]
      exact Or.inr stuck_exited
    · rw [if_neg hmemsz]
      left
      apply hgood.next hfits hlen MemStep.rfl
      · intro a ha
        obtain ha | ha := List.mem_append.mp ha
        · exact fieldAddresses_inImage hlen (by omega) a ha
        · rw [Nat.add_assoc c.elfBuffer] at ha
          exact fieldAddresses_inImage hlen (by omega) a ha
      · exact ⟨⟨rfl, rfl, hseg, rfl, hload, hdone⟩, [], rfl, nofun⟩
  · rw [htype, if_neg hload]
    left
    apply hgood.next hfits hlen MemStep.rfl
    · exact fieldAddresses_inImage hlen hfour
    · refine ⟨rfl, rfl, fun k hk hnum hptLoad => ?_⟩
      obtain hlt | rfl := Nat.lt_succ_iff_lt_or_eq.mp hk
      · exact hdone k hlt hnum hptLoad
      · exact absurd hptLoad hload

theorem FrameOk.next {mem : Memory} {f : Frame} (h : FrameOk c image vsegs cxy mem f)
    (todo : List Vseg) : FrameOk c image vsegs cxy mem { f with todo := todo } :=
  ⟨h.pht, h.nsegments, h.seg, h.ph, h.type, h.before⟩

/-- A vseg is behind the loop when the segment is copied in it, if it must be. -/
theorem VsegsDone.concat {mem : Memory} {ph : Phdr} {pre : List Vseg} {v : Vseg}
    (h : VsegsDone c image cxy mem ph pre)
    (hv : v.vbase = ph.vaddr → v.Local c cxy → CopiedTo image mem ph v ph.filesz) :
    VsegsDone c image cxy mem ph (pre ++ [v]) := by
  intro u hu hvaddr hlocal
  obtain hu | hu := List.mem_append.mp hu
  · exact h u hu hvaddr hlocal
  · obtain rfl := List.mem_singleton.mp hu
    exact hv hvaddr hlocal

theorem Good.scanStep (hfits : Fits c image vsegs procs) (hlen : image.length ≤ elfBufferSize)
    (hgood : Good c image vsegs procs mem₀ s) {f : Frame} {found : Bool}
    (hpc : PcOk c image vsegs cxy s.mem (.scan f found)) :
    Good c image vsegs procs mem₀ (scanStep c cxy s f found) ∨
      Stuck ((scanStep c cxy s f found).pc cxy) := by
  obtain ⟨hframe, pre, hvsegs, hdone⟩ := hpc
  unfold Elf.scanStep
  obtain ⟨pht, nsegments, seg, ph, todo⟩ := f
  cases todo with
  | nil =>
    dsimp only
    cases found with
    | false => exact Or.inr stuck_exited
    | true =>
      rw [if_pos rfl]
      left
      apply hgood.next hfits hlen MemStep.rfl none_read
      refine ⟨hframe.pht, hframe.nsegments, fun k hk hnum htype => ?_⟩
      obtain hlt | heq := Nat.lt_succ_iff_lt_or_eq.mp hk
      · exact hframe.before k hlt hnum htype
      · have hph : ph = phdr image k := by
          rw [heq]
          exact hframe.ph
        have hpre : vsegs = pre := hvsegs.trans (List.append_nil pre)
        rw [← hph, hpre]
        exact hdone
  | cons v todo =>
    dsimp only
    have hvsegs' : vsegs = pre ++ [v] ++ todo := by
      rw [List.append_assoc]
      exact hvsegs
    by_cases hvaddr : ph.vaddr = v.vbase
    · have hmatched : Matched image vsegs ph v := by
        refine ⟨hframe.loadable, ?_, hvaddr.symm⟩
        rw [hvsegs]
        exact List.mem_append_right _ List.mem_cons_self
      have hsrc : 0 < ph.filesz → add32 c.elfBuffer ph.offset = c.elfBuffer + ph.offset := by
        intro hpos
        have hsource := (hfits.source ph v hmatched hpos).1
        have hinside := c.inside
        exact add32_eq (by omega)
      have hcopy : CopyOk c image vsegs cxy s.mem ⟨pht, nsegments, seg, ph, todo⟩ v 0 :=
        ⟨hframe.next todo, ⟨pre, hvsegs, hdone⟩, hvaddr.symm, Nat.zero_le _,
          fun i hi => absurd hi (Nat.not_lt_zero i)⟩
      rw [if_pos hvaddr]
      by_cases hsmall : v.length < ph.filesz
      · rw [if_pos hsmall]
        exact Or.inr stuck_exited
      rw [if_neg hsmall]
      by_cases hlocal : v.Local c cxy
      · rw [if_pos hlocal]
        by_cases hmwr : c.useMwrCpy = true
        · rw [if_pos hmwr]
          left
          apply hgood.next hfits hlen MemStep.rfl none_read
          exact ⟨v, 0, hcopy, hmwr, rfl, hsrc, rfl⟩
        rw [if_neg hmwr]
        by_cases haligned : v.pbase % 4 ≠ 0 ∨ add32 c.elfBuffer ph.offset % 4 ≠ 0 ∨
            ph.filesz % 4 ≠ 0
        · rw [if_pos haligned]
          exact Or.inr stuck_exited
        rw [if_neg haligned]
        obtain hzero | hpos := Nat.eq_zero_or_pos ph.filesz
        · right
          change Stuck (Function.update s.pc cxy (.memcpy _ _) cxy)
          rw [Function.update_self, hzero]
          exact Or.inl rfl
        · have hmod : ph.filesz % 4 = 0 := by omega
          left
          apply hgood.next hfits hlen MemStep.rfl none_read
          exact ⟨v, 0, hcopy, eq_false_of_ne_true hmwr, hpos, hmod, rfl, hsrc hpos, rfl, rfl, nofun⟩
      · rw [if_neg hlocal]
        left
        apply hgood.next hfits hlen MemStep.rfl none_read
        exact ⟨hframe.next todo, pre ++ [v], hvsegs', hdone.concat fun _ h => absurd h hlocal⟩
    · rw [if_neg hvaddr]
      left
      apply hgood.next hfits hlen MemStep.rfl none_read
      exact ⟨hframe.next todo, pre ++ [v], hvsegs',
        hdone.concat fun h => absurd h.symm hvaddr⟩

/-- Bytes of a segment are stored behind those that are copied. -/
theorem CopyOk.write (hfits : Fits c image vsegs procs) (hlen : image.length ≤ elfBufferSize)
    {mem : Memory} {f : Frame} {v : Vseg} {n l a : ℕ} {bytes : List UInt8}
    (h : CopyOk c image vsegs cxy mem f v n) (hl : n + l ≤ c.copySize f.ph.filesz)
    (ha : a = v.pbase + n) (hbytes : bytes = readBytes (fileByte image) (f.ph.offset + n) l) :
    MemStep c image vsegs mem (writeBytes mem a bytes) ∧
      CopyOk c image vsegs cxy (writeBytes mem a bytes) f v (n + l) := by
  have hlength : bytes.length = l := by
    rw [hbytes, readBytes, List.length_map, List.length_range]
  have hwritten : ∀ i < l, writeBytes mem a bytes (v.pbase + (n + i)) =
      fileByte image (f.ph.offset + (n + i)) := by
    intro i hi
    have hin : a ≤ v.pbase + (n + i) ∧ v.pbase + (n + i) < a + bytes.length := by omega
    have hindex : v.pbase + (n + i) - a = i := by omega
    have hget : bytes[i]? = some (fileByte image (f.ph.offset + (n + i))) := by
      rw [hbytes, readBytes, List.getElem?_map, List.getElem?_range hi, ← Nat.add_assoc]
      rfl
    rw [writeBytes, if_pos hin, hindex, List.getD_eq_getElem?_getD, hget, Option.getD_some]
  have hmem : MemStep c image vsegs mem (writeBytes mem a bytes) := by
    intro b
    by_cases hin : a ≤ b ∧ b < a + bytes.length
    · right
      have hb : b = v.pbase + (n + (b - a)) := by omega
      refine ⟨f.ph, v, n + (b - a), h.matched, by omega, hb, ?_⟩
      rw [← hwritten (b - a) (by omega), ← hb]
    · exact Or.inl (if_neg hin)
  have hkept := h.keep hfits hlen hmem
  refine ⟨hmem, { hkept with size := hl, copied := fun i hi => ?_ }⟩
  by_cases hi' : i < n
  · exact hkept.copied i hi'
  · have hsplit : n + (i - n) = i := by omega
    rw [← hsplit]
    exact hwritten (i - n) (by omega)

/-- A copy that has come to the size of the segment. -/
theorem CopyOk.finished {mem : Memory} {f : Frame} {v : Vseg} {n : ℕ}
    (h : CopyOk c image vsegs cxy mem f v n) (hn : f.ph.filesz ≤ n) :
    PcOk c image vsegs cxy mem (.scan f true) := by
  obtain ⟨pre, hvsegs, hdone⟩ := h.vsegs
  refine ⟨h.frame, pre ++ [v], ?_, hdone.concat fun _ _ i hi => h.copied i (by omega)⟩
  rw [List.append_assoc]
  exact hvsegs

theorem Good.memcpyStep (hfits : Fits c image vsegs procs) (hlen : image.length ≤ elfBufferSize)
    (hgood : Good c image vsegs procs mem₀ s) {f : Frame} {k : Memcpy}
    (hpc : PcOk c image vsegs cxy s.mem (.memcpy f k)) :
    Good c image vsegs procs mem₀ (memcpyStep cxy s f k) ∨
      Stuck ((memcpyStep cxy s f k).pc cxy) := by
  obtain ⟨v, n, hcopy, hk⟩ := hpc
  obtain ⟨dstMsb, dstLsb, srcLsb, iter, data⟩ := k
  obtain ⟨hmwr, hmore, hsize, hiter, hsrc, hdstMsb, hdstLsb, hdata⟩ := hk
  dsimp only at hiter hsrc hdstMsb hdstLsb hdata
  have hmatched := hcopy.matched
  have hsource := (hfits.source f.ph v hmatched (by omega)).1
  have hcluster := hfits.inCluster f.ph v hmatched hmwr
  have hinside := c.inside
  unfold Elf.memcpyStep
  cases data with
  | none =>
    left
    apply hgood.next hfits hlen MemStep.rfl
    · change ∀ a ∈ fieldAddresses srcLsb 4, _
      rw [hsrc, Nat.add_assoc]
      exact fieldAddresses_inImage hlen (by omega)
    · refine ⟨v, n, hcopy, hmwr, hmore, hsize, hiter, hsrc, hdstMsb, hdstLsb, fun bytes hbytes => ?_⟩
      rw [← Option.some.inj hbytes]
      apply List.map_congr_left
      intro i hi
      have hi := List.mem_range.mp hi
      change s.mem (srcLsb + i) = _
      rw [hsrc, Nat.add_assoc, Nat.add_assoc, ← Nat.add_assoc f.ph.offset]
      exact hgood.file _ (by omega)
  | some bytes =>
    have hcopySize : c.copySize f.ph.filesz = f.ph.filesz := by
      rw [Config.copySize, hmwr]
      rfl
    have ha : dstMsb * 2 ^ 32 + dstLsb = v.pbase + 4 * n := by
      rw [hdstMsb, hdstLsb]
      omega
    obtain ⟨hmem, hcopy'⟩ := hcopy.write hfits hlen (l := 4) (by omega) ha (hdata bytes rfl)
    dsimp only
    by_cases htrap : iter = 2 ^ 31 ∨ addiTraps srcLsb ∨ addiTraps dstLsb
    · rw [if_pos htrap]
      exact Or.inr stuck_exited
    rw [if_neg htrap]
    have hpos : 1 ≤ iter := by omega
    have hsmall : iter < 2 ^ 32 := by
      unfold elfBufferSize at hinside
      omega
    have hsub : sub32 iter 1 = iter - 1 := sub32_eq hpos hsmall
    rw [hsub]
    by_cases hlast : iter - 1 = 0
    · rw [if_pos hlast]
      left
      exact hgood.next hfits hlen hmem none_read (hcopy'.finished (by omega))
    · rw [if_neg hlast]
      left
      apply hgood.next hfits hlen hmem none_read
      have hnext : add32 dstLsb 4 = dstLsb + 4 := add32_eq (by omega)
      have hnext' : add32 srcLsb 4 = srcLsb + 4 := add32_eq (by omega)
      rw [hnext, hnext']
      refine ⟨v, n + 1, hcopy', hmwr, by omega, hsize, ?_, ?_, hdstMsb, ?_, nofun⟩
      · change iter - 1 = _
        omega
      · change srcLsb + 4 = _
        omega
      · change dstLsb + 4 = _
        omega

theorem Good.dmaStep (hfits : Fits c image vsegs procs) (hlen : image.length ≤ elfBufferSize)
    (hgood : Good c image vsegs procs mem₀ s) {f : Frame} {k : Dma}
    (hpc : PcOk c image vsegs cxy s.mem (.dma f k)) :
    Good c image vsegs procs mem₀ (dmaStep cxy s f k) := by
  obtain ⟨v, n, hcopy, hk⟩ := hpc
  obtain ⟨dst, src, size⟩ := k
  obtain ⟨hmwr, hsize, hsrc, hdst⟩ := hk
  dsimp only at hsize hsrc hdst
  have hmatched := hcopy.matched
  have hcopySize : c.copySize f.ph.filesz = dmaSize f.ph.filesz := by
    rw [Config.copySize, if_pos hmwr]
  unfold Elf.dmaStep
  cases size with
  | zero =>
    have hle := hfits.le_copySize hlen hmatched
    exact hgood.next hfits hlen MemStep.rfl none_read (hcopy.finished (by omega))
  | succ size =>
    have hpos : 0 < f.ph.filesz := by
      obtain hzero | hpos := Nat.eq_zero_or_pos f.ph.filesz
      · have hnone : dmaSize 0 = 0 := rfl
        rw [hzero, hnone] at hsize
        omega
      · exact hpos
    have hsource := (hfits.source f.ph v hmatched hpos).2
    have hsrc := hsrc hpos
    have hbyte : s.mem src = fileByte image (f.ph.offset + n) := by
      rw [hsrc, Nat.add_assoc]
      exact hgood.file _ (by omega)
    have hbytes : [s.mem src] = readBytes (fileByte image) (f.ph.offset + n) 1 := by
      rw [hbyte]
      rfl
    obtain ⟨hmem, hcopy'⟩ := hcopy.write hfits hlen (by omega) hdst hbytes
    apply hgood.next hfits hlen hmem
    · intro a ha
      rw [List.mem_singleton.mp ha]
      change InImage c image src
      constructor <;> omega
    · refine ⟨v, n + 1, hcopy', hmwr, ?_, fun _ => ?_, ?_⟩
      · change size + (n + 1) = _
        omega
      · change src + 1 = _
        omega
      · change dst + 1 = _
        omega

/-- A step keeps the invariant, or stops its processor. -/
theorem Good.step (hfits : Fits c image vsegs procs) (hlen : image.length ≤ elfBufferSize)
    (hgood : Good c image vsegs procs mem₀ s) (hcxy : cxy ∈ procs) {s' : State}
    (h : step c vsegs cxy s = some s') :
    Good c image vsegs procs mem₀ s' ∨ Stuck (s'.pc cxy) := by
  have hpc := hgood.pcs cxy hcxy
  unfold Elf.step at h
  cases hcase : s.pc cxy with
  | header =>
    rw [hcase] at h
    rw [← Option.some.inj h]
    exact hgood.headerStep hfits hlen
  | segment pht nsegments seg =>
    rw [hcase] at h hpc
    rw [← Option.some.inj h]
    exact hgood.segmentStep hfits hlen hpc
  | scan f found =>
    rw [hcase] at h hpc
    rw [← Option.some.inj h]
    exact hgood.scanStep hfits hlen hpc
  | memcpy f k =>
    rw [hcase] at h hpc
    rw [← Option.some.inj h]
    exact hgood.memcpyStep hfits hlen hpc
  | dma f k =>
    rw [hcase] at h hpc
    rw [← Option.some.inj h]
    exact Or.inl (hgood.dmaStep hfits hlen hpc)
  | done =>
    rw [hcase] at h
    cases h
  | exited =>
    rw [hcase] at h
    cases h

/-- A step only moves its processor. -/
theorem step_next {s' : State} (h : step c vsegs cxy s = some s') :
    ∃ mem reads pc, s' = s.next cxy mem reads pc := by
  unfold Elf.step at h
  cases hcase : s.pc cxy with
  | header =>
    rw [hcase] at h
    rw [← Option.some.inj h, headerStep]
    split_ifs <;> exact ⟨_, _, _, rfl⟩
  | segment pht nsegments seg =>
    rw [hcase] at h
    rw [← Option.some.inj h, segmentStep]
    dsimp only
    split_ifs <;> exact ⟨_, _, _, rfl⟩
  | scan f found =>
    rw [hcase] at h
    rw [← Option.some.inj h, scanStep]
    cases f.todo <;> dsimp only <;> split_ifs <;> exact ⟨_, _, _, rfl⟩
  | memcpy f k =>
    rw [hcase] at h
    rw [← Option.some.inj h, memcpyStep]
    cases k.data with
    | none => exact ⟨_, _, _, rfl⟩
    | some bytes =>
      dsimp only
      split_ifs <;> exact ⟨_, _, _, rfl⟩
  | dma f k =>
    rw [hcase] at h
    rw [← Option.some.inj h, dmaStep]
    cases k.size <;> exact ⟨_, _, _, rfl⟩
  | done =>
    rw [hcase] at h
    cases h
  | exited =>
    rw [hcase] at h
    cases h

/-- A processor that is stuck remains stuck. -/
theorem Stuck.step {q : ℕ} {s' : State} (hstuck : Stuck (s.pc q))
    (h : step c vsegs cxy s = some s') : Stuck (s'.pc q) := by
  by_cases hq : q = cxy
  · rw [hq] at hstuck ⊢
    unfold Elf.step at h
    cases hcase : s.pc cxy with
    | memcpy f k =>
      rw [hcase] at h hstuck
      rw [← Option.some.inj h, memcpyStep]
      cases hdata : k.data with
      | none =>
        change Stuck (Function.update s.pc cxy (.memcpy _ _) cxy)
        rw [Function.update_self]
        exact hstuck
      | some bytes =>
        obtain ⟨hpos, hnext⟩ : sub32 k.iter 1 ≠ 0 ∧
            (k.iter ≠ 2 ^ 31 → 2 ^ 31 ≤ sub32 k.iter 1 ∧ sub32 k.iter 1 < 2 ^ 32) := by
          unfold sub32
          obtain hzero | ⟨hlow, hhigh⟩ := hstuck <;> omega
        dsimp only
        by_cases htrap : k.iter = 2 ^ 31 ∨ addiTraps k.srcLsb ∨ addiTraps k.dstLsb
        · rw [if_pos htrap]
          exact stuck_exited
        · rw [if_neg htrap, if_neg hpos]
          change Stuck (Function.update s.pc cxy (.memcpy _ _) cxy)
          rw [Function.update_self]
          exact Or.inr (hnext fun heq => htrap (Or.inl heq))
    | exited =>
      rw [hcase] at h
      cases h
    | header => rw [hcase] at hstuck; cases hstuck
    | segment => rw [hcase] at hstuck; cases hstuck
    | scan => rw [hcase] at hstuck; cases hstuck
    | dma => rw [hcase] at hstuck; cases hstuck
    | done => rw [hcase] at hstuck; cases hstuck
  · obtain ⟨mem, reads, pc, rfl⟩ := step_next h
    change Stuck (Function.update s.pc cxy pc q)
    rw [Function.update_of_ne hq]
    exact hstuck

/-- After any steps of the processors, the invariant holds or one of them is stuck. -/
theorem run_good (hfits : Fits c image vsegs procs) (hlen : image.length ≤ elfBufferSize)
    {schedule : List ℕ} {s' : State} (hrun : run c vsegs procs schedule s = some s')
    (h : Good c image vsegs procs mem₀ s ∨ ∃ q ∈ procs, Stuck (s.pc q)) :
    Good c image vsegs procs mem₀ s' ∨ ∃ q ∈ procs, Stuck (s'.pc q) := by
  induction schedule generalizing s with
  | nil =>
    rw [← Option.some.inj hrun]
    exact h
  | cons cxy rest ih =>
    rw [run] at hrun
    by_cases hcxy : cxy ∈ procs
    · rw [if_pos hcxy, Option.bind_eq_some_iff] at hrun
      obtain ⟨s₁, hstep, hrest⟩ := hrun
      apply ih hrest
      obtain hgood | ⟨q, hq, hstuck⟩ := h
      · obtain hgood' | hstuck := hgood.step hfits hlen hcxy hstep
        · exact Or.inl hgood'
        · exact Or.inr ⟨cxy, hcxy, hstuck⟩
      · exact Or.inr ⟨q, hq, hstuck.step hstep⟩
    · rw [if_neg hcxy] at hrun
      cases hrun

end Steps

/-! ## The end of the load -/

/-- A processor has returned. -/
def Pc.isDone : Pc → Bool
  | .done => true
  | _ => false

theorem Pc.isDone_iff {pc : Pc} : pc.isDone = true ↔ pc = .done := by
  cases pc <;> simp [Pc.isDone]

/-- What the invariant says when all the processors have returned. -/
theorem Good.loaded (hfits : Fits c image vsegs procs) {mem₀ : Memory} {s : State}
    (hgood : Good c image vsegs procs mem₀ s)
    (hdone : ∀ p ∈ procs, (s.pc p).isDone = true) : Loaded c image vsegs mem₀ s := by
  refine ⟨fun ph v hmatched i hi => ?_, fun a ha => ?_, hgood.reads⟩
  · have hpos : 0 < ph.filesz := by omega
    have hcxy := hfits.executed ph v hmatched hpos
    have hpc := hgood.pcs _ hcxy
    rw [Pc.isDone_iff.mp (hdone _ hcxy)] at hpc
    obtain ⟨⟨seg, hseg, rfl, htype⟩, hv, hvaddr⟩ := hmatched
    have hcopied := hpc seg hseg hseg htype v hv hvaddr (local_iff.mpr rfl)
    have hsource := (hfits.source _ v ⟨⟨seg, hseg, rfl, htype⟩, hv, hvaddr⟩ hpos).1
    have hin : (phdr image seg).offset + i < image.length := by omega
    rw [hcopied i hi, fileByte, List.getD_eq_getElem?_getD, List.getElem?_eq_getElem hin,
      Option.getD_some]
  · obtain hsame | ⟨ph, v, i, hmatched, hi, haddr, -⟩ := hgood.frame a
    · exact hsame
    · have hroom := hfits.room ph v hmatched
      exact absurd ⟨by omega, by omega⟩ (ha ph v hmatched)

/-- When the load of a file ends on all the processors, whatever the order of their steps, it is
complete and confined. -/
theorem loadOneElfFile_loaded (m : Mapping) (isKernel vspaceId : ℕ)
    (hlen : image.length ≤ elfBufferSize)
    (hfits : Fits c image (m.scanned isKernel vspaceId) procs) {mem₀ : Memory}
    (hfile : FileAt c image mem₀) {s₀ s : State} (hstart : start c mem₀ = some s₀)
    {schedule : List ℕ} (hrun : run c (m.scanned isKernel vspaceId) procs schedule s₀ = some s)
    (hdone : ∀ p ∈ procs, (s.pc p).isDone = true) :
    Loaded c image (m.scanned isKernel vspaceId) mem₀ s := by
  have hheader := hfits.header
  have hgood : Good c image (m.scanned isKernel vspaceId) procs mem₀ s₀ := by
    rw [start] at hstart
    split_ifs at hstart
    rw [← Option.some.inj hstart]
    have hmagic : 0 + 4 ≤ image.length := by omega
    exact ⟨hfile, MemStep.rfl, fieldAddresses_inImage hlen hmagic, fun _ _ => trivial⟩
  obtain hgood | ⟨q, hq, hstuck⟩ := run_good hfits hlen hrun (Or.inl hgood)
  · exact hgood.loaded hfits hdone
  · rw [Pc.isDone_iff.mp (hdone q hq)] at hstuck
    cases hstuck

/-! ## A file with one segment -/

/-- The bytes of a 32-bit field. -/
def le32 (n : ℕ) : List UInt8 := [n, n / 2 ^ 8, n / 2 ^ 16, n / 2 ^ 24].map UInt8.ofNat

/-- A file whose only segment is loadable: four bytes at 0x10000. -/
def oneSegment : List UInt8 :=
  [0x7F, 0x45, 0x4C, 0x46] ++ List.replicate 24 0 ++ le32 52 ++ List.replicate 12 0 ++ [1, 0] ++
    List.replicate 6 0 ++ le32 1 ++ le32 84 ++ le32 0x10000 ++ le32 0x10000 ++ le32 4 ++ le32 4 ++
    le32 7 ++ le32 0x1000 ++ [1, 2, 3, 4]

/-- A platform without copy coprocessors. -/
def memcpyConfig : Config := ⟨4, false, 0x40000, by decide, by decide⟩

/-- The memory when this file is loaded. -/
def oneSegmentMemory : Memory := fun a => if a < 0x40000 then 0 else oneSegment.getD (a - 0x40000) 0

/-- A mapping with one vseg at 0x10000, in cluster 0 or in the next one. -/
def oneVseg (cxy : Fin 2) : Mapping :=
  ⟨1, fun _ => 0, fun _ => 0, fun _ => ⟨0x10000, cxy * 2 ^ 32 + 0x200000, 0x1000, by omega⟩⟩

/-- The start of the load and the steps of P[0,0,0]. -/
def oneSegmentRun (cxy : Fin 2) (steps : ℕ) : Option State :=
  (start memcpyConfig oneSegmentMemory).bind
    (run memcpyConfig ((oneVseg cxy).scanned 1 0) [0] (List.replicate steps 0))

theorem oneSegment_matched {cxy : Fin 2} {ph : Phdr} {v : Vseg}
    (h : Matched oneSegment ((oneVseg cxy).scanned 1 0) ph v) :
    ph = ⟨1, 84, 0x10000, 4, 4⟩ ∧ v = (oneVseg cxy).vseg 0 := by
  obtain ⟨⟨seg, hseg, rfl, -⟩, hv, -⟩ := h
  have hnum : phnum oneSegment = 1 := by decide
  rw [hnum] at hseg
  obtain rfl : seg = 0 := by omega
  exact ⟨by decide +kernel, List.mem_singleton.mp hv⟩

theorem oneSegment_fits : Fits memcpyConfig oneSegment ((oneVseg 0).scanned 1 0) [0] := by
  have hlength : oneSegment.length = 88 := by decide
  have hnum : phnum oneSegment = 1 := by decide
  have htarget : ∀ a b, Target memcpyConfig oneSegment ((oneVseg 0).scanned 1 0) a b →
      ∃ i < 4, a = 0x200000 + i ∧ b = fileByte oneSegment (84 + i) := by
    rintro a b ⟨ph, v, i, hmatched, hi, ha, hb⟩
    obtain ⟨rfl, rfl⟩ := oneSegment_matched hmatched
    exact ⟨i, hi, ha, hb⟩
  refine ⟨by decide, fun seg hseg => ?_, fun ph v h _ => ?_, fun ph v h _ => ?_, fun ph v h => ?_,
    fun ph v h _ => ?_, fun a b h hin => ?_, fun a b b' h h' => ?_⟩
  · rw [hnum] at hseg
    obtain rfl : seg = 0 := by omega
    decide +kernel
  · obtain ⟨rfl, -⟩ := oneSegment_matched h
    decide
  · obtain ⟨-, rfl⟩ := oneSegment_matched h
    decide
  · obtain ⟨rfl, rfl⟩ := oneSegment_matched h
    decide
  · obtain ⟨rfl, rfl⟩ := oneSegment_matched h
    decide
  · obtain ⟨i, hi, ha, -⟩ := htarget a b h
    obtain ⟨-, hhigh⟩ := hin
    rw [hlength] at hhigh
    change a < 0x40000 + 88 at hhigh
    omega
  · obtain ⟨i, -, ha, hb⟩ := htarget a b h
    obtain ⟨i', -, ha', hb'⟩ := htarget a b' h'
    obtain rfl : i = i' := by omega
    rw [hb, hb']

theorem oneSegmentMemory_fileAt : FileAt memcpyConfig oneSegment oneSegmentMemory := by
  intro i _
  have hhigh : ¬0x40000 + i < 0x40000 := by omega
  have hsub : 0x40000 + i - 0x40000 = i := by omega
  change (if 0x40000 + i < 0x40000 then 0 else oneSegment.getD (0x40000 + i - 0x40000) 0) = _
  rw [if_neg hhigh, hsub, fileByte]

/-- The load of this file in a vseg of cluster 0. -/
theorem loadOneElfFile_loaded_one : ∃ s, oneSegmentRun 0 7 = some s ∧
    (∀ p ∈ [0], (s.pc p).isDone = true) ∧
    Loaded memcpyConfig oneSegment ((oneVseg 0).scanned 1 0) oneSegmentMemory s := by
  have hend : ((oneSegmentRun 0 7).any fun s => (s.pc 0).isDone) = true := by decide +kernel
  obtain ⟨s, hs, hdone⟩ := (Option.any_eq_true _ _).mp hend
  have hall : ∀ p ∈ [0], (s.pc p).isDone = true := by
    intro p hp
    rw [List.mem_singleton.mp hp]
    exact hdone
  obtain ⟨s₀, hstart, hrun⟩ := Option.bind_eq_some_iff.mp hs
  exact ⟨s, hs, hall, loadOneElfFile_loaded (oneVseg 0) 1 0 (by decide) oneSegment_fits
    oneSegmentMemory_fileAt hstart hrun hall⟩

/-- A vseg in a cluster without processors: the load ends, and the segment is not in the vseg. -/
theorem loadOneElfFile_not_loaded : ∃ s, oneSegmentRun 1 5 = some s ∧
    (∀ p ∈ [0], (s.pc p).isDone = true) ∧
    ¬Loaded memcpyConfig oneSegment ((oneVseg 1).scanned 1 0) oneSegmentMemory s := by
  have hend : ((oneSegmentRun 1 5).any fun s =>
      (s.pc 0).isDone && s.mem (2 ^ 32 + 0x200000) == 0) = true := by decide +kernel
  obtain ⟨s, hs, hdone⟩ := (Option.any_eq_true _ _).mp hend
  rw [Bool.and_eq_true, beq_iff_eq] at hdone
  obtain ⟨hdone, hbyte⟩ := hdone
  refine ⟨s, hs, fun p hp => ?_, fun hloaded => ?_⟩
  · rw [List.mem_singleton.mp hp]
    exact hdone
  · have hloadable : Loadable oneSegment ⟨1, 84, 0x10000, 4, 4⟩ :=
      ⟨0, by decide, by decide +kernel, rfl⟩
    have hmatched : Matched oneSegment ((oneVseg 1).scanned 1 0) ⟨1, 84, 0x10000, 4, 4⟩
        ((oneVseg 1).vseg 0) := ⟨hloadable, List.mem_singleton_self _, rfl⟩
    have hcontent := hloaded.content _ _ hmatched 0 (by decide)
    change oneSegment[84]? = some (s.mem (2 ^ 32 + 0x200000)) at hcontent
    rw [hbyte] at hcontent
    revert hcontent
    decide

end GietVm.Boot.Elf
