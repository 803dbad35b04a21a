import GietVm.Library.RadixWalk
import GietVm.Fat.Volume

/-!
# Writing a cache back

`_update_device_from_cache` goes through a cache of any height and writes the dirty clusters.
A write that fails is reported at the end, after all the others have been tried, and its
cluster stays dirty. `WrittenBack` states what the call does for every tree and for every
pattern of failures.

A clean cluster is not written, so it only equals the device after the call if it did
before; and two clusters with the same sectors cannot both equal the device.
-/

namespace GietVm.Fat

open GietVm.Library

/-- A descriptor without its flag. -/
def Desc.clean (desc : Desc) : Desc := { desc with dirty := false }

/-- The dirty clusters of a cache in the order of their indices. -/
def dirtyClusters (root : CacheTree) : List Desc := root.leaves.filter Desc.dirty

/-- The device after the writes of some clusters, each one to its own lba. -/
def Device.writeAll (device : Device) (descs : List Desc) : Device :=
  descs.foldl (fun d desc => (d.write desc.lba desc.buffer).2) device

/-- A byte of the device belongs to a cluster. -/
def Desc.Covers (desc : Desc) (a : ℕ) : Prop := 512 * desc.lba ≤ a ∧ a < 512 * desc.lba + 4096

/-- The descriptor at a place of a list after the writes: it stays dirty when its own write, which
comes after those of the dirty clusters before it, fails. -/
def markedAt (device : Device) (descs : List Desc) (i : ℕ) (desc : Desc) : Desc :=
  { desc with
    dirty := desc.dirty && device.fails (device.accesses + (descs.take i).countP Desc.dirty) }

/-- The writes of a cache to a device, which turn the tree `root` into `root'`. -/
structure WrittenBack (device device' : Device) (root root' : CacheTree) (failed : Bool) : Prop where
  /-- Each dirty cluster is written once, to its own lba, and nothing else is. -/
  writes : device' = device.writeAll (dirtyClusters root)
  /-- The code is zero when all these writes succeed. -/
  code : failed = false ↔
    ∀ i < (dirtyClusters root).length, device.fails (device.accesses + i) = false
  /-- Buffers, addresses and the shape of the tree are the same. -/
  same : root'.map Desc.clean = root.map Desc.clean
  marked : ∀ i : ℕ, root'.leaves[i]? = (root.leaves[i]?).map (markedAt device root.leaves i)
  untouched : ∀ a, (∀ desc ∈ dirtyClusters root, ¬ desc.Covers a) → device'.disk a = device.disk a
  /-- Clusters that do not overlap, the clean ones of which equal the device, all equal the device
  when the code is zero. -/
  equal : failed = false → root.leaves.Pairwise (fun desc desc' => Apart desc.lba desc'.lba) →
    (∀ desc ∈ root.leaves, desc.dirty = false →
      device.disk.load 4096 desc.lba = desc.buffer) →
    ∀ desc ∈ root'.leaves, device'.disk.load 4096 desc.lba = desc.buffer

/-! ## The writes of a list of clusters -/

section Writes

variable {d : Device}

theorem writeBack_eq (desc : Desc) (d : Device) : writeBack desc d =
    ({ desc with dirty := desc.dirty && d.fails d.accesses },
      desc.dirty && d.fails d.accesses,
      if desc.dirty then (d.write desc.lba desc.buffer).2 else d) := by
  obtain ⟨address, bufferAddress, lba, dirty, buffer⟩ := desc
  cases dirty with
  | true => simp [writeBack, Device.write]
  | false => rfl

theorem writeAll_cons (desc : Desc) (l : List Desc) :
    d.writeAll (desc :: l) = (d.write desc.lba desc.buffer).2.writeAll l := rfl

theorem writeAll_fails (l : List Desc) : (d.writeAll l).fails = d.fails := by
  induction l generalizing d with
  | nil => rfl
  | cons desc l ih => exact ih

theorem writeAll_accesses (l : List Desc) : (d.writeAll l).accesses = d.accesses + l.length := by
  induction l generalizing d with
  | nil => rfl
  | cons desc l ih =>
    rw [writeAll_cons, ih, List.length_cons]
    change d.accesses + 1 + l.length = _
    omega

/-- Bytes outside the clusters keep their value. -/
theorem writeAll_untouched {l : List Desc} {a : ℕ} (h : ∀ desc ∈ l, ¬ desc.Covers a) :
    (d.writeAll l).disk a = d.disk a := by
  induction l generalizing d with
  | nil => rfl
  | cons desc l ih =>
    rw [writeAll_cons, ih fun desc' h' => h desc' (List.mem_cons_of_mem _ h')]
    have hout := h desc List.mem_cons_self
    rw [Desc.Covers, not_and_or] at hout
    rw [Device.write]
    dsimp only
    split
    · rfl
    · exact Disk.store_apart _ _ (by omega)

/-- A cluster apart from those that are written keeps its content. -/
theorem writeAll_apart {l : List Desc} {lba : ℕ} (h : ∀ desc ∈ l, Apart desc.lba lba) :
    (d.writeAll l).disk.load 4096 lba = d.disk.load 4096 lba := by
  refine Disk.load_congr fun a ha ha' => writeAll_untouched fun desc hdesc hin => ?_
  obtain ⟨hle, hlt⟩ := hin
  rcases h desc hdesc with h | h <;> omega

/-- The visits of a list of clusters are the writes of the dirty ones. -/
theorem visits_writeBack (l : List Desc) :
    (RadixTree.visits writeBack l d).2.2 = d.writeAll (l.filter Desc.dirty) ∧
    ((RadixTree.visits writeBack l d).2.1 = false ↔
      ∀ i < (l.filter Desc.dirty).length, d.fails (d.accesses + i) = false) ∧
    ∀ i : ℕ, (RadixTree.visits writeBack l d).1[i]? = (l[i]?).map (markedAt d l i) := by
  induction l generalizing d with
  | nil => exact ⟨rfl, by simp [RadixTree.visits], fun i => by simp [RadixTree.visits]⟩
  | cons desc l ih =>
    rw [RadixTree.visits, writeBack_eq]
    cases hdirty : desc.dirty with
    | false =>
      obtain ⟨hdevice, hcode, hmarked⟩ := @ih d
      simp only [Bool.false_and, Bool.false_or, hdirty, Bool.false_eq_true, if_false,
        not_false_eq_true, List.filter_cons_of_neg]
      refine ⟨hdevice, hcode, fun i => ?_⟩
      cases i with
      | zero => simp [markedAt, hdirty]
      | succ i =>
        rw [List.getElem?_cons_succ, List.getElem?_cons_succ, hmarked]
        congr 1
        funext desc'
        simp [markedAt, hdirty]
    | true =>
      obtain ⟨hdevice, hcode, hmarked⟩ := @ih (d.write desc.lba desc.buffer).2
      have haccesses : (d.write desc.lba desc.buffer).2.accesses = d.accesses + 1 := rfl
      have hfails : (d.write desc.lba desc.buffer).2.fails = d.fails := rfl
      simp only [Bool.true_and, if_true, hdirty, List.filter_cons_of_pos, writeAll_cons]
      refine ⟨hdevice, ?_, fun i => ?_⟩
      · rw [Bool.or_eq_false_iff, hcode, haccesses, hfails]
        constructor
        · rintro ⟨hfirst, hrest⟩ i hi
          cases i with
          | zero => exact hfirst
          | succ i =>
            rw [Nat.add_comm i 1, ← Nat.add_assoc]
            exact hrest i (by simpa using hi)
        · intro h
          refine ⟨h 0 (by simp), fun i hi => ?_⟩
          rw [Nat.add_assoc, Nat.add_comm 1 i]
          exact h (i + 1) (by simpa using hi)
      · cases i with
        | zero => simp [markedAt, hdirty]
        | succ i =>
          rw [List.getElem?_cons_succ, List.getElem?_cons_succ, hmarked]
          congr 1
          funext desc'
          simp only [markedAt, haccesses, hfails, List.take_succ_cons, List.countP_cons, hdirty,
            if_true]
          rw [Nat.add_assoc, Nat.add_comm 1]

/-- Clusters that do not overlap are all on the device once they have been written. -/
theorem writeAll_load {l : List Desc} (hpair : l.Pairwise fun desc desc' => Apart desc.lba desc'.lba)
    (hok : ∀ i < l.length, d.fails (d.accesses + i) = false) :
    ∀ desc ∈ l, (d.writeAll l).disk.load 4096 desc.lba = desc.buffer := by
  induction l generalizing d with
  | nil => simp
  | cons first l ih =>
    rw [List.pairwise_cons] at hpair
    have hfirst : d.fails d.accesses = false := hok 0 (by simp)
    intro desc hdesc
    rw [writeAll_cons]
    rcases List.mem_cons.mp hdesc with rfl | hdesc
    · -- the later writes are elsewhere
      rw [writeAll_apart fun desc' h' => (hpair.1 desc' h').symm]
      rw [Device.write]
      dsimp only
      rw [hfirst, if_neg (by simp)]
      exact Disk.load_store_same _ _ _
    · refine ih hpair.2 (fun i hi => ?_) desc hdesc
      change d.fails (d.accesses + 1 + i) = false
      rw [Nat.add_assoc, Nat.add_comm 1 i]
      exact hok (i + 1) (by simpa using hi)

end Writes

/-! ## The call -/

theorem writeBack_clean_eq (desc : Desc) (d : Device) :
    (writeBack desc d).1.clean = desc.clean := by
  rw [writeBack_eq]
  rfl

/-- A descriptor after the writes comes from one before with the same lba and the same buffer. -/
theorem exists_of_marked {d : Device} {l l' : List Desc}
    (h : ∀ i : ℕ, l'[i]? = (l[i]?).map (markedAt d l i)) {desc' : Desc} (hmem : desc' ∈ l') :
    ∃ desc ∈ l, desc'.lba = desc.lba ∧ desc'.buffer = desc.buffer := by
  obtain ⟨i, hi⟩ := List.getElem?_of_mem hmem
  rw [h, Option.map_eq_some_iff] at hi
  obtain ⟨desc, hdesc, rfl⟩ := hi
  exact ⟨desc, List.mem_of_getElem? hdesc, rfl, rfl⟩

section Call

variable {s : FatState} {owner : Option Ptr} {levels : ℕ} {root : CacheTree}

/-- The call visits the descriptors of the cache one after the other. -/
theorem updateDeviceFromCache_leaves (hcache : s.cacheAt owner = some (levels, root))
    (hok : CacheOk levels root) :
    ∃ device root' failed, updateDeviceFromCache owner s =
        .ok failed ({ s with device := device }.withCache owner root') ∧
      RadixTree.WalkedLeaves writeBack Desc.clean root root' s.device failed device := by
  obtain ⟨root', failed, device, hwalk, hwalked⟩ :=
    RadixTree.walk_leaves (f := writeBack) (g := Desc.clean) writeBack_clean_eq root s.device
      hok.shaped
  exact ⟨device, root', failed, updateDeviceFromCache_walk hcache hok hwalk, hwalked⟩

/-- `_update_device_from_cache` writes a cache back, for every tree and every pattern of failures
of the device. -/
theorem updateDeviceFromCache_writtenBack (hcache : s.cacheAt owner = some (levels, root))
    (hok : CacheOk levels root) :
    ∃ device root' failed, updateDeviceFromCache owner s =
        .ok failed ({ s with device := device }.withCache owner root') ∧
      WrittenBack s.device device root root' failed := by
  obtain ⟨device, root', failed, hrun, hvisits, hsame⟩ := updateDeviceFromCache_leaves hcache hok
  obtain ⟨hdevice, hcode, hmarked⟩ := @visits_writeBack s.device root.leaves
  rw [hvisits] at hdevice hcode hmarked
  have hdevice : device = s.device.writeAll (dirtyClusters root) := hdevice
  refine ⟨device, root', failed, hrun,
    ⟨hdevice, hcode, hsame, hmarked, fun a ha => ?_, fun hfailed hpair hclean desc' hdesc' => ?_⟩⟩
  · rw [hdevice, writeAll_untouched ha]
  · obtain ⟨desc, hdesc, hlba, hbuffer⟩ := exists_of_marked hmarked hdesc'
    rw [hlba, hbuffer, hdevice]
    have hdirties : (dirtyClusters root).Pairwise fun desc desc' => Apart desc.lba desc'.lba :=
      hpair.filter _
    by_cases hdirty : desc.dirty = true
    · exact writeAll_load hdirties (hcode.mp hfailed) desc (List.mem_filter.mpr ⟨hdesc, hdirty⟩)
    · -- a clean cluster is apart from the dirty ones, which are other clusters
      rw [writeAll_apart, hclean desc hdesc (by simpa using hdirty)]
      intro other hother
      obtain ⟨hmem, hdirty'⟩ := List.mem_filter.mp hother
      have hsymm : Std.Symm fun desc desc' : Desc => Apart desc.lba desc'.lba :=
        ⟨fun _ _ h => h.symm⟩
      refine hpair.forall hmem hdesc ?_
      rintro rfl
      exact hdirty hdirty'

end Call

/-! ## Two caches that do not equal the device -/

/-- A cache of one level with two clusters. -/
def twoClusters (first second : Desc) : CacheTree :=
  RadixTree.attach 1 (RadixTree.attach 1 (RadixTree.emptyNode 1) 0 first) 1 second

/-- A file system with this cache as Fat-Cache, on an empty device that answers. -/
def twoClustersState (first second : Desc) : FatState :=
  { FatState.boot ⟨fun _ => 0, fun _ => false, 0⟩ (fun _ _ => 0) (fun _ => 0) with
    fatCacheLevels := 1, fatCacheRoot := twoClusters first second }

theorem twoClusters_ok (first second : Desc) : CacheOk 1 (twoClusters first second) := by
  have hempty : CacheOk 1 (RadixTree.emptyNode 1) :=
    ⟨one_ne_zero, trivial, RadixTree.shaped_emptyNode 0 1⟩
  exact (hempty.attach 0 first).attach 1 second

/-- The call visits the two clusters. -/
theorem twoClusters_run (first second : Desc) (device : Device) (l : List Desc) (failed : Bool)
    (h : RadixTree.visits writeBack [first, second] (twoClustersState first second).device =
      (l, failed, device)) :
    ∃ s', updateDeviceFromCache none (twoClustersState first second) = .ok failed s' ∧
      s'.fatCacheRoot.leaves = l ∧ s'.device = device := by
  obtain ⟨device', root', failed', hrun, hvisits, -⟩ :=
    updateDeviceFromCache_leaves (show (twoClustersState first second).cacheAt none = _ from rfl)
      (twoClusters_ok first second)
  have hsame := h.symm.trans hvisits
  rw [Prod.mk.injEq, Prod.mk.injEq] at hsame
  obtain ⟨rfl, rfl, rfl⟩ := hsame
  exact ⟨_, hrun, rfl, rfl⟩

/-- Two clusters are written back, the second one only. -/
theorem updateDeviceFromCache_writtenBack_two :
    ∃ device root' failed, updateDeviceFromCache none
        (twoClustersState ⟨2, 3, 0, false, fun _ => 1⟩ ⟨4, 5, 8, true, fun _ => 0⟩) =
          .ok failed ({ twoClustersState ⟨2, 3, 0, false, fun _ => 1⟩ ⟨4, 5, 8, true, fun _ => 0⟩
            with device := device }.withCache none root') ∧
      WrittenBack ⟨fun _ => 0, fun _ => false, 0⟩ device
        (twoClusters ⟨2, 3, 0, false, fun _ => 1⟩ ⟨4, 5, 8, true, fun _ => 0⟩) root' failed :=
  updateDeviceFromCache_writtenBack rfl (twoClusters_ok _ _)

/-- A clean cluster that differs from the device is not written, and of two clusters with the same
lba the first one is overwritten: the call returns 0 and they differ from the device. -/
theorem twoClusters_differ :
    (∃ s', updateDeviceFromCache none
        (twoClustersState ⟨2, 3, 0, false, fun _ => 1⟩ ⟨4, 5, 8, false, fun _ => 0⟩) =
          .ok false s' ∧
      ∃ desc ∈ s'.fatCacheRoot.leaves, s'.device.disk.load 4096 desc.lba ≠ desc.buffer) ∧
    ∃ s', updateDeviceFromCache none
        (twoClustersState ⟨2, 3, 0, true, fun _ => 1⟩ ⟨4, 5, 0, true, fun _ => 2⟩) =
          .ok false s' ∧
      ∃ desc ∈ s'.fatCacheRoot.leaves, s'.device.disk.load 4096 desc.lba ≠ desc.buffer := by
  have hbyte (s' : FatState) (desc : Desc) (h : s'.device.disk (512 * desc.lba) ≠ desc.buffer 0) :
      s'.device.disk.load 4096 desc.lba ≠ desc.buffer := fun heq => h (congrFun heq 0)
  obtain ⟨s₁, hrun₁, hleaves₁, hdevice₁⟩ :=
    twoClusters_run ⟨2, 3, 0, false, fun _ => 1⟩ ⟨4, 5, 8, false, fun _ => 0⟩ _ _ false rfl
  obtain ⟨s₂, hrun₂, hleaves₂, hdevice₂⟩ :=
    twoClusters_run ⟨2, 3, 0, true, fun _ => 1⟩ ⟨4, 5, 0, true, fun _ => 2⟩ _ _ false rfl
  refine ⟨⟨s₁, hrun₁, _, by rw [hleaves₁]; exact List.mem_cons_self, hbyte _ _ ?_⟩,
    s₂, hrun₂, _, by rw [hleaves₂]; exact List.mem_cons_self, hbyte _ _ ?_⟩
  · rw [hdevice₁]
    decide
  · rw [hdevice₂]
    decide

end GietVm.Fat
