import GietVm.Fat.Directory
import GietVm.Fat.Edit
import GietVm.Fat.Codec
import GietVm.Library.Linked

/-!
# Lookups as scans of entries

The entries of a directory are numbered across its clusters. `scanFrom` is the scan of
consecutive entries; the scans of one cluster and of a whole directory are both instances of
it. So the outcome of a lookup is a function of the entries of the directory, and two
directories with the same entries up to some position only differ in what follows.
-/

namespace GietVm.Fat

open GietVm.Library

/-- Entry `i` of a directory whose clusters have the given contents. -/
def entryAt (blocks : ℕ → Block) (i : ℕ) : ℕ → UInt8 := pointer (blocks (i / 128)) (i % 128 * 32)

/-- The scan of `n` entries from entry `i` on. A match is reported with its offset from the
beginning of the directory. -/
def scanFrom (name : List UInt8) (entry : ℕ → ℕ → UInt8) : ℕ → ℕ → LfnScan → ScanResult
  | 0, _, scan => .next scan
  | n + 1, i, scan =>
    if readEntry 0 1 (entry i) false = noMoreEntry then .noMore
    else if readEntry 0 1 (entry i) false = freeEntry then scanFrom name entry n (i + 1) scan
    else if readEntry 11 1 (entry i) false = attrLongNameMask then
      scanFrom name entry n (i + 1) (scan.record (readEntry 0 1 (entry i) false) (entry i))
    else match scan.cname (entry i) with
      | none => .undefined
      | some cname =>
        if name = cname then .found (i * 32) (entryInfo (entry i)) { scan with lfn := 0 }
        else scanFrom name entry n (i + 1) { scan with lfn := 0 }

/-- A result with its offset counted from another base. -/
def ScanResult.shift (base : ℕ) : ScanResult → ScanResult
  | .next scan => .next scan
  | .noMore => .noMore
  | .found offset info scan => .found (base + offset) info scan
  | .undefined => .undefined

/-- What the scan of a directory returns for the result of its entries. -/
def ScanResult.outcome : ScanResult → Option DirSearch
  | .next _ => none
  | .noMore => some .endOfDir
  | .found offset info _ => some (.found (offset / 32) info)
  | .undefined => none

section Scan

variable {name : List UInt8} {entry entry' : ℕ → ℕ → UInt8} {scan : LfnScan}

theorem scanFrom_add (n m i : ℕ) :
    scanFrom name entry (n + m) i scan =
      match scanFrom name entry n i scan with
      | .next scan' => scanFrom name entry m (i + n) scan'
      | .noMore => .noMore
      | .found offset info scan' => .found offset info scan'
      | .undefined => .undefined := by
  induction n generalizing i scan with
  | zero => simp [scanFrom]
  | succ n ih =>
    rw [Nat.add_right_comm, scanFrom, scanFrom]
    have hstep : i + (n + 1) = i + 1 + n := by omega
    split
    · rfl
    · split
      · rw [ih, hstep]
      · split
        · rw [ih, hstep]
        · cases scan.cname (entry i) with
          | none => rfl
          | some cname =>
            by_cases hn : name = cname
            · simp [hn]
            · simp only [if_neg hn, ih, hstep]

/-- The scan only depends on the entries it covers. -/
theorem scanFrom_congr {n i : ℕ} (h : ∀ j, i ≤ j → j < i + n → SameEntry (entry j) (entry' j)) :
    scanFrom name entry n i scan = scanFrom name entry' n i scan := by
  induction n generalizing i scan with
  | zero => rfl
  | succ n ih =>
    have hi := h i le_rfl (by omega)
    have hrest {scan' : LfnScan} : scanFrom name entry n (i + 1) scan' =
        scanFrom name entry' n (i + 1) scan' := ih fun j hj hjn => h j (by omega) (by omega)
    rw [scanFrom, scanFrom, hi.readEntry (by omega), hi.readEntry (by omega), hi.record,
      hi.cname, hi.entryInfo]
    simp only [hrest]

/-- While no name matches, the variables of the scanner do not depend on the name. -/
theorem scanFrom_next {n i : ℕ} {scan' : LfnScan} (other : List UInt8)
    (h : scanFrom name entry n i scan = .next scan') :
    scanFrom other entry n i scan = .next scan' ∨
      ∃ offset info scan'', scanFrom other entry n i scan = .found offset info scan'' := by
  induction n generalizing i scan with
  | zero => exact Or.inl h
  | succ n ih =>
    rw [scanFrom] at h ⊢
    by_cases hno : readEntry 0 1 (entry i) false = noMoreEntry
    · rw [if_pos hno] at h
      cases h
    · rw [if_neg hno] at h ⊢
      by_cases hfree : readEntry 0 1 (entry i) false = freeEntry
      · rw [if_pos hfree] at h ⊢
        exact ih h
      · rw [if_neg hfree] at h ⊢
        by_cases hlong : readEntry 11 1 (entry i) false = attrLongNameMask
        · rw [if_pos hlong] at h ⊢
          exact ih h
        · rw [if_neg hlong] at h ⊢
          cases hc : scan.cname (entry i) with
          | none =>
            rw [hc] at h
            cases h
          | some cname =>
            rw [hc] at h
            simp only at h ⊢
            by_cases hn : name = cname
            · rw [if_pos hn] at h
              cases h
            · rw [if_neg hn] at h
              by_cases ho : other = cname
              · rw [if_pos ho]
                exact Or.inr ⟨_, _, _, rfl⟩
              · rw [if_neg ho]
                exact ih h

theorem entryAt_cluster (blocks : ℕ → Block) (k : ℕ) {j : ℕ} (hj : j < 128) :
    entryAt blocks (128 * k + j) = pointer (blocks k) (j * 32) := by
  rw [entryAt, show (128 * k + j) / 128 = k by omega, show (128 * k + j) % 128 = j by omega]

/-- The scan of a cluster is the scan of its entries. -/
theorem scanEntries_eq (name : List UInt8) (scan : LfnScan) (blocks : ℕ → Block) (k n j : ℕ)
    (hj : j + n ≤ 128) :
    (scanEntries name (blocks k) n (j * 32) scan).shift (4096 * k) =
      scanFrom name (entryAt blocks) n (128 * k + j) scan := by
  induction n generalizing j scan with
  | zero => rfl
  | succ n ih =>
    have hoffset : j * 32 + 32 = (j + 1) * 32 := by omega
    have hindex : 128 * k + j + 1 = 128 * k + (j + 1) := by omega
    rw [scanEntries, scanFrom, entryAt_cluster blocks k (by omega), hoffset, hindex]
    split
    · rfl
    · split
      · exact ih _ (j + 1) (by omega)
      · split
        · exact ih _ (j + 1) (by omega)
        · cases scan.cname (pointer (blocks k) (j * 32)) with
          | none => rfl
          | some cname =>
            by_cases hn : name = cname
            · simp only [if_pos hn, ScanResult.shift]
              congr 1
              omega
            · simp only [if_neg hn]
              exact ih _ (j + 1) (by omega)

end Scan

/-! ## The scan of a directory -/

section Search

variable {s : FatState} {p : Ptr} {n : ℕ} {name : List UInt8}

/-- The entries of a directory as its cache shows them. -/
abbrev FatState.entries (s : FatState) (p : Ptr) : ℕ → ℕ → UInt8 := entryAt (s.block (some p))

theorem Cached.entries {s' : FatState} (h : Cached s s') (p : Ptr) : s'.entries p = s.entries p :=
  congrArg entryAt (funext fun k => h.block (some p) k)

theorem SameFile.entries {s' : FatState} (h : SameFile s s' p) : s'.entries p = s.entries p :=
  congrArg entryAt h.block

/-- The scan of a directory whose remaining `m` clusters can be loaded. It is decided by their
entries, unless no entry ends the scan. -/
theorem searchDirectory_run (hd : s.DirReady p n) (name : List UInt8) {fuel m k : ℕ}
    (hk : k + m = n) (hfuel : m ≤ fuel) (scan : LfnScan) :
    (∀ result, (scanFrom name (s.entries p) (128 * m) (128 * k) scan).outcome = some result →
      ∃ s', searchDirectory p name fuel k scan s = .ok result s' ∧ Cached s s' ∧
        Beyond p n s s') ∧
    (scanFrom name (s.entries p) (128 * m) (128 * k) scan = .undefined →
      ∃ s', searchDirectory p name fuel k scan s = .error .undefined s') := by
  induction m generalizing s fuel k scan with
  | zero =>
    refine ⟨fun result h => ?_, fun h => ?_⟩
    · cases h
    · cases h
  | succ m ih =>
    obtain ⟨fuel, rfl⟩ : ∃ f, fuel = f + 1 := ⟨fuel - 1, by omega⟩
    obtain ⟨desc, s₁, hrun, hbuffer, -, hc, -, hothers⟩ := hd.loadOne (show k < n by omega)
    have hbeyond : Beyond p n s s₁ := Beyond.of_ne (by omega) hothers
    have hscan := scanEntries_eq name scan (s.block (some p)) k 128 0 (by omega)
    rw [Nat.zero_mul, Nat.add_zero] at hscan
    have hsplit : 128 * (m + 1) = 128 + 128 * m := by omega
    rw [hsplit, scanFrom_add, ← hscan, searchDirectory, exits_bind_ok hrun]
    simp only [hbuffer]
    have hnext : 128 * k + 128 = 128 * (k + 1) := by omega
    cases hres : scanEntries name (s.block (some p) k) 128 0 scan with
    | next scan' =>
      have := ih (hc.similar.dirReady hd) (k := k + 1) (by omega) (Nat.le_of_succ_le_succ hfuel)
        scan'
      rw [hc.entries] at this
      simp only [ScanResult.shift, hnext]
      refine ⟨fun result h => ?_, fun h => ?_⟩
      · obtain ⟨s', hrun', hc', hbeyond'⟩ := this.1 result h
        exact ⟨s', by simpa only [hres] using hrun', hc.trans hc', hbeyond.trans hbeyond'⟩
      · obtain ⟨s', hrun'⟩ := this.2 h
        exact ⟨s', by simpa only [hres] using hrun'⟩
    | noMore =>
      refine ⟨fun result h => ?_, fun h => by cases h⟩
      cases h
      exact ⟨s₁, rfl, hc, hbeyond⟩
    | found offset info scan' =>
      refine ⟨fun result h => ?_, fun h => by cases h⟩
      cases h
      exact ⟨s₁, by rw [Nat.mul_comm k 4096]; rfl, hc, hbeyond⟩
    | undefined =>
      refine ⟨fun result h => ?_, fun _ => ⟨s₁, rfl⟩⟩
      cases h

end Search

/-! ## The children of a directory in the Inode-Tree -/

/-- The successor in a list of children. -/
def FatState.nextOf (s : FatState) (o : Option Ptr) : Option Ptr :=
  (o.bind s.inodes).bind Inode.next

/-- `l` lists the inodes linked from `first`, which are live. -/
def FatState.Children (s : FatState) (first : Option Ptr) (l : List Ptr) : Prop :=
  Linked (· = none) s.nextOf first (l.map some) ∧ ∀ q ∈ l, ∃ inode, s.inodes q = some inode

theorem FatState.Children.cons {s : FatState} {first : Option Ptr} {q : Ptr} {l : List Ptr}
    (h : s.Children first (q :: l)) :
    first = some q ∧ ∃ inode, s.inodes q = some inode ∧ s.Children inode.next l := by
  obtain ⟨⟨hfirst, -, hrest⟩, hlive⟩ := h
  obtain ⟨inode, hq⟩ := hlive q List.mem_cons_self
  refine ⟨hfirst, inode, hq, ?_, fun r hr => hlive r (List.mem_cons_of_mem _ hr)⟩
  have hnext : s.nextOf (some q) = inode.next := by
    rw [FatState.nextOf, Option.bind_some, hq, Option.bind_some]
  rwa [hnext] at hrest

theorem FatState.Children.nil {s : FatState} {first : Option Ptr} (h : s.Children first []) :
    first = none := h.1

/-- The search among the children finds the first one with the name. -/
theorem findChild_run {s : FatState} {name : List UInt8} {first : Option Ptr} {l : List Ptr}
    (h : s.Children first l) {fuel : ℕ} (hfuel : l.length ≤ fuel) :
    findChild name fuel first s =
      .ok (l.find? fun q => (s.inodes q).any fun inode => decide (name = inode.name)) s := by
  induction l generalizing first fuel with
  | nil =>
    rw [h.nil]
    cases fuel <;> rfl
  | cons q l ih =>
    obtain ⟨rfl, inode, hq, hrest⟩ := h.cons
    obtain ⟨fuel, rfl⟩ : ∃ f, fuel = f + 1 :=
      ⟨fuel - 1, by rw [List.length_cons] at hfuel; omega⟩
    have hfuel' : l.length ≤ fuel := Nat.le_of_succ_le_succ hfuel
    rw [findChild, exits_bind_ok (getInode_run hq)]
    by_cases hn : name = inode.name
    · simp [hn, hq]
    · rw [if_neg hn, ih hrest hfuel', List.find?_cons_of_neg (by simp [hq, hn])]

/-- Addresses from the next one on are not in use. -/
def FatState.HeapOk (s : FatState) : Prop := ∀ p, s.brk ≤ p → s.inodes p = none

/-- What a lookup tells about a name: nothing when it fails, that the name is absent, or the
name and the fields of its inode. -/
def childAnswer : EStateM.Result FatError FatState ChildLookup →
    Option (Option (List UInt8 × EntryInfo))
  | .ok (.found q) s =>
    (s.inodes q).map fun inode => some (inode.name, ⟨inode.cluster, inode.size, inode.isDir⟩)
  | .ok .notFound _ => some none
  | .ok .ioError _ => none
  | .error _ _ => none

/-- The answer of `_get_child_from_parent`. -/
def lookupAnswer (fuel : ℕ) (p : Ptr) (name : List UInt8) (s : FatState) :
    Option (Option (List UInt8 × EntryInfo)) :=
  childAnswer (getChildFromParent fuel p name s)

/-- The answer that the entries of a directory give. -/
def ScanResult.answer (name : List UInt8) : ScanResult → Option (Option (List UInt8 × EntryInfo))
  | .next _ => none
  | .noMore => some none
  | .found _ info _ => some (some (name, info))
  | .undefined => none

section Answer

variable {s : FatState} {p : Ptr} {n fuel : ℕ} {name : List UInt8}

theorem Cached.heapOk {s' : FatState} (h : Cached s s') (hheap : s.HeapOk) : s'.HeapOk := by
  intro q hq
  have hcore := bare_core h.bare q
  rwa [hheap q (h.brk.trans hq), Option.map_none, Option.map_eq_none_iff] at hcore

/-- A new inode, once it is the first child of a directory. -/
def childInode (address : Ptr) (name : List UInt8) (info : EntryInfo) (dentry : ℕ) (p : Ptr)
    (father : Inode) : Inode :=
  { parent := some p, next := father.child, child := none
    cache := RadixTree.addRoot (address + 1) .null, cluster := info.cluster, size := info.size
    count := 0, dentry := dentry % 0x10000, levels := getLevelsFromSize info.size
    isDir := info.isDir, name := name }

/-- `s'` is `s` with a new inode in a directory. -/
structure Born (s s' : FatState) (p : Ptr) (father new : Inode) : Prop where
  child : s'.inodes s.brk = some new
  father : s'.inodes p = some { father with child := some s.brk }
  others : ∀ q, q ≠ s.brk → q ≠ p → s'.inodes q = s.inodes q
  rest : s' = { s with brk := s.brk + 1 + 1, inodes := s'.inodes }

/-- The clusters of the directory are where they were. -/
theorem Born.sameFile {s' : FatState} {father new : Inode} (h : Born s s' p father new)
    (hp : s.inodes p = some father) : SameFile s s' p where
  fatCache := by rw [h.rest]; rfl
  device := by rw [h.rest]
  fatLba := by rw [h.rest]
  dataLba := by rw [h.rest]
  place := by rw [h.father, hp]; rfl

/-- Allocating an inode and putting it in the tree. -/
theorem addChild_run (hheap : s.HeapOk) {father : Inode} (hp : s.inodes p = some father)
    (name : List UInt8) (info : EntryInfo) (dentry : ℕ) :
    ∃ s₁ s₂, allocateOneInode name info 0 dentry true s = .ok s.brk s₁ ∧
      addInodeInTree s.brk (some p) s₁ = .ok () s₂ ∧
      Born s s₂ p father (childInode s.brk name info dentry p father) := by
  have hne : p ≠ s.brk := by
    rintro rfl
    rw [hheap _ le_rfl] at hp
    cases hp
  set new : Inode :=
    { parent := none, next := none, child := none, cache := RadixTree.addRoot (s.brk + 1) .null
      cluster := info.cluster, size := info.size, count := 0, dentry := dentry % 0x10000
      levels := getLevelsFromSize info.size, isDir := info.isDir, name := name } with hnew
  set s₁ : FatState := { s with brk := s.brk + 1 + 1 }.setInode s.brk new with hs₁
  have halloc : allocateOneInode name info 0 dentry true s = .ok s.brk s₁ := rfl
  have hq₁ : s₁.inodes s.brk = some new := Function.update_self _ _ _
  have hp₁ : s₁.inodes p = some father := (Function.update_of_ne hne _ _).trans hp
  -- the three writes of `_add_inode_in_tree`
  set new₁ : Inode := { new with parent := some p } with hnew₁
  set s₂ := s₁.setInode s.brk new₁ with hs₂
  have hq₂ : s₂.inodes s.brk = some new₁ := Function.update_self _ _ _
  have hp₂ : s₂.inodes p = some father := (Function.update_of_ne hne _ _).trans hp₁
  set new₂ : Inode := { new₁ with next := father.child } with hnew₂
  set s₃ := s₂.setInode s.brk new₂ with hs₃
  have hq₃ : s₃.inodes s.brk = some new₂ := Function.update_self _ _ _
  have hp₃ : s₃.inodes p = some father := (Function.update_of_ne hne _ _).trans hp₂
  refine ⟨s₁, s₃.setInode p { father with child := some s.brk }, halloc, ?_, ?_, ?_, ?_, rfl⟩
  · rw [addInodeInTree, exits_bind_ok (modifyInode_run hq₁ _)]
    change (getInode p >>= fun father => _) s₂ = _
    rw [exits_bind_ok (getInode_run hp₂), exits_bind_ok (modifyInode_run hq₂ _)]
    exact modifyInode_run hp₃ _
  · exact (Function.update_of_ne hne.symm _ _).trans hq₃
  · exact Function.update_self _ _ _
  · intro q hq hqp
    refine (Function.update_of_ne hqp _ _).trans ((Function.update_of_ne hq _ _).trans ?_)
    exact (Function.update_of_ne hq _ _).trans (Function.update_of_ne hq _ _)

/-- The inode that a lookup loads. -/
theorem loadInode_run (hheap : s.HeapOk) {father : Inode} (hp : s.inodes p = some father)
    (name : List UInt8) (info : EntryInfo) (dentry : ℕ) :
    ∃ s', (do
        let inode ← allocateOneInode name info 0 dentry true
        addInodeInTree inode (some p)
        pure (ChildLookup.found inode) : FatM ChildLookup) s = .ok (.found s.brk) s' ∧
      Born s s' p father (childInode s.brk name info dentry p father) := by
  obtain ⟨s₁, s₂, halloc, hadd, hborn⟩ := addChild_run hheap hp name info dentry
  refine ⟨s₂, ?_, hborn⟩
  rw [exits_bind_ok halloc, exits_bind_ok hadd]
  rfl

/-- A lookup that does not find the name in the Inode-Tree answers what the entries say. -/
theorem lookupAnswer_entries (hd : s.DirReady p n) (hheap : s.HeapOk) {father : Inode}
    (hp : s.inodes p = some father) {l : List Ptr} (hl : s.Children father.child l)
    (hname : ∀ q ∈ l, ∀ inode, s.inodes q = some inode → name ≠ inode.name)
    (hlen : l.length ≤ fuel) (hfuel : n ≤ fuel)
    (hend : ∀ scan, scanFrom name (s.entries p) (128 * n) 0 {} ≠ .next scan) :
    lookupAnswer fuel p name s = (scanFrom name (s.entries p) (128 * n) 0 {}).answer name := by
  have hfind : findChild name fuel father.child s = .ok none s := by
    rw [findChild_run hl hlen, List.find?_eq_none.mpr]
    intro q hq
    obtain ⟨inode, hqi⟩ := hl.2 q hq
    simp [hqi, hname q hq inode hqi]
  have hsearch := searchDirectory_run hd name (Nat.zero_add n) hfuel {}
  rw [Nat.mul_zero] at hsearch
  rw [lookupAnswer, getChildFromParent, exits_bind_ok (getInode_run hp), exits_bind_ok hfind]
  simp only
  cases hres : scanFrom name (s.entries p) (128 * n) 0 {} with
  | next scan => exact absurd hres (hend scan)
  | undefined =>
    obtain ⟨s', hrun⟩ := hsearch.2 hres
    rw [exits_bind_error hrun]
    rfl
  | noMore =>
    obtain ⟨s', hrun, -⟩ := hsearch.1 .endOfDir (by rw [hres]; rfl)
    rw [exits_bind_ok hrun]
    rfl
  | found offset info scan =>
    obtain ⟨s', hrun, hc, -⟩ := hsearch.1 (.found (offset / 32) info) (by rw [hres]; rfl)
    obtain ⟨father', hp', -⟩ := bare_inode hc.bare hp
    obtain ⟨s'', hload, hborn⟩ := loadInode_run (hc.heapOk hheap) hp' name info (offset / 32)
    rw [exits_bind_ok hrun]
    simp only [hload, childAnswer, hborn.child, Option.map_some, childInode]
    rfl

/-- A lookup that finds the name in the Inode-Tree does not look at the entries. -/
theorem lookupAnswer_tree {father : Inode} (hp : s.inodes p = some father) {l : List Ptr}
    (hl : s.Children father.child l) {q : Ptr} {inode : Inode} (hq : s.inodes q = some inode)
    (hfind : (l.find? fun q => (s.inodes q).any fun inode => decide (name = inode.name)) = some q)
    (hlen : l.length ≤ fuel) :
    lookupAnswer fuel p name s =
      some (some (inode.name, ⟨inode.cluster, inode.size, inode.isDir⟩)) := by
  rw [lookupAnswer, getChildFromParent, exits_bind_ok (getInode_run hp),
    exits_bind_ok (findChild_run hl hlen), hfind]
  simp [childAnswer, hq]

end Answer

end GietVm.Fat
