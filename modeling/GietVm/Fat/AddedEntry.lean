import GietVm.Fat.Create
import Mathlib.Data.List.Find

/-!
# Looking up an added entry

A lookup in a directory first goes through the inodes loaded so far, then through the
entries. The new entry has to be found by a lookup that does not meet its inode, whatever the
children of the directory are then, and the lookups of the other names must not notice it.
-/

namespace GietVm.Fat

open GietVm.Library

/-- The state with another list of children for a directory. -/
def FatState.withChildren (s : FatState) (p : Ptr) (first : Option Ptr) : FatState :=
  match s.inodes p with
  | some inode => s.setInode p { inode with child := first }
  | none => s

/-- The scan of the entries before `pos` gives each of them a name, which is not `name`. -/
def Absent (name : List UInt8) (entry : ℕ → ℕ → UInt8) (pos : ℕ) : Prop :=
  ∃ scan, scanFrom name entry pos 0 {} = .next scan

/-- `_add_dir_entry` succeeds. Then, whatever the children of the directory are, a lookup of the
name that does not find it among them gets the fields of the inode, and the lookups of other
names answer as before. -/
def AddedEntryFound (fuel : ℕ) (c p : Ptr) (s : FatState) : Prop :=
  ∃ child s', s.inodes c = some child ∧ addDirEntry fuel c (some p) s = .ok false s' ∧
    ∀ first l, s.Children first l → l.length ≤ fuel →
      ((∀ q ∈ l, ∀ inode, s.inodes q = some inode → child.name ≠ inode.name) →
        lookupAnswer fuel p child.name (s'.withChildren p first) =
          some (some (child.name, ⟨child.cluster, child.size, child.isDir⟩))) ∧
      ∀ other, other ≠ child.name → lookupAnswer fuel p other (s'.withChildren p first) =
        lookupAnswer fuel p other (s.withChildren p first)

/-! ## Other lists of children -/

section WithChildren

variable {s : FatState} {p : Ptr} {father : Inode} {first : Option Ptr}

theorem withChildren_eq (hp : s.inodes p = some father) (first : Option Ptr) :
    s.withChildren p first = s.setInode p { father with child := first } := by
  rw [FatState.withChildren, hp]

theorem withChildren_self (hp : s.inodes p = some father) (first : Option Ptr) :
    (s.withChildren p first).inodes p = some { father with child := first } := by
  rw [withChildren_eq hp]
  exact Function.update_self _ _ _

/-- Only the head of the list changes. -/
theorem withChildren_map {α : Type*} {f : Inode → α}
    (hf : ∀ inode child, f { inode with child := child } = f inode) (s : FatState) (p : Ptr)
    (first : Option Ptr) (q : Ptr) :
    ((s.withChildren p first).inodes q).map f = (s.inodes q).map f := by
  rw [FatState.withChildren]
  cases hp : s.inodes p with
  | none => rfl
  | some father =>
    by_cases hq : q = p
    · subst hq
      simp [FatState.setInode, hp, hf]
    · simp [FatState.setInode, hq]

theorem withChildren_sameFile (s : FatState) (p : Ptr) (first : Option Ptr) :
    SameFile s (s.withChildren p first) p := by
  have hplace := withChildren_map (f := Inode.place) (fun _ _ => rfl) s p first p
  rw [FatState.withChildren] at hplace ⊢
  cases hp : s.inodes p with
  | none => exact ⟨rfl, rfl, rfl, rfl, rfl⟩
  | some father =>
    simp only [hp] at hplace ⊢
    exact ⟨rfl, rfl, rfl, rfl, hplace.trans (by rw [hp])⟩

theorem withChildren_entries (s : FatState) (p : Ptr) (first : Option Ptr) :
    (s.withChildren p first).entries p = s.entries p :=
  (withChildren_sameFile s p first).entries

theorem withChildren_dirReady {n : ℕ} (hd : s.DirReady p n) (first : Option Ptr) :
    (s.withChildren p first).DirReady p n :=
  (withChildren_sameFile s p first).dirReady hd

theorem withChildren_heapOk (hp : s.inodes p = some father) (hheap : s.HeapOk)
    (first : Option Ptr) : (s.withChildren p first).HeapOk := by
  intro q hq
  rw [withChildren_eq hp] at hq ⊢
  refine (Function.update_of_ne ?_ _ _).trans (hheap q hq)
  rintro rfl
  rw [hheap _ hq] at hp
  cases hp

end WithChildren

/-! ## The inodes that a lookup meets -/

/-- Linked lists are the same in states whose inodes have the same links. -/
theorem FatState.Children.congr {s s' : FatState} {first : Option Ptr} {l : List Ptr}
    (h : s.Children first l)
    (hnext : ∀ q, (s'.inodes q).map Inode.next = (s.inodes q).map Inode.next) :
    s'.Children first l := by
  have hnextOf : s'.nextOf = s.nextOf := by
    funext o
    cases o with
    | none => rfl
    | some q =>
      have := congrArg (fun o => o.bind id) (hnext q)
      simp only [Option.bind_map, Function.id_comp] at this
      exact this
  refine ⟨hnextOf ▸ h.1, fun q hq => ?_⟩
  obtain ⟨inode, hqi⟩ := h.2 q hq
  have := hnext q
  rw [hqi, Option.map_some, Option.map_eq_some_iff] at this
  obtain ⟨inode', hqi', -⟩ := this
  exact ⟨inode', hqi'⟩

theorem Similar.map {α : Type*} {f : Inode → α} (hf : ∀ inode, f (Inode.bone inode) = f inode)
    {s s' : FatState} (h : Similar s s') (q : Ptr) : (s'.inodes q).map f = (s.inodes q).map f := by
  have := congrArg (Option.map f) (h.bones q)
  rw [Option.map_map, Option.map_map] at this
  rwa [show f ∘ Inode.bone = f from funext hf] at this

/-- What a lookup tells about an inode. -/
def Inode.face (inode : Inode) : List UInt8 × EntryInfo :=
  (inode.name, ⟨inode.cluster, inode.size, inode.isDir⟩)

/-- Two states give the same answer when the children of the directory look the same and the
entries give the same answer. -/
theorem lookupAnswer_congr {s s' : FatState} {p : Ptr} {n fuel : ℕ} {name : List UInt8}
    (hd : s.DirReady p n) (hd' : s'.DirReady p n) (hheap : s.HeapOk) (hheap' : s'.HeapOk)
    {father father' : Inode} (hp : s.inodes p = some father) (hp' : s'.inodes p = some father')
    {l : List Ptr} (hl : s.Children father.child l) (hl' : s'.Children father'.child l)
    (hface : ∀ q, (s'.inodes q).map Inode.face = (s.inodes q).map Inode.face)
    (hlen : l.length ≤ fuel) (hfuel : n ≤ fuel) {answer : Option (List UInt8 × EntryInfo)}
    (hscan : (scanFrom name (s.entries p) (128 * n) 0 {}).answer name = some answer)
    (hscan' : (scanFrom name (s'.entries p) (128 * n) 0 {}).answer name = some answer) :
    lookupAnswer fuel p name s' = lookupAnswer fuel p name s := by
  have hend {r : ScanResult} (h : r.answer name = some answer) (scan : LfnScan) :
      r ≠ .next scan := by
    rintro rfl
    cases h
  have hpred : ∀ q ∈ l, ((s'.inodes q).any fun inode => decide (name = inode.name)) =
      ((s.inodes q).any fun inode => decide (name = inode.name)) := by
    intro q _
    have := congrArg (Option.any fun face => decide (name = face.1)) (hface q)
    rwa [Option.any_map, Option.any_map] at this
  cases hfind : l.find? fun q => (s.inodes q).any fun inode => decide (name = inode.name) with
  | none =>
    have hnone := List.find?_eq_none.mp hfind
    have hname : ∀ q ∈ l, ∀ inode, s.inodes q = some inode → name ≠ inode.name := by
      intro q hq inode hqi
      simpa [hqi] using hnone q hq
    have hname' : ∀ q ∈ l, ∀ inode, s'.inodes q = some inode → name ≠ inode.name := by
      intro q hq inode hqi
      have := hnone q hq
      rw [← hpred q hq] at this
      simpa [hqi] using this
    rw [lookupAnswer_entries hd hheap hp hl hname hlen hfuel (hend hscan),
      lookupAnswer_entries hd' hheap' hp' hl' hname' hlen hfuel (hend hscan'), hscan, hscan']
  | some q =>
    obtain ⟨inode, hqi⟩ := hl.2 q (List.mem_of_find?_eq_some hfind)
    obtain ⟨inode', hqi'⟩ := hl'.2 q (List.mem_of_find?_eq_some hfind)
    have hfind' : (l.find? fun q => (s'.inodes q).any fun inode => decide (name = inode.name)) =
        some q := by
      rw [← hfind]
      exact List.find?_congr hpred
    have hsame := hface q
    rw [hqi, hqi', Option.map_some, Option.map_some, Option.some.injEq] at hsame
    rw [lookupAnswer_tree hp hl hqi hfind hlen, lookupAnswer_tree hp' hl' hqi' hfind' hlen]
    exact congrArg (fun face => some (some face)) hsame

/-! ## The scan of the directory -/

section Scan

variable {entry : ℕ → ℕ → UInt8} {pos m : ℕ} {name other : List UInt8}

/-- The scan of a directory stops at `NO_MORE_ENTRY`. -/
theorem WellFormed.scanFrom_eq (hwf : WellFormed entry pos) (hm : pos < m) :
    scanFrom other entry m 0 {} = match scanFrom other entry pos 0 {} with
      | .next _ => .noMore
      | result => result := by
  obtain ⟨rest, rfl⟩ : ∃ rest, m = pos + (rest + 1) := ⟨m - pos - 1, by omega⟩
  rw [scanFrom_add]
  cases scanFrom other entry pos 0 {} with
  | next scan => simp only [Nat.zero_add, scanFrom, if_pos hwf.stop]
  | noMore => rfl
  | found offset info scan => rfl
  | undefined => rfl

/-- A name found among the old entries is found there, another one is absent. -/
theorem WellFormed.old_answer (hwf : WellFormed entry pos) (habsent : Absent name entry pos)
    (hm : pos < m) (other : List UInt8) :
    ((∃ scan, scan.lfn = 0 ∧ scanFrom other entry pos 0 {} = .next scan) ∧
        (scanFrom other entry m 0 {}).answer other = some none) ∨
      ∃ offset info scan, scanFrom other entry pos 0 {} = .found offset info scan ∧
        (scanFrom other entry m 0 {}).answer other = some (some (other, info)) := by
  obtain ⟨scan₀, hscan₀⟩ := habsent
  rw [hwf.scanFrom_eq hm]
  rcases scanFrom_next other hscan₀ with hnext | ⟨offset, info, scan, hfound⟩
  · refine Or.inl ⟨⟨scan₀, hwf.lfn_zero hnext, hnext⟩, ?_⟩
    rw [hnext]
    rfl
  · refine Or.inr ⟨offset, info, scan, hfound, ?_⟩
    rw [hfound]
    rfl

/-- What the entries answer once those of a name are written after them. -/
theorem WellFormed.new_answer {blocks : ℕ → Block} {length nbLfn : ℕ}
    (hwf : WellFormed (entryAt blocks) pos) (info : EntryInfo) (habsent : Absent name (entryAt blocks) pos)
    (hlen : checkNameLength name = some (length, nbLfn)) (hpos : 0 < name.length)
    (hzero : ∀ c ∈ name, c ≠ 0) (hcluster : info.cluster < 0x100000000)
    (hsize : info.size < 0x100000000) (hm : pos + nbLfn + 2 ≤ m) (other : List UInt8) :
    (scanFrom other (entryAt (writeEntries blocks pos
        (stepList name info length nbLfn (nbLfn + 2)))) m 0 {}).answer other =
      if (scanFrom other (entryAt blocks) m 0 {}).answer other = some none ∧
          Visible name ∧ other = name.takeWhile isKept then some (some (other, info))
      else (scanFrom other (entryAt blocks) m 0 {}).answer other := by
  obtain ⟨rest, rfl⟩ : ∃ rest, m = pos + (nbLfn + (rest + 2)) :=
    ⟨m - pos - nbLfn - 2, by omega⟩
  have hbefore : scanFrom other (entryAt (writeEntries blocks pos
      (stepList name info length nbLfn (nbLfn + 2)))) pos 0 {} =
        scanFrom other (entryAt blocks) pos 0 {} :=
    scanFrom_congr fun j _ hj =>
      entryAt_writeEntries_before (stepList_length_le _ _ _ _ _) (by omega)
  rw [scanFrom_add, hbefore]
  rcases hwf.old_answer habsent (m := pos + (nbLfn + (rest + 2))) (by omega) other with
    ⟨⟨scan, hlfn, hnext⟩, hold⟩ | ⟨offset, found, scan, hfound, hold⟩
  · rw [hnext, hold]
    simp only [Nat.zero_add, true_and]
    exact scanFrom_new hlfn hlen hpos hzero hcluster hsize rest
  · rw [hfound, hold, if_neg (by simp)]
    rfl

end Scan

/-! ## A new directory -/

/-- A directory of one cluster without entries, and the inode of a new empty file. -/
def freshDir (name : List UInt8) : FatState :=
  { FatState.boot ⟨fun _ => 0, fun _ => false, 0⟩ (fun _ _ => 0) (fun _ => 0) with
    fatCacheRoot := RadixTree.emptyNode 2
    fatCacheLevels := 1
    brk := 5
    inodes := fun p =>
      if p = 0 then some
        { parent := none, next := none, child := none, cache := RadixTree.emptyNode 3, cluster := 2
          size := 0, count := 0, dentry := 0, levels := 1, isDir := true, name := [slash] }
      else if p = 1 then some
        { parent := none, next := none, child := none, cache := RadixTree.emptyNode 4
          cluster := endOfChainClusterMax, size := 0, count := 0, dentry := 0, levels := 1
          isDir := false, name := name }
      else none }

section FreshDir

variable (name : List UInt8)

theorem cacheOk_emptyNode (address : Ptr) : CacheOk 1 (RadixTree.emptyNode address) where
  levels_pos := Nat.one_ne_zero
  isNode := trivial
  shaped := fun _ => trivial

theorem freshDir_dirReady : (freshDir name).DirReady 0 1 where
  fatOk := cacheOk_emptyNode 2
  deviceOk := fun _ => rfl
  live := by
    refine ⟨_, rfl, cacheOk_emptyNode 3, Or.inr (by decide), fun k hk => ?_⟩
    obtain rfl : k = 0 := by omega
    exact ⟨fun j hj => absurd hj (Nat.not_lt_zero j), le_rfl⟩

theorem freshDir_heapOk : (freshDir name).HeapOk := by
  intro p hp
  have hlt (i : ℕ) (hi : i < 5) : p ≠ i := (Nat.lt_of_lt_of_le hi hp).ne'
  exact (if_neg (hlt 0 (by decide))).trans (if_neg (hlt 1 (by decide)))

theorem freshDir_wellFormed : WellFormed ((freshDir name).entries 0) 0 where
  live := fun i hi => absurd hi (Nat.not_lt_zero i)
  stop := rfl
  runs := fun i hi => absurd hi (Nat.not_lt_zero i)

end FreshDir

/-! ## The lookups -/

/-- A name is decoded up to its first 0xFF. -/
theorem takeWhile_isKept_eq_iff {name : List UInt8} :
    name = name.takeWhile isKept ↔ 0xFF ∉ name := by
  rw [eq_comm, List.takeWhile_eq_self_iff]
  constructor
  · intro h hmem
    exact absurd (h _ hmem) (by decide)
  · intro h c hc
    have hff : c ≠ 0xFF := fun hff => h (hff ▸ hc)
    simp [isKept, hff]

section Main

variable {s s' : FatState} {p c : Ptr} {n fuel pos length nbLfn : ℕ} {child : Inode}

theorem FatState.Children.withChildren {first : Option Ptr} {l : List Ptr}
    (h : s.Children first l) (p : Ptr) (first' : Option Ptr) :
    (s.withChildren p first').Children first l :=
  h.congr (withChildren_map (fun _ _ => rfl) s p first')

/-- A lookup that does not meet the name among the children answers what the entries say. -/
theorem lookupAnswer_withChildren (hd : s.DirReady p n) (hheap : s.HeapOk) {first : Option Ptr}
    {l : List Ptr} (hl : s.Children first l) (hlen : l.length ≤ fuel) (hfuel : n ≤ fuel)
    {name : List UInt8}
    (hname : ∀ q ∈ l, ∀ inode, s.inodes q = some inode → name ≠ inode.name)
    {answer : Option (List UInt8 × EntryInfo)}
    (hscan : (scanFrom name (s.entries p) (128 * n) 0 {}).answer name = some answer) :
    lookupAnswer fuel p name (s.withChildren p first) = some answer := by
  obtain ⟨father, hp, -⟩ := hd.live
  have hname' : ∀ q ∈ l, ∀ inode, (s.withChildren p first).inodes q = some inode →
      name ≠ inode.name := by
    intro q hq inode hqi
    obtain ⟨inode₀, hq₀⟩ := hl.2 q hq
    have hsame := withChildren_map (f := Inode.name) (fun _ _ => rfl) s p first q
    rw [hqi, hq₀, Option.map_some, Option.map_some, Option.some.injEq] at hsame
    rw [hsame]
    exact hname q hq inode₀ hq₀
  rw [← hscan, lookupAnswer_entries (withChildren_dirReady hd first)
    (withChildren_heapOk hp hheap first) (withChildren_self hp first) (hl.withChildren p first)
    hname' hlen hfuel, withChildren_entries]
  intro scan hnext
  rw [withChildren_entries] at hnext
  rw [hnext] at hscan
  cases hscan

/-- Lookups of a name that the entries of both states answer alike. -/
theorem Similar.lookupAnswer (hsim : Similar s s') (hd : s.DirReady p n) (hheap : s.HeapOk)
    {first : Option Ptr} {l : List Ptr} (hl : s.Children first l) (hlen : l.length ≤ fuel)
    (hfuel : n ≤ fuel) {name : List UInt8} {answer : Option (List UInt8 × EntryInfo)}
    (hscan : (scanFrom name (s.entries p) (128 * n) 0 {}).answer name = some answer)
    (hscan' : (scanFrom name (s'.entries p) (128 * n) 0 {}).answer name = some answer) :
    GietVm.Fat.lookupAnswer fuel p name (s'.withChildren p first) =
      GietVm.Fat.lookupAnswer fuel p name (s.withChildren p first) := by
  obtain ⟨father, hp, -⟩ := hd.live
  obtain ⟨father', hp', -⟩ := hsim.inode hp
  have hheap' : s'.HeapOk := fun q hq => hsim.inode_none (hheap q (hsim.brk.trans hq))
  have hl' : s'.Children first l := hl.congr (hsim.map fun _ => rfl)
  have hscan₂ : (scanFrom name ((s.withChildren p first).entries p) (128 * n) 0 {}).answer name =
      some answer := by rwa [withChildren_entries]
  have hscan₂' : (scanFrom name ((s'.withChildren p first).entries p) (128 * n) 0 {}).answer
      name = some answer := by rwa [withChildren_entries]
  refine lookupAnswer_congr (withChildren_dirReady hd first)
    (withChildren_dirReady (hsim.dirReady hd) first) (withChildren_heapOk hp hheap first)
    (withChildren_heapOk hp' hheap' first) (withChildren_self hp first)
    (withChildren_self hp' first) (hl.withChildren p first) (hl'.withChildren p first) ?_ hlen
    hfuel hscan₂ hscan₂'
  intro q
  rw [withChildren_map (fun _ _ => rfl), withChildren_map (fun _ _ => rfl)]
  exact hsim.map (fun _ => rfl) q

/-- The entry added for a name is found, and no other lookup changes, exactly when the name does
not begin with 0xE5 and has no byte 0xFF. -/
theorem addDirEntry_found_iff (hd : s.DirReady p n) (hheap : s.HeapOk)
    (hc : s.inodes c = some child) (hpos : 0 < child.name.length)
    (hname : checkNameLength child.name = some (length, nbLfn)) (hzero : ∀ ch ∈ child.name, ch ≠ 0)
    (hcluster : child.cluster < 0x100000000) (hsize : child.size < 0x100000000)
    (hwf : WellFormed (s.entries p) pos) (habsent : Absent child.name (s.entries p) pos)
    (hroom : pos + nbLfn + 2 ≤ 128 * n) (hfuel : n ≤ fuel) :
    AddedEntryFound fuel c p s ↔ Visible child.name ∧ 0xFF ∉ child.name := by
  obtain ⟨s', hrun, hsim, hblock, -⟩ := addDirEntry_run hd hc hname hwf.live hwf.stop hroom hfuel
  have hnew (other : List UInt8) := hwf.new_answer ⟨child.cluster, child.size, child.isDir⟩
    habsent hname hpos hzero hcluster hsize hroom other
  rw [← hblock] at hnew
  have hheap' : s'.HeapOk := fun q hq => hsim.inode_none (hheap q (hsim.brk.trans hq))
  -- the answer of the new entries for the name itself
  have hself := hnew child.name
  obtain ⟨scan, hscan⟩ := habsent
  have hold : (scanFrom child.name (s.entries p) (128 * n) 0 {}).answer child.name =
      some none := by
    rw [hwf.scanFrom_eq (by omega), hscan]
    rfl
  rw [hold] at hself
  simp only [true_and, takeWhile_isKept_eq_iff] at hself
  constructor
  · rintro ⟨child', s'', hc', hrun', hfound⟩
    rw [hc, Option.some.injEq] at hc'
    subst hc'
    rw [hrun] at hrun'
    cases hrun'
    have hnil (t : FatState) : t.Children none [] := ⟨rfl, fun q hq => absurd hq List.not_mem_nil⟩
    have hnone : ∀ q ∈ ([] : List Ptr), ∀ inode, s.inodes q = some inode →
        child.name ≠ inode.name := fun q hq => absurd hq List.not_mem_nil
    by_contra hcond
    rw [if_neg hcond] at hself
    have h := (hfound none [] (hnil s) (Nat.zero_le _)).1 hnone
    rw [lookupAnswer_withChildren (hsim.dirReady hd) hheap' (hnil s') (Nat.zero_le _) hfuel
      (fun q hq => absurd hq List.not_mem_nil) hself] at h
    cases h
  · intro hcond
    rw [if_pos hcond] at hself
    refine ⟨child, s', hc, hrun, fun first l hl hlen => ⟨fun hother => ?_, fun other hne => ?_⟩⟩
    · refine lookupAnswer_withChildren (hsim.dirReady hd) hheap'
        (hl.congr (hsim.map fun _ => rfl)) hlen hfuel ?_ hself
      intro q hq inode hqi
      obtain ⟨inode₀, hq₀⟩ := hl.2 q hq
      have hsame := hsim.map (f := Inode.name) (fun _ => rfl) q
      rw [hqi, hq₀, Option.map_some, Option.map_some, Option.some.injEq] at hsame
      rw [hsame]
      exact hother q hq inode₀ hq₀
    · have hkept : other ≠ child.name.takeWhile isKept := by
        rwa [← takeWhile_isKept_eq_iff.mpr hcond.2]
      have hsame := hnew other
      rw [if_neg (fun h => hkept h.2.2)] at hsame
      obtain ⟨answer, hanswer⟩ : ∃ answer,
          (scanFrom other (s.entries p) (128 * n) 0 {}).answer other = some answer := by
        rcases hwf.old_answer ⟨scan, hscan⟩ (show pos < 128 * n by omega) other with
          ⟨-, hold⟩ | ⟨offset, found, scan, -, hold⟩
        · exact ⟨_, hold⟩
        · exact ⟨_, hold⟩
      exact hsim.lookupAnswer hd hheap hl hlen hfuel hanswer (hsame.trans hanswer)

end Main

/-- The entry of the name `a` is found. -/
theorem addDirEntry_found_letter : AddedEntryFound 1 1 0 (freshDir [0x61]) := by
  have hzero : ∀ ch ∈ ([0x61] : List UInt8), ch ≠ 0 :=
    List.forall_mem_singleton.mpr (by decide)
  exact (addDirEntry_found_iff (freshDir_dirReady _) (freshDir_heapOk _) rfl (by decide) rfl hzero
    (by decide) (by decide) (freshDir_wellFormed _) ⟨_, rfl⟩ (by decide) le_rfl).mpr
    ⟨by decide, by decide⟩

/-- A lookup of the name just added, as `AddedEntryFound` has it without children. -/
def lookupAdded (name : List UInt8) : Option (Option (List UInt8 × EntryInfo)) :=
  match addDirEntry 1 1 (some 0) (freshDir name) with
  | .ok _ s' => lookupAnswer 1 0 name (s'.withChildren 0 none)
  | .error _ _ => none

theorem not_found_of_lookupAdded {name : List UInt8} (h : lookupAdded name = some none) :
    ¬ AddedEntryFound 1 1 0 (freshDir name) := by
  rintro ⟨child, s', hc, hrun, hfound⟩
  obtain rfl : name = child.name := congrArg Inode.name (Option.some.inj hc)
  have hnil : (freshDir child.name).Children none [] :=
    ⟨rfl, fun q hq => absurd hq List.not_mem_nil⟩
  have hfound := (hfound none [] hnil (Nat.zero_le _)).1 fun q hq => absurd hq List.not_mem_nil
  rw [lookupAdded, hrun] at h
  simp only [hfound] at h
  cases h

/-- A new file whose name is the byte 0xE5, or the letter `a` followed by the byte 0xFF, is not
found in a directory that had no entry. -/
theorem addDirEntry_not_found :
    ((freshDir [0xE5]).DirReady 0 1 ∧ WellFormed ((freshDir [0xE5]).entries 0) 0 ∧
      Absent [0xE5] ((freshDir [0xE5]).entries 0) 0 ∧
      ¬ AddedEntryFound 1 1 0 (freshDir [0xE5])) ∧
    (freshDir [0x61, 0xFF]).DirReady 0 1 ∧ WellFormed ((freshDir [0x61, 0xFF]).entries 0) 0 ∧
      Absent [0x61, 0xFF] ((freshDir [0x61, 0xFF]).entries 0) 0 ∧
      ¬ AddedEntryFound 1 1 0 (freshDir [0x61, 0xFF]) :=
  ⟨⟨freshDir_dirReady _, freshDir_wellFormed _, ⟨_, rfl⟩,
      not_found_of_lookupAdded (by decide +kernel)⟩,
    freshDir_dirReady _, freshDir_wellFormed _, ⟨_, rfl⟩,
      not_found_of_lookupAdded (by decide +kernel)⟩

end GietVm.Fat
