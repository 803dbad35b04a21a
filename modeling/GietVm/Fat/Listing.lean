import GietVm.Fat.Create
import GietVm.Fat.Files

/-!
# The listing of a directory

The live NORMAL entries of a directory, in disk order, with the names that the LFN entries just
before them hold: this is what a directory says, whoever reads it. Three functions decode the
entries, each with a loop of its own. `_get_child_from_parent` scans them for a name,
`_get_nb_entries` counts them, and `_fat_readdir` reads one of them at each call, through
`_fat_read` and the seek of a descriptor, with LFN variables that start afresh. When
`NO_MORE_ENTRY` is inside the chain and the LFN entries are well formed, all three agree with the
listing.
-/

namespace GietVm.Fat

open GietVm.Library

/-! ## What a directory says -/

/-- A live NORMAL entry. -/
def IsNormal (entry : ℕ → UInt8) : Prop :=
  readEntry 0 1 entry false ≠ noMoreEntry ∧ readEntry 0 1 entry false ≠ freeEntry ∧
    readEntry 11 1 entry false ≠ attrLongNameMask

instance (entry : ℕ → UInt8) : Decidable (IsNormal entry) := inferInstanceAs (Decidable (_ ∧ _))

instance (entry : ℕ → UInt8) : Decidable (IsLong entry) := inferInstanceAs (Decidable (_ ∧ _))

/-- The NORMAL entries among `n` entries from entry `i` on. -/
def normals (entry : ℕ → ℕ → UInt8) : ℕ → ℕ → List ℕ
  | 0, _ => []
  | n + 1, i => if IsNormal (entry i) then i :: normals entry n (i + 1) else normals entry n (i + 1)

/-- The number of LFN entries just before an entry. -/
def runLength (entry : ℕ → ℕ → UInt8) : ℕ → ℕ
  | 0 => 0
  | i + 1 => if IsLong (entry i) then runLength entry i + 1 else 0

/-- A name from its parts: one that does not fill its LFN entry is the last. -/
def joinParts : List (List UInt8) → List UInt8
  | [] => []
  | part :: rest => if part.length = 13 then part ++ joinParts rest else part

/-- The name of a NORMAL entry. The LFN entry just before it holds the first part. -/
def nameOf (entry : ℕ → ℕ → UInt8) (i : ℕ) : List UInt8 :=
  if runLength entry i = 0 then getNameFromShort (entry i)
  else joinParts ((List.range (runLength entry i)).map fun j => getNameFromLong (entry (i - (j + 1))))

/-- What a NORMAL entry says. -/
def direntOf (entry : ℕ → ℕ → UInt8) (i : ℕ) : Dirent := ⟨entryInfo (entry i), nameOf entry i⟩

/-- The live NORMAL entries of a directory that ends at `pos`. -/
def listing (entry : ℕ → ℕ → UInt8) (pos : ℕ) : List Dirent :=
  (normals entry pos 0).map (direntOf entry)

/-- A well-formed directory whose LFN entries are numbered from their NORMAL entry on and hold
names of at most 31 bytes. -/
structure WellNamed (entry : ℕ → ℕ → UInt8) (pos : ℕ) : Prop extends WellFormed entry pos where
  numbers : ∀ i < pos, IsNormal (entry i) → ∀ j < runLength entry i,
    readEntry 0 1 (entry (i - (j + 1))) false % 0x20 = j + 1
  bounded : ∀ i < pos, IsNormal (entry i) →
    13 * (runLength entry i - 1) + (getNameFromLong (entry (i - runLength entry i))).length ≤ 31

/-! ## Names put together -/

section Names

theorem getNameFromLong_ne_zero (buffer : ℕ → UInt8) : ∀ c ∈ getNameFromLong buffer, c ≠ 0 := by
  intro c hc
  rw [getNameFromLong_eq] at hc
  have hlong := List.mem_takeWhile_imp hc
  rintro rfl
  cases hlong

theorem getNameFromLong_length_le (buffer : ℕ → UInt8) : (getNameFromLong buffer).length ≤ 13 := by
  rw [getNameFromLong_eq]
  exact (List.takeWhile_prefix _).length_le

variable {p₁ p₂ p₃ r₁ r₂ r₃ : List UInt8}

theorem cString_one (h₁ : ∀ c ∈ p₁, c ≠ 0) : cString (p₁ ++ 0 :: r₁) = joinParts [p₁] := by
  rw [cString_append_zero h₁, joinParts, joinParts, List.append_nil, ite_self]

theorem cString_two (h₁ : ∀ c ∈ p₁, c ≠ 0) (h₂ : ∀ c ∈ p₂, c ≠ 0) (hl₁ : p₁.length ≤ 13) :
    cString ((p₁ ++ 0 :: r₁).take 13 ++ p₂ ++ 0 :: r₂) = joinParts [p₁, p₂] := by
  rw [List.append_assoc, cString_take h₁ hl₁, cString_one h₂]
  rfl

theorem cString_three (h₁ : ∀ c ∈ p₁, c ≠ 0) (h₂ : ∀ c ∈ p₂, c ≠ 0) (h₃ : ∀ c ∈ p₃, c ≠ 0)
    (hl₁ : p₁.length ≤ 13) (hl₂ : p₂.length ≤ 13) (hr₁ : 13 ≤ (p₁ ++ 0 :: r₁).length) :
    cString (((p₁ ++ 0 :: r₁).take 13 ++ p₂ ++ 0 :: r₂).take 26 ++ p₃ ++ 0 :: r₃) =
      joinParts [p₁, p₂, p₃] := by
  have htake : ((p₁ ++ 0 :: r₁).take 13 ++ (p₂ ++ 0 :: r₂)).take 26 =
      (p₁ ++ 0 :: r₁).take 13 ++ (p₂ ++ 0 :: r₂).take 13 := by
    have h13 : ((p₁ ++ 0 :: r₁).take 13).length = 13 := by
      rw [List.length_take]
      omega
    rw [List.take_append, h13, List.take_of_length_le (by omega)]
  rw [List.append_assoc (List.take 13 _), htake, List.append_assoc, List.append_assoc,
    cString_take h₁ hl₁, cString_take h₂ hl₂, cString_one h₃]
  rfl

/-- The parts of a name, decoded and put together again. -/
theorem joinParts_chunks (m : ℕ) {name : List UInt8} (hlen : name.length ≤ 13 * m) :
    joinParts ((List.range m).map fun t => ((name.drop (13 * t)).take 13).takeWhile isKept) =
      name.takeWhile isKept := by
  induction m generalizing name with
  | zero =>
    obtain rfl : name = [] := List.eq_nil_of_length_eq_zero (by omega)
    rfl
  | succ m ih =>
    have hrest := ih (show (name.drop 13).length ≤ 13 * m by rw [List.length_drop]; omega)
    have hparts : (List.range m).map ((fun t => ((name.drop (13 * t)).take 13).takeWhile isKept) ∘
        Nat.succ) = (List.range m).map fun t =>
          (((name.drop 13).drop (13 * t)).take 13).takeWhile isKept := by
      apply List.map_congr_left
      intro t _
      rw [Function.comp_apply, List.drop_drop, show 13 * t.succ = 13 + 13 * t by omega]
    rw [List.range_succ_eq_map, List.map_cons, List.map_map, hparts, joinParts, hrest, Nat.mul_zero,
      List.drop_zero]
    conv_rhs => rw [← List.take_append_drop 13 name, takeWhile_append_kept]
    by_cases hfull : ((name.take 13).takeWhile isKept).length = 13
    · have hlong : (name.take 13).length = 13 :=
        le_antisymm (List.length_take_le 13 name) (hfull.ge.trans (List.takeWhile_prefix _).length_le)
      rw [if_pos hfull, if_pos (hfull.trans hlong.symm)]
    · rw [if_neg hfull]
      split
      · rename_i hkept
        have hshort : name.length ≤ 13 := by
          rw [hkept, List.length_take] at hfull
          omega
        rw [List.drop_of_length_le hshort, List.takeWhile_nil, List.append_nil]
      · rfl

variable {scan : LfnScan} (buffer : ℕ → UInt8)

theorem LfnScan.names_zero (hlfn : scan.lfn = 0) :
    scan.cname buffer = some (getNameFromShort buffer) ∧
      scan.direntName buffer = some (getNameFromShort buffer) := by
  constructor
  · rw [LfnScan.cname, hlfn]
    rfl
  · rw [LfnScan.direntName, hlfn]
    rfl

theorem LfnScan.names_one (hlfn : scan.lfn = 1) (h₁ : scan.lfn1 = some p₁)
    (hz₁ : ∀ c ∈ p₁, c ≠ 0) (hl₁ : p₁.length ≤ 13) :
    scan.cname buffer = some (joinParts [p₁]) ∧ scan.direntName buffer = some (joinParts [p₁]) := by
  constructor
  · rw [LfnScan.cname, hlfn]
    simp only [h₁, strcpyAt, Option.bind_eq_bind, Option.bind_some, Option.pure_def]
    rw [if_pos (by omega), Option.bind_some, List.take_zero, List.nil_append, cString_one hz₁]
  · rw [LfnScan.direntName, hlfn]
    simp only [h₁, strcpyName, Option.bind_eq_bind, Option.bind_some, Option.pure_def]
    rw [if_pos (by omega), Option.bind_some, List.take_zero, List.nil_append, cString_one hz₁]

theorem LfnScan.names_two (hlfn : scan.lfn = 2) (h₁ : scan.lfn1 = some p₁)
    (h₂ : scan.lfn2 = some p₂) (hz₁ : ∀ c ∈ p₁, c ≠ 0) (hz₂ : ∀ c ∈ p₂, c ≠ 0)
    (hl₁ : p₁.length ≤ 13) (hl₂ : p₂.length ≤ 13) :
    scan.cname buffer = some (joinParts [p₁, p₂]) ∧
      scan.direntName buffer = some (joinParts [p₁, p₂]) := by
  constructor
  · rw [LfnScan.cname, hlfn]
    simp only [h₁, h₂, strcpyAt, Option.bind_eq_bind, Option.bind_some, Option.pure_def]
    rw [if_pos (by omega), Option.bind_some, if_pos (by omega), Option.bind_some, List.take_zero,
      List.nil_append, cString_two hz₁ hz₂ hl₁]
  · rw [LfnScan.direntName, hlfn]
    simp only [h₁, h₂, strcpyName, Option.bind_eq_bind, Option.bind_some, Option.pure_def]
    rw [if_pos (by omega), Option.bind_some, if_pos (by omega), Option.bind_some, List.take_zero,
      List.nil_append, cString_two hz₁ hz₂ hl₁]

theorem LfnScan.names_three (hlfn : scan.lfn = 3) (h₁ : scan.lfn1 = some p₁)
    (h₂ : scan.lfn2 = some p₂) (h₃ : scan.lfn3 = some p₃) (hz₁ : ∀ c ∈ p₁, c ≠ 0)
    (hz₂ : ∀ c ∈ p₂, c ≠ 0) (hz₃ : ∀ c ∈ p₃, c ≠ 0) (hl₁ : p₁.length ≤ 13) (hl₂ : p₂.length ≤ 13)
    (hl₃ : p₃.length ≤ 5) :
    scan.cname buffer = some (joinParts [p₁, p₂, p₃]) ∧
      scan.direntName buffer = some (joinParts [p₁, p₂, p₃]) := by
  have hroom (size : ℕ) (hsize : 32 ≤ size) :
      13 ≤ (p₁ ++ 0 :: (List.replicate size (0 : UInt8)).drop (0 + p₁.length + 1)).length := by
    simp only [List.length_append, List.length_cons, List.length_drop, List.length_replicate]
    omega
  constructor
  · rw [LfnScan.cname, hlfn]
    simp only [h₁, h₂, h₃, strcpyAt, Option.bind_eq_bind, Option.bind_some, Option.pure_def]
    rw [if_pos (by omega), Option.bind_some, if_pos (by omega), Option.bind_some,
      if_pos (by omega), Option.bind_some, List.take_zero, List.nil_append,
      cString_three hz₁ hz₂ hz₃ hl₁ hl₂ (hroom 32 le_rfl)]
  · rw [LfnScan.direntName, hlfn]
    simp only [h₁, h₂, h₃, strcpyName, Option.bind_eq_bind, Option.bind_some, Option.pure_def]
    rw [if_pos (by omega), Option.bind_some, if_pos (by omega), Option.bind_some,
      if_pos (by omega), Option.bind_some, List.take_zero, List.nil_append,
      cString_three hz₁ hz₂ hz₃ hl₁ hl₂ (hroom 36 (by omega))]

end Names

/-! ## The scan of a run -/

/-- The variables of a scanner after the `m` LFN entries before entry `i`. -/
def runScan (entry : ℕ → ℕ → UInt8) : ℕ → ℕ → LfnScan → LfnScan
  | 0, _, scan => scan
  | m + 1, i, scan =>
    (runScan entry m (i - 1) scan).record (readEntry 0 1 (entry (i - 1)) false) (entry (i - 1))

section Runs

variable {entry : ℕ → ℕ → UInt8} {pos i : ℕ} {scan : LfnScan}

/-- After a whole run both `cname` and `entry->name` hold the name of the NORMAL entry. -/
theorem WellNamed.names (h : WellNamed entry pos) (hi : i < pos) (hnormal : IsNormal (entry i))
    (hscan : scan.lfn = 0) :
    (runScan entry (runLength entry i) i scan).cname (entry i) = some (nameOf entry i) ∧
      (runScan entry (runLength entry i) i scan).direntName (entry i) = some (nameOf entry i) := by
  have hnumber := h.numbers i hi hnormal
  have hbound := h.bounded i hi hnormal
  have hz (j : ℕ) := getNameFromLong_ne_zero (entry j)
  have hl (j : ℕ) := getNameFromLong_length_le (entry j)
  have hseq {j : ℕ} (hj : j < runLength entry i) (hr : runLength entry i ≤ 3) :
      readEntry 0 1 (entry (i - (j + 1))) false % 4 = j + 1 := by
    have := hnumber j hj
    omega
  rw [nameOf]
  obtain hr | hr | hr | hr : runLength entry i = 0 ∨ runLength entry i = 1 ∨
      runLength entry i = 2 ∨ runLength entry i = 3 := by omega
  · rw [hr, if_pos rfl]
    exact LfnScan.names_zero _ hscan
  · have h₁ := hseq (j := 0) (by omega) (by omega)
    rw [hr, if_neg (by omega)]
    refine LfnScan.names_one _ ?_ ?_ (hz _) (hl _)
    · simp [runScan, LfnScan.record, hscan, h₁]
    · simp [runScan, LfnScan.record, h₁]
  · have h₁ := hseq (j := 0) (by omega) (by omega)
    have h₂ := hseq (j := 1) (by omega) (by omega)
    have hsub : i - 1 - 1 = i - 2 := by omega
    rw [hr, if_neg (by omega)]
    refine LfnScan.names_two _ ?_ ?_ ?_ (hz _) (hz _) (hl _) (hl _)
    · simp [runScan, LfnScan.record, hscan, h₁, h₂, hsub]
    · simp [runScan, LfnScan.record, h₁]
    · simp [runScan, LfnScan.record, h₁, h₂, hsub]
  · have h₁ := hseq (j := 0) (by omega) (by omega)
    have h₂ := hseq (j := 1) (by omega) (by omega)
    have h₃ := hseq (j := 2) (by omega) (by omega)
    have hsub : i - 1 - 1 = i - 2 := by omega
    have hsub' : i - 2 - 1 = i - 3 := by omega
    have hlast : (getNameFromLong (entry (i - 3))).length ≤ 5 := by
      rw [hr] at hbound
      omega
    rw [hr, if_neg (by omega)]
    refine LfnScan.names_three _ ?_ ?_ ?_ ?_ (hz _) (hz _) (hz _) (hl _) (hl _) hlast
    · simp [runScan, LfnScan.record, hscan, h₁, h₂, h₃, hsub, hsub']
    · simp [runScan, LfnScan.record, h₁]
    · simp [runScan, LfnScan.record, h₁, h₂, hsub]
    · simp [runScan, LfnScan.record, h₁, h₂, h₃, hsub, hsub']

theorem runLength_next (hlong : ¬ IsLong (entry i)) : runLength entry (i + 1) = 0 := by
  rw [runLength, if_neg hlong]

theorem runScan_next (hlong : IsLong (entry i)) :
    (runScan entry (runLength entry i) i scan).record (readEntry 0 1 (entry i) false) (entry i) =
      runScan entry (runLength entry (i + 1)) (i + 1) scan := by
  rw [runLength, if_pos hlong, runScan, Nat.add_sub_cancel]

/-- No LFN entry stands before an entry that is free or after the last one. -/
theorem WellFormed.runLength_zero (h : WellFormed entry pos) (hi : i ≤ pos)
    (hfree : i < pos → readEntry 0 1 (entry i) false = freeEntry) : runLength entry i = 0 := by
  cases i with
  | zero => rfl
  | succ i =>
    apply runLength_next
    intro hlong
    obtain ⟨hlt, hne⟩ := h.runs i (by omega) hlong
    exact hne (hfree hlt)

end Runs

/-! ## The search -/

section Search

variable {entry : ℕ → ℕ → UInt8} {pos : ℕ}

/-- The scan for a name stops at its first NORMAL entry. -/
theorem WellNamed.scanFrom_find (h : WellNamed entry pos) (name : List UInt8) {n i m : ℕ}
    (hi : i + n = pos) (hm : n < m) {scan : LfnScan} (hscan : scan.lfn = 0) :
    match (normals entry n i).find? fun j => decide (name = nameOf entry j) with
    | none => scanFrom name entry m i (runScan entry (runLength entry i) i scan) = .noMore
    | some j => ∃ scan', scanFrom name entry m i (runScan entry (runLength entry i) i scan) =
        .found (j * 32) (entryInfo (entry j)) scan' := by
  induction n generalizing i m scan with
  | zero =>
    obtain ⟨m, rfl⟩ : ∃ k, m = k + 1 := ⟨m - 1, by omega⟩
    obtain rfl : i = pos := by omega
    rw [scanFrom, if_pos h.stop]
    rfl
  | succ n ih =>
    obtain ⟨m, rfl⟩ : ∃ k, m = k + 1 := ⟨m - 1, by omega⟩
    have hno := h.live i (by omega)
    rw [scanFrom, if_neg hno, normals]
    by_cases hfree : readEntry 0 1 (entry i) false = freeEntry
    · have hrun := h.runLength_zero (i := i) (by omega) fun _ => hfree
      have hnext := runLength_next fun hlong : IsLong (entry i) => hlong.2.1 hfree
      rw [if_pos hfree, if_neg (fun hn => hn.2.1 hfree), hrun]
      have := ih (i := i + 1) (m := m) (by omega) (by omega) hscan
      rwa [hnext] at this
    · rw [if_neg hfree]
      by_cases hattr : readEntry 11 1 (entry i) false = attrLongNameMask
      · rw [if_pos hattr, if_neg (fun hn => hn.2.2 hattr), runScan_next ⟨hno, hfree, hattr⟩]
        exact ih (by omega) (by omega) hscan
      · have hnormal : IsNormal (entry i) := ⟨hno, hfree, hattr⟩
        have hnext := runLength_next fun hlong : IsLong (entry i) => hattr hlong.2.2
        rw [if_neg hattr, if_pos hnormal, (h.names (by omega) hnormal hscan).1, List.find?_cons]
        by_cases hname : name = nameOf entry i
        · simp only [decide_eq_true hname, if_pos hname]
          exact ⟨_, rfl⟩
        · simp only [decide_eq_false hname, if_neg hname]
          have := ih (i := i + 1) (m := m) (by omega) (by omega)
            (rfl : LfnScan.lfn { runScan entry (runLength entry i) i scan with lfn := 0 } = 0)
          rwa [hnext] at this

/-- The scan of the whole directory finds the first occurrence of a name in the listing. -/
theorem WellNamed.scan_listing (h : WellNamed entry pos) (name : List UInt8) {m : ℕ} (hm : pos < m) :
    (scanFrom name entry m 0 {}).answer name =
      some (((listing entry pos).find? fun d => decide (name = d.name)).map
        fun d => (d.name, d.info)) := by
  have hfind := h.scanFrom_find name (Nat.zero_add pos) hm (rfl : ({} : LfnScan).lfn = 0)
  have hmap : (listing entry pos).find? (fun d => decide (name = d.name)) =
      ((normals entry pos 0).find? fun j => decide (name = nameOf entry j)).map (direntOf entry) :=
    List.find?_map
  rw [hmap]
  cases hres : (normals entry pos 0).find? fun j => decide (name = nameOf entry j) with
  | none =>
    rw [hres] at hfind
    change scanFrom name entry m 0 {} = _ at hfind
    rw [hfind]
    rfl
  | some j =>
    rw [hres] at hfind
    obtain ⟨scan', hfind⟩ := hfind
    change scanFrom name entry m 0 {} = _ at hfind
    have hname : name = nameOf entry j := of_decide_eq_true (List.find?_some hres :)
    rw [hfind, hname]
    rfl

end Search

/-! ## The count -/

section Count

variable {s : FatState} {p : Ptr} {n pos : ℕ}

theorem normals_add (entry : ℕ → ℕ → UInt8) (n m i : ℕ) :
    normals entry (n + m) i = normals entry n i ++ normals entry m (i + n) := by
  induction n generalizing i with
  | zero => rw [Nat.zero_add, Nat.add_zero, normals, List.nil_append]
  | succ n ih =>
    rw [Nat.add_right_comm, normals, normals, ih, show i + 1 + n = i + (n + 1) by omega]
    split
    · rw [List.cons_append]
    · rfl

theorem normals_skip {entry : ℕ → ℕ → UInt8} {i : ℕ} (n : ℕ) (h : ¬ IsNormal (entry i)) :
    normals entry (n + 1) i = normals entry n (i + 1) := by
  rw [normals, if_neg h]

theorem normals_take {entry : ℕ → ℕ → UInt8} {i : ℕ} (n : ℕ) (h : IsNormal (entry i)) :
    normals entry (n + 1) i = i :: normals entry n (i + 1) := by
  rw [normals, if_pos h]

/-- The count in a cluster that holds `NO_MORE_ENTRY` or entries before it. -/
theorem countEntries_eq {blocks : ℕ → Block} {k n j : ℕ} (hj : j + n ≤ 128)
    (hlive : ∀ i < pos, readEntry 0 1 (entryAt blocks i) false ≠ noMoreEntry)
    (hstop : pos < 128 * k + j + n → readEntry 0 1 (entryAt blocks pos) false = noMoreEntry)
    (hpos : 128 * k + j ≤ pos) (count : ℕ) :
    countEntries (blocks k) n (j * 32) count =
      if pos < 128 * k + j + n then
        (count + (normals (entryAt blocks) (pos - (128 * k + j)) (128 * k + j)).length, true)
      else (count + (normals (entryAt blocks) n (128 * k + j)).length, false) := by
  induction n generalizing j count with
  | zero =>
    rw [if_neg (by omega)]
    rfl
  | succ n ih =>
    rw [countEntries, ← entryAt_cluster blocks k (show j < 128 by omega)]
    by_cases hlast : pos = 128 * k + j
    · have hin : pos < 128 * k + j + (n + 1) := by omega
      rw [if_pos hin, ← hlast]
      simp only [hstop hin, if_true, Nat.sub_self, normals, List.length_nil, Nat.add_zero]
    · have hno := hlive (128 * k + j) (by omega)
      obtain ⟨m, hm⟩ : ∃ m, pos - (128 * k + j) = m + 1 := ⟨pos - (128 * k + j) - 1, by omega⟩
      have hm' : pos - (128 * k + (j + 1)) = m := by omega
      have hrest (count : ℕ) := ih (j := j + 1) (by omega) (fun h => hstop (by omega)) (by omega)
        count
      rw [hm', show (j + 1) * 32 = j * 32 + 32 by omega,
        show 128 * k + (j + 1) + n = 128 * k + j + (n + 1) by omega,
        show 128 * k + (j + 1) = 128 * k + j + 1 by omega] at hrest
      simp only [if_neg hno, hm]
      by_cases hfree : readEntry 0 1 (entryAt blocks (128 * k + j)) false = freeEntry
      · have hskip (n : ℕ) := normals_skip n
          fun hn : IsNormal (entryAt blocks (128 * k + j)) => hn.2.1 hfree
        rw [if_pos hfree, hskip, hskip]
        exact hrest count
      · rw [if_neg hfree]
        by_cases hattr : readEntry 11 1 (entryAt blocks (128 * k + j)) false = attrLongNameMask
        · have hskip (n : ℕ) := normals_skip n
            fun hn : IsNormal (entryAt blocks (128 * k + j)) => hn.2.2 hattr
          rw [if_pos hattr, hskip, hskip]
          exact hrest count
        · have htake (n : ℕ) := normals_take n
            (show IsNormal (entryAt blocks (128 * k + j)) from ⟨hno, hfree, hattr⟩)
          rw [if_neg hattr, htake, htake, List.length_cons, List.length_cons, hrest]
          simp only [Nat.add_assoc, Nat.add_comm 1]

/-- The count over the clusters from one of them on. -/
theorem countClusters_run (hd : s.DirReady p n) (hpos : pos < 128 * n)
    (hlive : ∀ i < pos, readEntry 0 1 (s.entries p i) false ≠ noMoreEntry)
    (hstop : readEntry 0 1 (s.entries p pos) false = noMoreEntry) {fuel k : ℕ}
    (hk : 128 * k ≤ pos) (hfuel : n ≤ k + fuel) (count : ℕ) :
    ∃ s', countClusters p fuel k count s =
        .ok (some (count + (normals (s.entries p) (pos - 128 * k) (128 * k)).length)) s' ∧
      Cached s s' ∧ Beyond p n s s' := by
  induction fuel generalizing s k count with
  | zero => omega
  | succ fuel ih =>
    obtain ⟨desc, s₁, hload, hbuffer, -, hc, -, hothers⟩ := hd.loadOne (show k < n by omega)
    have hbeyond : Beyond p n s s₁ := Beyond.of_ne (by omega) hothers
    have hcount := countEntries_eq (k := k) (n := 128) (j := 0) (by omega) hlive (fun _ => hstop)
      (by omega) count
    rw [Nat.zero_mul, Nat.add_zero] at hcount
    rw [countClusters, exits_bind_ok hload]
    simp only [hbuffer, hcount]
    by_cases hlast : pos < 128 * k + 128
    · rw [if_pos hlast]
      exact ⟨s₁, rfl, hc, hbeyond⟩
    · rw [if_neg hlast]
      have hentries := hc.entries p
      obtain ⟨s₂, hrun, hc₂, hbeyond₂⟩ := ih (hc.similar.dirReady hd) (k := k + 1)
        (by rw [hentries]; exact hlive) (by rw [hentries]; exact hstop) (by omega) (by omega)
        (count + (normals (s.entries p) 128 (128 * k)).length)
      refine ⟨s₂, ?_, hc.trans hc₂, hbeyond.trans hbeyond₂⟩
      rw [hentries] at hrun
      have hsplit : pos - 128 * k = 128 + (pos - 128 * (k + 1)) := by omega
      rw [hsplit, normals_add, List.length_append, ← Nat.add_assoc,
        show 128 * k + 128 = 128 * (k + 1) by omega]
      exact hrun

/-- `_get_nb_entries` counts the entries of the listing. -/
theorem getNbEntries_run (hd : s.DirReady p n) (hpos : pos < 128 * n)
    (hwf : WellFormed (s.entries p) pos) {fuel : ℕ} (hfuel : n ≤ fuel) :
    ∃ s', getNbEntries fuel p s = .ok (some (listing (s.entries p) pos).length) s' ∧
      Cached s s' ∧ Beyond p n s s' := by
  have hrun := countClusters_run hd hpos hwf.live hwf.stop (k := 0) (Nat.zero_le _)
    (by omega : n ≤ 0 + fuel) 0
  rwa [Nat.mul_zero, Nat.sub_zero, Nat.zero_add, ← List.length_map (direntOf (s.entries p))]
    at hrun

end Count

end GietVm.Fat
