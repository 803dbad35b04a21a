import GietVm.Fat.RemoveEntry

/-!
# The index of a directory entry

`_add_dir_entry` stores in the inode the position of its NORMAL entry, computed from the cluster
where it found `NO_MORE_ENTRY`. When the entries of the name go on in the next cluster, the offset
starts again at 0 but this cluster stays, and the index is 128 too small. `_update_dir_entry` and
`_remove_dir_entry` then write to the entry of another file. The index also has 16 bits only.

When the index is right, calls on the children of a directory modify the entries of their child
and nothing else, in whatever order they come.
-/

namespace GietVm.Fat

open GietVm.Library

/-! ## The entries of a new child -/

/-- `entry'` is `entry` with the entries of a name written at `pos`. -/
structure Written (entry entry' : ℕ → ℕ → UInt8) (pos nbLfn : ℕ) (name : List UInt8)
    (info : EntryInfo) : Prop where
  before : ∀ j < pos, SameEntry (entry' j) (entry j)
  long : ∀ t < nbLfn, ∃ ord : UInt8,
    SameEntry (entry' (pos + nbLfn - (t + 1))) (longEntry name ord (13 * t)) ∧
      ord.toNat % 0x20 = t + 1 ∧ ord.toNat ≠ noMoreEntry ∧ ord.toNat ≠ freeEntry
  normal : SameEntry (entry' (pos + nbLfn)) (normalEntry name info)
  stop : readEntry 0 1 (entry' (pos + nbLfn + 1)) false = noMoreEntry

section Written

variable {entry entry' : ℕ → ℕ → UInt8} {pos nbLfn length : ℕ} {name : List UInt8}
  {info : EntryInfo}

/-- `_add_dir_entry` writes the entries of the name. -/
theorem written_writeEntries (blocks : ℕ → Block)
    (hlen : checkNameLength name = some (length, nbLfn)) :
    Written (entryAt blocks)
      (entryAt (writeEntries blocks pos (stepList name info length nbLfn (nbLfn + 2)))) pos nbLfn
      name info := by
  set entry' := entryAt (writeEntries blocks pos (stepList name info length nbLfn (nbLfn + 2)))
    with hentry'
  obtain ⟨rfl, hnb⟩ := checkNameLength_eq hlen
  have hbyte (m : ℕ) (hm : m < nbLfn + 2) {b : ℕ}
      (hb : b < (stepBytes name info name.length nbLfn (nbLfn + 2 - m)).length) :
      entry' (pos + m) b = (stepBytes name info name.length nbLfn (nbLfn + 2 - m)).getD b 0 :=
    entryAt_writeEntries (stepList_length_le _ _ _ _ _) (stepList_getElem? name.length nbLfn hm) hb
  have hlong {t : ℕ} (ht : t < nbLfn) {ord : UInt8}
      (hstep : stepBytes name info name.length nbLfn (t + 3) =
        longEntryBytes name name.length ord (List.range 32) (13 * t)) :
      SameEntry (entry' (pos + nbLfn - (t + 1))) (longEntry name ord (13 * t)) := by
    intro b hb
    have := hbyte (nbLfn - (t + 1)) (by omega) (b := b)
    rw [show nbLfn + 2 - (nbLfn - (t + 1)) = t + 3 by omega, hstep,
      show pos + (nbLfn - (t + 1)) = pos + nbLfn - (t + 1) by omega] at this
    exact this (by simpa [longEntryBytes_length] using hb)
  refine ⟨fun j hj => entryAt_writeEntries_before (stepList_length_le _ _ _ _ _) hj,
    fun t ht => ?_, fun b hb => ?_, ?_⟩
  · obtain rfl | rfl | rfl : t = 0 ∨ t = 1 ∨ t = 2 := by omega
    · refine ⟨_, hlong ht rfl, ?_⟩
      split <;> decide
    · refine ⟨_, hlong ht rfl, ?_⟩
      split <;> decide
    · refine ⟨_, hlong ht rfl, ?_⟩
      split <;> decide
  · have := hbyte nbLfn (by omega) (b := b)
    rw [show nbLfn + 2 - nbLfn = 2 by omega] at this
    exact this (by simpa [stepBytes, normalEntryBytes_length] using hb)
  · have := hbyte (nbLfn + 1) (by omega) (b := 0)
    rw [show nbLfn + 2 - (nbLfn + 1) = 1 by omega] at this
    rw [readEntry_one, show pos + nbLfn + 1 = pos + (nbLfn + 1) by omega,
      this (by simp [stepBytes])]
    rfl

variable (h : Written entry entry' pos nbLfn name info)

include h

theorem Written.isLong {t : ℕ} (ht : t < nbLfn) : IsLong (entry' (pos + nbLfn - (t + 1))) := by
  obtain ⟨ord, hsame, -, hno, hfree⟩ := h.long t ht
  rw [hsame.isLong_iff, IsLong, readEntry_one, readEntry_one, longEntry_ord, longEntry_attr]
  exact ⟨hno, hfree, rfl⟩

theorem Written.attr : readEntry 11 1 (entry' (pos + nbLfn)) false ≠ attrLongNameMask := by
  rw [h.normal.readEntry (by omega), normalEntry_attr]
  split <;> decide

/-- The NORMAL entry is seen when the name does not begin with 0xE5. -/
theorem Written.isNormal (hpos : 0 < name.length) (hzero : ∀ c ∈ name, c ≠ 0)
    (hvisible : Visible name) : IsNormal (entry' (pos + nbLfn)) := by
  have hfirst : charAt name 0 ∈ name := by
    rw [charAt, List.getD_eq_getElem?_getD, List.getElem?_eq_getElem hpos, Option.getD_some]
    exact List.getElem_mem hpos
  have hord : readEntry 0 1 (entry' (pos + nbLfn)) false = (toUpper (charAt name 0)).toNat := by
    rw [h.normal.readEntry (by omega), readEntry_one, normalEntry_first hpos]
  refine ⟨?_, ?_, h.attr⟩
  · rw [hord]
    intro hno
    exact toUpper_ne_zero (hzero _ hfirst) (UInt8.toNat_inj.mp hno)
  · rw [hord]
    intro hfree
    exact hvisible ((toUpper_eq_iff _).mp (UInt8.toNat_inj.mp (hfree.trans rfl)))

theorem Written.runLength_before {j : ℕ} (hj : j ≤ pos) :
    runLength entry' j = runLength entry j := by
  symm
  exact runLength_congr (Nat.zero_le j) rfl fun k _ hk => (h.before k (by omega)).isLong_iff.symm

/-- The run of the new NORMAL entry is the one written. -/
theorem Written.runLength (hwf : WellFormed entry pos) :
    runLength entry' (pos + nbLfn) = nbLfn := by
  have hstep (m : ℕ) (hm : m ≤ nbLfn) : Fat.runLength entry' (pos + m) = m := by
    induction m with
    | zero =>
      rw [Nat.add_zero, h.runLength_before le_rfl]
      exact hwf.runLength_zero le_rfl fun hlt => absurd hlt (lt_irrefl pos)
    | succ m ih =>
      have hlong := h.isLong (t := nbLfn - (m + 1)) (by omega)
      rw [show pos + nbLfn - (nbLfn - (m + 1) + 1) = pos + m by omega] at hlong
      rw [← Nat.add_assoc, Fat.runLength, if_pos hlong, ih (by omega)]
  exact hstep nbLfn le_rfl

theorem Written.nameOf (hwf : WellFormed entry pos)
    (hlen : checkNameLength name = some (length, nbLfn)) (hzero : ∀ c ∈ name, c ≠ 0) :
    nameOf entry' (pos + nbLfn) = name.takeWhile isKept := by
  have hbound : 0 < nbLfn ∧ name.length ≤ 13 * nbLfn := by
    rw [checkNameLength] at hlen
    split at hlen
    · cases hlen
      omega
    · split at hlen
      · cases hlen
        omega
      · split at hlen
        · cases hlen
          omega
        · cases hlen
  have hparts : ((List.range nbLfn).map fun t => getNameFromLong (entry' (pos + nbLfn - (t + 1)))) =
      (List.range nbLfn).map fun t => ((name.drop (13 * t)).take 13).takeWhile isKept := by
    apply List.map_congr_left
    intro t ht
    obtain ⟨ord, hsame, -⟩ := h.long t (List.mem_range.mp ht)
    rw [hsame.getNameFromLong, getNameFromLong_longEntry hzero]
  rw [Fat.nameOf, h.runLength hwf, if_neg (by omega), hparts, joinParts_chunks _ hbound.2]

/-- The old entries keep their names. -/
theorem Written.sameName {j : ℕ} (hj : j < pos) : SameName entry entry' j where
  run := h.runLength_before hj.le
  parts := fun t _ => h.before _ (by omega)
  short := (h.before j hj).getNameFromShort

/-- The directory with the new entries. -/
theorem Written.wellNamed (hwn : WellNamed entry pos)
    (hlen : checkNameLength name = some (length, nbLfn)) (hpos : 0 < name.length)
    (hzero : ∀ c ∈ name, c ≠ 0) (hvisible : Visible name) :
    WellNamed entry' (pos + nbLfn + 1) := by
  obtain ⟨rfl, hnb⟩ := checkNameLength_eq hlen
  have hnormal := h.isNormal hpos hzero hvisible
  have hrun := h.runLength hwn.toWellFormed
  have hplace {j : ℕ} (hj : j < pos + nbLfn + 1) :
      j < pos ∨ (∃ t < nbLfn, j = pos + nbLfn - (t + 1)) ∨ j = pos + nbLfn := by
    by_cases hlt : j < pos
    · exact Or.inl hlt
    · by_cases hlast : j = pos + nbLfn
      · exact Or.inr (Or.inr hlast)
      · exact Or.inr (Or.inl ⟨pos + nbLfn - j - 1, by omega, by omega⟩)
  refine ⟨⟨fun j hj => ?_, h.stop, fun j hj hl => ?_⟩, fun j hj hn => ?_, fun j hj hn => ?_⟩
  · rcases hplace hj with hlt | ⟨t, ht, rfl⟩ | rfl
    · rw [(h.before j hlt).readEntry (by omega)]
      exact hwn.live j hlt
    · exact (h.isLong ht).1
    · exact hnormal.1
  · rcases hplace hj with hlt | ⟨t, ht, rfl⟩ | rfl
    · obtain ⟨hlt', hne⟩ := hwn.runs j hlt ((h.before j hlt).isLong_iff.mp hl)
      rw [(h.before (j + 1) hlt').readEntry (by omega)]
      exact ⟨by omega, hne⟩
    · refine ⟨by omega, ?_⟩
      rcases hplace (show pos + nbLfn - (t + 1) + 1 < pos + nbLfn + 1 by omega) with
        hlt | ⟨t', ht', heq⟩ | heq
      · omega
      · rw [heq]
        exact (h.isLong ht').2.1
      · rw [heq]
        exact hnormal.2.1
    · exact absurd hl.2.2 h.attr
  · rcases hplace hj with hlt | ⟨t, ht, rfl⟩ | rfl
    · exact (h.sameName hlt).numbers (hwn.numbers j hlt ((h.before j hlt).isNormal_iff.mp hn))
    · exact absurd (h.isLong ht).2.2 hn.2.2
    · intro t ht
      rw [hrun] at ht
      obtain ⟨ord, hsame, hnumber, -⟩ := h.long t ht
      rw [hsame.readEntry (by omega), readEntry_one, longEntry_ord]
      exact hnumber
  · rcases hplace hj with hlt | ⟨t, ht, rfl⟩ | rfl
    · exact (h.sameName hlt).bounded (hwn.bounded j hlt ((h.before j hlt).isNormal_iff.mp hn))
    · exact absurd (h.isLong ht).2.2 hn.2.2
    · obtain ⟨ord, hsame, -⟩ := h.long (nbLfn - 1) (by omega)
      rw [Nat.sub_add_cancel (by omega : 1 ≤ nbLfn)] at hsame
      rw [hrun, hsame.getNameFromLong, getNameFromLong_longEntry hzero]
      have hlast : (((name.drop (13 * (nbLfn - 1))).take 13).takeWhile isKept).length ≤
          name.length - 13 * (nbLfn - 1) := by
        refine (List.takeWhile_prefix _).length_le.trans ?_
        rw [List.length_take, List.length_drop]
        exact Nat.min_le_right _ _
      have hbound := length_part_le (name.drop (13 * (nbLfn - 1))) 13
      have htotal : name.length ≤ 31 := by
        rw [checkNameLength] at hlen
        split at hlen
        · omega
        · split at hlen
          · omega
          · split at hlen
            · assumption
            · cases hlen
      omega

end Written

/-! ## Updating an entry -/

/-- A byte of an entry that holds its size or its first cluster. -/
def InfoByte (b : ℕ) : Prop := b = 20 ∨ b = 21 ∨ 26 ≤ b

/-- `entry'` is `entry` with other fields in entry `i`. -/
def Updated (entry entry' : ℕ → ℕ → UInt8) (i : ℕ) : Prop :=
  ∀ j b, b < 32 → ¬ (j = i ∧ InfoByte b) → entry' j b = entry j b

/-- `_update_dir_entry` writes the fields of the entry only. -/
theorem updated_entryFields (blocks : ℕ → Block) (i size cluster : ℕ) :
    Updated (entryAt blocks) (entryAt fun k =>
      if k = i / 128 then entryFields (blocks k) (i % 128 * 32) size cluster else blocks k) i := by
  intro j b hb hout
  rw [InfoByte] at hout
  rw [entryAt, entryAt, pointer, pointer]
  split
  · rename_i hcluster
    have hsize : (Bytes.wordBytes size).length = 4 := rfl
    rw [entryFields, Bytes.get_write_apart, Bytes.get_write_apart, Bytes.setWord,
      Bytes.get_write_apart]
    · rw [hsize]
      omega
    · rw [List.length_cons, List.length_singleton]
      omega
    · rw [List.length_cons, List.length_singleton]
      omega
  · rfl

section Updated

variable {entry entry' : ℕ → ℕ → UInt8} {pos i : ℕ} (h : Updated entry entry' i)

include h

theorem Updated.other {j : ℕ} (hj : j ≠ i) : SameEntry (entry' j) (entry j) :=
  fun b hb => h j b hb fun heq => hj heq.1

theorem Updated.ord (j : ℕ) : readEntry 0 1 (entry' j) false = readEntry 0 1 (entry j) false := by
  rw [readEntry_one, readEntry_one, h j 0 (by omega) (by rw [InfoByte]; omega)]

theorem Updated.attr (j : ℕ) : readEntry 11 1 (entry' j) false = readEntry 11 1 (entry j) false := by
  rw [readEntry_one, readEntry_one, h j 11 (by omega) (by rw [InfoByte]; omega)]

theorem Updated.isLong_iff (j : ℕ) : IsLong (entry' j) ↔ IsLong (entry j) := by
  rw [IsLong, IsLong, h.ord, h.attr]

theorem Updated.isNormal_iff (j : ℕ) : IsNormal (entry' j) ↔ IsNormal (entry j) := by
  rw [IsNormal, IsNormal, h.ord, h.attr]

theorem Updated.shortPart (j n k : ℕ) (hin : n + k ≤ 11) :
    shortPart (entry' j) n k = shortPart (entry j) n k := by
  induction n generalizing k with
  | zero => rfl
  | succ n ih =>
    rw [Fat.shortPart, Fat.shortPart, h j k (by omega) (by rw [InfoByte]; omega), ih (k + 1) (by omega)]

/-- An update keeps the names. -/
theorem Updated.sameName (hnormal : IsNormal (entry i)) (j : ℕ) : SameName entry entry' j where
  run := by
    symm
    exact runLength_congr (Nat.zero_le j) rfl fun k _ _ => (h.isLong_iff k).symm
  parts := by
    intro t ht
    have hle : runLength entry j ≤ j := runLength_le j
    have hlong : IsLong (entry (j - (t + 1))) := runLength_long (j := j) (by omega) (by omega)
    apply h.other
    rintro rfl
    exact hnormal.2.2 hlong.2.2
  short := by
    rw [getNameFromShort, getNameFromShort, h.shortPart j 3 8 (by omega),
      h.shortPart j 8 0 (by omega)]

theorem WellNamed.updated (hnormal : IsNormal (entry i)) (hwn : WellNamed entry pos) :
    WellNamed entry' pos := by
  have hwf : WellFormed entry' pos := by
    refine ⟨fun j hj => ?_, ?_, fun j hj hl => ?_⟩
    · rw [h.ord]
      exact hwn.live j hj
    · rw [h.ord]
      exact hwn.stop
    · rw [h.ord]
      exact hwn.runs j hj ((h.isLong_iff j).mp hl)
  exact hwf.wellNamed hwn fun j hj => ⟨(h.isNormal_iff j).mp hj, h.sameName hnormal j⟩

end Updated

/-- `_update_dir_entry` updates the entry at the index of the inode. -/
theorem updateDirEntry_run {s : FatState} {p q : Ptr} {n : ℕ} (hd : s.DirReady p n) {inode : Inode}
    (hq : s.inodes q = some inode) (hparent : inode.parent = some p)
    (hindex : inode.dentry < 128 * n) :
    ∃ s', updateDirEntry q s = .ok false s' ∧ s'.bare = s.bare ∧ Similar s s' ∧
      Updated (s.entries p) (s'.entries p) inode.dentry := by
  obtain ⟨desc, s₁, hload, hbuffer, hslot, hc, -⟩ :=
    hd.load (show inode.dentry / 128 < n by omega)
  obtain ⟨s₂, hmark, hedit⟩ := (hc.similar.dirReady hd).edit hslot fun desc => { desc with
    dirty := true
    buffer := entryFields desc.buffer (inode.dentry % 0x80 * 32) inode.size inode.cluster }
  refine ⟨s₂, ?_, hedit.bare.trans hc.bare, hc.similar.trans hedit.similar, ?_⟩
  · rw [updateDirEntry, exits_bind_ok (getInode_run hq)]
    simp only [hparent]
    rw [exits_bind_ok hload]
    change (modifyDesc _ _ _ >>= fun _ => _) s₁ = _
    rw [exits_bind_ok hmark]
    rfl
  · have hblock : s₂.block (some p) = fun k => if k = inode.dentry / 128 then
        entryFields (s.block (some p) k) (inode.dentry % 128 * 32) inode.size inode.cluster
        else s.block (some p) k := by
      funext k
      rw [hedit.block, hc.block]
      by_cases hk : k = inode.dentry / 128
      · rw [if_pos ⟨rfl, hk⟩, if_pos hk, hk, ← hbuffer]
      · rw [if_neg (fun heq => hk heq.2), if_neg hk]
    rw [FatState.entries, FatState.entries, hblock]
    exact updated_entryFields _ _ _ _

/-! ## What the other lookups see -/

section Others

variable {entry entry' : ℕ → ℕ → UInt8} {pos i m : ℕ} {other : List UInt8}

theorem find?_erase {l : List ℕ} {f : ℕ → Bool} (hf : f i = false) :
    (l.erase i).find? f = l.find? f := by
  induction l with
  | nil => rfl
  | cons j l ih =>
    by_cases hji : j = i
    · subst hji
      rw [List.erase_cons_head, List.find?_cons, hf]
    · rw [List.erase_cons_tail (by simpa using hji), List.find?_cons, List.find?_cons, ih]

/-- A name that is found at the same entry, with the same fields, gets the same answer. -/
theorem WellNamed.answer_congr (h : WellNamed entry pos) (h' : WellNamed entry' pos) (hm : pos < m)
    (hfind : ((normals entry' pos 0).find? fun j => decide (other = nameOf entry' j)) =
      (normals entry pos 0).find? fun j => decide (other = nameOf entry j))
    (hinfo : ∀ j, j ∈ normals entry pos 0 → other = nameOf entry j →
      direntOf entry' j = direntOf entry j) :
    ∃ answer, (scanFrom other entry m 0 {}).answer other = some answer ∧
      (scanFrom other entry' m 0 {}).answer other = some answer := by
  refine ⟨_, h.scan_listing other hm, ?_⟩
  have hmap (entry : ℕ → ℕ → UInt8) :
      (listing entry pos).find? (fun d => decide (other = d.name)) =
        ((normals entry pos 0).find? fun j => decide (other = nameOf entry j)).map (direntOf entry) :=
    List.find?_map
  rw [h'.scan_listing other hm, hmap, hmap, hfind]
  cases hres : (normals entry pos 0).find? fun j => decide (other = nameOf entry j) with
  | none => rfl
  | some j =>
    have hname := of_decide_eq_true (List.find?_some hres :)
    simp only [Option.map_some, hinfo j (List.mem_of_find?_eq_some hres) hname]

/-- The lookups of other names after an update. -/
theorem Updated.answer (hupdated : Updated entry entry' i) (hnormal : IsNormal (entry i))
    (h : WellNamed entry pos) (hm : pos < m) (hother : other ≠ nameOf entry i) :
    ∃ answer, (scanFrom other entry m 0 {}).answer other = some answer ∧
      (scanFrom other entry' m 0 {}).answer other = some answer := by
  have hnames (j : ℕ) := (hupdated.sameName hnormal j).nameOf
  refine h.answer_congr (WellNamed.updated hupdated hnormal h) hm ?_ ?_
  · have hsame : normals entry' pos 0 = normals entry pos 0 :=
      normals_congr fun j _ _ => hupdated.isNormal_iff j
    rw [hsame]
    simp only [hnames]
  · intro j _ hname
    have hji : j ≠ i := by
      rintro rfl
      exact hother hname
    rw [direntOf, direntOf, hnames, (hupdated.other hji).entryInfo]

/-- The lookups of other names after a removal. -/
theorem Freed.answer (hnormal : IsNormal (entry i))
    (hfreed : Freed entry entry' i (runLength entry i)) (h : WellNamed entry pos) (hi : i < pos)
    (hm : pos < m) (hother : other ≠ nameOf entry i) :
    ∃ answer, (scanFrom other entry m 0 {}).answer other = some answer ∧
      (scanFrom other entry' m 0 {}).answer other = some answer := by
  have hremoves : RemovesOnly entry entry' pos i := hfreed.removesOnly hnormal
  refine h.answer_congr (WellNamed.freed hnormal hfreed h hi) hm ?_ ?_
  · have herase : ((normals entry pos 0).erase i).find? (fun j => decide (other = nameOf entry j)) =
        (normals entry pos 0).find? fun j => decide (other = nameOf entry j) :=
      find?_erase (decide_eq_false hother)
    rw [← herase, ← hremoves.normals]
    apply List.find?_congr
    intro j hj
    have hname := congrArg Dirent.name (hremoves.dirents j hj)
    rw [direntOf, direntOf] at hname
    simp only at hname
    rw [hname]
  · intro j hj hname
    have hji : j ≠ i := by
      rintro rfl
      exact hother hname
    apply hremoves.dirents
    rw [hremoves.normals]
    exact (List.mem_erase_of_ne hji).mpr hj

end Others

/-! ## Calls on the children of a directory -/

/-- A call on a child of a directory. The size and the first cluster of its inode can have changed
before an update. -/
inductive EntryCall
  | update (q : Ptr) (size cluster : ℕ)
  | remove (q : Ptr)

/-- The child of a call. -/
def EntryCall.child : EntryCall → Ptr
  | .update q _ _ => q
  | .remove q => q

/-- A call. -/
def EntryCall.run : EntryCall → FatM Bool
  | .update q size cluster => do
    modifyInode q fun inode => { inode with size := size, cluster := cluster }
    updateDirEntry q
  | .remove q => removeDirEntry q

/-- The children that are left after a call. -/
def EntryCall.left (l : List Ptr) : EntryCall → List Ptr
  | .update _ _ _ => l
  | .remove q => l.erase q

/-- Calls on the given children of a directory, none of which is on a child that was removed. -/
def CallsOn : List Ptr → List EntryCall → Prop
  | _, [] => True
  | l, call :: calls => call.child ∈ l ∧ CallsOn (call.left l) calls

/-- A call on child `q`, whose NORMAL entry is entry `i`, has modified no other entry, no other
inode, and no lookup of another name. -/
structure OwnOnly (fuel : ℕ) (p q : Ptr) (i : ℕ) (name : List UInt8) (s s' : FatState) : Prop where
  entries : ∀ j b, b < 32 → ¬ (i ≤ j + runLength (s.entries p) i ∧ j ≤ i) →
    s'.entries p j b = s.entries p j b
  inodes : ∀ q', q' ≠ q → (s'.inodes q').map Inode.core = (s.inodes q').map Inode.core
  lookups : ∀ other, other ≠ name → lookupAnswer fuel p other (s'.withChildren p none) =
    lookupAnswer fuel p other (s.withChildren p none)

/-- All calls succeed, each on the entries of its child only. -/
def CallsOwn (fuel : ℕ) (p : Ptr) (pos : ℕ) : List EntryCall → FatState → Prop
  | [], _ => True
  | call :: calls, s => ∃ inode i s', s.inodes call.child = some inode ∧
      Designates (s.entries p) pos i p inode ∧ call.run s = .ok false s' ∧
      OwnOnly fuel p call.child i inode.name s s' ∧ CallsOwn fuel p pos calls s'

/-- An inode with the index of its entry, and with a name that is long enough for its LFN
entries. -/
structure InStep (entry : ℕ → ℕ → UInt8) (pos i : ℕ) (p : Ptr) (inode : Inode) : Prop extends
    Designates entry pos i p inode where
  small : i < 0x10000
  room : ∃ length nbLfn, checkNameLength inode.name = some (length, nbLfn) ∧
    runLength entry i ≤ nbLfn

/-- Children of a directory whose inodes are in step with their entries. -/
structure Tended (s : FatState) (p : Ptr) (pos n : ℕ) (l : List Ptr) : Prop where
  ready : s.DirReady p n
  named : WellNamed (s.entries p) pos
  heapOk : s.HeapOk
  nodup : l.Nodup
  other : p ∉ l
  child : ∀ q ∈ l, ∃ inode i, s.inodes q = some inode ∧ InStep (s.entries p) pos i p inode
  apart : ∀ q ∈ l, ∀ q' ∈ l, q' ≠ q → ∀ inode inode', s.inodes q = some inode →
    s.inodes q' = some inode' → inode'.dentry ≠ inode.dentry

section Calls

variable {s s' : FatState} {p q : Ptr} {pos n fuel i : ℕ} {l : List Ptr}
  {entry entry' : ℕ → ℕ → UInt8} {inode inode' : Inode}

theorem InStep.index (h : InStep entry pos i p inode) : inode.dentry = i := by
  rw [h.dentry, Nat.mod_eq_of_lt h.small]

/-- The fields of an inode that tell where its entry is. -/
def Inode.link (inode : Inode) : Option Ptr × List UInt8 × ℕ :=
  (inode.parent, inode.name, inode.dentry)

theorem bare_link (h : s'.bare = s.bare) (q : Ptr) :
    (s'.inodes q).map Inode.link = (s.inodes q).map Inode.link := by
  have hlink : Inode.link ∘ Inode.core = Inode.link := rfl
  rw [← hlink, ← Option.map_map, ← Option.map_map, bare_core h]

/-- An inode stays in step while its name stays and its entry is a NORMAL one. -/
theorem InStep.congr (h : InStep entry pos i p inode) (hlink : inode'.link = inode.link)
    {pos' : ℕ} (hle : pos ≤ pos') (hnormal : IsNormal (entry' i))
    (hsame : SameName entry entry' i) : InStep entry' pos' i p inode' := by
  rw [Inode.link, Inode.link, Prod.mk.injEq, Prod.mk.injEq] at hlink
  obtain ⟨hparent, hname, hdentry⟩ := hlink
  refine ⟨⟨h.inside.trans_le hle, hnormal, hparent.trans h.parent, ?_, hdentry.trans h.dentry⟩, h.small, ?_⟩
  · rw [hname, h.name, hsame.nameOf]
  · rw [hname, hsame.run]
    exact h.room

theorem Similar.heapOk (h : Similar s s') (hheap : s.HeapOk) : s'.HeapOk :=
  fun q hq => h.inode_none (hheap q (h.brk.trans hq))

/-- The lookups of a name in both states, when the entries answer alike. -/
theorem lookupAnswer_same (hd : s.DirReady p n) (hd' : s'.DirReady p n) (hheap : s.HeapOk)
    (hheap' : s'.HeapOk) (hfuel : n ≤ fuel) {other : List UInt8}
    (hanswer : ∃ answer, (scanFrom other (s.entries p) (128 * n) 0 {}).answer other = some answer ∧
      (scanFrom other (s'.entries p) (128 * n) 0 {}).answer other = some answer) :
    lookupAnswer fuel p other (s'.withChildren p none) =
      lookupAnswer fuel p other (s.withChildren p none) := by
  obtain ⟨answer, hscan, hscan'⟩ := hanswer
  have hnil (t : FatState) : t.Children none [] := ⟨rfl, fun q hq => absurd hq List.not_mem_nil⟩
  rw [lookupAnswer_withChildren hd hheap (hnil s) (Nat.zero_le _) hfuel
      (fun q hq => absurd hq List.not_mem_nil) hscan,
    lookupAnswer_withChildren hd' hheap' (hnil s') (Nat.zero_le _) hfuel
      (fun q hq => absurd hq List.not_mem_nil) hscan']

/-- The children whose entries keep their names stay in step. -/
theorem Tended.congr (h : Tended s p pos n l) {l' : List Ptr} (hl' : l'.Sublist l) {pos' : ℕ}
    (hle : pos ≤ pos') (hready : s'.DirReady p n) (hnamed : WellNamed (s'.entries p) pos')
    (hheap : s'.HeapOk)
    (hlink : ∀ q ∈ l', (s'.inodes q).map Inode.link = (s.inodes q).map Inode.link)
    (hkeep : ∀ q ∈ l', ∀ inode i, s.inodes q = some inode →
      InStep (s.entries p) pos i p inode →
        IsNormal (s'.entries p i) ∧ SameName (s.entries p) (s'.entries p) i) :
    Tended s' p pos' n l' where
  ready := hready
  named := hnamed
  heapOk := hheap
  nodup := h.nodup.sublist hl'
  other := fun hp => h.other (hl'.subset hp)
  child := by
    intro q hq
    obtain ⟨inode, i, hqi, hstep⟩ := h.child q (hl'.subset hq)
    have hq' := hlink q hq
    rw [hqi, Option.map_some, Option.map_eq_some_iff] at hq'
    obtain ⟨inode', hqi', heq⟩ := hq'
    obtain ⟨hnormal, hname⟩ := hkeep q hq inode i hqi hstep
    exact ⟨inode', i, hqi', hstep.congr heq hle hnormal hname⟩
  apart := by
    intro q hq q' hq' hne inode inode' hqi hqi'
    have hback {r : Ptr} (hrl : r ∈ l') {new : Inode} (hr : s'.inodes r = some new) :
        ∃ old, s.inodes r = some old ∧ old.dentry = new.dentry := by
      have hold := hlink r hrl
      rw [hr, Option.map_some, eq_comm, Option.map_eq_some_iff] at hold
      obtain ⟨old, hold, heq⟩ := hold
      rw [Inode.link, Inode.link, Prod.mk.injEq, Prod.mk.injEq] at heq
      exact ⟨old, hold, heq.2.2⟩
    obtain ⟨old, hold, heq⟩ := hback hq hqi
    obtain ⟨old', hold', heq'⟩ := hback hq' hqi'
    rw [← heq, ← heq']
    exact h.apart q (hl'.subset hq) q' (hl'.subset hq') hne old old' hold hold'

theorem setInode_self (s : FatState) (q : Ptr) (inode : Inode) :
    (s.setInode q inode).inodes q = some inode := Function.update_self _ _ _

theorem setInode_of_ne (s : FatState) {q r : Ptr} (h : r ≠ q) (inode : Inode) :
    (s.setInode q inode).inodes r = s.inodes r := Function.update_of_ne h _ _

/-- Changing the size and the first cluster of a child. -/
theorem Tended.resize (h : Tended s p pos n l) (hq : q ∈ l) (hqi : s.inodes q = some inode)
    (size cluster : ℕ) :
    SameFile s (s.setInode q { inode with size := size, cluster := cluster }) p ∧
      Tended (s.setInode q { inode with size := size, cluster := cluster }) p pos n l := by
  have hqp : p ≠ q := by
    rintro rfl
    exact h.other hq
  have hsame : SameFile s (s.setInode q { inode with size := size, cluster := cluster }) p :=
    ⟨rfl, rfl, rfl, rfl, by rw [setInode_of_ne s hqp]⟩
  refine ⟨hsame, h.congr (List.Sublist.refl l) le_rfl (hsame.dirReady h.ready) ?_ ?_ ?_ ?_⟩
  · rw [hsame.entries]
    exact h.named
  · intro r hr
    have hrq : r ≠ q := by
      rintro rfl
      rw [h.heapOk r hr] at hqi
      cases hqi
    rw [setInode_of_ne s hrq]
    exact h.heapOk r hr
  · intro r _
    by_cases hrq : r = q
    · subst hrq
      rw [setInode_self, hqi]
      rfl
    · rw [setInode_of_ne s hrq]
  · intro r _ old i _ hstep
    rw [hsame.entries]
    exact ⟨hstep.normal, rfl, fun _ _ _ _ => rfl, rfl⟩

/-- One update. -/
theorem Tended.update (h : Tended s p pos n l) (hpos : pos < 128 * n) (hfuel : n ≤ fuel)
    (hq : q ∈ l) (size cluster : ℕ) :
    ∃ inode i s', s.inodes q = some inode ∧ Designates (s.entries p) pos i p inode ∧
      (EntryCall.update q size cluster).run s = .ok false s' ∧
      OwnOnly fuel p q i inode.name s s' ∧ Tended s' p pos n l := by
  obtain ⟨inode, i, hqi, hstep⟩ := h.child q hq
  set new : Inode := { inode with size := size, cluster := cluster } with hnew
  set s₀ := s.setInode q new with hs₀
  obtain ⟨hfile, htended⟩ := h.resize hq hqi size cluster
  have hq₀ : s₀.inodes q = some new := setInode_self s q new
  have hinside := hstep.inside
  have hindex : new.dentry < 128 * n := by
    change inode.dentry < 128 * n
    rw [hstep.index]
    omega
  obtain ⟨s', hrun, hbare, hsim, hupdated⟩ :=
    updateDirEntry_run htended.ready hq₀ hstep.parent hindex
  change Updated (s₀.entries p) (s'.entries p) inode.dentry at hupdated
  rw [hfile.entries, hstep.index] at hupdated
  refine ⟨inode, i, s', hqi, hstep.toDesignates, ?_, ⟨?_, ?_, ?_⟩, ?_⟩
  · rw [EntryCall.run, exits_bind_ok (modifyInode_run hqi _)]
    exact hrun
  · intro j b hb hout
    exact hupdated j b hb fun heq => hout ⟨by omega, by omega⟩
  · intro r hr
    rw [bare_core hbare, setInode_of_ne s hr]
  · intro other hother
    rw [hstep.name] at hother
    exact lookupAnswer_same h.ready (hsim.dirReady htended.ready) h.heapOk
      (hsim.heapOk htended.heapOk) hfuel (hupdated.answer hstep.normal h.named hpos hother)
  · apply htended.congr (List.Sublist.refl l) le_rfl (hsim.dirReady htended.ready)
      (WellNamed.updated hupdated hstep.normal h.named) (hsim.heapOk htended.heapOk)
      (fun r _ => bare_link hbare r)
    intro r _ old j _ hold
    rw [hfile.entries] at hold ⊢
    exact ⟨(hupdated.isNormal_iff j).mpr hold.normal, hupdated.sameName hstep.normal j⟩

/-- One removal. -/
theorem Tended.remove (h : Tended s p pos n l) (hpos : pos < 128 * n) (hfuel : n ≤ fuel)
    (hq : q ∈ l) :
    ∃ inode i s', s.inodes q = some inode ∧ Designates (s.entries p) pos i p inode ∧
      (EntryCall.remove q).run s = .ok false s' ∧ OwnOnly fuel p q i inode.name s s' ∧
      Tended s' p pos n (l.erase q) := by
  obtain ⟨inode, i, hqi, hstep⟩ := h.child q hq
  obtain ⟨length, nbLfn, hlength, hroom⟩ := hstep.room
  have hinside := hstep.inside
  obtain ⟨s', hrun, hbare, hsim, -, hblock⟩ := removeDirEntry_run h.ready hqi hstep.parent hlength
    (show inode.dentry < 128 * n by rw [hstep.index]; omega)
  have hfreed := h.named.toWellFormed.freed hinside.le nbLfn
  rw [Nat.min_eq_right hroom, ← hstep.index, ← hblock, hstep.index] at hfreed
  change Freed (s.entries p) (s'.entries p) i (runLength (s.entries p) i) at hfreed
  refine ⟨inode, i, s', hqi, hstep.toDesignates, hrun, ⟨?_, ?_, ?_⟩, ?_⟩
  · intro j b hb hout
    rw [hfreed j b hb, if_neg fun hin => hout ⟨hin.1, hin.2.1⟩]
  · intro r _
    exact bare_core hbare r
  · intro other hother
    rw [hstep.name] at hother
    exact lookupAnswer_same h.ready (hsim.dirReady h.ready) h.heapOk (hsim.heapOk h.heapOk) hfuel
      (hfreed.answer hstep.normal h.named hinside hpos hother)
  · apply h.congr List.erase_sublist le_rfl (hsim.dirReady h.ready)
      (WellNamed.freed hstep.normal hfreed h.named hinside) (hsim.heapOk h.heapOk)
      (fun r _ => bare_link hbare r)
    intro r hr old j hri hold
    have hne : r ≠ q := (h.nodup.mem_erase_iff.mp hr).1
    have happart := h.apart q hq r (List.mem_of_mem_erase hr) hne inode old hqi hri
    rw [hold.index, hstep.index] at happart
    have hnormal := (hfreed.isNormal_iff j).mpr ⟨hold.normal, happart⟩
    exact ⟨hnormal, (hfreed.sameName hstep.normal hnormal).2⟩

/-- Calls on children in step with their entries, in any order. -/
theorem Tended.calls (h : Tended s p pos n l) (hpos : pos < 128 * n) (hfuel : n ≤ fuel)
    {calls : List EntryCall} (hcalls : CallsOn l calls) : CallsOwn fuel p pos calls s := by
  induction calls generalizing s l with
  | nil => trivial
  | cons call calls ih =>
    obtain ⟨hq, hrest⟩ := hcalls
    cases call with
    | update q size cluster =>
      obtain ⟨inode, i, s', hqi, hdes, hrun, hown, htended⟩ := h.update hpos hfuel hq size cluster
      exact ⟨inode, i, s', hqi, hdes, hrun, hown, ih htended hrest⟩
    | remove q =>
      obtain ⟨inode, i, s', hqi, hdes, hrun, hown, htended⟩ := h.remove hpos hfuel hq
      exact ⟨inode, i, s', hqi, hdes, hrun, hown, ih htended hrest⟩

end Calls

/-! ## The index of a new entry -/

/-- A lookup of the name of inode `c` that does not meet it in the tree finds an inode with the
same index. -/
def Reread (fuel : ℕ) (c p : Ptr) (s : FatState) : Prop :=
  ∃ child q s₁ inode, s.inodes c = some child ∧
    getChildFromParent fuel p child.name (s.withChildren p none) = .ok (.found q) s₁ ∧
    s₁.inodes q = some inode ∧ inode.dentry = child.dentry

/-- The stored index is the position of the NORMAL entry when all entries of the name are in the
cluster where `NO_MORE_ENTRY` was, and 16 bits hold the position. -/
theorem storedIndex_eq_iff {pos nbLfn : ℕ} (hnb : nbLfn ≤ 3) :
    storedIndex pos nbLfn = pos + nbLfn ↔ pos % 128 + nbLfn < 128 ∧ pos + nbLfn < 0x10000 := by
  rw [storedIndex]
  omega

section Index

variable {s s' : FatState} {p c : Ptr} {pos n fuel length nbLfn : ℕ} {l : List Ptr}
  {child child' : Inode}

/-- No old entry has a name that the scan does not find. -/
theorem WellNamed.absent {entry : ℕ → ℕ → UInt8} {name : List UInt8} (h : WellNamed entry pos)
    (habsent : Absent name entry pos) : ∀ j < pos, IsNormal (entry j) → name ≠ nameOf entry j := by
  intro j hj hnormal hname
  obtain ⟨scan, hscan⟩ := habsent
  have hend : scanFrom name entry (pos + 1) 0 {} = _ :=
    h.toWellFormed.scanFrom_eq (Nat.lt_succ_self pos)
  have hfind := h.scanFrom_find name (Nat.zero_add pos) (Nat.lt_succ_self pos)
    (rfl : ({} : LfnScan).lfn = 0)
  rw [hscan] at hend
  have hmem : j ∈ normals entry pos 0 := mem_normals.mpr ⟨Nat.zero_le j, by omega, hnormal⟩
  cases hres : (normals entry pos 0).find? fun j => decide (name = nameOf entry j) with
  | none => exact List.find?_eq_none.mp hres j hmem (decide_eq_true hname)
  | some k =>
    rw [hres] at hfind
    obtain ⟨scan', hfound⟩ := hfind
    change scanFrom name entry (pos + 1) 0 {} = _ at hfound
    rw [hend] at hfound
    cases hfound

/-- One more child. -/
theorem Tended.cons (h : Tended s p pos n l) (hc : s.inodes c = some child) {i : ℕ}
    (hstep : InStep (s.entries p) pos i p child) (hcl : c ∉ l) (hcp : c ≠ p)
    (hapart : ∀ q ∈ l, ∀ inode, s.inodes q = some inode → inode.dentry ≠ child.dentry) :
    Tended s p pos n (c :: l) where
  ready := h.ready
  named := h.named
  heapOk := h.heapOk
  nodup := List.nodup_cons.mpr ⟨hcl, h.nodup⟩
  other := by
    intro hp
    rcases List.mem_cons.mp hp with heq | hp
    · exact hcp heq.symm
    · exact h.other hp
  child := by
    intro q hq
    rcases List.mem_cons.mp hq with rfl | hq
    · exact ⟨child, i, hc, hstep⟩
    · exact h.child q hq
  apart := by
    intro q hq q' hq' hne inode inode' hqi hqi'
    rcases List.mem_cons.mp hq with rfl | hql
    · rw [hc, Option.some.injEq] at hqi
      subst hqi
      exact hapart q' ((List.mem_cons.mp hq').resolve_left hne) inode' hqi'
    · rcases List.mem_cons.mp hq' with rfl | hql'
      · rw [hc, Option.some.injEq] at hqi'
        subst hqi'
        exact (hapart q hql inode hqi).symm
      · exact h.apart q hql q' hql' hne inode inode' hqi hqi'

/-- The children of the directory, with the new one. -/
theorem Tended.added (h : Tended s p pos n l) (hc : s.inodes c = some child)
    (hparent : child.parent = some p) (hcl : c ∉ l) (hcp : c ≠ p)
    (hname : checkNameLength child.name = some (length, nbLfn)) (hpos : 0 < child.name.length)
    (hzero : ∀ ch ∈ child.name, ch ≠ 0) (hvisible : Visible child.name)
    (hkept : 0xFF ∉ child.name) (hsmall : pos + nbLfn < 0x10000) {info : EntryInfo}
    (hwritten : Written (s.entries p) (s'.entries p) pos nbLfn child.name info)
    (hsim : Similar s s') (hothers : ∀ q, q ≠ c → (s'.inodes q).map Inode.core =
      (s.inodes q).map Inode.core) (hc' : s'.inodes c = some child')
    (hdentry : child'.dentry = pos + nbLfn) : Tended s' p (pos + nbLfn + 1) n (c :: l) := by
  have hnamed := hwritten.wellNamed h.named hname hpos hzero hvisible
  have hold : Tended s' p (pos + nbLfn + 1) n l := by
    apply h.congr (List.Sublist.refl l) (by omega) (hsim.dirReady h.ready) hnamed
      (hsim.heapOk h.heapOk)
    · intro q hq
      have hqc : q ≠ c := by
        rintro rfl
        exact hcl hq
      have hlink : Inode.link ∘ Inode.core = Inode.link := rfl
      rw [← hlink, ← Option.map_map, ← Option.map_map, hothers q hqc]
    · intro q _ inode i _ hstep
      exact ⟨(hwritten.before i hstep.inside).isNormal_iff.mpr hstep.normal,
        hwritten.sameName hstep.inside⟩
  obtain ⟨new, hnew, hbone⟩ := hsim.inode hc
  rw [hc', Option.some.injEq] at hnew
  subst hnew
  obtain ⟨hparent', -, -, -, -, -, -, hname'⟩ := bone_fields hbone
  have hstep : InStep (s'.entries p) (pos + nbLfn + 1) (pos + nbLfn) p child' := by
    refine ⟨⟨Nat.lt_succ_self _, hwritten.isNormal hpos hzero hvisible, hparent'.trans hparent, ?_,
      ?_⟩, hsmall, length, nbLfn, ?_, ?_⟩
    · rw [hname', hwritten.nameOf h.named.toWellFormed hname hzero]
      exact takeWhile_isKept_eq_iff.mpr hkept
    · rw [hdentry, Nat.mod_eq_of_lt hsmall]
    · rw [hname']
      exact hname
    · exact (hwritten.runLength h.named.toWellFormed).le
  apply hold.cons hc' hstep hcl hcp
  intro q hq inode hqi
  have hqc : q ≠ c := by
    rintro rfl
    exact hcl hq
  obtain ⟨old, i, hqold, hin⟩ := h.child q hq
  have hcore := hothers q hqc
  rw [hqi, hqold, Option.map_some, Option.map_some, Option.some.injEq] at hcore
  have hsame : inode.dentry = old.dentry := by
    have := congrArg Inode.dentry hcore
    exact this
  have hinside := hin.inside
  rw [hsame, hin.index, hdentry]
  omega

/-- What a lookup of the name of the new inode finds in the entries. -/
theorem Tended.reread_iff (h : Tended s p pos n l) (hc : s.inodes c = some child)
    (hname : checkNameLength child.name = some (length, nbLfn)) (hpos : 0 < child.name.length)
    (hzero : ∀ ch ∈ child.name, ch ≠ 0) (hcluster : child.cluster < 0x100000000)
    (hsize : child.size < 0x100000000) (habsent : Absent child.name (s.entries p) pos)
    (hroom : pos + nbLfn + 2 ≤ 128 * n) (hfuel : n ≤ fuel) (hsim : Similar s s')
    (hblock : s'.block (some p) = writeEntries (s.block (some p)) pos (stepList child.name
      ⟨child.cluster, child.size, child.isDir⟩ length nbLfn (nbLfn + 2)))
    (hc' : s'.inodes c = some child') (hdentry : child'.dentry = pos + nbLfn)
    (hsmall : pos + nbLfn < 0x10000) : Reread fuel c p s' ↔ Visible child.name ∧ 0xFF ∉ child.name := by
  obtain ⟨new, hnew, hbone⟩ := hsim.inode hc
  rw [hc', Option.some.injEq] at hnew
  subst hnew
  obtain ⟨-, -, -, -, -, -, -, hname'⟩ := bone_fields hbone
  have hd' := hsim.dirReady h.ready
  have hheap' := hsim.heapOk h.heapOk
  have hwritten : Written (s.entries p) (s'.entries p) pos nbLfn child.name
      ⟨child.cluster, child.size, child.isDir⟩ := by
    rw [FatState.entries, FatState.entries, hblock]
    exact written_writeEntries _ hname
  -- what the entries answer
  have hold : (scanFrom child.name (s.entries p) (128 * n) 0 {}).answer child.name = some none := by
    obtain ⟨scan, hscan⟩ := habsent
    rw [h.named.toWellFormed.scanFrom_eq (show pos < 128 * n by omega), hscan]
    rfl
  have hanswer := h.named.toWellFormed.new_answer ⟨child.cluster, child.size, child.isDir⟩ habsent
    hname hpos hzero hcluster hsize hroom child.name
  rw [← hblock, hold] at hanswer
  simp only [true_and, takeWhile_isKept_eq_iff] at hanswer
  have hnil : s'.Children none [] := ⟨rfl, fun q hq => absurd hq List.not_mem_nil⟩
  have hlookup {answer : Option (List UInt8 × EntryInfo)}
      (hscan : (scanFrom child.name (s'.entries p) (128 * n) 0 {}).answer child.name =
        some answer) : lookupAnswer fuel p child.name (s'.withChildren p none) = some answer :=
    lookupAnswer_withChildren hd' hheap' hnil (Nat.zero_le _) hfuel
      (fun q hq => absurd hq List.not_mem_nil) hscan
  constructor
  · rintro ⟨new, q, s₁, inode, hnew, hfound, hq, -⟩
    rw [hc', Option.some.injEq] at hnew
    subst hnew
    rw [hname'] at hfound
    by_contra hhidden
    rw [if_neg hhidden] at hanswer
    have hnone := hlookup hanswer
    rw [lookupAnswer, hfound, childAnswer, hq] at hnone
    cases hnone
  · rintro ⟨hvisible, hkept⟩
    rw [if_pos ⟨hvisible, hkept⟩] at hanswer
    have hsome := hlookup hanswer
    rw [lookupAnswer] at hsome
    obtain ⟨q, s₁, hfound⟩ : ∃ q s₁, getChildFromParent fuel p child.name (s'.withChildren p none) =
        .ok (.found q) s₁ := by
      cases hrun : getChildFromParent fuel p child.name (s'.withChildren p none) with
      | error e t =>
        rw [hrun] at hsome
        cases hsome
      | ok r t =>
        rw [hrun] at hsome
        cases r with
        | found q => exact ⟨q, t, rfl⟩
        | notFound => cases hsome
        | ioError => cases hsome
    obtain ⟨father, hp, -⟩ := hd'.live
    have hnamed : WellNamed ((s'.withChildren p none).entries p) (pos + nbLfn + 1) := by
      rw [withChildren_entries]
      exact hwritten.wellNamed h.named hname hpos hzero hvisible
    obtain ⟨-, -, inode, i, hq, hin, hdes⟩ := getChildFromParent_designates
      (withChildren_dirReady hd' none) hnamed (by omega) (withChildren_heapOk hp hheap' none)
      (withChildren_self hp none) (hnil.withChildren p none)
      (fun q hq => absurd hq List.not_mem_nil) (Nat.zero_le _) hfuel hfound
    rw [withChildren_entries] at hdes
    have hi : i = pos + nbLfn := by
      -- the old entries have other names, and the others are LFN ones
      have hinside := hdes.inside
      have hnormal := hdes.normal
      by_contra hne
      by_cases hlt : i < pos
      · apply h.named.absent habsent i hlt ((hwritten.before i hlt).isNormal_iff.mp hnormal)
        rw [← hin, hdes.name, (hwritten.sameName hlt).nameOf]
      · have hlong := hwritten.isLong (t := pos + nbLfn - i - 1) (by omega)
        rw [show pos + nbLfn - (pos + nbLfn - i - 1 + 1) = i by omega] at hlong
        exact hnormal.2.2 hlong.2.2
    refine ⟨child', q, s₁, inode, hc', by rw [hname', hfound], hq, ?_⟩
    rw [hdes.dentry, hi, hdentry]
    exact Nat.mod_eq_of_lt hsmall

/-- `_add_dir_entry` succeeds and writes the NORMAL entry after the LFN ones. The index in the
inode is its position, a lookup that reads the entry again computes the same index, and all later
calls on the children are on their own entries only: exactly when the entries of the name are all
in the cluster where `NO_MORE_ENTRY` was, 16 bits hold the position, and the name is one that
lookups find. -/
theorem addDirEntry_index_iff (h : Tended s p pos n l) (hc : s.inodes c = some child)
    (hparent : child.parent = some p) (hcl : c ∉ l) (hcp : c ≠ p)
    (hname : checkNameLength child.name = some (length, nbLfn)) (hpos : 0 < child.name.length)
    (hzero : ∀ ch ∈ child.name, ch ≠ 0) (hcluster : child.cluster < 0x100000000)
    (hsize : child.size < 0x100000000) (habsent : Absent child.name (s.entries p) pos)
    (hroom : pos + nbLfn + 2 ≤ 128 * n) (hfuel : n ≤ fuel) :
    ∃ child' s', addDirEntry fuel c (some p) s = .ok false s' ∧ s'.inodes c = some child' ∧
      SameEntry (s'.entries p (pos + nbLfn))
        (normalEntry child.name ⟨child.cluster, child.size, child.isDir⟩) ∧
      ((child'.dentry = pos + nbLfn ∧ Reread fuel c p s' ∧
          ∀ calls, CallsOn (c :: l) calls → CallsOwn fuel p (pos + nbLfn + 1) calls s') ↔
        pos % 128 + nbLfn < 128 ∧ pos + nbLfn < 0x10000 ∧ Visible child.name ∧
          0xFF ∉ child.name) := by
  obtain ⟨s', hrun, hsim, hblock, hconfined, child', hc', hdentry⟩ :=
    addDirEntry_run h.ready hc hname h.named.live h.named.stop hroom hfuel
  have hwritten : Written (s.entries p) (s'.entries p) pos nbLfn child.name
      ⟨child.cluster, child.size, child.isDir⟩ := by
    rw [FatState.entries, FatState.entries, hblock]
    exact written_writeEntries _ hname
  have hnb := (checkNameLength_eq hname).2
  have hindex : storedIndex pos nbLfn = pos + nbLfn ↔ _ := storedIndex_eq_iff (by omega)
  rw [← hdentry] at hindex
  refine ⟨child', s', hrun, hc', hwritten.normal, ?_⟩
  constructor
  · rintro ⟨hright, hreread, -⟩
    obtain ⟨hcluster', hsmall⟩ := hindex.mp hright
    obtain ⟨hvisible, hkept⟩ := (h.reread_iff hc hname hpos hzero hcluster hsize habsent hroom hfuel
      hsim hblock hc' hright hsmall).mp hreread
    exact ⟨hcluster', hsmall, hvisible, hkept⟩
  · rintro ⟨hcluster', hsmall, hvisible, hkept⟩
    have hright := hindex.mpr ⟨hcluster', hsmall⟩
    refine ⟨hright, ?_, fun calls hcalls => ?_⟩
    · exact (h.reread_iff hc hname hpos hzero hcluster hsize habsent hroom hfuel hsim hblock hc'
        hright hsmall).mpr ⟨hvisible, hkept⟩
    · exact (h.added hc hparent hcl hcp hname hpos hzero hvisible hkept hsmall hwritten hsim
        hconfined.others hc' hright).calls (by omega) hfuel hcalls

end Index

/-! ## An entry in the next cluster -/

/-- The state with another parent for an inode. -/
def FatState.adopt (s : FatState) (c p : Ptr) : FatState :=
  { s with inodes := fun q => (s.inodes q).map fun inode =>
      if q = c then { inode with parent := some p } else inode }

theorem adopt_sameFile (s : FatState) (c p q : Ptr) : SameFile s (s.adopt c p) q := by
  refine ⟨rfl, rfl, rfl, rfl, ?_⟩
  change ((s.inodes q).map _).map Inode.place = _
  rw [Option.map_map]
  congr 1
  funext inode
  rw [Function.comp_apply]
  split
  · rfl
  · rfl

theorem adopt_tended {s : FatState} {c p : Ptr} {pos n : ℕ} (hd : s.DirReady p n)
    (hnamed : WellNamed (s.entries p) pos) (hheap : s.HeapOk) :
    Tended (s.adopt c p) p pos n [] where
  ready := (adopt_sameFile s c p p).dirReady hd
  named := by
    rw [(adopt_sameFile s c p p).entries]
    exact hnamed
  heapOk := fun q hq => congrArg (Option.map _) (hheap q hq)
  nodup := List.nodup_nil
  other := List.not_mem_nil
  child := fun q hq => absurd hq List.not_mem_nil
  apart := fun q hq => absurd hq List.not_mem_nil

/-- The inode of a new file. -/
def newFile (name : List UInt8) : Inode :=
  { parent := some 0, next := none, child := none, cache := RadixTree.emptyNode 4
    cluster := endOfChainClusterMax, size := 0, count := 0, dentry := 0, levels := 1
    isDir := false, name := name }

theorem freshDir_newFile (name : List UInt8) :
    ((freshDir name).adopt 1 0).inodes 1 = some (newFile name) := rfl

theorem freshDir_index :
    ∃ child' s', addDirEntry 1 1 (some 0) ((freshDir [0x61]).adopt 1 0) = .ok false s' ∧
      s'.inodes 1 = some child' ∧
      SameEntry (s'.entries 0 (0 + 1))
        (normalEntry [0x61] ⟨endOfChainClusterMax, 0, false⟩) ∧
      ((child'.dentry = 0 + 1 ∧ Reread 1 1 0 s' ∧
          ∀ calls, CallsOn [1] calls → CallsOwn 1 0 (0 + 1 + 1) calls s') ↔
        0 % 128 + 1 < 128 ∧ 0 + 1 < 0x10000 ∧ Visible [0x61] ∧ 0xFF ∉ [(0x61 : UInt8)]) := by
  have hzero : ∀ ch ∈ (newFile [0x61]).name, ch ≠ 0 := by simp [newFile]
  exact addDirEntry_index_iff
    (adopt_tended (freshDir_dirReady _)
      ⟨freshDir_wellFormed _, fun _ h => absurd h (Nat.not_lt_zero _),
        fun _ h => absurd h (Nat.not_lt_zero _)⟩ (freshDir_heapOk _))
    (freshDir_newFile [0x61]) rfl List.not_mem_nil (by decide)
    (rfl : checkNameLength [0x61] = some (1, 1)) (by decide) hzero (by decide) (by decide)
    ⟨_, rfl⟩ (by decide) le_rfl

/-- A directory of two clusters whose first entry is in use. The next ones are free, and
`NO_MORE_ENTRY` is the last entry of the first cluster. The FAT comes first and links the two. -/
def crossDir : FatState :=
  { freshDir [0x62] with
    dataLba := 8
    device := ⟨fun a =>
        if a < 4096 then if a = 8 then 3 else 0
        else if a = 4096 then 0x41
        else if a < 8160 ∧ a % 32 = 0 then 0xE5
        else 0,
      fun _ => false, 0⟩ }

theorem crossDir_dirReady : crossDir.DirReady 0 2 := by
  refine ⟨cacheOk_emptyNode 2, fun _ => rfl, _, rfl, cacheOk_emptyNode 3, Or.inr (by decide), ?_⟩
  intro k hk
  obtain rfl | rfl : k = 0 ∨ k = 1 := by omega
  · exact ⟨fun j hj => absurd hj (Nat.not_lt_zero j), le_rfl⟩
  · refine ⟨fun j hj => ?_, ?_⟩
    · obtain rfl : j = 0 := by omega
      rw [FatState.InFat]
      decide +kernel
    · decide +kernel

theorem crossDir_wellNamed : WellNamed (crossDir.entries 0) 127 where
  live := by decide +kernel
  stop := by decide +kernel
  runs := by decide +kernel
  numbers := by decide +kernel
  bounded := by decide +kernel

/-- The scan goes on. -/
def ScanResult.isNext : ScanResult → Bool
  | .next _ => true
  | _ => false

/-- The scan of the first entries meets no other name. -/
theorem crossDir_absent : Absent [0x62] (crossDir.entries 0) 127 := by
  have hnext : (scanFrom [0x62] (crossDir.entries 0) 127 0 {}).isNext = true := by decide +kernel
  revert hnext
  rw [Absent]
  generalize scanFrom [0x62] (crossDir.entries 0) 127 0 {} = result
  intro hnext
  cases result with
  | next scan => exact ⟨scan, rfl⟩
  | noMore => cases hnext
  | found offset info scan => cases hnext
  | undefined => cases hnext

/-- The NORMAL entry of the new file is entry 128, and the index in its inode is 0: the entry of
another file. -/
theorem crossDir_index : Tended (crossDir.adopt 1 0) 0 127 2 [] ∧
    Absent [0x62] ((crossDir.adopt 1 0).entries 0) 127 ∧ IsNormal (crossDir.entries 0 0) ∧
    ∃ child' s', addDirEntry 2 1 (some 0) (crossDir.adopt 1 0) = .ok false s' ∧
      s'.inodes 1 = some child' ∧
      SameEntry (s'.entries 0 128) (normalEntry [0x62] ⟨endOfChainClusterMax, 0, false⟩) ∧
      child'.dentry = 0 := by
  have htended : Tended (crossDir.adopt 1 0) 0 127 2 [] :=
    adopt_tended crossDir_dirReady crossDir_wellNamed (freshDir_heapOk _)
  refine ⟨htended, ?_, by decide +kernel, ?_⟩
  · rw [(adopt_sameFile crossDir 1 0 0).entries]
    exact crossDir_absent
  · obtain ⟨s', hrun, -, hblock, -, child', hc', hdentry⟩ :=
      addDirEntry_run htended.ready
        (show (crossDir.adopt 1 0).inodes 1 = some (newFile [0x62]) from rfl)
        (rfl : checkNameLength [0x62] = some (1, 1)) htended.named.live htended.named.stop (by decide)
        le_rfl
    refine ⟨child', s', hrun, hc', ?_, hdentry⟩
    rw [FatState.entries, hblock]
    exact (written_writeEntries _ (rfl : checkNameLength [0x62] = some (1, 1))).normal

end GietVm.Fat
