import GietVm.Genmap.References

/-!
# The system calls that search a vseg by its name

The loops of the kernel on the binary mapping go through intervals of global indexes in increasing
order. Two system calls search the vspaces for a name and the vsegs of a vspace for another. Read
through the references, they find a vseg that was declared under these names whenever there is one.
-/

namespace GietVm.Genmap

open GietVm.Library

/-! ## Loops and strings -/

/-- The values of the index of a loop `for ( i = lo ; i < hi ; i++ )`. -/
def wordRange (lo hi : Word) : List Word :=
  (List.range' lo.toNat (hi.toNat - lo.toNat)).map (BitVec.ofNat 32)

/-- The loop of `_strncmp`, from a position on. -/
def strncmpFrom (s1 s2 : ℕ → BitVec 8) : ℕ → ℕ → Word
  | _, 0 => 0
  | i, n + 1 =>
    if s1 i ≠ s2 i then 1
    else if s1 i = 0 then 0
    else strncmpFrom s1 s2 (i + 1) n

/-- `_strncmp` -/
def strncmp (s1 s2 : ℕ → BitVec 8) (n : ℕ) : Word := strncmpFrom s1 s2 0 n

/-- The character at a position of a field. -/
def charAt (field : List (BitVec 8)) (i : ℕ) : BitVec 8 := field.getD i 0

/-! ## Searches -/

namespace Image

variable (im : Image)

/-- The two loops of `_sys_vseg_get_vbase` and `_sys_vseg_get_length`: the field that is stored when
zero is returned. -/
def vsegGet {α : Type} (get : MappingVseg → α) (vspaceName vsegName : ℕ → BitVec 8) : Option α :=
  (wordRange 0 im.header.vspaces).findSome? fun vspaceId =>
    if strncmp (charAt (im.vspace vspaceId).name) vspaceName 31 = 0 then
      let min := (im.vspace vspaceId).vsegOffset
      let max := min + (im.vspace vspaceId).vsegs
      (wordRange min max).findSome? fun vsegId =>
        if strncmp (charAt (im.vseg vsegId).name) vsegName 31 = 0 then some (get (im.vseg vsegId))
        else none
    else none

/-- `_sys_vseg_get_vbase` -/
def sysVsegGetVbase (vspaceName vsegName : ℕ → BitVec 8) : Option Word :=
  im.vsegGet MappingVseg.vbase vspaceName vsegName

/-- `_sys_vseg_get_length` -/
def sysVsegGetLength (vspaceName vsegName : ℕ → BitVec 8) : Option Word :=
  im.vsegGet MappingVseg.length vspaceName vsegName

end Image

/-! ## Loops -/

theorem mem_wordRange {lo hi w : Word} : w ∈ wordRange lo hi ↔ lo ≤ w ∧ w < hi := by
  rw [wordRange, List.mem_map]
  constructor
  · intro ⟨k, hk, hw⟩
    rw [List.mem_range'_1] at hk
    have hhi := hi.isLt
    rw [← hw, BitVec.le_def, BitVec.lt_def, word_toNat (by omega)]
    omega
  · intro ⟨hlo, hhi⟩
    rw [BitVec.le_def] at hlo
    rw [BitVec.lt_def] at hhi
    refine ⟨w.toNat, ?_, ?_⟩
    · rw [List.mem_range'_1]
      omega
    · rw [BitVec.ofNat_toNat, BitVec.setWidth_eq]

/-- The indexes of a loop over what an offset and a count cover. -/
theorem Covers.mem_wordRange {α : Type} {offset count w : Word} {l : List α} {p : α → Prop}
    (h : Covers offset count l p) (hlen : l.length < 2 ^ 32) :
    w ∈ wordRange offset (offset + count) ↔ ∃ o, l[w.toNat]? = some o ∧ p o := by
  rw [← h w.toNat, GietVm.Genmap.mem_wordRange, BitVec.le_def, BitVec.lt_def]
  have hsum : (offset + count).toNat = offset.toNat + count.toNat ∨ count.toNat = 0 := by
    by_cases hzero : count.toNat = 0
    · exact Or.inr hzero
    · obtain ⟨o, ho, _⟩ := (h (offset.toNat + count.toNat - 1)).1 (by omega)
      have hlt := (List.getElem?_eq_some_iff.1 ho).1
      rw [BitVec.toNat_add, Nat.mod_eq_of_lt (by omega)]
      exact Or.inl rfl
  obtain hsum | hzero := hsum
  · rw [hsum]
  · have hadd : (offset + count).toNat = offset.toNat := by
      rw [BitVec.toNat_add, hzero, Nat.add_zero, Nat.mod_eq_of_lt offset.isLt]
    rw [hadd, hzero]
    omega

theorem word_eq_ofNat (w : Word) : w = BitVec.ofNat 32 w.toNat := by
  rw [BitVec.ofNat_toNat, BitVec.setWidth_eq]

/-! ## Strings -/

/-- The characters from the first position on are those of the string, and then a NUL. -/
structure Spells (f : ℕ → BitVec 8) (s : Text) : Prop where
  char : ∀ i (h : i < s.length), f i = s[i]
  nul : f s.length = 0
  noNul : ∀ b ∈ s, b ≠ 0

/-- The characters of a Python string before its first NUL. -/
def cName (s : Text) : Text := s.takeWhile (· ≠ 0)

theorem Spells.tail {f : ℕ → BitVec 8} {i : ℕ} {b : BitVec 8} {s : Text}
    (h : Spells (fun j => f (i + j)) (b :: s)) : Spells (fun j => f (i + 1 + j)) s := by
  constructor
  · intro j hj
    have := h.char (j + 1) (Nat.succ_lt_succ hj)
    rwa [← Nat.add_assoc, Nat.add_right_comm] at this
  · have := h.nul
    rwa [List.length_cons, ← Nat.add_assoc, Nat.add_right_comm] at this
  · intro c hc
    exact h.noNul c (List.mem_cons_of_mem _ hc)

theorem Spells.head_nil {f : ℕ → BitVec 8} {i : ℕ} (h : Spells (fun j => f (i + j)) []) :
    f i = 0 := h.nul

theorem Spells.head_cons {f : ℕ → BitVec 8} {i : ℕ} {b : BitVec 8} {s : Text}
    (h : Spells (fun j => f (i + j)) (b :: s)) : f i = b ∧ b ≠ 0 :=
  ⟨h.char 0 (Nat.succ_pos _), h.noNul b List.mem_cons_self⟩

/-- Two strings are compared up to the first NUL. -/
theorem strncmpFrom_iff {f g : ℕ → BitVec 8} {n i : ℕ} {s t : Text}
    (hs : Spells (fun j => f (i + j)) s) (ht : Spells (fun j => g (i + j)) t) (hn : s.length < n) :
    strncmpFrom f g i n = 0 ↔ s = t := by
  induction n generalizing i s t with
  | zero => exact absurd hn (Nat.not_lt_zero _)
  | succ n ih =>
    rw [strncmpFrom]
    cases s with
    | nil =>
      rw [hs.head_nil]
      cases t with
      | nil =>
        rw [ht.head_nil, if_neg (not_not.2 rfl), if_pos rfl]
        exact iff_of_true rfl rfl
      | cons c t =>
        obtain ⟨hg, hc⟩ := ht.head_cons
        rw [hg, if_pos (Ne.symm hc)]
        exact iff_of_false (by decide) (List.cons_ne_nil c t).symm
    | cons b s =>
      obtain ⟨hf, hb⟩ := hs.head_cons
      rw [hf]
      cases t with
      | nil =>
        rw [ht.head_nil, if_pos hb]
        exact iff_of_false (by decide) (List.cons_ne_nil b s)
      | cons c t =>
        obtain ⟨hg, _⟩ := ht.head_cons
        rw [hg, if_neg hb]
        by_cases hbc : b = c
        · rw [if_neg (not_not.2 hbc), ih hs.tail ht.tail (Nat.lt_of_succ_lt_succ hn), hbc,
            List.cons.injEq]
          exact (and_iff_right rfl).symm
        · rw [if_pos hbc]
          refine iff_of_false (by decide) ?_
          intro heq
          exact hbc (List.cons.inj heq).1

/-- A string that is followed by a NUL, up to its first NUL. -/
theorem exists_cName (name pad : Text) :
    ∃ rest, name ++ 0 :: pad = cName name ++ 0 :: rest := by
  induction name with
  | nil => exact ⟨pad, rfl⟩
  | cons b name ih =>
    by_cases hb : b = 0
    · refine ⟨name ++ 0 :: pad, ?_⟩
      rw [cName, List.takeWhile_cons_of_neg (by simpa using hb), hb]
      rfl
    · obtain ⟨rest, hrest⟩ := ih
      refine ⟨rest, ?_⟩
      rw [cName, List.takeWhile_cons_of_pos (by simpa using hb), List.cons_append, hrest]
      rfl

theorem cName_length_le (name : Text) : (cName name).length ≤ name.length :=
  (List.takeWhile_sublist _).length_le

theorem cName_ne_zero {name : Text} {b : BitVec 8} (h : b ∈ cName name) : b ≠ 0 := by
  simpa using List.all_eq_true.1 List.all_takeWhile b h

/-- A field of fixed size holds its text as a string. -/
theorem spells_padded {n : ℕ} {name : Text} (h : name.length < n) :
    Spells (charAt (padded n name)) (cName name) := by
  have hpad : padded n name = name ++ 0 :: List.replicate (n - name.length - 1) 0 := by
    rw [padded, ← List.replicate_succ, Nat.sub_add_cancel (by omega)]
  obtain ⟨rest, hrest⟩ := exists_cName name (List.replicate (n - name.length - 1) 0)
  rw [hpad, hrest]
  constructor
  · intro i hi
    rw [charAt, List.getD_eq_getElem?_getD, List.getElem?_append_left hi,
      List.getElem?_eq_getElem hi, Option.getD_some]
  · rw [charAt, List.getD_eq_getElem?_getD, List.getElem?_append_right (Nat.le_refl _),
      Nat.sub_self]
    rfl
  · intro b hb
    exact cName_ne_zero hb

/-! ## Fields -/

/-- A number that a vseg was declared with is the value of its word. -/
theorem toNat_ofInt_of_lowBits {v : ℤ} (h : lowBits v 32 = v) :
    ((BitVec.ofInt 32 v).toNat : ℤ) = v := by
  rw [lowBits] at h
  rw [BitVec.toNat_ofInt]
  omega

/-- The fields of a vseg that are searched or returned. -/
structure VsegFields (args : VsegArgs) (v : MappingVseg) : Prop where
  short : args.name.length < 31
  name : Spells (charAt v.name) (cName args.name)
  vbase : (v.vbase.toNat : ℤ) = args.vbase
  length : (v.length.toNat : ℤ) = args.length
  type : v.type = BitVec.ofNat 32 args.vtype.id

namespace Agrees

variable {a : MappingArgs} {d : Declared} {m : Mapping} {im : Image} {k : ℕ}

theorem vsegFields (h : Agrees a d m) (hw : Written im m) {args : VsegDecl}
    (hk : d.vsegs[k]? = some args) : VsegFields args.toVsegArgs (im.vseg (BitVec.ofNat 32 k)) := by
  have hget := h.software.vsegs.getElem? (numbered_ownedVsegs hw) k
  rw [hk] at hget
  obtain ⟨⟨w, v⟩, ho, rfl⟩ := Option.map_eq_some_iff.1 hget.symm
  have hv : m.vsegs[k]? = some v := by
    rw [← map_ownedVsegs, List.getElem?_map, ho]
    rfl
  obtain ⟨⟨_, hname, _⟩, i, _, _, hrecord⟩ := hw.vsegs k v hv
  obtain ⟨hvbase, hlength⟩ := h.software.words _ (List.mem_of_getElem? hk)
  rw [hrecord]
  constructor
  · exact hname
  · exact spells_padded (by omega)
  · exact toNat_ofInt_of_lowBits hvbase
  · exact toNat_ofInt_of_lowBits hlength
  · rfl

theorem vspaceName (h : Agrees a d m) (hw : Written im m) {args : VspaceArgs}
    (hk : d.vspaces[k]? = some args) :
    args.name.length < 31 ∧
      Spells (charAt (im.vspace (BitVec.ofNat 32 k)).name) (cName args.name) := by
  obtain ⟨s, hs, rfl⟩ := h.exists_vspace hk
  obtain ⟨⟨_, hname, _⟩, hrecord⟩ := hw.vspaces k s hs
  rw [hrecord]
  exact ⟨hname, spells_padded (by omega)⟩

/-- The indexes of the loop over the vspaces. -/
theorem mem_vspaces (h : Agrees a d m) (hw : Written im m) {w : Word} :
    w ∈ wordRange 0 im.header.vspaces ↔ ∃ s, d.vspaces[w.toNat]? = some s := by
  have hsizes := h.sizes hw
  have hcount : im.header.vspaces.toNat = d.vspaces.length := by
    rw [hw.header]
    change (BitVec.ofNat 32 m.totalVspaces).toNat = _
    rw [h.totalVspaces, word_toNat (by omega)]
  rw [mem_wordRange, BitVec.lt_def, hcount]
  constructor
  · intro ⟨_, hlt⟩
    exact ⟨_, List.getElem?_eq_getElem hlt⟩
  · intro ⟨s, hs⟩
    exact ⟨Nat.zero_le _, (List.getElem?_eq_some_iff.1 hs).1⟩

/-- The indexes of the loop over the vsegs of a vspace. -/
theorem mem_vsegRange (h : Agrees a d m) (hw : Written im m) {s : VspaceArgs} {i w : Word}
    (hi : d.vspaces[i.toNat]? = some s) :
    w ∈ wordRange (im.vspace i).vsegOffset ((im.vspace i).vsegOffset + (im.vspace i).vsegs) ↔
      ∃ v, d.vsegs[w.toNat]? = some v ∧ v.vspace = some i.toNat := by
  have hsizes := h.sizes hw
  have hrefs := (h.vspaceRefs hw hi).vsegs
  rw [← word_eq_ofNat] at hrefs
  exact hrefs.mem_wordRange (by omega)

end Agrees

/-! ## Vsegs by name -/

/-- The declared vseg has the number and the name in a vspace of the given name. -/
def Declared.Named (d : Declared) (vspaceName vsegName : Text) (k : ℕ) (v : VsegDecl) : Prop :=
  d.vsegs[k]? = some v ∧ cName v.name = vsegName ∧
    ∃ i s, v.vspace = some i ∧ d.vspaces[i]? = some s ∧ cName s.name = vspaceName

section Names

variable {a : MappingArgs} {d : Declared} {m : Mapping} {im : Image}
  {vspaceName vsegName : ℕ → BitVec 8} {vspaceText vsegText : Text}

/-- The loops find an index, and then read one word there. -/
theorem vsegGet_eq_map {α : Type} (get : MappingVseg → α) :
    im.vsegGet get vspaceName vsegName = (im.vsegGet id vspaceName vsegName).map get := by
  rw [Image.vsegGet, Image.vsegGet, List.map_findSome?]
  congr 1
  funext i
  rw [Function.comp_apply]
  split
  · rw [List.map_findSome?]
    dsimp only
    congr 1
    funext k
    rw [Function.comp_apply]
    split
    · rfl
    · rfl
  · rfl

/-- A name in the mapping is compared with an argument. -/
theorem strncmp_cName {f : ℕ → BitVec 8} {name text : Text} {g : ℕ → BitVec 8}
    (hname : name.length < 31) (hf : Spells f (cName name)) (hg : Spells g text) :
    strncmp f g 31 = 0 ↔ cName name = text := by
  have hlen := cName_length_le name
  refine strncmpFrom_iff ?_ ?_ (by omega)
  · simpa only [Nat.zero_add] using hf
  · simpa only [Nat.zero_add] using hg

theorem Agrees.vseg_strncmp (h : Agrees a d m) (hw : Written im m)
    (hvseg : Spells vsegName vsegText) {w : Word} {v : VsegDecl}
    (hk : d.vsegs[w.toNat]? = some v) :
    strncmp (charAt (im.vseg w).name) vsegName 31 = 0 ↔ cName v.name = vsegText := by
  have hfields := h.vsegFields hw hk
  rw [← word_eq_ofNat] at hfields
  exact strncmp_cName hfields.short hfields.name hvseg

theorem Agrees.vspace_strncmp (h : Agrees a d m) (hw : Written im m)
    (hvspace : Spells vspaceName vspaceText) {w : Word} {s : VspaceArgs}
    (hk : d.vspaces[w.toNat]? = some s) :
    strncmp (charAt (im.vspace w).name) vspaceName 31 = 0 ↔ cName s.name = vspaceText := by
  obtain ⟨hshort, hname⟩ := h.vspaceName hw hk
  rw [← word_eq_ofNat] at hname
  exact strncmp_cName hshort hname hvspace

/-- The loops find a declared vseg of the two names, and find one if there is one. -/
theorem Agrees.vsegGet_id (h : Agrees a d m) (hw : Written im m)
    (hvspace : Spells vspaceName vspaceText) (hvseg : Spells vsegName vsegText) :
    (∃ k v, d.Named vspaceText vsegText k v ∧
      im.vsegGet id vspaceName vsegName = some (im.vseg (BitVec.ofNat 32 k))) ∨
    (∀ k v, ¬d.Named vspaceText vsegText k v) ∧
      im.vsegGet id vspaceName vsegName = none := by
  cases hfind : im.vsegGet id vspaceName vsegName with
  | some r =>
    left
    obtain ⟨i, hi, hinner⟩ := List.exists_of_findSome?_eq_some hfind
    obtain ⟨s, hs⟩ := (h.mem_vspaces hw).1 hi
    split at hinner
    · next hname =>
      obtain ⟨w, hmem, hw'⟩ := List.exists_of_findSome?_eq_some hinner
      obtain ⟨v, hv, howner⟩ := (h.mem_vsegRange hw hs).1 hmem
      split at hw'
      · next hname' =>
        refine ⟨w.toNat, v, ⟨hv, (h.vseg_strncmp hw hvseg hv).1 hname', i.toNat, s, howner, hs,
          (h.vspace_strncmp hw hvspace hs).1 hname⟩, ?_⟩
        rw [← word_eq_ofNat]
        exact hw'.symm
      · cases hw'
    · cases hinner
  | none =>
    right
    refine ⟨?_, rfl⟩
    intro k v ⟨hv, hname', i, s, howner, hs, hname⟩
    have hsizes := h.sizes hw
    have hi : (BitVec.ofNat 32 i).toNat = i :=
      word_toNat (by have := (List.getElem?_eq_some_iff.1 hs).1; omega)
    have hk : (BitVec.ofNat 32 k).toNat = k :=
      word_toNat (by have := (List.getElem?_eq_some_iff.1 hv).1; omega)
    rw [← hi] at hs howner
    rw [← hk] at hv
    have hinner := List.findSome?_eq_none_iff.1 hfind _ ((h.mem_vspaces hw).2 ⟨s, hs⟩)
    rw [if_pos ((h.vspace_strncmp hw hvspace hs).2 hname)] at hinner
    have hget := List.findSome?_eq_none_iff.1 hinner _
      ((h.mem_vsegRange hw hs).2 ⟨v, hv, howner⟩)
    rw [if_pos ((h.vseg_strncmp hw hvseg hv).2 hname')] at hget
    cases hget

end Names

/-- The two system calls give the base and the length of one declared vseg, whose name and whose
vspace's name are the arguments, or both find none and no such vseg was declared. -/
theorem sysVsegGet_declared {a : MappingArgs} {calls : List Call} {m : Mapping} {bytes : Text}
    {im : Image} (hbuild : buildMapping a calls = .ok m) (hcbin : m.cbin = .ok bytes)
    (hload : Loaded im a bytes) {vspaceName vsegName : ℕ → BitVec 8} {vspaceText vsegText : Text}
    (hvspace : Spells vspaceName vspaceText) (hvseg : Spells vsegName vsegText) :
    (∃ k v vbase length, (declared a calls).Named vspaceText vsegText k v ∧
      im.sysVsegGetVbase vspaceName vsegName = some vbase ∧ (vbase.toNat : ℤ) = v.vbase ∧
      im.sysVsegGetLength vspaceName vsegName = some length ∧ (length.toNat : ℤ) = v.length) ∨
    (∀ k v, ¬(declared a calls).Named vspaceText vsegText k v) ∧
      im.sysVsegGetVbase vspaceName vsegName = none ∧
      im.sysVsegGetLength vspaceName vsegName = none := by
  have h := buildMapping_agrees hbuild
  have hw : Written im m := cbin_written h.counted hcbin (h.args ▸ hload)
  rw [Image.sysVsegGetVbase, Image.sysVsegGetLength, vsegGet_eq_map MappingVseg.vbase,
    vsegGet_eq_map MappingVseg.length]
  obtain ⟨k, v, hnamed, hget⟩ | ⟨hnone, hget⟩ := h.vsegGet_id hw hvspace hvseg
  · left
    have hfields := h.vsegFields hw hnamed.1
    rw [hget]
    exact ⟨k, v, _, _, hnamed, rfl, hfields.vbase, rfl, hfields.length⟩
  · right
    rw [hget]
    exact ⟨hnone, rfl, rfl⟩

/-- The vseg of the small script is found. -/
theorem sysVsegGet_declared_small :
    ∃ m bytes, buildMapping smallArgs (smallScript []) = .ok m ∧ m.cbin = .ok bytes ∧ ∀ base,
      ∃ vbase, Image.sysVsegGetVbase ⟨⟨1, 1⟩, ByteMemory.ofBytes base bytes, base⟩
        (charAt [0x61, 0]) (charAt [0x73, 0]) = some vbase := by
  obtain ⟨m, bytes, hbuild, hcbin, hload⟩ :=
    exists_written smallArgs (smallScript []) (by decide +kernel)
  refine ⟨m, bytes, hbuild, hcbin, ?_⟩
  intro base
  have hvspace : Spells (charAt [0x61, 0]) [0x61] := ⟨by decide, by decide, by decide⟩
  have hvseg : Spells (charAt [0x73, 0]) [0x73] := ⟨by decide, by decide, by decide⟩
  obtain ⟨_, _, vbase, _, _, hfound, _⟩ | ⟨hnone, _⟩ :=
    sysVsegGet_declared hbuild hcbin (hload base) hvspace hvseg
  · exact ⟨vbase, hfound⟩
  · exact absurd ⟨rfl, by decide, 0, _, rfl, rfl, by decide⟩ (hnone 0 _)

end GietVm.Genmap
