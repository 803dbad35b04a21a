import GietVm.Fat.Calm

/-!
# The Inode-Tree grows

A lookup loads the inodes that it meets, and a new node is the first child of its directory.
Nothing else changes the tree in between, so a path that has been resolved once is resolved
again to the same inodes by the Inode-Tree alone: the search of a name meets a few more
inodes first, none of which has the name. `Grown n s s'` counts these inodes, since the
searches take fuel.
-/

namespace GietVm.Fat

open GietVm.Library

variable {s s' s'' : FatState} {p c q : Ptr} {name : List UInt8} {fuel n m : ℕ}

/-! ## Searches among children -/

/-- A search among children leaves the state alone. -/
theorem findChild_state {first r : Option Ptr} (h : findChild name fuel first s = .ok r s') :
    s' = s := by
  induction fuel generalizing first with
  | zero =>
    cases first with
    | none =>
      injection h with _ hs
      exact hs.symm
    | some current => cases h
  | succ fuel ih =>
    cases first with
    | none =>
      injection h with _ hs
      exact hs.symm
    | some current =>
      obtain ⟨inode, s₁, hget, hrest⟩ := exits_bind_inv h
      obtain ⟨rfl, -⟩ := getInode_inv hget
      split at hrest
      · injection hrest with _ hs
        exact hs.symm
      · exact ih hrest

/-- A search goes through inodes with the same names and links in the same way, and more fuel does
not change its result. -/
theorem findChild_mono {first r : Option Ptr}
    (hsame : ∀ q inode, s.inodes q = some inode → ∃ inode', s'.inodes q = some inode' ∧
      inode'.name = inode.name ∧ inode'.next = inode.next)
    (h : findChild name fuel first s = .ok r s) (n : ℕ) :
    findChild name (fuel + n) first s' = .ok r s' := by
  induction fuel generalizing first with
  | zero =>
    cases first with
    | none =>
      injection h with hr _
      rw [← hr]
      cases n <;> rfl
    | some current => cases h
  | succ fuel ih =>
    rw [Nat.add_right_comm]
    cases first with
    | none =>
      injection h with hr _
      rw [← hr]
      rfl
    | some current =>
      obtain ⟨inode, s₁, hget, hrest⟩ := exits_bind_inv h
      obtain ⟨rfl, hcurrent⟩ := getInode_inv hget
      obtain ⟨inode', hcurrent', hname, hnext⟩ := hsame current inode hcurrent
      rw [findChild, exits_bind_ok (getInode_run hcurrent'), hname]
      split at hrest
      · rename_i heq
        injection hrest with hr _
        rw [if_pos heq, ← hr]
        rfl
      · rename_i hne
        rw [if_neg hne, hnext]
        exact ih hrest

/-- Two searches of a name have the same result. -/
theorem findChild_unique {first r r' : Option Ptr} {fuel' : ℕ}
    (h : findChild name fuel first s = .ok r s) (h' : findChild name fuel' first s = .ok r' s) :
    r = r' := by
  have hsame : ∀ q inode, s.inodes q = some inode → ∃ inode', s.inodes q = some inode' ∧
      inode'.name = inode.name ∧ inode'.next = inode.next := fun q inode hq => ⟨inode, hq, rfl, rfl⟩
  have hmore := findChild_mono hsame h fuel'
  have hmore' := findChild_mono hsame h' fuel
  rw [Nat.add_comm, hmore'] at hmore
  injection hmore with hr _
  exact hr.symm

/-! ## Growth -/

/-- A name leads to an inode among the children of a directory. -/
def FatState.Leads (s : FatState) (fuel : ℕ) (p : Ptr) (name : List UInt8) (q : Ptr) : Prop :=
  ∃ inode, s.inodes p = some inode ∧ findChild name fuel inode.child s = .ok (some q) s

/-- Names lead where they did, past at most `n` more inodes, and no inode has moved. -/
structure Grown (n : ℕ) (s s' : FatState) : Prop where
  root : s'.inodeTreeRoot = s.inodeTreeRoot
  parent : ∀ p inode, s.inodes p = some inode →
    ∃ inode', s'.inodes p = some inode' ∧ inode'.parent = inode.parent
  leads : ∀ fuel p name q, s.Leads fuel p name q → s'.Leads (fuel + n) p name q

theorem Grown.trans (h : Grown n s s') (h' : Grown m s' s'') : Grown (n + m) s s'' where
  root := h'.root.trans h.root
  parent := by
    intro p inode hp
    obtain ⟨inode₁, hp₁, hparent₁⟩ := h.parent p inode hp
    obtain ⟨inode₂, hp₂, hparent₂⟩ := h'.parent p inode₁ hp₁
    exact ⟨inode₂, hp₂, hparent₂.trans hparent₁⟩
  leads := by
    intro fuel p name q hleads
    rw [← Nat.add_assoc]
    exact h'.leads _ p name q (h.leads fuel p name q hleads)

theorem Grown.mono (h : Grown n s s') (hle : n ≤ m) : Grown m s s' where
  root := h.root
  parent := h.parent
  leads := by
    intro fuel p name q hleads
    obtain ⟨inode, hp, hfind⟩ := h.leads fuel p name q hleads
    refine ⟨inode, hp, ?_⟩
    have hmore := findChild_mono (fun q inode hq => ⟨inode, hq, rfl, rfl⟩) hfind (m - n)
    rwa [show fuel + n + (m - n) = fuel + m by omega] at hmore

theorem skeleton_bone (h : s'.skeleton = s.skeleton) (p : Ptr) :
    (s'.inodes p).map Inode.bone = (s.inodes p).map Inode.bone := by
  have hinodes := congrFun (congrArg FatState.inodes h) p
  simp only [FatState.skeleton, FatState.frame, FatState.bare, Option.map_map] at hinodes
  exact hinodes

/-- The inodes of states with the same skeleton have the same place in the tree. -/
theorem skeleton_inode (h : s'.skeleton = s.skeleton) {inode : Inode}
    (hp : s.inodes p = some inode) : ∃ inode', s'.inodes p = some inode' ∧
      inode'.bone = inode.bone := by
  have hbone := skeleton_bone h p
  rw [hp, Option.map_some, Option.map_eq_some_iff] at hbone
  exact hbone

theorem Grown.of_skeleton (h : s'.skeleton = s.skeleton) : Grown 0 s s' where
  root := by
    have hroot := congrArg FatState.inodeTreeRoot h
    exact hroot
  parent := by
    intro p inode hp
    obtain ⟨inode', hp', hbone⟩ := skeleton_inode h hp
    exact ⟨inode', hp', (bone_fields hbone).1⟩
  leads := by
    rintro fuel p name q ⟨inode, hp, hfind⟩
    obtain ⟨inode', hp', hbone⟩ := skeleton_inode h hp
    refine ⟨inode', hp', ?_⟩
    rw [(bone_fields hbone).2.2.1]
    refine findChild_mono (fun q inode hq => ?_) hfind 0
    obtain ⟨inode', hq', hbone'⟩ := skeleton_inode h hq
    exact ⟨inode', hq', (bone_fields hbone').2.2.2.2.2.2.2, (bone_fields hbone').2.1⟩

/-- A new inode is the first child of a directory where its name led nowhere. -/
theorem Grown.of_child {father new : Inode} (hroot : s'.inodeTreeRoot = s.inodeTreeRoot)
    (hp : s.inodes p = some father) (hc : s.inodes c = none)
    (hc' : s'.inodes c = some { new with next := father.child })
    (hp' : s'.inodes p = some { father with child := some c })
    (hothers : ∀ q, q ≠ c → q ≠ p → s'.inodes q = s.inodes q) {fuel₀ : ℕ}
    (hnone : findChild new.name fuel₀ father.child s = .ok none s) : Grown 1 s s' where
  root := hroot
  parent := by
    intro q inode hq
    by_cases hqp : q = p
    · subst hqp
      rw [hp, Option.some.injEq] at hq
      exact ⟨_, hp', by rw [hq]⟩
    · have hqc : q ≠ c := by
        rintro rfl
        rw [hc] at hq
        cases hq
      exact ⟨inode, by rw [hothers q hqc hqp, hq], rfl⟩
  leads := by
    have hsame : ∀ q inode, s.inodes q = some inode → ∃ inode', s'.inodes q = some inode' ∧
        inode'.name = inode.name ∧ inode'.next = inode.next := by
      intro q inode hq
      by_cases hqp : q = p
      · subst hqp
        rw [hp, Option.some.injEq] at hq
        exact ⟨_, hp', by rw [hq], by rw [hq]⟩
      · have hqc : q ≠ c := by
          rintro rfl
          rw [hc] at hq
          cases hq
        exact ⟨inode, by rw [hothers q hqc hqp, hq], rfl, rfl⟩
    rintro fuel q name r ⟨inode, hq, hfind⟩
    by_cases hqp : q = p
    · subst hqp
      rw [hp, Option.some.injEq] at hq
      subst hq
      refine ⟨_, hp', ?_⟩
      have hne : name ≠ new.name := by
        rintro rfl
        cases findChild_unique hfind hnone
      change findChild name (fuel + 1) (some c) s' = _
      rw [findChild, exits_bind_ok (getInode_run hc'), if_neg hne]
      exact findChild_mono hsame hfind 0
    · have hqc : q ≠ c := by
        rintro rfl
        rw [hc] at hq
        cases hq
      exact ⟨inode, by rw [hothers q hqc hqp, hq], findChild_mono hsame hfind 1⟩

/-! ## A new inode -/

section Born

variable {father : Inode} {info : EntryInfo} {dentry : ℕ}

theorem getLevelsFromSize_pos (size : ℕ) : getLevelsFromSize size ≠ 0 := by
  rw [getLevelsFromSize]
  split
  · decide
  · split
    · decide
    · split <;> decide

theorem Born.grown (h : Born s s' p father (childInode s.brk name info dentry p father))
    (hheap : s.HeapOk) (hp : s.inodes p = some father) {fuel₀ : ℕ}
    (hnone : findChild name fuel₀ father.child s = .ok none s) : Grown 1 s s' :=
  Grown.of_child (by rw [h.rest]) hp (hheap _ le_rfl)
    (show _ = some { childInode s.brk name info dentry p father with next := father.child } from
      h.child) h.father h.others hnone

theorem Born.cacheAt (h : Born s s' p father (childInode s.brk name info dentry p father))
    (hp : s.inodes p = some father) {owner : Option Ptr} (ho : owner ≠ some s.brk) :
    s'.cacheAt owner = s.cacheAt owner := by
  cases owner with
  | none =>
    rw [h.rest]
    rfl
  | some q =>
    by_cases hqp : q = p
    · subst hqp
      rw [cacheAt_inode h.father, cacheAt_inode hp]
    · rw [FatState.cacheAt, FatState.cacheAt, h.others q (fun hq => ho (congrArg some hq)) hqp]

theorem Born.cachesOk (h : Born s s' p father (childInode s.brk name info dentry p father))
    (hp : s.inodes p = some father) (hok : s.CachesOk) : s'.CachesOk := by
  intro owner levels root hcache
  by_cases ho : owner = some s.brk
  · subst ho
    rw [cacheAt_inode h.child] at hcache
    cases hcache
    obtain ⟨k, hk⟩ := Nat.exists_eq_succ_of_ne_zero (getLevelsFromSize_pos info.size)
    refine ⟨getLevelsFromSize_pos _, trivial, ?_⟩
    rw [childInode, hk]
    exact RadixTree.shaped_addRoot (RadixTree.shaped_null k) _
  · rw [h.cacheAt hp ho] at hcache
    exact hok owner levels root hcache

theorem Born.heapOk (h : Born s s' p father (childInode s.brk name info dentry p father))
    (hheap : s.HeapOk) (hp : s.inodes p = some father) : s'.HeapOk := by
  intro q hq
  have hbrk : s'.brk = s.brk + 1 + 1 := by rw [h.rest]
  rw [hbrk] at hq
  have hlt : s.brk < q := Nat.lt_of_lt_of_le (Nat.lt_add_of_pos_right (by decide : 0 < 2)) hq
  rw [h.others q hlt.ne', hheap q hlt.le]
  rintro rfl
  rw [hheap q hlt.le] at hp
  cases hp

end Born

/-! ## Lookups -/

/-- What a lookup that returned leaves, having loaded at most `n` inodes. -/
structure Looked (n : ℕ) (s s' : FatState) : Prop where
  grown : Grown n s s'
  cachesOk : s'.CachesOk
  heapOk : s'.HeapOk
  brk : s.brk ≤ s'.brk
  initialized : s'.initialized = s.initialized
  garbage : s'.garbage = s.garbage
  fails : s'.device.fails = s.device.fails

theorem Looked.refl (hok : s.CachesOk) (hheap : s.HeapOk) : Looked 0 s s :=
  ⟨Grown.of_skeleton rfl, hok, hheap, le_rfl, rfl, rfl, rfl⟩

theorem Looked.trans (h : Looked n s s') (h' : Looked m s' s'') : Looked (n + m) s s'' where
  grown := h.grown.trans h'.grown
  cachesOk := h'.cachesOk
  heapOk := h'.heapOk
  brk := h.brk.trans h'.brk
  initialized := h'.initialized.trans h.initialized
  garbage := h'.garbage.trans h.garbage
  fails := h'.fails.trans h.fails

theorem Looked.mono (h : Looked n s s') (hle : n ≤ m) : Looked m s s' :=
  { h with grown := h.grown.mono hle }

theorem Calm.heapOk {S : Scope} (h : Calm S s s') (hheap : s.HeapOk) : s'.HeapOk := by
  intro q hq
  have hbone := skeleton_bone h.skeleton q
  rwa [hheap q (h.brk.trans hq), Option.map_none, Option.map_eq_none_iff] at hbone

theorem skeleton_fails (h : s'.skeleton = s.skeleton) : s'.device.fails = s.device.fails := by
  have hfails := congrArg (fun t : FatState => t.device.fails) h
  exact hfails

theorem skeleton_garbage (h : s'.skeleton = s.skeleton) : s'.garbage = s.garbage := by
  have hgarbage := congrArg FatState.garbage h
  exact hgarbage

theorem skeleton_initialized (h : s'.skeleton = s.skeleton) : s'.initialized = s.initialized := by
  have hinitialized := congrArg FatState.initialized h
  exact hinitialized

theorem Calm.looked {S : Scope} (h : Calm S s s') (hok' : s'.CachesOk) (hheap : s.HeapOk) :
    Looked 0 s s' :=
  ⟨Grown.of_skeleton h.skeleton, hok', h.heapOk hheap, h.brk, skeleton_initialized h.skeleton,
    skeleton_garbage h.skeleton, skeleton_fails h.skeleton⟩

theorem Born.looked {father : Inode} {info : EntryInfo} {dentry : ℕ}
    (h : Born s s' p father (childInode s.brk name info dentry p father)) (hok : s.CachesOk)
    (hheap : s.HeapOk) (hp : s.inodes p = some father) {fuel₀ : ℕ}
    (hnone : findChild name fuel₀ father.child s = .ok none s) : Looked 1 s s' where
  grown := h.grown hheap hp hnone
  cachesOk := h.cachesOk hp hok
  heapOk := h.heapOk hheap hp
  brk := by rw [h.rest]; exact Nat.le_add_right _ 2
  initialized := by rw [h.rest]
  garbage := by rw [h.rest]
  fails := by rw [h.rest]

/-- The scan of a directory. -/
theorem calms_searchDirectory {S : Scope} (hn : S.touched none) (hp : S.touched (some p))
    (name : List UInt8) (fuel clusterId : ℕ) (scan : LfnScan) :
    Calms S (searchDirectory p name fuel clusterId scan) := by
  induction fuel generalizing clusterId scan with
  | zero => exact Calms.throw _
  | succ fuel ih =>
    refine (calms_getBuffer hn hp clusterId).bind fun r => ?_
    cases r with
    | none => exact Calms.pure _
    | some pdesc =>
      dsimp only
      split
      · exact ih _ _
      · exact Calms.pure _
      · exact Calms.pure _
      · exact Calms.throw _

/-- The tree alone gives the inode of a name in a directory. -/
inductive FatState.Resolves (s : FatState) (fuel : ℕ) (p : Ptr) (name : List UInt8) : Ptr → Prop
  | dots {inode : Inode} (hname : name = [0x2E, 0x2E]) (hp : s.inodes p = some inode) :
      s.Resolves fuel p name (inode.parent.getD p)
  | dot (hname : name = [0x2E]) : s.Resolves fuel p name p
  | child {q : Ptr} (hdots : name ≠ [0x2E, 0x2E]) (hdot : name ≠ [0x2E])
      (hleads : s.Leads fuel p name q) : s.Resolves fuel p name q

theorem FatState.Resolves.run (h : s.Resolves fuel p name q) :
    resolveName fuel p name s = .ok (.found q) s := by
  cases h with
  | @dots inode hname hp =>
    rw [resolveName, if_pos hname, exits_bind_ok (getInode_run hp)]
    cases inode.parent <;> rfl
  | dot hname =>
    rw [resolveName, if_neg (by rw [hname]; decide), if_pos hname]
    rfl
  | child hdots hdot hleads =>
    obtain ⟨inode, hp, hfind⟩ := hleads
    rw [resolveName, if_neg hdots, if_neg hdot, getChildFromParent,
      exits_bind_ok (getInode_run hp), exits_bind_ok hfind]
    rfl

/-- Growth keeps what the tree gives. -/
theorem Grown.resolves (h : Grown n s s') (hres : s.Resolves fuel p name q) :
    s'.Resolves (fuel + n) p name q := by
  cases hres with
  | @dots inode hname hp =>
    obtain ⟨inode', hp', hparent⟩ := h.parent p inode hp
    rw [← hparent]
    exact .dots hname hp'
  | dot hname => exact .dot hname
  | child hdots hdot hleads => exact .child hdots hdot (h.leads fuel p name q hleads)

/-- A name that has been looked up: it is in the tree now, or its directory has no inode with that
name. -/
theorem resolveName_inv {r : ChildLookup} (hok : s.CachesOk) (hheap : s.HeapOk)
    (h : resolveName fuel p name s = .ok r s') :
    Looked 1 s s' ∧ (∀ q, r = .found q → s'.Resolves (fuel + 1) p name q) ∧
      (r = .notFound → name ≠ [0x2E, 0x2E] ∧ name ≠ [0x2E] ∧ ∃ father, s'.inodes p = some father ∧
        findChild name fuel father.child s' = .ok none s') := by
  rw [resolveName] at h
  split at h
  · rename_i hdots
    obtain ⟨father, s₁, hget, hrest⟩ := exits_bind_inv h
    obtain ⟨rfl, hp⟩ := getInode_inv hget
    have hres : s₁.Resolves (fuel + 1) p name (father.parent.getD p) := .dots hdots hp
    cases hparent : father.parent with
    | some q =>
      rw [hparent] at hrest hres
      injection hrest with hr hs
      subst hs hr
      refine ⟨(Looked.refl hok hheap).mono (Nat.zero_le 1), fun q' hq => ?_, nofun⟩
      injection hq with hq
      exact hq ▸ hres
    | none =>
      rw [hparent] at hrest hres
      injection hrest with hr hs
      subst hs hr
      refine ⟨(Looked.refl hok hheap).mono (Nat.zero_le 1), fun q' hq => ?_, nofun⟩
      injection hq with hq
      exact hq ▸ hres
  · rename_i hdots
    split at h
    · rename_i hdot
      injection h with hr hs
      subst hs hr
      refine ⟨(Looked.refl hok hheap).mono (Nat.zero_le 1), fun q' hq => ?_, nofun⟩
      injection hq with hq
      exact hq ▸ .dot hdot
    · rename_i hdot
      obtain ⟨father, s₁, hget, hrest⟩ := exits_bind_inv h
      obtain ⟨rfl, hp⟩ := getInode_inv hget
      obtain ⟨found, s₂, hfind, hrest⟩ := exits_bind_inv hrest
      obtain rfl := findChild_state hfind
      cases found with
      | some current =>
        injection hrest with hr hs
        subst hs hr
        refine ⟨(Looked.refl hok hheap).mono (Nat.zero_le 1), fun q' hq => ?_, nofun⟩
        injection hq with hq
        subst hq
        have hleads := (Grown.of_skeleton (s := s₂) rfl).mono (Nat.zero_le 1)
        exact .child hdots hdot (hleads.leads fuel p name current ⟨father, hp, hfind⟩)
      | none =>
        obtain ⟨search, s₃, hsearch, hrest⟩ := exits_bind_inv hrest
        have hcalms : Calms ⟨fun o => o = none ∨ o = some p, fun _ => False, fun _ => False⟩
            (searchDirectory p name fuel 0 {}) :=
          calms_searchDirectory (Or.inl rfl) (Or.inr rfl) name fuel 0 {}
        obtain ⟨hok₃, hcalm⟩ := hcalms _ _ _ hsearch hok
        have hlooked := hcalm.looked hok₃ hheap
        obtain ⟨father₃, hp₃, hbone⟩ := skeleton_inode hcalm.skeleton hp
        have hnone : findChild name fuel father₃.child s₃ = .ok none s₃ := by
          rw [(bone_fields hbone).2.2.1]
          refine findChild_mono (fun q inode hq => ?_) hfind 0
          obtain ⟨inode', hq', hbone'⟩ := skeleton_inode hcalm.skeleton hq
          exact ⟨inode', hq', (bone_fields hbone').2.2.2.2.2.2.2, (bone_fields hbone').2.1⟩
        cases search with
        | ioError =>
          injection hrest with hr hs
          subst hs hr
          exact ⟨hlooked.mono (Nat.zero_le 1), nofun, nofun⟩
        | endOfDir =>
          injection hrest with hr hs
          subst hs hr
          exact ⟨hlooked.mono (Nat.zero_le 1), nofun, fun _ => ⟨hdots, hdot, father₃, hp₃, hnone⟩⟩
        | found dentry info =>
          obtain ⟨s₄, hload, hborn⟩ := loadInode_run hlooked.heapOk hp₃ name info dentry
          change (do
            let inode ← allocateOneInode name info 0 dentry true
            addInodeInTree inode (some p)
            pure (ChildLookup.found inode) : FatM ChildLookup) s₃ = _ at hrest
          rw [hload] at hrest
          injection hrest with hr hs
          subst hs hr
          have hadded := hborn.looked hok₃ hlooked.heapOk hp₃ hnone
          refine ⟨hlooked.trans hadded, fun q' hq => ?_, nofun⟩
          injection hq with hq
          subst hq
          refine .child hdots hdot ⟨_, hborn.father, ?_⟩
          change findChild name (fuel + 1) (some s₃.brk) s₄ = _
          have hname : name = (childInode s₃.brk name info dentry p father₃).name := rfl
          rw [findChild, exits_bind_ok (getInode_run hborn.child), if_pos hname]
          rfl

/-! ## Paths -/

section Paths

variable {pathname : List UInt8}

theorem charAt_lt {i : ℕ} (h : charAt pathname i ≠ 0) : i < pathname.length := by
  by_contra hge
  rw [charAt, List.getD_eq_default _ _ (not_lt.mp hge)] at h
  exact h rfl

/-- Reading a component moves on. -/
theorem getNameFromPath_lt {nbRead nbRead' : ℕ}
    (h : getNameFromPath pathname nbRead = some (name, nbRead')) (hne : charAt pathname nbRead ≠ 0) :
    nbRead < nbRead' := by
  rw [getNameFromPath, Option.map_eq_some_iff] at h
  obtain ⟨read, hread, heq⟩ := h
  rw [Prod.mk.injEq] at heq
  obtain ⟨rfl, hnext⟩ := heq
  by_cases hslash : charAt pathname nbRead = slash
  · rw [if_pos hslash] at hnext
    split at hnext
    · omega
    · omega
  · rw [if_neg hslash] at hnext hread
    rw [nameMaxSize, readName, if_neg (fun h => h.elim hslash hne), Option.map_eq_some_iff] at hread
    obtain ⟨rest, -, rfl⟩ := hread
    rw [List.length_cons] at hnext
    split at hnext
    · omega
    · omega

theorem FatState.Resolves.mono (h : s.Resolves fuel p name q) {fuel' : ℕ} (hle : fuel ≤ fuel') :
    s.Resolves fuel' p name q := by
  obtain ⟨k, rfl⟩ := Nat.exists_eq_add_of_le hle
  exact ((Grown.of_skeleton rfl).mono (Nat.zero_le k)).resolves h

/-- A path whose last name is absent from its directory. Its last name is the one that a new node
gets, and once a node has it the tree alone resolves the path. -/
theorem resolvePath_inv {turns nbRead : ℕ} {d : Ptr} (hok : s.CachesOk) (hheap : s.HeapOk)
    (h : resolvePath fuel pathname turns p nbRead s = .ok (.absent d) s') :
    ∃ n name, n ≤ turns ∧ Looked n s s' ∧
      (charAt pathname nbRead ≠ 0 → ∀ t start, pathname.length ≤ nbRead + t →
        readLastName pathname t nbRead start = some name) ∧
      (∃ father, s'.inodes d = some father ∧
        findChild name fuel father.child s' = .ok none s') ∧
      ∀ m s'' c fuel', Grown m s' s'' → fuel + n + m ≤ fuel' → s''.Leads fuel' d name c →
        resolvePath fuel' pathname turns p nbRead s'' = .ok (.found c) s'' := by
  induction turns generalizing s p nbRead with
  | zero => cases h
  | succ turns ih =>
    rw [resolvePath] at h
    cases hread : getNameFromPath pathname nbRead with
    | none =>
      simp only [hread] at h
      injection h with hr _
      cases hr
    | some next =>
      obtain ⟨name, nbRead'⟩ := next
      simp only [hread] at h
      obtain ⟨r, s₁, hresolve, hrest⟩ := exits_bind_inv h
      obtain ⟨hlooked, hfound, habsent⟩ := resolveName_inv hok hheap hresolve
      cases r with
      | ioError =>
        injection hrest with hr _
        cases hr
      | notFound =>
        obtain ⟨hdots, hdot, father, hp, hnone⟩ := habsent rfl
        by_cases hlast : charAt pathname nbRead' = 0
        · simp only [hlast, if_true] at hrest
          injection hrest with hr hs
          subst hs
          injection hr with hr
          subst hr
          refine ⟨1, name, Nat.le_add_left 1 turns, hlooked, fun hne t start hle => ?_,
            ⟨father, hp, hnone⟩, fun m s'' c fuel' hgrown hle hleads => ?_⟩
          · have hlt := charAt_lt hne
            obtain ⟨t, rfl⟩ := Nat.exists_eq_succ_of_ne_zero (by omega : t ≠ 0)
            rw [readLastName, if_pos hne, hread]
            cases t with
            | zero => rfl
            | succ t =>
              simp only [readLastName, hlast, ne_eq, not_true_eq_false, if_false]
          · have hres : s''.Resolves fuel' p name c := .child hdots hdot hleads
            rw [resolvePath]
            simp only [hread]
            rw [exits_bind_ok hres.run]
            simp only [hlast, if_true]
            rfl
        · simp only [hlast, if_false] at hrest
          injection hrest with hr _
          cases hr
      | found q =>
        have hres := hfound q rfl
        by_cases hlast : charAt pathname nbRead' = 0
        · simp only [hlast, if_true] at hrest
          injection hrest with hr _
          cases hr
        · simp only [hlast, if_false] at hrest
          obtain ⟨n, last, hn, hlooked', hname, hnone, hagain⟩ :=
            ih hlooked.cachesOk hlooked.heapOk hrest
          refine ⟨1 + n, last, by omega, hlooked.trans hlooked', fun hne t start hle => ?_, hnone,
            fun m s'' c fuel' hgrown hle hleads => ?_⟩
          · have hlt := charAt_lt hne
            have hnext := getNameFromPath_lt hread hne
            obtain ⟨t, rfl⟩ := Nat.exists_eq_succ_of_ne_zero (by omega : t ≠ 0)
            rw [readLastName, if_pos hne, hread]
            exact hname hlast t (some name) (by omega)
          · have hall := hlooked'.grown.trans hgrown
            rw [resolvePath]
            simp only [hread]
            rw [exits_bind_ok ((hall.resolves hres).mono (by omega)).run]
            simp only [hlast, if_false]
            exact hagain m s'' c fuel' hgrown (by omega) hleads

/-- The lookup of a new name, and the lookups of the same path afterwards. -/
theorem getInodeFromPath_inv {d : Ptr} (hok : s.CachesOk) (hheap : s.HeapOk)
    (h : getInodeFromPath fuel pathname s = .ok (.absent d) s') {name : List UInt8}
    (hname : getLastName pathname = some name) :
    ∃ n, n ≤ pathname.length + 1 ∧ Looked n s s' ∧
      (∃ father, s'.inodes d = some father ∧
        findChild name fuel father.child s' = .ok none s') ∧
      ∀ m s'' c fuel', Grown m s' s'' → fuel + n + m ≤ fuel' → s''.Leads fuel' d name c →
        getInodeFromPath fuel' pathname s'' = .ok (.found c) s'' := by
  rw [getInodeFromPath, exits_bind_get] at h
  split at h
  · injection h with hr _
    cases hr
  · rename_i hslash
    obtain ⟨n, last, hn, hlooked, hlast, hnone, hagain⟩ := resolvePath_inv hok hheap h
    have hne : charAt pathname 0 ≠ 0 := by
      intro hzero
      rw [getLastName] at hname
      cases hlen : pathname.length with
      | zero =>
        rw [hlen] at hname
        cases hname
      | succ k =>
        rw [hlen, readLastName, if_neg (not_not.mpr hzero)] at hname
        cases hname
    obtain rfl : name = last := by
      rw [getLastName, hlast hne pathname.length none (by omega)] at hname
      exact (Option.some.inj hname).symm
    refine ⟨n, hn, hlooked, hnone, fun m s'' c fuel' hgrown hle hleads => ?_⟩
    rw [getInodeFromPath, exits_bind_get, if_neg hslash,
      (hlooked.grown.trans hgrown).root]
    exact hagain m s'' c fuel' hgrown hle hleads

end Paths

end GietVm.Fat
