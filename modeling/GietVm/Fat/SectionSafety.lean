import GietVm.Fat.Sections

/-!
# What the sections access

The inodes that can be reached from the root are live, and each one is the parent of its
children. Lookups only follow links between them, and add inodes under them. An open descriptor
designates a live inode whose parent is live. These two facts are kept by every section, and
every access is then to something in use: a section of `_fat_read` needs an allocated
descriptor, and the release of an inode needs that no open descriptor depends on it.
-/

namespace GietVm.Fat.Shared

open GietVm.Library

/-! ## The Inode-Tree and the descriptors -/

namespace Files

/-- The inodes that lookups can reach. -/
inductive Reach (f : Files) : Ptr → Prop
  | root : Reach f f.root
  | child {p q : Ptr} (hp : Reach f p) (hq : q ∈ (f.inode p).children) : Reach f q

/-- The inodes of the tree are live and their links are consistent. -/
structure Tree (f : Files) : Prop where
  root_parent : (f.inode f.root).parent = none
  live : ∀ p, f.Reach p → f.Live p
  parent : ∀ p q, f.Reach p → q ∈ (f.inode p).children → (f.inode q).parent = some p

/-- What an open descriptor depends on is live, and positions are 32-bit values. -/
structure Open (f : Files) : Prop where
  desc : ∀ i, (f.fd i).allocated = true → f.Live (f.fd i).inode ∧
    ∀ q, (f.inode (f.fd i).inode).parent = some q → f.Live q
  seek_lt : ∀ i, (f.fd i).seek < 0x100000000

variable {f f' f'' : Files} {p q : Ptr}

theorem Reach.mono (hroot : f'.root = f.root)
    (hchildren : ∀ p, f.Reach p → ∀ q ∈ (f.inode p).children, q ∈ (f'.inode p).children)
    (h : f.Reach p) : f'.Reach p := by
  induction h with
  | root => rw [← hroot]; exact .root
  | child hp hq ih => exact .child ih (hchildren _ hp _ hq)

/-- The parent of an inode of the tree is in the tree. -/
theorem Tree.reach_parent (h : f.Tree) (hp : f.Reach p) (hq : (f.inode p).parent = some q) :
    f.Reach q := by
  cases hp with
  | root => rw [h.root_parent] at hq; cases hq
  | child hm hmem =>
    rw [h.parent _ _ hm hmem] at hq
    cases hq
    exact hm

theorem init_tree : Files.init.Tree := by
  have hroot : ∀ p, Files.init.Reach p → p = 0 := by
    intro p hp
    cases hp with
    | root => rfl
    | child _ hq => cases hq
  refine ⟨rfl, ?_, ?_⟩
  · intro p hp
    rw [hroot p hp]
    exact ⟨Nat.zero_lt_one, rfl⟩
  · intro p q _ hq
    cases hq

theorem init_open : Files.init.Open := ⟨fun _ h => (nomatch h), fun _ => Nat.zero_lt_succ _⟩

end Files

/-! ## Changes of sizes, counts and descriptors -/

/-- An inode without its size and its count. -/
def Node.bone (node : Node) : Node := { node with size := 0, count := 0 }

theorem Node.bone_count (node : Node) (count : ℕ) : { node with count := count }.bone = node.bone :=
  rfl

namespace Files

/-- Only sizes, counts and descriptors differ. -/
structure SameTree (f f' : Files) : Prop where
  root : f'.root = f.root
  brk : f'.brk = f.brk
  bone : ∀ p, (f'.inode p).bone = (f.inode p).bone

variable {f f' f'' : Files} {p q : Ptr}

namespace SameTree

theorem refl (f : Files) : f.SameTree f := ⟨rfl, rfl, fun _ => rfl⟩

theorem trans (h : f.SameTree f') (h' : f'.SameTree f'') : f.SameTree f'' :=
  ⟨h'.root.trans h.root, h'.brk.trans h.brk, fun p => (h'.bone p).trans (h.bone p)⟩

theorem setDesc (f : Files) (i : ℕ) (d : Descriptor) : f.SameTree (f.setDesc i d) :=
  ⟨rfl, rfl, fun _ => rfl⟩

theorem setNode {node : Node} (h : node.bone = (f.inode p).bone) :
    f.SameTree (f.setNode p node) := by
  refine ⟨rfl, rfl, ?_⟩
  intro q
  change (Function.update f.inode p node q).bone = _
  by_cases hq : q = p
  · rw [hq, Function.update_self, h]
  · rw [Function.update_of_ne hq]

theorem isDir (h : f.SameTree f') (p : Ptr) : (f'.inode p).isDir = (f.inode p).isDir := by
  have hbone := congrArg Node.isDir (h.bone p)
  exact hbone

theorem parent (h : f.SameTree f') (p : Ptr) : (f'.inode p).parent = (f.inode p).parent := by
  have hbone := congrArg Node.parent (h.bone p)
  exact hbone

theorem children (h : f.SameTree f') (p : Ptr) : (f'.inode p).children = (f.inode p).children := by
  have hbone := congrArg Node.children (h.bone p)
  exact hbone

theorem live_iff (h : f.SameTree f') : f'.Live p ↔ f.Live p := by
  have hbone := congrArg Node.released (h.bone p)
  have hreleased : (f'.inode p).released = (f.inode p).released := hbone
  rw [Live, Live, h.brk, hreleased]

theorem reach (h : f.SameTree f') (hp : f'.Reach p) : f.Reach p :=
  hp.mono h.root.symm fun p _ q hq => by rwa [h.children] at hq

theorem tree (h : f.SameTree f') (ht : f.Tree) : f'.Tree where
  root_parent := by rw [h.parent, h.root]; exact ht.root_parent
  live := fun p hp => h.live_iff.mpr (ht.live p (h.reach hp))
  parent := fun p q hp hq => by
    rw [h.children] at hq
    rw [h.parent]
    exact ht.parent p q (h.reach hp) hq

theorem desc (h : f.SameTree f')
    (hd : f.Live p ∧ ∀ q, (f.inode p).parent = some q → f.Live q) :
    f'.Live p ∧ ∀ q, (f'.inode p).parent = some q → f'.Live q := by
  refine ⟨h.live_iff.mpr hd.1, ?_⟩
  intro q hq
  rw [h.parent] at hq
  exact h.live_iff.mpr (hd.2 q hq)

theorem open' (h : f.SameTree f') (hfd : f'.fd = f.fd) (ho : f.Open) : f'.Open where
  desc := fun i hi => by
    rw [hfd] at hi ⊢
    exact h.desc (ho.desc i hi)
  seek_lt := fun i => by rw [hfd]; exact ho.seek_lt i

end SameTree

/-- A descriptor is replaced by one whose inode is in use if it is allocated. -/
theorem Open.setDesc (h : f.Open) {i : ℕ} {d : Descriptor}
    (hd : d.allocated = true → f.Live d.inode ∧ ∀ q, (f.inode d.inode).parent = some q → f.Live q)
    (hseek : d.seek < 0x100000000) : (f.setDesc i d).Open := by
  constructor
  · intro j hj
    change (Function.update f.fd i d j).allocated = true at hj
    change f.Live (Function.update f.fd i d j).inode ∧
      ∀ q, (f.inode (Function.update f.fd i d j).inode).parent = some q → f.Live q
    by_cases hij : j = i
    · subst hij
      rw [Function.update_self] at hj ⊢
      exact hd hj
    · rw [Function.update_of_ne hij] at hj ⊢
      exact h.desc j hj
  · intro j
    change (Function.update f.fd i d j).seek < _
    by_cases hij : j = i
    · rw [hij, Function.update_self]
      exact hseek
    · rw [Function.update_of_ne hij]
      exact h.seek_lt j

/-! ## New inodes -/

/-- Inodes may have been added to the tree. -/
structure Grown (f f' : Files) : Prop where
  tree : f'.Tree
  fd : f'.fd = f.fd
  brk : f.brk ≤ f'.brk
  reach : ∀ p, f.Reach p → f'.Reach p
  kept : ∀ p < f.brk, (f'.inode p).released = (f.inode p).released ∧
    (f'.inode p).isDir = (f.inode p).isDir ∧ (f'.inode p).parent = (f.inode p).parent

namespace Grown

theorem refl (h : f.Tree) : f.Grown f :=
  ⟨h, rfl, le_rfl, fun _ hp => hp, fun _ _ => ⟨rfl, rfl, rfl⟩⟩

theorem trans (h : f.Grown f') (h' : f'.Grown f'') : f.Grown f'' where
  tree := h'.tree
  fd := h'.fd.trans h.fd
  brk := h.brk.trans h'.brk
  reach := fun p hp => h'.reach p (h.reach p hp)
  kept := fun p hp => by
    obtain ⟨hr, hd, hq⟩ := h.kept p hp
    obtain ⟨hr', hd', hq'⟩ := h'.kept p (hp.trans_le h.brk)
    exact ⟨hr'.trans hr, hd'.trans hd, hq'.trans hq⟩

theorem live (h : f.Grown f') (hp : f.Live p) : f'.Live p :=
  ⟨hp.1.trans_le h.brk, (h.kept p hp.1).1.trans hp.2⟩

theorem open' (h : f.Grown f') (ho : f.Open) : f'.Open where
  desc := fun i hi => by
    rw [h.fd] at hi ⊢
    obtain ⟨hlive, hparent⟩ := ho.desc i hi
    refine ⟨h.live hlive, ?_⟩
    intro q hq
    rw [(h.kept _ hlive.1).2.2] at hq
    exact h.live (hparent q hq)
  seek_lt := fun i => by rw [h.fd]; exact ho.seek_lt i

end Grown

/-- A new inode under a parent. -/
def linked (f : Files) (parent : Ptr) (node : Node) : Files :=
  { f with
    inode := Function.update (Function.update f.inode f.brk { node with parent := some parent })
      parent { f.inode parent with children := f.brk :: (f.inode parent).children }
    brk := f.brk + 1 }

section Linked

variable {parent : Ptr} {node : Node}

theorem linked_inode_old (hp : p < f.brk) (hne : p ≠ parent) :
    (f.linked parent node).inode p = f.inode p := by
  change Function.update (Function.update f.inode f.brk _) parent _ p = _
  rw [Function.update_of_ne hne, Function.update_of_ne (Nat.ne_of_lt hp)]

theorem linked_inode_parent : (f.linked parent node).inode parent =
    { f.inode parent with children := f.brk :: (f.inode parent).children } :=
  Function.update_self ..

theorem linked_inode_new (hparent : parent < f.brk) :
    (f.linked parent node).inode f.brk = { node with parent := some parent } := by
  change Function.update (Function.update f.inode f.brk _) parent _ f.brk = _
  rw [Function.update_of_ne (Nat.ne_of_gt hparent), Function.update_self]

/-- What an inode that was there before keeps. -/
theorem linked_kept (hp : p < f.brk) :
    ((f.linked parent node).inode p).released = (f.inode p).released ∧
      ((f.linked parent node).inode p).isDir = (f.inode p).isDir ∧
      ((f.linked parent node).inode p).parent = (f.inode p).parent := by
  by_cases hne : p = parent
  · subst hne
    rw [linked_inode_parent]
    exact ⟨rfl, rfl, rfl⟩
  · rw [linked_inode_old hp hne]
    exact ⟨rfl, rfl, rfl⟩

variable (ht : f.Tree) (hparent : f.Reach parent)

include ht hparent

theorem linked_reach_of_reach (hp : f.Reach p) : (f.linked parent node).Reach p := by
  refine Reach.mono (f := f) rfl ?_ hp
  intro p hp q hq
  by_cases hne : p = parent
  · subst hne
    rw [linked_inode_parent]
    exact List.mem_cons_of_mem _ hq
  · rwa [linked_inode_old (ht.live p hp).1 hne]

/-- The links of the new tree. -/
theorem linked_child (hnode : node.children = []) (hp : f.Reach p ∨ p = f.brk)
    (hq : q ∈ ((f.linked parent node).inode p).children) :
    (p = parent ∧ q = f.brk) ∨ (f.Reach p ∧ q ∈ (f.inode p).children) := by
  obtain hp | rfl := hp
  · by_cases hne : p = parent
    · subst hne
      rw [linked_inode_parent] at hq
      obtain rfl | hq := List.mem_cons.mp hq
      · exact Or.inl ⟨rfl, rfl⟩
      · exact Or.inr ⟨hp, hq⟩
    · rw [linked_inode_old (ht.live p hp).1 hne] at hq
      exact Or.inr ⟨hp, hq⟩
  · rw [linked_inode_new (ht.live parent hparent).1] at hq
    change q ∈ node.children at hq
    rw [hnode] at hq
    cases hq

theorem reach_of_linked (hnode : node.children = []) (hp : (f.linked parent node).Reach p) :
    f.Reach p ∨ p = f.brk := by
  induction hp with
  | root => exact Or.inl .root
  | child _ hq ih =>
    obtain ⟨-, rfl⟩ | ⟨hp, hq⟩ := linked_child ht hparent hnode ih hq
    · exact Or.inr rfl
    · exact Or.inl (.child hp hq)

theorem linked_tree (hnode : node.children = []) (hlive : node.released = false) :
    (f.linked parent node).Tree := by
  have hpb := (ht.live parent hparent).1
  constructor
  · change ((f.linked parent node).inode f.root).parent = none
    rw [(linked_kept (ht.live f.root .root).1).2.2]
    exact ht.root_parent
  · intro p hp
    obtain hp | rfl := reach_of_linked ht hparent hnode hp
    · exact ⟨Nat.lt_succ_of_lt (ht.live p hp).1,
        (linked_kept (ht.live p hp).1).1.trans (ht.live p hp).2⟩
    · refine ⟨Nat.lt_succ_self _, ?_⟩
      rw [linked_inode_new hpb]
      exact hlive
  · intro p q hp hq
    obtain ⟨rfl, rfl⟩ | ⟨hp, hq⟩ :=
      linked_child ht hparent hnode (reach_of_linked ht hparent hnode hp) hq
    · rw [linked_inode_new hpb]
    · rw [(linked_kept (ht.live q (.child hp hq)).1).2.2]
      exact ht.parent p q hp hq

theorem linked_grown (hnode : node.children = []) (hlive : node.released = false) :
    f.Grown (f.linked parent node) where
  tree := linked_tree ht hparent hnode hlive
  fd := rfl
  brk := Nat.le_succ _
  reach := fun _ => linked_reach_of_reach ht hparent
  kept := fun _ => linked_kept

theorem linked_reach_new : (f.linked parent node).Reach f.brk := by
  refine .child (linked_reach_of_reach ht hparent hparent) ?_
  rw [linked_inode_parent]
  exact List.mem_cons_self

end Linked

end Files

/-! ## Elementary accesses -/

section Accesses

variable {α : Type} {f : Files} {p : Ptr} {i : ℕ}

theorem touch_safe {Q : Unit → Files → Prop} (hp : f.Live p) (h : Q () f) :
    Safe Access.Valid (touch p) Q f :=
  .record (decide_eq_true hp) h

theorem getNode_safe {Q : Node → Files → Prop} (hp : f.Live p) (h : Q (f.inode p) f) :
    Safe Access.Valid (getNode p) Q f :=
  .bind (touch_safe hp (.bind (.look (.pure h))))

theorem modifyNode_safe {g : Node → Node} {Q : Unit → Files → Prop} (hp : f.Live p)
    (h : Q () (f.setNode p (g (f.inode p)))) : Safe Access.Valid (modifyNode p g) Q f :=
  .bind (touch_safe hp (.change h))

theorem touchAll_safe {Q : Unit → Files → Prop} {l : List Ptr} (hl : ∀ p ∈ l, f.Live p)
    (h : Q () f) : Safe Access.Valid (touchAll l) Q f := by
  induction l with
  | nil => exact .pure h
  | cons p l ih =>
    exact .bind (touch_safe (hl p List.mem_cons_self)
      (ih fun q hq => hl q (List.mem_cons_of_mem _ hq)))

theorem touchParent_safe {node : Node} {Q : Unit → Files → Prop}
    (hp : ∀ q, node.parent = some q → f.Live q) (h : Q () f) :
    Safe Access.Valid (touchParent node) Q f := by
  cases hparent : node.parent with
  | none => simpa only [touchParent, hparent] using .pure h
  | some q => simpa only [touchParent, hparent] using touch_safe (hp q hparent) h

theorem getDesc_safe {Q : Descriptor → Files → Prop} (hi : (f.fd i).allocated = true)
    (h : Q (f.fd i) f) : Safe Access.Valid (getDesc i) Q f :=
  .bind (.record hi (.bind (.look (.pure h))))

theorem modifyDesc_safe {g : Descriptor → Descriptor} {Q : Unit → Files → Prop}
    (hi : (f.fd i).allocated = true) (h : Q () (f.setDesc i (g (f.fd i)))) :
    Safe Access.Valid (modifyDesc i g) Q f :=
  .bind (.record hi (.change h))

end Accesses

/-! ## Lookups -/

section Lookups

variable {f : Files} {parent : Ptr}

theorem findChild_safe {name : List UInt8} {l : List Ptr} {Q : Option Ptr → Files → Prop}
    (hl : ∀ p ∈ l, f.Live p) (h : ∀ r, (∀ p, r = some p → p ∈ l) → Q r f) :
    Safe Access.Valid (findChild name l) Q f := by
  induction l with
  | nil => exact .pure (h none nofun)
  | cons p l ih =>
    refine .bind (getNode_safe (hl p List.mem_cons_self) (.ite (fun _ => .pure ?_) fun _ => ?_))
    · refine h _ ?_
      rintro q ⟨⟩
      exact List.mem_cons_self
    · refine ih (fun q hq => hl q (List.mem_cons_of_mem _ hq)) ?_
      intro r hr
      exact h r fun q hq => List.mem_cons_of_mem _ (hr q hq)

/-- A new inode is allocated and linked under a parent. -/
theorem allocate_safe {name : List UInt8} {isDir : Bool} {size : ℕ} {α : Type}
    {k : Ptr → SectionM α} {Q : α → Files → Prop} (ht : f.Tree) (hparent : f.Reach parent)
    (h : Safe Access.Valid (k f.brk) Q (f.linked parent ⟨name, isDir, size, 0, none, [], false⟩)) :
    Safe Access.Valid (do
      let child ← allocateOneInode name isDir size
      addInodeInTree child parent
      k child) Q f := by
  have hlive := ht.live parent hparent
  have hne : parent ≠ f.brk := Nat.ne_of_lt hlive.1
  have hself : ∀ node : Node, Function.update f.inode f.brk node f.brk = node :=
    fun _ => Function.update_self ..
  refine .bind (.bind (.look (.bind (.change (.pure (.bind (.bind ?_)))))))
  refine modifyNode_safe ⟨Nat.lt_succ_self _, ?_⟩ ?_
  · change (Function.update f.inode f.brk _ f.brk).released = false
    rw [hself]
  · refine modifyNode_safe ⟨Nat.lt_succ_of_lt hlive.1, ?_⟩ ?_
    · change (Function.update (Function.update f.inode f.brk _) f.brk _ parent).released = false
      rw [Function.update_of_ne hne, Function.update_of_ne hne]
      exact hlive.2
    · convert h using 1
      simp only [Files.linked, Files.setNode, Function.update_idem, hself,
        Function.update_of_ne hne]

/-- The inode found in a directory is in the tree. -/
def ChildInTree (f : Files) : ChildLookup → Prop
  | .found p => f.Reach p
  | .notFound | .ioError => True

/-- The inode or the parent found for a path is in the tree. -/
def PathInTree (f : Files) : PathLookup → Prop
  | .found p | .absent p => f.Reach p
  | .noParent | .nameTooLong => True

theorem getChildFromParent_safe {scan : DirScan} {name : List UInt8} (ht : f.Tree)
    (hparent : f.Reach parent) :
    Safe Access.Valid (getChildFromParent scan parent name)
      (fun r f' => f.Grown f' ∧ ChildInTree f' r) f := by
  refine .bind (getNode_safe (ht.live parent hparent) (.bind (findChild_safe ?_ ?_)))
  · intro p hp
    exact ht.live p (.child hparent hp)
  · intro r hr
    cases r with
    | some p => exact .pure ⟨.refl ht, .child hparent (hr p rfl)⟩
    | none =>
      cases scan parent name with
      | ioError => exact .pure ⟨.refl ht, trivial⟩
      | endOfDir => exact .pure ⟨.refl ht, trivial⟩
      | found dentry info =>
        exact allocate_safe ht hparent (.pure
          ⟨Files.linked_grown ht hparent rfl rfl, Files.linked_reach_new ht hparent⟩)

theorem resolveName_safe {scan : DirScan} {name : List UInt8} (ht : f.Tree)
    (hparent : f.Reach parent) :
    Safe Access.Valid (resolveName scan parent name)
      (fun r f' => f.Grown f' ∧ ChildInTree f' r) f := by
  refine .ite (fun _ => ?_) fun _ => .ite (fun _ => .pure ⟨.refl ht, hparent⟩) fun _ =>
    getChildFromParent_safe ht hparent
  refine .bind (getNode_safe (ht.live parent hparent) ?_)
  cases hp : (f.inode parent).parent with
  | none => exact .pure ⟨.refl ht, hparent⟩
  | some p => exact .pure ⟨.refl ht, ht.reach_parent hparent hp⟩

theorem resolvePath_safe {scan : DirScan} {pathname : List UInt8} {turns nbRead : ℕ}
    (ht : f.Tree) (hparent : f.Reach parent) :
    Safe Access.Valid (resolvePath scan pathname turns parent nbRead)
      (fun r f' => f.Grown f' ∧ PathInTree f' r) f := by
  induction turns generalizing f parent nbRead with
  | zero => exact .pure ⟨.refl ht, trivial⟩
  | succ turns ih =>
    rw [resolvePath]
    cases getNameFromPath pathname nbRead with
    | none => exact .pure ⟨.refl ht, trivial⟩
    | some next =>
      obtain ⟨name, nbRead⟩ := next
      refine .bind ((resolveName_safe ht hparent).mono ?_)
      rintro r f' ⟨hgrown, hr⟩
      cases r with
      | ioError => exact .pure ⟨hgrown, trivial⟩
      | notFound =>
        refine .pure ⟨hgrown, ?_⟩
        split
        · exact hgrown.reach parent hparent
        · trivial
      | found child =>
        refine .ite (fun _ => .pure ⟨hgrown, hr⟩) fun _ => ?_
        refine (ih hgrown.tree hr).mono ?_
        rintro r f'' ⟨hgrown', hr'⟩
        exact ⟨hgrown.trans hgrown', hr'⟩

theorem getInodeFromPath_safe {scan : DirScan} {pathname : List UInt8} (ht : f.Tree) :
    Safe Access.Valid (getInodeFromPath scan pathname)
      (fun r f' => f.Grown f' ∧ PathInTree f' r) f :=
  .bind (.look (.ite (fun _ => .pure ⟨.refl ht, .root⟩) fun _ => resolvePath_safe ht .root))

end Lookups

/-! ## Opening and closing -/

/-- The tree and the open descriptors are in use, and no inode in use has changed its type. -/
structure Files.Kept (f f' : Files) : Prop where
  tree : f'.Tree
  open' : f'.Open
  isDir : ∀ p, f.Live p → (f'.inode p).isDir = (f.inode p).isDir

namespace Files

variable {f f' f'' : Files}

theorem Kept.trans (h : f.Kept f') (h' : f'.Kept f'') (hlive : ∀ p, f.Live p → f'.Live p) :
    f.Kept f'' where
  tree := h'.tree
  open' := h'.open'
  isDir := fun p hp => (h'.isDir p (hlive p hp)).trans (h.isDir p hp)

theorem SameTree.kept (h : f.SameTree f') (ht : f.Tree) (ho : f'.Open) : f.Kept f' :=
  ⟨h.tree ht, ho, fun p _ => h.isDir p⟩

theorem Grown.toKept (h : f.Grown f') (ho : f.Open) : f.Kept f' :=
  ⟨h.tree, h.open' ho, fun p hp => (h.kept p hp.1).2.1⟩

/-- An inode of the tree and its parent are in use. -/
theorem Tree.desc (ht : f.Tree) {p : Ptr} (hp : f.Reach p) :
    f.Live p ∧ ∀ q, (f.inode p).parent = some q → f.Live q :=
  ⟨ht.live p hp, fun q hq => ht.live q (ht.reach_parent hp hq)⟩

end Files

section OpenClose

variable {f : Files}

theorem createFile_safe {io : OpenIo} {pathname : List UInt8} {parent : Ptr} (ht : f.Tree)
    (hparent : f.Reach parent) :
    Safe Access.Valid (createFile io pathname parent)
      (fun r f' => f.Grown f' ∧ ∀ child, r = .ok child → f'.Reach child) f := by
  refine allocate_safe ht hparent ?_
  set f' := f.linked parent _
  have hgrown : f.Grown f' := Files.linked_grown ht hparent rfl rfl
  have hnew : f'.Reach f.brk := Files.linked_reach_new ht hparent
  refine .bind (touch_safe (hgrown.tree.live _ hnew) (.bind (touch_safe
    (hgrown.tree.live _ (hgrown.reach _ hparent)) (.ite (fun _ => .pure ⟨hgrown, ?_⟩)
      fun _ => .pure ⟨hgrown, nofun⟩))))
  rintro child ⟨⟩
  exact hnew

theorem truncateFile_safe {io : OpenIo} {child : Ptr}
    (hdesc : f.Live child ∧ ∀ q, (f.inode child).parent = some q → f.Live q) :
    Safe Access.Valid (truncateFile io child) (fun _ f' => f.SameTree f' ∧ f'.fd = f.fd) f := by
  refine .bind (modifyNode_safe hdesc.1 ?_)
  set f' := f.setNode child _
  have hsame : f.SameTree f' := .setNode rfl
  have hdesc' := hsame.desc hdesc
  refine .bind (getNode_safe hdesc'.1 (.ite (fun _ => ?_) fun _ => .pure ⟨hsame, rfl⟩))
  exact .bind (touchParent_safe hdesc'.2 (.pure ⟨hsame, rfl⟩))

/-- What opening an inode does to the descriptors. -/
def Files.Opened (f f' : Files) : Prop :=
  f'.fd = f.fd ∨ ∃ i child readOnly, (f.fd i).allocated = false ∧
    f'.fd = Function.update f.fd i (.opened child readOnly f.openings)

theorem openInode_safe {io : OpenIo} {child : Ptr} {readOnly truncate : Bool} (ht : f.Tree)
    (ho : f.Open) (hchild : f.Reach child) :
    Safe Access.Valid (openInode io child readOnly truncate)
      (fun _ f' => f.Kept f' ∧ f.Opened f') f := by
  refine .bind (.look ?_)
  cases hfree : findFreeFd fun i => (f.fd i).toFileDesc with
  | none => exact .pure ⟨(Files.SameTree.refl f).kept ht ho, Or.inl rfl⟩
  | some i =>
    have hi : (f.fd i).allocated = false := by simpa using List.find?_some hfree
    refine .bind (.change ?_)
    set f₁ : Files := { f.setDesc i _ with openings := f.openings + 1 }
    have hsame : f.SameTree f₁ := ⟨rfl, rfl, fun _ => rfl⟩
    have ho₁ : f₁.Open := by
      have hset := ho.setDesc (i := i) (d := .opened child readOnly f.openings)
        (fun _ => ht.desc hchild) (Nat.zero_lt_succ _)
      exact ⟨hset.desc, hset.seek_lt⟩
    have hend : ∀ f', f₁.SameTree f' → f'.fd = f₁.fd → f.Kept f' ∧ f.Opened f' :=
      fun f' h hfd => ⟨(hsame.trans h).kept ht (h.open' hfd ho₁),
        Or.inr ⟨i, child, readOnly, hi, hfd⟩⟩
    refine .bind (modifyNode_safe (hsame.desc (ht.desc hchild)).1 ?_)
    set f₂ := f₁.setNode child _
    have hsame₂ : f₁.SameTree f₂ := .setNode rfl
    have hdesc₂ := hsame₂.desc (hsame.desc (ht.desc hchild))
    refine .bind (getNode_safe hdesc₂.1 (.ite (fun _ => .bind ?_) fun _ =>
      .pure (hend f₂ hsame₂ rfl)))
    refine (truncateFile_safe hdesc₂).mono ?_
    rintro failed f₃ ⟨hsame₃, hfd₃⟩
    have hresult := hend f₃ (hsame₂.trans hsame₃) hfd₃
    exact .ite (fun _ => .pure hresult) fun _ => .pure hresult

theorem fatOpen_safe {io : OpenIo} {pathname : List UInt8} {flags : ℕ} (ht : f.Tree)
    (ho : f.Open) :
    Safe Access.Valid (fatOpen io pathname flags)
      (fun _ f' => f.Kept f' ∧ ∃ f₀ : Files, f₀.fd = f.fd ∧ f₀.Opened f') f := by
  refine .bind ((getInodeFromPath_safe ht).mono ?_)
  rintro r f₁ ⟨hgrown, hr⟩
  have hkept := hgrown.toKept ho
  have hsame : f.Kept f₁ ∧ ∃ f₀ : Files, f₀.fd = f.fd ∧ f₀.Opened f₁ :=
    ⟨hkept, f, rfl, Or.inl hgrown.fd⟩
  cases r with
  | noParent => exact .pure hsame
  | nameTooLong => exact .pure hsame
  | absent parent =>
    refine .ite (fun _ => .bind ?_) fun _ => .pure hsame
    refine (createFile_safe hgrown.tree hr).mono ?_
    rintro r f₂ ⟨hgrown₂, hchild⟩
    have hkept₂ : f.Kept f₂ := (hgrown.trans hgrown₂).toKept ho
    have hfd₂ : f₂.fd = f.fd := hgrown₂.fd.trans hgrown.fd
    cases r with
    | error code => exact .pure ⟨hkept₂, f, rfl, Or.inl hfd₂⟩
    | ok child =>
      refine (openInode_safe hgrown₂.tree hkept₂.open' (hchild child rfl)).mono ?_
      rintro _ f₃ ⟨hkept₃, hopened⟩
      exact ⟨hkept₂.trans hkept₃ fun p hp => (hgrown.trans hgrown₂).live hp, f₂, hfd₂, hopened⟩
  | found child =>
    refine (openInode_safe hgrown.tree hkept.open' hr).mono ?_
    rintro _ f₂ ⟨hkept₂, hopened⟩
    exact ⟨hkept.trans hkept₂ fun p hp => hgrown.live hp, f₁, hgrown.fd, hopened⟩

/-- What closing a descriptor does to the descriptors. -/
def Files.Closed (f : Files) (i : ℕ) (f' : Files) : Prop :=
  f'.fd = f.fd ∨ f'.fd = Function.update f.fd i { f.fd i with allocated := false }

theorem fatClose_safe {io : CloseIo} {i : ℕ} (ht : f.Tree) (ho : f.Open) :
    Safe Access.Valid (fatClose io i) (fun _ f' => f.Kept f' ∧ f.Closed i f') f := by
  refine .bind (.look (.ite (fun _ => .pure ⟨(Files.SameTree.refl f).kept ht ho, Or.inl rfl⟩)
    fun hi => ?_))
  have hi : (f.fd i).allocated = true := by simpa using hi
  have hdesc := ho.desc i hi
  refine .bind (getDesc_safe hi (.bind (modifyNode_safe hdesc.1 ?_)))
  set f₁ := f.setNode (f.fd i).inode _
  have hsame : f.SameTree f₁ := .setNode (Node.bone_count ..)
  have hdesc₁ := hsame.desc hdesc
  have ho₁ : f₁.Open := hsame.open' rfl ho
  have hend : ∀ failed : Bool, Safe Access.Valid
      (if failed then pure fat32IoError else do
        LoggedM.change fun f => f.setDesc i { f.fd i with allocated := false }
        pure fat32Ok) (fun _ f' => f.Kept f' ∧ f.Closed i f') f₁ := by
    intro failed
    cases failed with
    | true => exact .pure ⟨hsame.kept ht ho₁, Or.inl rfl⟩
    | false =>
      refine .bind (.change (.pure ⟨?_, Or.inr rfl⟩))
      refine (hsame.trans (.setDesc f₁ i _)).kept ht (ho₁.setDesc ?_ (ho₁.seek_lt i))
      exact fun h => nomatch h
  refine .bind (getNode_safe hdesc₁.1 (.bind (.ite (fun _ => .pure (hend _)) fun _ => ?_)))
  exact .ite (fun _ => .bind (touchParent_safe hdesc₁.2 (.pure (hend _)))) fun _ =>
    .pure (hend _)

end OpenClose

/-! ## Reading and writing -/

section Moved

/-- The bytes moved after the first cluster. -/
theorem movedFrom_rest (t : Transfer) {c more done : ℕ} (hc : t.firstClusterId < c)
    (hmore : c + more = t.lastClusterId) :
    movedFrom t (more + 1) c done = add32 done (more * 4096 + t.lastByteToMove + 1) := by
  induction more generalizing c done with
  | zero =>
    have hrange : t.range c = (0, t.lastByteToMove + 1) := by
      rw [Transfer.range, if_neg (by omega), if_neg (by omega), if_pos (by omega)]
    rw [movedFrom, hrange, movedFrom, Nat.zero_mul, Nat.zero_add]
  | succ more ih =>
    have hrange : t.range c = (0, 4096) := by
      rw [Transfer.range, if_neg (by omega), if_neg (by omega), if_neg (by omega)]
    rw [movedFrom, hrange, ih (by omega) (by omega), add32, add32, add32]
    omega

/-- A transfer that stays below `2 ^ 32` moves the bytes asked for. -/
theorem bytesMoved_eq {seek count : ℕ} (h : seek + count < 0x100000000) :
    bytesMoved seek count = count := by
  rw [bytesMoved]
  obtain hlt | heq | hgt := Nat.lt_trichotomy (transfer seek count).lastClusterId
    (transfer seek count).firstClusterId
  · rw [Nat.sub_eq_zero_of_le hlt, movedFrom]
    simp only [transfer, u32] at hlt
    omega
  · have hrange := Transfer.range.eq_def (transfer seek count) (transfer seek count).firstClusterId
    rw [if_pos ⟨rfl, heq.symm⟩] at hrange
    rw [heq, Nat.add_sub_cancel_left, movedFrom, hrange, movedFrom, add32]
    simp only [transfer, u32] at heq ⊢
    omega
  · have hrange := Transfer.range.eq_def (transfer seek count) (transfer seek count).firstClusterId
    rw [if_neg (by omega), if_pos rfl] at hrange
    obtain ⟨more, hmore⟩ := Nat.exists_eq_add_of_lt hgt
    have hturns : (transfer seek count).lastClusterId + 1 - (transfer seek count).firstClusterId =
        more + 1 + 1 := by omega
    rw [hturns, movedFrom, hrange,
      movedFrom_rest _ (Nat.lt_succ_self _) (by omega), add32, add32]
    simp only [transfer, u32] at hmore ⊢
    omega

theorem movedFrom_lt (t : Transfer) (more : ℕ) {c done : ℕ} (hdone : done < 0x100000000) :
    movedFrom t more c done < 0x100000000 := by
  induction more generalizing c done with
  | zero => exact hdone
  | succ more ih => exact ih (add32_lt ..)

theorem bytesMoved_lt (seek count : ℕ) : bytesMoved seek count < 0x100000000 :=
  movedFrom_lt _ _ (Nat.zero_lt_succ _)

end Moved

section ReadWrite

variable {f : Files} {i : ℕ}

theorem Files.Kept.refl (ht : f.Tree) (ho : f.Open) : f.Kept f := ⟨ht, ho, fun _ _ => rfl⟩

theorem Files.Kept.setDesc (ht : f.Tree) (ho : f.Open) {d : Descriptor}
    (hinode : d.inode = (f.fd i).inode) (hi : (f.fd i).allocated = true)
    (hseek : d.seek < 0x100000000) : f.Kept (f.setDesc i d) := by
  refine (SameTree.setDesc f i d).kept ht (ho.setDesc (fun _ => ?_) hseek)
  rw [hinode]
  exact ho.desc i hi

/-- The section of `_fat_read` moves the position, or leaves everything as it is and does not
return 32. -/
theorem fatReadSection_safe (count : ℕ) (loaded entry : Bool) (ho : f.Open)
    (hi : (f.fd i).allocated = true) :
    Safe Access.Valid (fatReadSection i count loaded entry)
      (fun code f' => (f' = f ∧ code ≠ 32) ∨
        (loaded = true ∧ f' = f.setDesc i ((f.fd i).move (bytesMoved (f.fd i).seek count)
          (entry && bytesMoved (f.fd i).seek count == 32)) ∧
          code = int32 (bytesMoved (f.fd i).seek count))) f := by
  refine .bind (getDesc_safe hi (.bind (getNode_safe (ho.desc i hi).1 ?_)))
  refine .ite (fun _ => .pure (Or.inl ⟨rfl, by decide⟩)) fun _ => .ite (fun hloaded => ?_)
    fun _ => .pure (Or.inl ⟨rfl, by decide⟩)
  exact .bind (modifyDesc_safe hi (.pure (Or.inr ⟨hloaded, rfl, rfl⟩)))

theorem growFile_safe {io : WriteIo} {p : Ptr} {oldSize newSize : ℕ}
    (hdesc : f.Live p ∧ ∀ q, (f.inode p).parent = some q → f.Live q) :
    Safe Access.Valid (growFile io p oldSize newSize)
      (fun _ f' => f.SameTree f' ∧ f'.fd = f.fd) f := by
  refine .ite (fun _ => .bind (modifyNode_safe hdesc.1 ?_)) fun _ => .pure ⟨.refl f, rfl⟩
  set f₁ := f.setNode p _
  have hsame : f.SameTree f₁ := .setNode rfl
  have hdesc₁ := hsame.desc hdesc
  refine .ite (fun _ => .pure ⟨hsame, rfl⟩) fun _ => .bind (getNode_safe hdesc₁.1 ?_)
  exact .bind (touchParent_safe hdesc₁.2 (.ite (fun _ => .pure ⟨hsame, rfl⟩)
    fun _ => .pure ⟨hsame, rfl⟩))

/-- What a write does to the descriptors. -/
def Files.Moved (f : Files) (i : ℕ) (loaded : Bool) (count : ℕ) (f' : Files) : Prop :=
  f'.fd = f.fd ∨ (loaded = true ∧ (f.fd i).allocated = true ∧
    f'.fd = Function.update f.fd i ((f.fd i).move (bytesMoved (f.fd i).seek count) false))

theorem Files.Kept.move (ht : f.Tree) (ho : f.Open) (hi : (f.fd i).allocated = true) (done : ℕ)
    (entry : Bool) : f.Kept (f.setDesc i ((f.fd i).move done entry)) := by
  have hseek : ((f.fd i).move done entry).seek < 0x100000000 := add32_lt _ _
  have hinode : ((f.fd i).move done entry).inode = (f.fd i).inode := rfl
  exact .setDesc ht ho hinode hi hseek

theorem fatWrite_safe {io : WriteIo} {count : ℕ} (ht : f.Tree) (ho : f.Open) :
    Safe Access.Valid (fatWrite io i count)
      (fun _ f' => f.Kept f' ∧ f.Moved i io.loaded count f') f := by
  have hstay : f.Kept f ∧ f.Moved i io.loaded count f := ⟨.refl ht ho, Or.inl rfl⟩
  refine .bind (.look (.ite (fun _ => .pure hstay) fun _ => .ite (fun _ => .pure hstay)
    fun hi => .ite (fun _ => .pure hstay) fun _ => ?_))
  have hi : (f.fd i).allocated = true := by simpa using hi
  refine .bind (getDesc_safe hi (.bind (getNode_safe (ho.desc i hi).1 (.bind ?_))))
  refine (growFile_safe (ho.desc i hi)).mono ?_
  rintro failure f₁ ⟨hsame, hfd⟩
  have ho₁ : f₁.Open := hsame.open' hfd ho
  have hstay₁ : f.Kept f₁ ∧ f.Moved i io.loaded count f₁ :=
    ⟨hsame.kept ht ho₁, Or.inl hfd⟩
  cases failure with
  | some code => exact .pure hstay₁
  | none =>
    refine .ite (fun hloaded => .bind ?_) fun _ => .pure hstay₁
    have hi₁ : (f₁.fd i).allocated = true := by rwa [hfd]
    refine modifyDesc_safe hi₁ (.pure ⟨?_, Or.inr ⟨hloaded, hi, ?_⟩⟩)
    · exact (hsame.kept ht ho₁).trans (.move (hsame.tree ht) ho₁ hi₁ _ _)
        fun p hp => hsame.live_iff.mpr hp
    · change Function.update f₁.fd i ((f₁.fd i).move _ false) = _
      rw [hfd]

/-- What a repositioning does to the descriptors. -/
def Files.Repositioned (f : Files) (i : ℕ) (f' : Files) : Prop :=
  f'.fd = f.fd ∨ ((f.fd i).allocated = true ∧ ∃ seek < 0x100000000,
    f'.fd = Function.update f.fd i ((f.fd i).reposition seek))

theorem fatLseek_safe {seek : ℕ} {whence : Whence} (ht : f.Tree) (ho : f.Open)
    (hseek : seek < 0x100000000) :
    Safe Access.Valid (fatLseek i seek whence)
      (fun _ f' => f.Kept f' ∧ f.Repositioned i f') f := by
  refine .bind (.look (.ite (fun _ => .pure ⟨.refl ht ho, Or.inl rfl⟩) fun hi => ?_))
  have hi : (f.fd i).allocated = true := by simpa using hi
  have hset : ∀ seek < 0x100000000, Safe Access.Valid
      (do modifyDesc i fun d => d.reposition seek; pure (int32 seek))
      (fun _ f' => f.Kept f' ∧ f.Repositioned i f') f := by
    intro seek hseek
    exact .bind (modifyDesc_safe hi (.pure
      ⟨.setDesc ht ho rfl hi hseek, Or.inr ⟨hi, seek, hseek, rfl⟩⟩))
  cases whence with
  | other => exact .pure ⟨.refl ht ho, Or.inl rfl⟩
  | seekSet => exact hset seek hseek
  | seekCur => exact .bind (getDesc_safe hi (hset _ (add32_lt ..)))

theorem seekBackSection_safe (hi : (f.fd i).allocated = true) :
    Safe Access.Valid (seekBackSection i) (fun _ f' => f' = f.setDesc i (f.fd i).back) f :=
  modifyDesc_safe hi rfl

end ReadWrite

/-! ## Removing -/

section Remove

variable {f : Files} {p parent : Ptr}

theorem checkRemove_safe {io : RemoveIo} {pathname : List UInt8} {shouldBeDir : Bool}
    (ht : f.Tree) :
    Safe Access.Valid (checkRemove io pathname shouldBeDir)
      (fun r f' => f.Grown f' ∧ ∀ p parent, r = .ok (p, parent) →
        f'.Reach p ∧ (f'.inode p).parent = some parent) f := by
  refine .bind ((getInodeFromPath_safe ht).mono ?_)
  rintro r f₁ ⟨hgrown, hr⟩
  have herror : ∀ code : ℤ, Safe Access.Valid (pure (.error code))
      (fun (r : Except ℤ (Ptr × Ptr)) f' => f.Grown f' ∧ ∀ p parent, r = .ok (p, parent) →
        f'.Reach p ∧ (f'.inode p).parent = some parent) f₁ :=
    fun code => .pure ⟨hgrown, nofun⟩
  cases r with
  | absent _ => exact herror _
  | noParent => exact herror _
  | nameTooLong => exact herror _
  | found p =>
    refine .bind (getNode_safe (hgrown.tree.live p hr) ?_)
    refine .ite (fun _ => herror _) fun _ => .ite (fun _ => herror _) fun _ => .ite
      (fun _ => herror _) fun _ => .ite (fun _ => herror _) fun _ => .ite (fun _ => herror _)
      fun _ => ?_
    cases hparent : (f₁.inode p).parent with
    | none => exact herror _
    | some parent =>
      have hreach := hgrown.tree.reach_parent hr hparent
      refine .bind (touch_safe (hgrown.tree.live parent hreach) (.ite (fun _ => ?_)
        fun _ => herror _))
      refine .pure ⟨hgrown, ?_⟩
      rintro _ _ ⟨⟩
      exact ⟨hr, hparent⟩

namespace Files

/-- An inode is unlinked from its parent and released. -/
def removed (f : Files) (p parent : Ptr) : Files :=
  let f₁ := f.setNode parent
    { f.inode parent with children := (f.inode parent).children.filter (· ≠ p) }
  f₁.setNode p { f₁.inode p with released := true }

theorem removed_inode_self : ((f.removed p parent).inode p).released = true := by
  simp only [removed, setNode, Function.update_self]

theorem removed_isDir (q : Ptr) :
    ((f.removed p parent).inode q).isDir = (f.inode q).isDir := by
  simp only [removed, setNode, Function.update_apply]
  split_ifs <;> simp_all

theorem removed_parent (q : Ptr) :
    ((f.removed p parent).inode q).parent = (f.inode q).parent := by
  simp only [removed, setNode, Function.update_apply]
  split_ifs <;> simp_all

theorem removed_live {q : Ptr} (hq : f.Live q) (hne : q ≠ p) : (f.removed p parent).Live q := by
  refine ⟨hq.1, ?_⟩
  simp only [removed, setNode, Function.update_apply, if_neg hne]
  split_ifs with h
  · subst h
    exact hq.2
  · exact hq.2

theorem removed_children {q r : Ptr} (hne : q ≠ p)
    (hr : r ∈ ((f.removed p parent).inode q).children) :
    r ∈ (f.inode q).children ∧ (q = parent → r ≠ p) := by
  simp only [removed, setNode, Function.update_apply, if_neg hne] at hr
  split_ifs at hr with h
  · subst h
    obtain ⟨hmem, hr⟩ := List.mem_filter.mp hr
    exact ⟨hmem, fun _ => by simpa using hr⟩
  · exact ⟨hr, fun h' => absurd h' h⟩

/-- The inode that is removed can no longer be reached. -/
theorem reach_of_removed (ht : f.Tree) (hparent : (f.inode p).parent = some parent) {q : Ptr}
    (hq : (f.removed p parent).Reach q) : f.Reach q ∧ q ≠ p := by
  induction hq with
  | root =>
    refine ⟨.root, ?_⟩
    intro hroot
    change f.root = p at hroot
    rw [← hroot, ht.root_parent] at hparent
    cases hparent
  | @child m q _ hq ih =>
    obtain ⟨hm, hmp⟩ := ih
    obtain ⟨hmem, hne⟩ := removed_children hmp hq
    refine ⟨.child hm hmem, ?_⟩
    rintro rfl
    have heq := ht.parent m q hm hmem
    rw [hparent] at heq
    cases heq
    exact hne rfl rfl

theorem removed_tree (ht : f.Tree) (hparent : (f.inode p).parent = some parent) :
    (f.removed p parent).Tree where
  root_parent := (removed_parent f.root).trans ht.root_parent
  live := fun q hq => by
    obtain ⟨hq, hne⟩ := reach_of_removed ht hparent hq
    exact removed_live (ht.live q hq) hne
  parent := fun q r hq hr => by
    obtain ⟨hq, hne⟩ := reach_of_removed ht hparent hq
    rw [removed_parent]
    exact ht.parent q r hq (removed_children hne hr).1

theorem removed_open (ho : f.Open) (hfree : ∀ i, (f.fd i).allocated = true →
    (f.fd i).inode ≠ p ∧ (f.inode (f.fd i).inode).parent ≠ some p) :
    (f.removed p parent).Open where
  desc := fun i hi => by
    obtain ⟨hlive, hparent⟩ := ho.desc i hi
    obtain ⟨hne, hne'⟩ := hfree i hi
    refine ⟨removed_live hlive hne, ?_⟩
    intro q hq
    rw [removed_parent] at hq
    refine removed_live (hparent q hq) ?_
    rintro rfl
    exact hne' hq
  seek_lt := ho.seek_lt

end Files

theorem removeInode_safe {Q : Unit → Files → Prop} (ht : f.Tree) (hp : f.Reach p)
    (hparent : (f.inode p).parent = some parent) (h : Q () (f.removed p parent)) :
    Safe Access.Valid (removeInode p parent) Q f := by
  have hreach := ht.reach_parent hp hparent
  have hlive := ht.live parent hreach
  refine .bind (getNode_safe hlive (.bind (touchAll_safe ?_ (.bind (modifyNode_safe hlive ?_)))))
  · intro q hq
    exact ht.live q (.child hreach hq)
  · refine modifyNode_safe ⟨(ht.live p hp).1, ?_⟩ h
    change (Function.update f.inode parent _ p).released = false
    by_cases hne : p = parent
    · subst hne
      rw [Function.update_self]
      exact hlive.2
    · rw [Function.update_of_ne hne]
      exact (ht.live p hp).2

theorem fatRemove_safe {io : RemoveIo} {pathname : List UInt8} {shouldBeDir : Bool}
    (ht : f.Tree) (ho : f.Open)
    (hfree : ∀ p parent, (checkRemove io pathname shouldBeDir f).value = .ok (p, parent) →
      ∀ i, (f.fd i).allocated = true →
        (f.fd i).inode ≠ p ∧ (f.inode (f.fd i).inode).parent ≠ some p) :
    Safe Access.Valid (fatRemove io pathname shouldBeDir)
      (fun _ f' => f.Kept f' ∧ f'.fd = f.fd) f := by
  refine .bind ((checkRemove_safe ht).run.mono ?_)
  rintro r f₁ ⟨⟨hgrown, hr⟩, hvalue, -⟩
  cases r with
  | error code => exact .pure ⟨hgrown.toKept ho, hgrown.fd⟩
  | ok target =>
    obtain ⟨p, parent⟩ := target
    obtain ⟨hp, hparent⟩ := hr p parent rfl
    refine .bind (removeInode_safe hgrown.tree hp hparent (.pure ⟨?_, hgrown.fd⟩))
    refine ⟨Files.removed_tree hgrown.tree hparent,
      Files.removed_open (hgrown.open' ho) ?_, ?_⟩
    · intro i hi
      rw [hgrown.fd] at hi ⊢
      rw [(hgrown.kept _ (ho.desc i hi).1.1).2.2]
      exact hfree p parent hvalue.symm i hi
    · intro q hq
      rw [Files.removed_isDir]
      exact (hgrown.kept q hq.1).2.1

end Remove

end GietVm.Fat.Shared
