import GietVm.Genmap.Layout
import GietVm.Library.Numbering

/-!
# What a script declares

The abstract side of a mapping is the list of the objects of each kind in the order of the calls,
each with the arguments of its call and, where it belongs to another object, with the number of
that object. `Agrees` says that a mapping holds exactly the declared objects, each in its cluster
or vspace and under its number. Every call keeps it, so it holds of every mapping that a script
builds.
-/

namespace GietVm.Genmap

open GietVm.Library

/-! ## Declarations -/

/-- A peripheral and the number of its pseg. -/
structure PeriphDecl extends PeriphArgs where
  pseg : ℕ
  deriving DecidableEq

/-- An interrupt and the number of its interrupt controller. -/
structure IrqDecl extends IrqArgs where
  periph : ℕ
  deriving DecidableEq

/-- A vseg and the number of its vspace, if it is not global. -/
structure VsegDecl extends VsegArgs where
  vspace : Option ℕ
  deriving DecidableEq

/-- A task and the number of its vspace. -/
structure TaskDecl extends TaskArgs where
  vspace : ℕ
  deriving DecidableEq

/-- The objects of each kind, in the order of the calls. -/
structure Declared where
  psegs : List PsegArgs
  procs : List ProcessorArgs
  periphs : List PeriphDecl
  irqs : List IrqDecl
  vspaces : List VspaceArgs
  vsegs : List VsegDecl
  tasks : List TaskDecl
  deriving DecidableEq

/-- Nothing is declared. -/
def Declared.empty : Declared := ⟨[], [], [], [], [], [], []⟩

/-- What a call declares. -/
def Declared.add (a : MappingArgs) (d : Declared) : Call → Declared
  | .addRam name base size =>
    { d with psegs := d.psegs ++ [⟨name, base, size, a.xOf base, a.yOf base, .ram⟩] }
  | .addPeriph name base size args =>
    { d with
      psegs := d.psegs ++ [⟨name, base, size, a.xOf base, a.yOf base, .peri⟩]
      periphs := d.periphs ++ [⟨args, d.psegs.length⟩] }
  | .addIrq periph index _ isrtype channel =>
    { d with irqs := d.irqs ++ [⟨⟨.hwi, index, isrtype, channel⟩, periph⟩] }
  | .addProc args => { d with procs := d.procs ++ [args] }
  | .addGlobal args => { d with vsegs := d.vsegs ++ [⟨args, none⟩] }
  | .addVspace args => { d with vspaces := d.vspaces ++ [args] }
  | .addVseg vspace args =>
    { d with vsegs := d.vsegs ++ [⟨{ args with identity := false }, some vspace⟩] }
  | .addTask vspace args => { d with tasks := d.tasks ++ [⟨args, vspace⟩] }

/-- What a script declares. -/
def declared (a : MappingArgs) (calls : List Call) : Declared :=
  calls.foldl (Declared.add a) Declared.empty

/-! ## Lists of objects -/

/-- The place that the list of clusters has for the coordinates. -/
def MappingArgs.clusterOf (a : MappingArgs) (x y : ℤ) : Script ℕ :=
  listIndex (a.xSize * a.ySize) (x * a.ySize + y)

/-- The coordinates are below the sizes. -/
def MappingArgs.Below (a : MappingArgs) (x y : ℤ) : Prop := x < a.xSize ∧ y < a.ySize

/-- The interrupts of the peripherals, each with the index of its peripheral. -/
def periphIrqs (periphs : List Periph) : List (ℕ × Irq) :=
  periphs.flatMap fun p => p.irqs.map fun q => (p.index, q)

/-- The vsegs of the vspaces, each with the index of its vspace. -/
def vspaceVsegs (vspaces : List Vspace) : List (Option ℕ × Vseg) :=
  vspaces.flatMap fun s => s.vsegs.map fun v => (some s.index, v)

/-- All vsegs, each with the index of its vspace if it has one. -/
def ownedVsegs (globs : List Vseg) (vspaces : List Vspace) : List (Option ℕ × Vseg) :=
  globs.map (fun v => (none, v)) ++ vspaceVsegs vspaces

/-- The tasks of the vspaces, each with the index of its vspace. -/
def ownedTasks (vspaces : List Vspace) : List (ℕ × Task) :=
  vspaces.flatMap fun s => s.tasks.map fun t => (s.index, t)

/-! ## Agreement -/

/-- A cluster stands at its place, and what it holds was declared there. -/
structure Placed (a : MappingArgs) (i : ℕ) (c : Cluster) : Prop where
  index : c.index = i
  x : c.x = i / a.ySize
  y : c.y = i % a.ySize
  psegs : ∀ p ∈ c.psegs, a.clusterOf p.x p.y = .ok i
  procs : ∀ p ∈ c.procs, a.clusterOf p.x p.y = .ok i
  periphs : ∀ p ∈ c.periphs, p.pseg ∈ c.psegs

/-- The clusters hold the declared hardware. -/
structure Hardware (a : MappingArgs) (psegDecls : List PsegArgs) (procDecls : List ProcessorArgs)
    (periphDecls : List PeriphDecl) (irqDecls : List IrqDecl) (clusters : List Cluster) :
    Prop where
  length : clusters.length = a.xSize * a.ySize
  placed : ∀ i c, clusters[i]? = some c → Placed a i c
  psegs : Registered (·.index) (·.toPsegArgs) (clusters.flatMap (·.psegs)) psegDecls
  procs : Registered (·.index) (·.toProcessorArgs) (clusters.flatMap (·.procs)) procDecls
  periphs : Registered (·.index) (fun p => (⟨p.toPeriphArgs, p.pseg.index⟩ : PeriphDecl))
    (clusters.flatMap (·.periphs)) periphDecls
  irqs : Registered (·.2.index) (fun o => (⟨o.2.toIrqArgs, o.1⟩ : IrqDecl))
    (periphIrqs (clusters.flatMap (·.periphs))) irqDecls
  belowPsegs : ∀ p ∈ psegDecls, a.Below p.x p.y
  belowProcs : ∀ p ∈ procDecls, a.Below p.x p.y

/-- The vspaces hold the declared software. -/
structure Software (a : MappingArgs) (vspaceDecls : List VspaceArgs) (vsegDecls : List VsegDecl)
    (taskDecls : List TaskDecl) (globs : List Vseg) (vspaces : List Vspace) : Prop where
  numbered : Numbered (·.index) vspaces
  args : vspaces.map (·.toVspaceArgs) = vspaceDecls
  vsegs : Registered (·.2.index) (fun o => (⟨o.2.toVsegArgs, o.1⟩ : VsegDecl))
    (ownedVsegs globs vspaces) vsegDecls
  tasks : Registered (·.2.index) (fun o => (⟨o.2.toTaskArgs, o.1⟩ : TaskDecl))
    (ownedTasks vspaces) taskDecls
  belowVsegs : ∀ v ∈ vsegDecls, v.vspace ≠ none → a.Below v.x v.y
  belowTasks : ∀ t ∈ taskDecls, a.Below t.x t.y
  words : ∀ v ∈ vsegDecls, lowBits v.vbase 32 = v.vbase ∧ lowBits v.length 32 = v.length

/-- A mapping holds what was declared. -/
structure Agrees (a : MappingArgs) (d : Declared) (m : Mapping) : Prop where
  args : m.toMappingArgs = a
  hardware : Hardware a d.psegs d.procs d.periphs d.irqs m.clusters
  software : Software a d.vspaces d.vsegs d.tasks m.globs m.vspaces
  totalPsegs : m.totalPsegs = d.psegs.length
  totalProcs : m.totalProcs = d.procs.length
  totalPeriphs : m.totalPeriphs = d.periphs.length
  totalIrqs : m.totalIrqs = d.irqs.length
  totalVspaces : m.totalVspaces = d.vspaces.length
  totalVsegs : m.totalVsegs = d.vsegs.length
  totalTasks : m.totalTasks = d.tasks.length
  totalGlobals : m.totalGlobals = m.globs.length

/-! ## Changes of one element -/

section Modify

variable {α : Type} {l : List α} {i : ℕ} {f : α → α}

theorem forall_modify {P : ℕ → α → Prop} (h : ∀ j c, l[j]? = some c → P j c)
    (hf : ∀ c, l[i]? = some c → P i c → P i (f c)) :
    ∀ j c, (l.modify i f)[j]? = some c → P j c := by
  intro j c hc
  rw [List.getElem?_modify] at hc
  cases hj : l[j]? with
  | none =>
    rw [hj] at hc
    cases hc
  | some old =>
    rw [hj] at hc
    have heq : (if i = j then f old else old) = c := Option.some.inj hc
    rw [← heq]
    split
    · next hij =>
      rw [← hij] at hj ⊢
      exact hf old hj (h i old hj)
    · exact h j old hj

end Modify

theorem listIndex_lt {length k : ℕ} {i : ℤ} (h : listIndex length i = .ok k) : k < length := by
  unfold listIndex at h
  split at h
  · next hi =>
    have heq : i.toNat = k := Except.ok.inj h
    omega
  · split at h
    · next hi =>
      have heq : ((length : ℤ) + i).toNat = k := Except.ok.inj h
      omega
    · cases h

/-! ## Hardware -/

namespace Hardware

variable {a : MappingArgs} {psegs : List PsegArgs} {procs : List ProcessorArgs}
  {periphs : List PeriphDecl} {irqs : List IrqDecl} {clusters : List Cluster} {i : ℕ}

theorem lt_length (h : Hardware a psegs procs periphs irqs clusters) {x y : ℤ}
    (hi : a.clusterOf x y = .ok i) : i < clusters.length := by
  rw [h.length]
  exact listIndex_lt hi

/-- A pseg is added in the cluster of its coordinates. -/
theorem addPseg (h : Hardware a psegs procs periphs irqs clusters) {r : PsegArgs}
    (hi : a.clusterOf r.x r.y = .ok i) (hbelow : a.Below r.x r.y) :
    Hardware a (psegs ++ [r]) procs periphs irqs
      (clusters.modify i (·.appendPseg ⟨r, psegs.length⟩)) := by
  constructor
  · rw [List.length_modify]
    exact h.length
  · apply forall_modify h.placed
    intro c _ hc
    refine ⟨hc.index, hc.x, hc.y, ?_, hc.procs, ?_⟩
    · intro p hp
      obtain hold | hnew := List.mem_append.1 hp
      · exact hc.psegs p hold
      · rw [List.mem_singleton.1 hnew]
        exact hi
    · intro p hp
      exact List.mem_append_left _ (hc.periphs p hp)
  · exact h.psegs.add (o := ⟨r, psegs.length⟩)
      (flatMap_modify_perm (h.lt_length hi) fun c _ => List.Perm.refl _) rfl
  · rw [flatMap_modify (by intro c; rfl)]
    exact h.procs
  · rw [flatMap_modify (by intro c; rfl)]
    exact h.periphs
  · rw [flatMap_modify (by intro c; rfl)]
    exact h.irqs
  · intro p hp
    obtain hold | hnew := List.mem_append.1 hp
    · exact h.belowPsegs p hold
    · rw [List.mem_singleton.1 hnew]
      exact hbelow
  · exact h.belowProcs

/-- A processor is added in the cluster of its coordinates. -/
theorem addProc (h : Hardware a psegs procs periphs irqs clusters) {args : ProcessorArgs}
    (hi : a.clusterOf args.x args.y = .ok i) (hbelow : a.Below args.x args.y) :
    Hardware a psegs (procs ++ [args]) periphs irqs
      (clusters.modify i (·.appendProc ⟨args, procs.length⟩)) := by
  constructor
  · rw [List.length_modify]
    exact h.length
  · apply forall_modify h.placed
    intro c _ hc
    refine ⟨hc.index, hc.x, hc.y, hc.psegs, ?_, hc.periphs⟩
    intro p hp
    obtain hold | hnew := List.mem_append.1 hp
    · exact hc.procs p hold
    · rw [List.mem_singleton.1 hnew]
      exact hi
  · rw [flatMap_modify (by intro c; rfl)]
    exact h.psegs
  · exact h.procs.add (o := ⟨args, procs.length⟩)
      (flatMap_modify_perm (h.lt_length hi) fun c _ => List.Perm.refl _) rfl
  · rw [flatMap_modify (by intro c; rfl)]
    exact h.periphs
  · rw [flatMap_modify (by intro c; rfl)]
    exact h.irqs
  · exact h.belowPsegs
  · intro p hp
    obtain hold | hnew := List.mem_append.1 hp
    · exact h.belowProcs p hold
    · rw [List.mem_singleton.1 hnew]
      exact hbelow

/-- A peripheral without interrupts is added in the cluster of its pseg. -/
theorem addPeriph (h : Hardware a psegs procs periphs irqs clusters) {p : Periph}
    (hi : i < clusters.length) (hpseg : ∀ c, clusters[i]? = some c → p.pseg ∈ c.psegs)
    (hindex : p.index = periphs.length) (hirqs : p.irqs = []) :
    Hardware a psegs procs (periphs ++ [⟨p.toPeriphArgs, p.pseg.index⟩]) irqs
      (clusters.modify i (·.appendPeriph p)) := by
  have hperm : ((clusters.modify i (·.appendPeriph p)).flatMap (·.periphs)).Perm
      (clusters.flatMap (·.periphs) ++ [p]) :=
    flatMap_modify_perm hi fun c _ => List.Perm.refl _
  constructor
  · rw [List.length_modify]
    exact h.length
  · apply forall_modify h.placed
    intro c hget hc
    refine ⟨hc.index, hc.x, hc.y, hc.psegs, hc.procs, ?_⟩
    intro p' hp
    obtain hold | hnew := List.mem_append.1 hp
    · exact hc.periphs p' hold
    · rw [List.mem_singleton.1 hnew]
      exact hpseg c hget
  · rw [flatMap_modify (by intro c; rfl)]
    exact h.psegs
  · rw [flatMap_modify (by intro c; rfl)]
    exact h.procs
  · exact h.periphs.add (o := p) hperm hindex
  · refine h.irqs.perm ?_
    refine (hperm.flatMap_right _).trans ?_
    rw [List.flatMap_append, List.flatMap_singleton, hirqs, List.map_nil, List.append_nil]
    exact List.Perm.refl _
  · exact h.belowPsegs
  · exact h.belowProcs

/-- The peripherals are changed, but not what they are declared with. -/
theorem mapPeriphs (h : Hardware a psegs procs periphs irqs clusters) {f : Periph → Periph}
    {irqs' : List IrqDecl} (hindex : ∀ p, (f p).index = p.index)
    (hargs : ∀ p, (f p).toPeriphArgs = p.toPeriphArgs) (hpseg : ∀ p, (f p).pseg = p.pseg)
    (hirqs : Registered (·.2.index) (fun o => (⟨o.2.toIrqArgs, o.1⟩ : IrqDecl))
      (periphIrqs ((clusters.flatMap (·.periphs)).map f)) irqs') :
    Hardware a psegs procs periphs irqs' (clusters.map (·.mapPeriphs f)) := by
  have hflat : (clusters.map (·.mapPeriphs f)).flatMap (·.periphs) =
      (clusters.flatMap (·.periphs)).map f := by
    rw [List.flatMap_map, List.map_flatMap]
    rfl
  constructor
  · rw [List.length_map]
    exact h.length
  · intro j c hc
    rw [List.getElem?_map, Option.map_eq_some_iff] at hc
    obtain ⟨c₀, hget, rfl⟩ := hc
    have hc := h.placed j c₀ hget
    refine ⟨hc.index, hc.x, hc.y, hc.psegs, hc.procs, ?_⟩
    intro p hp
    obtain ⟨p₀, hp₀, rfl⟩ := List.mem_map.1 hp
    rw [hpseg]
    exact hc.periphs p₀ hp₀
  · rw [List.flatMap_map]
    exact h.psegs
  · rw [List.flatMap_map]
    exact h.procs
  · rw [hflat]
    refine h.periphs.map hindex fun p => ?_
    rw [hargs, hpseg]
  · rw [hflat]
    exact hirqs
  · exact h.belowPsegs
  · exact h.belowProcs

/-- An interrupt is added to a peripheral. -/
theorem addIrq (h : Hardware a psegs procs periphs irqs clusters) {k : ℕ} {r : IrqArgs}
    (hk : k < periphs.length) :
    Hardware a psegs procs periphs (irqs ++ [⟨r, k⟩]) (clusters.map (·.mapPeriphs fun p =>
      if p.index = k then p.appendIrq ⟨r, irqs.length⟩ else p)) := by
  apply h.mapPeriphs
  · intro p
    split <;> rfl
  · intro p
    split <;> rfl
  · intro p
    split <;> rfl
  · refine h.irqs.add (o := (k, ⟨r, irqs.length⟩)) ?_ rfl
    refine flatMap_map_perm h.periphs.nodup (k := k) ?_ ?_ ?_
    · rw [h.periphs.numbers.mem_iff]
      exact List.mem_range.2 hk
    · intro p hp
      rw [if_pos hp]
      change ((p.irqs ++ [_]).map fun q => (p.index, q)).Perm _
      rw [List.map_append, List.map_singleton, hp]
    · intro p hp
      rw [if_neg hp]

/-- The interrupt controller of a peripheral is set. -/
theorem setIrqCtrl (h : Hardware a psegs procs periphs irqs clusters) {src k : ℕ} :
    Hardware a psegs procs periphs irqs (clusters.map (·.mapPeriphs fun p =>
      if p.index = src then p.setIrqCtrl k else p)) := by
  apply h.mapPeriphs
  · intro p
    split <;> rfl
  · intro p
    split <;> rfl
  · intro p
    split <;> rfl
  · have hsame : periphIrqs ((clusters.flatMap (·.periphs)).map fun p =>
        if p.index = src then p.setIrqCtrl k else p) =
        periphIrqs (clusters.flatMap (·.periphs)) := by
      rw [periphIrqs, List.flatMap_map]
      apply List.flatMap_congr
      intro p _
      split <;> rfl
    rw [hsame]
    exact h.irqs

end Hardware

/-! ## Software -/

namespace Software

variable {a : MappingArgs} {vspaceDecls : List VspaceArgs} {vsegs : List VsegDecl}
  {tasks : List TaskDecl} {globs : List Vseg} {vspaces : List Vspace} {k : ℕ}

theorem index_eq (h : Software a vspaceDecls vsegs tasks globs vspaces) {s : Vspace}
    (hs : vspaces[k]? = some s) : s.index = k :=
  numbered_iff.1 h.numbered k s hs

/-- A change of one vspace that leaves its arguments and its index. -/
theorem modify_args (h : Software a vspaceDecls vsegs tasks globs vspaces) {f : Vspace → Vspace}
    (hargs : ∀ s, (f s).toVspaceArgs = s.toVspaceArgs) (hindex : ∀ s, (f s).index = s.index) :
    Numbered (·.index) (vspaces.modify k f) ∧
      (vspaces.modify k f).map (·.toVspaceArgs) = vspaceDecls := by
  constructor
  · rw [numbered_iff]
    apply forall_modify (numbered_iff.1 h.numbered)
    intro s _ hs
    rw [hindex]
    exact hs
  · rw [← h.args]
    apply List.ext_getElem?
    intro j
    rw [List.getElem?_map, List.getElem?_map, List.getElem?_modify]
    cases vspaces[j]? with
    | none => rfl
    | some s =>
      change some (if k = j then f s else s).toVspaceArgs = some s.toVspaceArgs
      split
      · rw [hargs]
      · rfl

/-- A global vseg is added. -/
theorem addGlobal (h : Software a vspaceDecls vsegs tasks globs vspaces) {args : VsegArgs}
    (hwords : lowBits args.vbase 32 = args.vbase ∧ lowBits args.length 32 = args.length) :
    Software a vspaceDecls (vsegs ++ [⟨args, none⟩]) tasks (globs ++ [⟨args, vsegs.length⟩])
      vspaces := by
  constructor
  · exact h.numbered
  · exact h.args
  · refine h.vsegs.add (o := (none, ⟨args, vsegs.length⟩)) ?_ rfl
    rw [ownedVsegs, ownedVsegs, List.map_append, List.map_singleton, List.append_assoc,
      List.append_assoc]
    exact List.Perm.append_left _ List.perm_append_comm
  · exact h.tasks
  · intro v hv
    obtain hold | hnew := List.mem_append.1 hv
    · exact h.belowVsegs v hold
    · rw [List.mem_singleton.1 hnew]
      intro hne
      exact absurd rfl hne
  · exact h.belowTasks
  · intro v hv
    obtain hold | hnew := List.mem_append.1 hv
    · exact h.words v hold
    · rw [List.mem_singleton.1 hnew]
      exact hwords

/-- A vspace is added. -/
theorem addVspace (h : Software a vspaceDecls vsegs tasks globs vspaces) {r : VspaceArgs} :
    Software a (vspaceDecls ++ [r]) vsegs tasks globs
      (vspaces ++ [⟨r, vspaceDecls.length, [], []⟩]) := by
  have hlen : vspaces.length = vspaceDecls.length := by rw [← h.args, List.length_map]
  constructor
  · rw [Numbered, List.map_append, h.numbered, List.map_singleton, List.length_append,
      List.length_singleton, List.range_succ, hlen]
  · rw [List.map_append, h.args]
    rfl
  · rw [ownedVsegs, vspaceVsegs, List.flatMap_append, List.flatMap_singleton, List.map_nil,
      List.append_nil]
    exact h.vsegs
  · rw [ownedTasks, List.flatMap_append, List.flatMap_singleton, List.map_nil, List.append_nil]
    exact h.tasks
  · exact h.belowVsegs
  · exact h.belowTasks
  · exact h.words

/-- A vseg is added in a vspace. -/
theorem addVseg (h : Software a vspaceDecls vsegs tasks globs vspaces) {r : VsegArgs}
    (hk : k < vspaces.length) (hbelow : a.Below r.x r.y)
    (hwords : lowBits r.vbase 32 = r.vbase ∧ lowBits r.length 32 = r.length) :
    Software a vspaceDecls (vsegs ++ [⟨r, some k⟩]) tasks globs
      (vspaces.modify k (·.appendVseg ⟨r, vsegs.length⟩)) := by
  obtain ⟨hnumbered, hargs⟩ :=
    h.modify_args (k := k) (f := (·.appendVseg ⟨r, vsegs.length⟩)) (by intro s; rfl)
      (by intro s; rfl)
  constructor
  · exact hnumbered
  · exact hargs
  · refine h.vsegs.add (o := (some k, ⟨r, vsegs.length⟩)) ?_ rfl
    rw [ownedVsegs, ownedVsegs, List.append_assoc]
    refine List.Perm.append_left _ (flatMap_modify_perm hk ?_)
    intro s hs
    change ((s.vsegs ++ [_]).map fun v => (some s.index, v)).Perm _
    rw [List.map_append, List.map_singleton, h.index_eq hs]
  · rw [ownedTasks, flatMap_modify (by intro s; rfl)]
    exact h.tasks
  · intro v hv
    obtain hold | hnew := List.mem_append.1 hv
    · exact h.belowVsegs v hold
    · rw [List.mem_singleton.1 hnew]
      intro _
      exact hbelow
  · exact h.belowTasks
  · intro v hv
    obtain hold | hnew := List.mem_append.1 hv
    · exact h.words v hold
    · rw [List.mem_singleton.1 hnew]
      exact hwords

/-- A task is added in a vspace. -/
theorem addTask (h : Software a vspaceDecls vsegs tasks globs vspaces) {args : TaskArgs}
    (hk : k < vspaces.length) (hbelow : a.Below args.x args.y) :
    Software a vspaceDecls vsegs (tasks ++ [⟨args, k⟩]) globs
      (vspaces.modify k (·.appendTask ⟨args, tasks.length⟩)) := by
  obtain ⟨hnumbered, hargs⟩ :=
    h.modify_args (k := k) (f := (·.appendTask ⟨args, tasks.length⟩)) (by intro s; rfl)
      (by intro s; rfl)
  constructor
  · exact hnumbered
  · exact hargs
  · rw [ownedVsegs, vspaceVsegs, flatMap_modify (by intro s; rfl)]
    exact h.vsegs
  · refine h.tasks.add (o := (k, ⟨args, tasks.length⟩)) (flatMap_modify_perm hk ?_) rfl
    intro s hs
    change ((s.tasks ++ [_]).map fun t => (s.index, t)).Perm _
    rw [List.map_append, List.map_singleton, h.index_eq hs]
  · exact h.belowVsegs
  · intro t ht
    obtain hold | hnew := List.mem_append.1 ht
    · exact h.belowTasks t hold
    · rw [List.mem_singleton.1 hnew]
      exact hbelow
  · exact h.words

end Software

/-! ## Calls -/

/-- The coordinates of a place. -/
theorem place_div_mod {n x y : ℕ} (hy : y < n) : (x * n + y) / n = x ∧ (x * n + y) % n = y := by
  constructor
  · rw [Nat.mul_comm, Nat.mul_add_div (by omega), Nat.div_eq_of_lt hy, Nat.add_zero]
  · rw [Nat.mul_comm, Nat.mul_add_mod, Nat.mod_eq_of_lt hy]

theorem emptyClusters_eq (a : MappingArgs) :
    a.emptyClusters = (List.range (a.xSize * a.ySize)).map fun i =>
      ⟨i, i / a.ySize, i % a.ySize, [], [], []⟩ := by
  rw [MappingArgs.emptyClusters]
  induction a.xSize with
  | zero =>
    rw [Nat.zero_mul]
    rfl
  | succ n ih =>
    rw [List.range_succ, List.flatMap_append, List.flatMap_singleton, ih, Nat.succ_mul,
      List.range_add, List.map_append, List.map_map]
    refine congrArg (_ ++ ·) (List.map_congr_left fun y hy => ?_)
    have hplace := place_div_mod (x := n) (List.mem_range.1 hy)
    simp only [Function.comp_apply, hplace.1, hplace.2]

/-- A new mapping holds nothing. -/
theorem agrees_init {a : MappingArgs} {m : Mapping} (h : Mapping.init a = .ok m) :
    Agrees a Declared.empty m := by
  simp only [Mapping.init, script_bind_iff, assertThat_iff, exists_const, script_pure_iff] at h
  obtain ⟨_, _, _, rfl⟩ := h
  have hempty {α : Type} {g : Cluster → List α} (hg : ∀ i x y, g ⟨i, x, y, [], [], []⟩ = []) :
      a.emptyClusters.flatMap g = [] := by
    rw [emptyClusters_eq, List.flatMap_eq_nil_iff]
    intro c hc
    obtain ⟨i, _, rfl⟩ := List.mem_map.1 hc
    exact hg _ _ _
  constructor
  · rfl
  · constructor
    · rw [emptyClusters_eq, List.length_map, List.length_range]
    · intro i c hc
      rw [emptyClusters_eq, List.getElem?_map, Option.map_eq_some_iff] at hc
      obtain ⟨j, hj, rfl⟩ := hc
      obtain ⟨_, hij⟩ := List.getElem?_eq_some_iff.1 hj
      rw [List.getElem_range] at hij
      subst hij
      constructor
      · rfl
      · rfl
      · rfl
      · intro p hp
        exact absurd hp List.not_mem_nil
      · intro p hp
        exact absurd hp List.not_mem_nil
      · intro p hp
        exact absurd hp List.not_mem_nil
    · rw [hempty fun _ _ _ => rfl]
      exact registered_nil
    · rw [hempty fun _ _ _ => rfl]
      exact registered_nil
    · rw [hempty fun _ _ _ => rfl]
      exact registered_nil
    · rw [hempty fun _ _ _ => rfl]
      exact registered_nil
    · intro p hp
      exact absurd hp List.not_mem_nil
    · intro p hp
      exact absurd hp List.not_mem_nil
  · constructor
    · rfl
    · rfl
    · exact registered_nil
    · exact registered_nil
    · intro v hv
      exact absurd hv List.not_mem_nil
    · intro t ht
      exact absurd ht List.not_mem_nil
    · intro v hv
      exact absurd hv List.not_mem_nil
  all_goals rfl

namespace Agrees

variable {a : MappingArgs} {d : Declared} {m m' : Mapping}

theorem clusterAt_eq (h : Agrees a d m) (x y : ℤ) : m.clusterAt x y = a.clusterOf x y := by
  rw [Mapping.clusterAt, MappingArgs.clusterOf, h.hardware.length, h.args]

theorem addRam (h : Agrees a d m) {name : Text} {base size : ℤ}
    (hc : m.addRam name base size = .ok m') : Agrees a (d.add a (.addRam name base size)) m' := by
  simp only [Mapping.addRam, script_bind_iff, assertThat_iff, exists_const, script_pure_iff,
    h.clusterAt_eq] at hc
  obtain ⟨_, _, _, hbelow, _, _, i, hi, rfl⟩ := hc
  obtain rfl := h.args
  have hnew := h.hardware.addPseg (r := ⟨name, base, size, m.xOf base, m.yOf base, .ram⟩) hi
    hbelow
  rw [← h.totalPsegs] at hnew
  refine ⟨rfl, hnew, h.software, ?_, h.totalProcs, h.totalPeriphs, h.totalIrqs, h.totalVspaces,
    h.totalVsegs, h.totalTasks, h.totalGlobals⟩
  change m.totalPsegs + 1 = (d.psegs ++ [_]).length
  rw [h.totalPsegs, List.length_append, List.length_singleton]

theorem addPeriph (h : Agrees a d m) {name : Text} {base size : ℤ} {args : PeriphArgs}
    (hc : m.addPeriph name base size args = .ok m') :
    Agrees a (d.add a (.addPeriph name base size args)) m' := by
  simp only [Mapping.addPeriph, script_bind_iff, assertThat_iff, exists_const, script_pure_iff,
    h.clusterAt_eq] at hc
  obtain ⟨_, _, hbelow, _, _, _, i, hi, rfl⟩ := hc
  obtain rfl := h.args
  have hpseg := h.hardware.addPseg (r := ⟨name, base, size, m.xOf base, m.yOf base, .peri⟩) hi
    hbelow
  rw [← h.totalPsegs] at hpseg
  have hlt := hpseg.lt_length hi
  refine ⟨rfl, ?_, h.software, ?_, h.totalProcs, ?_, h.totalIrqs, h.totalVspaces,
    h.totalVsegs, h.totalTasks, h.totalGlobals⟩
  · change Hardware _ (d.psegs ++ [_]) d.procs (d.periphs ++ [⟨args, d.psegs.length⟩]) d.irqs _
    rw [← h.totalPsegs]
    refine hpseg.addPeriph (p := ⟨args, m.totalPeriphs, ⟨_, m.totalPsegs⟩, [], none⟩) hlt ?_
      h.totalPeriphs rfl
    intro c hget
    rw [List.getElem?_modify, Option.map_eq_map, Option.map_eq_some_iff] at hget
    obtain ⟨c₀, _, hc₀⟩ := hget
    rw [if_pos rfl] at hc₀
    rw [← hc₀]
    exact List.mem_append_right _ (List.mem_singleton_self _)
  · change m.totalPsegs + 1 = (d.psegs ++ [_]).length
    rw [h.totalPsegs, List.length_append, List.length_singleton]
  · change m.totalPeriphs + 1 = (d.periphs ++ [_]).length
    rw [h.totalPeriphs, List.length_append, List.length_singleton]

theorem addIrq (h : Agrees a d m) {periph src : ℕ} {index channel : ℤ} {isrtype : IsrType}
    (hc : m.addIrq periph index src isrtype channel = .ok m') :
    Agrees a (d.add a (.addIrq periph index src isrtype channel)) m' := by
  simp only [Mapping.addIrq, script_bind_iff, require_iff, assertThat_iff, exists_const,
    script_pure_iff] at hc
  obtain ⟨⟨hperiph, _⟩, _, _, rfl⟩ := hc
  rw [h.totalPeriphs] at hperiph
  have hirq := h.hardware.addIrq (r := ⟨.hwi, index, isrtype, channel⟩) hperiph
  rw [← h.totalIrqs] at hirq
  refine ⟨h.args, hirq.setIrqCtrl, h.software, h.totalPsegs, h.totalProcs, h.totalPeriphs, ?_,
    h.totalVspaces, h.totalVsegs, h.totalTasks, h.totalGlobals⟩
  change m.totalIrqs + 1 = (d.irqs ++ [_]).length
  rw [h.totalIrqs, List.length_append, List.length_singleton]

theorem addProc (h : Agrees a d m) {args : ProcessorArgs} (hc : m.addProc args = .ok m') :
    Agrees a (d.add a (.addProc args)) m' := by
  simp only [Mapping.addProc, script_bind_iff, assertThat_iff, exists_const, script_pure_iff,
    h.clusterAt_eq] at hc
  obtain ⟨hbelow, i, hi, rfl⟩ := hc
  obtain rfl := h.args
  have hnew := h.hardware.addProc hi hbelow
  rw [← h.totalProcs] at hnew
  refine ⟨rfl, hnew, h.software, h.totalPsegs, ?_, h.totalPeriphs, h.totalIrqs, h.totalVspaces,
    h.totalVsegs, h.totalTasks, h.totalGlobals⟩
  change m.totalProcs + 1 = (d.procs ++ [_]).length
  rw [h.totalProcs, List.length_append, List.length_singleton]

theorem addGlobal (h : Agrees a d m) {args : VsegArgs} (hc : m.addGlobal args = .ok m') :
    Agrees a (d.add a (.addGlobal args)) m' := by
  simp only [Mapping.addGlobal, Mapping.checkVseg, script_bind_iff, assertThat_iff, exists_const,
    script_pure_iff] at hc
  obtain ⟨_, _, ⟨hvbase, hlength, _⟩, rfl⟩ := hc
  have hnew := h.software.addGlobal ⟨hvbase, hlength⟩
  rw [← h.totalVsegs] at hnew
  refine ⟨h.args, h.hardware, hnew, h.totalPsegs, h.totalProcs, h.totalPeriphs, h.totalIrqs,
    h.totalVspaces, ?_, h.totalTasks, ?_⟩
  · change m.totalVsegs + 1 = (d.vsegs ++ [_]).length
    rw [h.totalVsegs, List.length_append, List.length_singleton]
  · change m.totalGlobals + 1 = (m.globs ++ [_]).length
    rw [h.totalGlobals, List.length_append, List.length_singleton]

theorem addVspace (h : Agrees a d m) {args : VspaceArgs} (hc : m.addVspace args = .ok m') :
    Agrees a (d.add a (.addVspace args)) m' := by
  rw [Mapping.addVspace, script_pure_iff] at hc
  subst hc
  have hnew := h.software.addVspace (r := args)
  rw [← h.totalVspaces] at hnew
  refine ⟨h.args, h.hardware, hnew, h.totalPsegs, h.totalProcs, h.totalPeriphs, h.totalIrqs, ?_,
    h.totalVsegs, h.totalTasks, h.totalGlobals⟩
  change m.totalVspaces + 1 = (d.vspaces ++ [_]).length
  rw [h.totalVspaces, List.length_append, List.length_singleton]

theorem addVseg (h : Agrees a d m) {vspace : ℕ} {args : VsegArgs}
    (hc : m.addVseg vspace args = .ok m') : Agrees a (d.add a (.addVseg vspace args)) m' := by
  simp only [Mapping.addVseg, Mapping.checkVseg, script_bind_iff, require_iff, assertThat_iff,
    exists_const, script_pure_iff] at hc
  obtain ⟨hlt, hbelow, ⟨hvbase, hlength, _⟩, rfl⟩ := hc
  obtain rfl := h.args
  have hnew := h.software.addVseg (r := { args with identity := false }) hlt hbelow
    ⟨hvbase, hlength⟩
  rw [← h.totalVsegs] at hnew
  refine ⟨rfl, h.hardware, hnew, h.totalPsegs, h.totalProcs, h.totalPeriphs, h.totalIrqs,
    h.totalVspaces, ?_, h.totalTasks, h.totalGlobals⟩
  change m.totalVsegs + 1 = (d.vsegs ++ [_]).length
  rw [h.totalVsegs, List.length_append, List.length_singleton]

theorem addTask (h : Agrees a d m) {vspace : ℕ} {args : TaskArgs}
    (hc : m.addTask vspace args = .ok m') : Agrees a (d.add a (.addTask vspace args)) m' := by
  simp only [Mapping.addTask, script_bind_iff, require_iff, assertThat_iff, exists_const,
    script_pure_iff] at hc
  obtain ⟨hlt, hbelow, _, rfl⟩ := hc
  obtain rfl := h.args
  have hnew := h.software.addTask hlt hbelow
  rw [← h.totalTasks] at hnew
  refine ⟨rfl, h.hardware, hnew, h.totalPsegs, h.totalProcs, h.totalPeriphs, h.totalIrqs,
    h.totalVspaces, h.totalVsegs, ?_, h.totalGlobals⟩
  change m.totalTasks + 1 = (d.tasks ++ [_]).length
  rw [h.totalTasks, List.length_append, List.length_singleton]

/-- A call keeps the agreement. -/
theorem call (h : Agrees a d m) {c : Call} (hc : m.call c = .ok m') : Agrees a (d.add a c) m' := by
  cases c with
  | addRam => exact h.addRam hc
  | addPeriph => exact h.addPeriph hc
  | addIrq => exact h.addIrq hc
  | addProc => exact h.addProc hc
  | addGlobal => exact h.addGlobal hc
  | addVspace => exact h.addVspace hc
  | addVseg => exact h.addVseg hc
  | addTask => exact h.addTask hc

/-- Calls one after the other keep the agreement. -/
theorem calls (h : Agrees a d m) {calls : List Call} (hc : calls.foldlM Mapping.call m = .ok m') :
    Agrees a (calls.foldl (Declared.add a) d) m' := by
  induction calls generalizing d m with
  | nil =>
    rw [List.foldlM_nil, script_pure_iff] at hc
    rw [← hc]
    exact h
  | cons c rest ih =>
    rw [List.foldlM_cons, script_bind_iff] at hc
    obtain ⟨m₁, hm₁, hrest⟩ := hc
    exact ih (h.call hm₁) hrest

end Agrees

/-- A mapping that a script builds holds what the script declares. -/
theorem buildMapping_agrees {a : MappingArgs} {calls : List Call} {m : Mapping}
    (h : buildMapping a calls = .ok m) : Agrees a (declared a calls) m := by
  rw [buildMapping, script_bind_iff] at h
  obtain ⟨m₀, hinit, hcalls⟩ := h
  exact (agrees_init hinit).calls hcalls

end GietVm.Genmap
