import GietVm.Fat.Descriptors
import GietVm.Fat.SectionSafety

/-!
# Descriptors along the executions

In an execution whose steps are all orderly, a task that has checked a descriptor in `_fat_read`
still finds it allocated in the section, and a task that is about to seek back finds the opening
whose end it has read. On a directory, the moves since the descriptor was given a position
follow each other, and the last ones are the reads of the end of the directory by the tasks that
are about to seek back, so that each step back cancels one of them.
-/

namespace GietVm.Fat.Shared

open GietVm.Library

/-! ## The history of a descriptor -/

section Place

variable (d : Descriptor) (seek origin : ℕ) (passed : List Passage) (handed : List ℕ)

@[simp] theorem place_seek : (d.place seek origin passed handed).seek = seek := rfl

@[simp] theorem place_origin : (d.place seek origin passed handed).origin = origin := rfl

@[simp] theorem place_passed : (d.place seek origin passed handed).passed = passed := rfl

@[simp] theorem place_handed : (d.place seek origin passed handed).handed = handed := rfl

@[simp] theorem place_allocated : (d.place seek origin passed handed).allocated = d.allocated := rfl

@[simp] theorem place_opening : (d.place seek origin passed handed).opening = d.opening := rfl

@[simp] theorem place_inode : (d.place seek origin passed handed).inode = d.inode := rfl

end Place

theorem follow_append {a b : ℕ} {l l' : List Passage} :
    Follow a (l ++ l') b ↔ ∃ c, Follow a l c ∧ Follow c l' b := by
  induction l generalizing a with
  | nil => exact ⟨fun h => ⟨a, rfl, h⟩, fun ⟨c, hc, h⟩ => by rwa [show a = c from hc]⟩
  | cons p l ih =>
    constructor
    · rintro ⟨hp, h⟩
      obtain ⟨c, hc, h⟩ := ih.mp h
      exact ⟨c, ⟨hp, hc⟩, h⟩
    · rintro ⟨c, ⟨hp, hc⟩, h⟩
      exact ⟨hp, ih.mpr ⟨c, hc, h⟩⟩

theorem follow_single {a b : ℕ} {p : Passage} : Follow a [p] b ↔ p.start = a ∧ a + p.length = b :=
  Iff.rfl

/-- The passages that follow a position start from it on. -/
theorem Follow.le_start {a b : ℕ} {l : List Passage} (h : Follow a l b) :
    ∀ p ∈ l, a ≤ p.start := by
  induction l generalizing a with
  | nil => exact nofun
  | cons p l ih =>
    obtain ⟨hp, h⟩ := h
    intro q hq
    obtain rfl | hq := List.mem_cons.mp hq
    · exact hp.ge
    · exact (Nat.le_add_right _ _).trans (ih h q hq)

/-- Passages that are not empty have different starts. -/
theorem Follow.nodup {a b : ℕ} {l : List Passage} (h : Follow a l b)
    (hpos : ∀ p ∈ l, 0 < p.length) : (l.map (·.start)).Nodup := by
  induction l generalizing a with
  | nil => exact List.nodup_nil
  | cons p l ih =>
    obtain ⟨hp, h⟩ := h
    rw [List.map_cons, List.nodup_cons]
    refine ⟨?_, ih h fun q hq => hpos q (List.mem_cons_of_mem _ hq)⟩
    intro hmem
    obtain ⟨q, hq, hstart⟩ := List.mem_map.mp hmem
    have hle := h.le_start q hq
    have hlength := hpos p List.mem_cons_self
    omega

/-- The history of a descriptor of a directory, when `b` tasks are about to seek back. -/
structure Descriptor.History (d : Descriptor) (b : ℕ) : Prop where
  handed_eq : d.handed = (d.passed.filter (·.entry)).map (·.start)
  follow : Follow d.origin d.passed d.seek
  pos : ∀ p ∈ d.passed, 0 < p.length
  ends : ∃ before after, d.passed = before ++ after ∧ after.length = b ∧
    ∀ p ∈ after, p.length = 32 ∧ p.entry = false

namespace Descriptor.History

variable {d : Descriptor} {b : ℕ}

theorem eachOnce (h : d.History b) : d.EachOnce := by
  refine ⟨?_, h.handed_eq, h.follow⟩
  rw [h.handed_eq]
  exact (h.follow.nodup h.pos).sublist (List.filter_sublist.map _)

theorem of_empty (hpassed : d.passed = []) (hhanded : d.handed = []) (hseek : d.seek = d.origin) :
    d.History 0 where
  handed_eq := by rw [hpassed, hhanded]; rfl
  follow := by rw [hpassed, hseek]; rfl
  pos := by rw [hpassed]; exact nofun
  ends := ⟨[], [], by rw [hpassed]; rfl, rfl, nofun⟩

/-- A move over no byte. -/
theorem move_zero (h : d.History b) (hseek : d.seek < 0x100000000) :
    (d.move 0 false).History b := by
  have hadd : add32 d.seek 0 = d.seek := add32_eq hseek
  have hsame : d.move 0 false = d := by
    simp only [Descriptor.move, hadd, if_true, Bool.false_eq_true, if_false]
    rfl
  rw [hsame]
  exact h

variable {done : ℕ} {entry : Bool}

/-- What a move adds to the history. -/
theorem move_facts (h : d.History b) (hdone : done ≠ 0) (hlt : d.seek + done < 0x100000000) :
    (d.move done entry).passed = d.passed ++ [⟨d.seek, done, entry⟩] ∧
      (d.move done entry).handed =
        ((d.move done entry).passed.filter (·.entry)).map (·.start) ∧
      Follow (d.move done entry).origin (d.move done entry).passed (d.move done entry).seek ∧
      ∀ p ∈ (d.move done entry).passed, 0 < p.length := by
  have hpassed : (d.move done entry).passed = d.passed ++ [⟨d.seek, done, entry⟩] := if_neg hdone
  refine ⟨hpassed, ?_, ?_, ?_⟩
  · rw [hpassed, List.filter_append, List.map_append, ← h.handed_eq]
    cases entry with
    | true => rfl
    | false => exact (List.append_nil _).symm
  · rw [hpassed]
    exact follow_append.mpr ⟨d.seek, h.follow, rfl, (add32_eq hlt).symm⟩
  · rw [hpassed]
    intro p hp
    obtain hp | hp := List.mem_append.mp hp
    · exact h.pos p hp
    · rw [List.mem_singleton.mp hp]
      exact Nat.pos_of_ne_zero hdone

/-- A move when no task is about to seek back. -/
theorem move_clear (h : d.History 0) (hdone : done ≠ 0) (hlt : d.seek + done < 0x100000000) :
    (d.move done entry).History 0 := by
  obtain ⟨-, hhanded, hfollow, hpos⟩ := h.move_facts hdone hlt
  exact ⟨hhanded, hfollow, hpos, _, [], (List.append_nil _).symm, rfl, nofun⟩

/-- A read of the end of the directory. -/
theorem move_end (h : d.History b) (hlt : d.seek + 32 < 0x100000000) :
    (d.move 32 false).History (b + 1) := by
  obtain ⟨hpassed, hhanded, hfollow, hpos⟩ := h.move_facts (by decide) hlt
  obtain ⟨before, after, heq, hlength, hafter⟩ := h.ends
  refine ⟨hhanded, hfollow, hpos, before, after ++ [⟨d.seek, 32, false⟩], ?_, ?_, ?_⟩
  · rw [hpassed, heq, List.append_assoc]
  · rw [List.length_append, hlength, List.length_singleton]
  · intro p hp
    obtain hp | hp := List.mem_append.mp hp
    · exact hafter p hp
    · rw [List.mem_singleton.mp hp]
      exact ⟨rfl, rfl⟩

/-- A step back. -/
theorem back (h : d.History (b + 1)) (hseek : d.seek < 0x100000000) : d.back.History b := by
  obtain ⟨before, after, heq, hlength, hafter⟩ := h.ends
  obtain ⟨after, p, rfl⟩ : ∃ l p, after = l ++ [p] := by
    obtain hnil | ⟨l, p, hl⟩ := List.eq_nil_or_concat' after
    · rw [hnil] at hlength
      cases hlength
    · exact ⟨l, p, hl⟩
  obtain ⟨h32, hentry⟩ := hafter p (List.mem_append_right _ List.mem_cons_self)
  have hpassed : d.passed = (before ++ after) ++ [p] := by rw [heq, List.append_assoc]
  have hback : d.back.passed = before ++ after := by
    rw [Descriptor.back, place_passed, hpassed, List.dropLast_concat]
  obtain ⟨c, hc, hstart, hstop⟩ := follow_append.mp (hpassed ▸ h.follow)
  refine ⟨?_, ?_, ?_, before, after, hback, ?_, ?_⟩
  · rw [hback]
    rw [Descriptor.back, place_handed, h.handed_eq, hpassed, List.filter_append, List.map_append, List.filter_cons_of_neg,
      List.filter_nil, List.map_nil, List.append_nil]
    rw [hentry]
    decide
  · have hstop : c + p.length = d.seek := hstop
    have hseek' : d.back.seek = c := by
      rw [Descriptor.back, place_seek, sub32_eq (by omega) hseek]
      omega
    rw [hback, hseek', Descriptor.back, place_origin]
    exact hc
  · rw [hback]
    intro q hq
    exact h.pos q (hpassed ▸ List.mem_append_left _ hq)
  · rw [List.length_append, List.length_singleton] at hlength
    omega
  · intro q hq
    exact hafter q (List.mem_append_left _ hq)

end Descriptor.History

/-! ## The invariant -/

variable {T : Type}

/-- What holds after each orderly step. -/
structure Inv (s : State T) : Prop where
  tree : s.files.Tree
  open' : s.files.Open
  accesses : ∀ a ∈ s.trail, a.Valid
  adjusts : ∀ e ∈ s.adjusts, e.1 = e.2
  /-- A task that has checked a descriptor finds it allocated. -/
  reading : ∀ t fd c, s.pc t = .readLock fd c → (s.files.fd fd).allocated = true
  /-- A task that is about to seek back finds the opening whose end it has read. -/
  back : ∀ t fd opening, s.pc t = .seekBack fd opening →
    (s.files.fd fd).allocated = true ∧ (s.files.fd fd).opening = opening
  mem_behind : ∀ t fd, t ∈ s.behind fd ↔ ∃ opening, s.pc t = .seekBack fd opening
  nodup_behind : ∀ fd, (s.behind fd).Nodup
  history : ∀ fd, (s.files.fd fd).allocated = true →
    (s.files.inode (s.files.fd fd).inode).isDir = true →
    (s.files.fd fd).History (s.behind fd).length

/-- Another task counts on the descriptor. -/
def State.Used (s : State T) (t : T) (fd : ℕ) : Prop :=
  ∃ u ≠ t, (∃ c, s.pc u = .readLock fd c) ∨ ∃ opening, s.pc u = .seekBack fd opening

namespace Inv

variable {s : State T} {t : T}

theorem init : Inv (State.init T) where
  tree := Files.init_tree
  open' := Files.init_open
  accesses := nofun
  adjusts := nofun
  reading := nofun
  back := nofun
  mem_behind := fun _ _ => ⟨nofun, fun ⟨_, h⟩ => nomatch h⟩
  nodup_behind := fun _ => List.nodup_nil
  history := fun _ h => nomatch h

theorem valid (hs : Inv s) : s.Valid :=
  ⟨hs.accesses, hs.adjusts, fun fd hi hdir => (hs.history fd hi hdir).eachOnce⟩

theorem allocated_of_used (hs : Inv s) {fd : ℕ} (h : s.Used t fd) :
    (s.files.fd fd).allocated = true := by
  obtain ⟨u, -, ⟨c, hc⟩ | ⟨opening, hback⟩⟩ := h
  · exact hs.reading u fd c hc
  · exact (hs.back u fd opening hback).1

/-- No task is about to seek back on a descriptor that is not allocated. -/
theorem behind_of_free (hs : Inv s) {fd : ℕ} (h : (s.files.fd fd).allocated = false) :
    s.behind fd = [] := by
  refine List.eq_nil_iff_forall_not_mem.mpr ?_
  intro u hu
  obtain ⟨opening, hpc⟩ := (hs.mem_behind u fd).mp hu
  rw [(hs.back u fd opening hpc).1] at h
  cases h

/-- No task is about to seek back on a directory when no call is pending there. -/
theorem behind_of_not_pending (hs : Inv s) {fd : ℕ}
    (hdir : (s.files.inode (s.files.fd fd).inode).isDir = true) (h : ¬ s.Pending fd) :
    s.behind fd = [] := by
  refine List.eq_nil_iff_forall_not_mem.mpr ?_
  intro u hu
  exact h ⟨hdir, u, (hs.mem_behind u fd).mp hu⟩

section Descriptors

variable {f' : Files}

/-- The histories when no descriptor changes. -/
theorem history_same (hs : Inv s) (hkept : s.files.Kept f') (hfd : f'.fd = s.files.fd) (fd : ℕ)
    (hi : (f'.fd fd).allocated = true) (hdir : (f'.inode (f'.fd fd).inode).isDir = true) :
    (f'.fd fd).History (s.behind fd).length := by
  rw [hfd] at hi hdir ⊢
  rw [hkept.isDir _ (hs.open'.desc fd hi).1] at hdir
  exact hs.history fd hi hdir

/-- The histories when one descriptor changes. -/
theorem history_update (hs : Inv s) (hkept : s.files.Kept f') {i : ℕ} {d : Descriptor}
    {behind' : ℕ → List T} (hfd : f'.fd = Function.update s.files.fd i d)
    (hbehind : ∀ fd ≠ i, behind' fd = s.behind fd)
    (hd : d.allocated = true → (f'.inode d.inode).isDir = true → d.History (behind' i).length)
    (fd : ℕ) (hi : (f'.fd fd).allocated = true)
    (hdir : (f'.inode (f'.fd fd).inode).isDir = true) :
    (f'.fd fd).History (behind' fd).length := by
  rw [hfd] at hi hdir ⊢
  by_cases heq : fd = i
  · subst heq
    rw [Function.update_self] at hi hdir ⊢
    exact hd hi hdir
  · rw [Function.update_of_ne heq] at hi hdir ⊢
    rw [hkept.isDir _ (hs.open'.desc fd hi).1] at hdir
    rw [hbehind fd heq]
    exact hs.history fd hi hdir

/-- What the others see of a descriptor that changes. -/
theorem used_update (hs : Inv s) {i : ℕ} {d : Descriptor}
    (hfd : f'.fd = Function.update s.files.fd i d)
    (hd : s.Used t i → d.allocated = true ∧ d.opening = (s.files.fd i).opening) (fd : ℕ)
    (hused : s.Used t fd) :
    (f'.fd fd).allocated = true ∧ (f'.fd fd).opening = (s.files.fd fd).opening := by
  rw [hfd]
  by_cases heq : fd = i
  · subst heq
    rw [Function.update_self]
    exact hd hused
  · rw [Function.update_of_ne heq]
    exact ⟨hs.allocated_of_used hused, rfl⟩

theorem used_same (hs : Inv s) (hfd : f'.fd = s.files.fd) (fd : ℕ) (hused : s.Used t fd) :
    (f'.fd fd).allocated = true ∧ (f'.fd fd).opening = (s.files.fd fd).opening := by
  rw [hfd]
  exact ⟨hs.allocated_of_used hused, rfl⟩

end Descriptors

section Next

variable [DecidableEq T] {f' : Files} {pc' : Pc} {trail' : List Access} {returns' : List (Return T)}

/-- A task moves to another point, and the files change in a way that the others do not see. -/
theorem next (hs : Inv s) {adjusts' : List (ℕ × ℕ)} {behind' : ℕ → List T}
    (hkept : s.files.Kept f') (haccesses : ∀ a ∈ trail', a.Valid)
    (hadjusts : ∀ e ∈ adjusts', e.1 = e.2)
    (hread : ∀ fd c, pc' = .readLock fd c → (f'.fd fd).allocated = true)
    (hback : ∀ fd opening, pc' = .seekBack fd opening →
      (f'.fd fd).allocated = true ∧ (f'.fd fd).opening = opening)
    (hused : ∀ fd, s.Used t fd → (f'.fd fd).allocated = true ∧
      (f'.fd fd).opening = (s.files.fd fd).opening)
    (hother : ∀ u ≠ t, ∀ fd, u ∈ behind' fd ↔ u ∈ s.behind fd)
    (hself : ∀ fd, t ∈ behind' fd ↔ ∃ opening, pc' = .seekBack fd opening)
    (hnodup : ∀ fd, (behind' fd).Nodup)
    (hhistory : ∀ fd, (f'.fd fd).allocated = true →
      (f'.inode (f'.fd fd).inode).isDir = true → (f'.fd fd).History (behind' fd).length) :
    Inv ⟨f', Function.update s.pc t pc', returns', trail', adjusts', behind'⟩ where
  tree := hkept.tree
  open' := hkept.open'
  accesses := haccesses
  adjusts := hadjusts
  reading := fun u fd c hu => by
    change Function.update s.pc t pc' u = _ at hu
    by_cases hut : u = t
    · rw [hut, Function.update_self] at hu
      exact hread fd c hu
    · rw [Function.update_of_ne hut] at hu
      exact (hused fd ⟨u, hut, Or.inl ⟨c, hu⟩⟩).1
  back := fun u fd opening hu => by
    change Function.update s.pc t pc' u = _ at hu
    by_cases hut : u = t
    · rw [hut, Function.update_self] at hu
      exact hback fd opening hu
    · rw [Function.update_of_ne hut] at hu
      obtain ⟨halloc, hopening⟩ := hused fd ⟨u, hut, Or.inr ⟨opening, hu⟩⟩
      exact ⟨halloc, hopening.trans (hs.back u fd opening hu).2⟩
  mem_behind := fun u fd => by
    change u ∈ behind' fd ↔ ∃ opening, Function.update s.pc t pc' u = _
    by_cases hut : u = t
    · rw [hut, Function.update_self]
      exact hself fd
    · rw [Function.update_of_ne hut, hother u hut fd]
      exact hs.mem_behind u fd
  nodup_behind := hnodup
  history := hhistory

/-- The same when no task starts or stops being about to seek back. -/
theorem advance (hs : Inv s) (hkept : s.files.Kept f') (haccesses : ∀ a ∈ trail', a.Valid)
    (hfrom : ∀ fd opening, s.pc t ≠ .seekBack fd opening)
    (hto : ∀ fd opening, pc' ≠ .seekBack fd opening)
    (hread : ∀ fd c, pc' = .readLock fd c → (f'.fd fd).allocated = true)
    (hused : ∀ fd, s.Used t fd → (f'.fd fd).allocated = true ∧
      (f'.fd fd).opening = (s.files.fd fd).opening)
    (hhistory : ∀ fd, (f'.fd fd).allocated = true →
      (f'.inode (f'.fd fd).inode).isDir = true → (f'.fd fd).History (s.behind fd).length) :
    Inv ⟨f', Function.update s.pc t pc', returns', trail', s.adjusts, s.behind⟩ := by
  refine hs.next hkept haccesses hs.adjusts hread ?_ hused (fun _ _ _ => Iff.rfl) ?_
    hs.nodup_behind hhistory
  · intro fd opening h
    exact absurd h (hto fd opening)
  · intro fd
    rw [hs.mem_behind]
    exact ⟨fun ⟨opening, h⟩ => absurd h (hfrom fd opening),
      fun ⟨opening, h⟩ => absurd h (hto fd opening)⟩

end Next

end Inv

/-! ## The steps -/

section Steps

variable {s : State T} {t : T}

/-- The accesses of a safe section are all to something in use. -/
theorem trail_valid {α : Type} {x : SectionM α} {Q : α → Files → Prop} (hs : Inv s)
    (hx : Safe Access.Valid x Q s.files) : ∀ a ∈ (s.locked x).trail, a.Valid := by
  intro a ha
  obtain ha | ha := List.mem_append.mp ha
  · exact hs.accesses a ha
  · exact hx.2 a ha

/-- A task outside the critical places moves to another such place without changing the files. -/
theorem Inv.goto [DecidableEq T] (hs : Inv s) {pc' : Pc} {returns' : List (Return T)}
    (hfrom : ∀ fd opening, s.pc t ≠ .seekBack fd opening)
    (hto : ∀ fd opening, pc' ≠ .seekBack fd opening)
    (hread : ∀ fd c, pc' = .readLock fd c → (s.files.fd fd).allocated = true) :
    Inv { s with pc := Function.update s.pc t pc', returns := returns' } :=
  have hkept := Files.Kept.refl hs.tree hs.open'
  hs.advance hkept hs.accesses hfrom hto hread (hs.used_same rfl) (hs.history_same hkept rfl)

/-- A task returns without changing the files. -/
theorem Inv.finish [DecidableEq T] (hs : Inv s)
    (hfrom : ∀ fd opening, s.pc t ≠ .seekBack fd opening) (code : ℤ) (entry : Option Dirent) :
    Inv (s.finish t code entry) :=
  hs.goto hfrom (by simp) (by simp)

/-- The effect of a section on the descriptors, as the other tasks see it. -/
structure State.Effect (s : State T) (t : T) (f' : Files) : Prop where
  kept : s.files.Kept f'
  used : ∀ fd, s.Used t fd → (f'.fd fd).allocated = true ∧
    (f'.fd fd).opening = (s.files.fd fd).opening
  history : ∀ fd, (f'.fd fd).allocated = true →
    (f'.inode (f'.fd fd).inode).isDir = true → (f'.fd fd).History (s.behind fd).length

theorem Inv.effect_same (hs : Inv s) {f' : Files} (hkept : s.files.Kept f')
    (hfd : f'.fd = s.files.fd) : s.Effect t f' :=
  ⟨hkept, hs.used_same hfd, hs.history_same hkept hfd⟩

theorem Inv.effect_update (hs : Inv s) {f' : Files} {i : ℕ} {d : Descriptor}
    (hkept : s.files.Kept f') (hfd : f'.fd = Function.update s.files.fd i d)
    (hused : s.Used t i → d.allocated = true ∧ d.opening = (s.files.fd i).opening)
    (hd : d.allocated = true → (f'.inode d.inode).isDir = true →
      d.History (s.behind i).length) : s.Effect t f' :=
  ⟨hkept, hs.used_update hfd hused, hs.history_update hkept hfd (fun _ _ => rfl) hd⟩

/-- The type of the inode of an open descriptor does not change. -/
theorem Inv.isDir_of_kept (hs : Inv s) {f' : Files} (hkept : s.files.Kept f') {i : ℕ}
    (hi : (s.files.fd i).allocated = true) :
    (f'.inode (s.files.fd i).inode).isDir = (s.files.inode (s.files.fd i).inode).isDir :=
  hkept.isDir _ (hs.open'.desc i hi).1

/-- A call that is one section. -/
theorem Inv.call [DecidableEq T] (hs : Inv s) (hpc : s.pc t = .out) {x : SectionM ℤ}
    (hx : Safe Access.Valid x (fun _ f' => s.Effect t f') s.files) : Inv (s.call t x) :=
  hs.advance hx.1.kept (trail_valid hs hx) (by simp [hpc]) (by simp) (by simp) hx.1.used
    hx.1.history

theorem Inv.opened_effect (hs : Inv s) {f₀ f' : Files} (hkept : s.files.Kept f')
    (hfd : f₀.fd = s.files.fd) (hopened : f₀.Opened f') : s.Effect t f' := by
  obtain hsame | ⟨i, child, readOnly, hfree, hupdate⟩ := hopened
  · exact hs.effect_same hkept (hsame.trans hfd)
  · rw [hfd] at hfree hupdate
    refine hs.effect_update hkept hupdate ?_ ?_
    · intro hused
      rw [hs.allocated_of_used hused] at hfree
      cases hfree
    · intro _ _
      rw [hs.behind_of_free hfree]
      exact .of_empty rfl rfl rfl

theorem Inv.fatOpen_effect (hs : Inv s) (io : OpenIo) (pathname : List UInt8) (flags : ℕ) :
    Safe Access.Valid (fatOpen io pathname flags) (fun _ f' => s.Effect t f') s.files := by
  refine (fatOpen_safe hs.tree hs.open').mono ?_
  rintro _ f' ⟨hkept, f₀, hfd, hopened⟩
  exact hs.opened_effect hkept hfd hopened

theorem Inv.fatClose_effect (hs : Inv s) (io : CloseIo) {fd : ℕ}
    (hfree : ∀ u, (∀ c, s.pc u ≠ .readLock fd c) ∧ ∀ opening, s.pc u ≠ .seekBack fd opening) :
    Safe Access.Valid (fatClose io fd) (fun _ f' => s.Effect t f') s.files := by
  refine (fatClose_safe hs.tree hs.open').mono ?_
  rintro _ f' ⟨hkept, hsame | hupdate⟩
  · exact hs.effect_same hkept hsame
  · refine hs.effect_update hkept hupdate ?_ fun h => nomatch h
    rintro ⟨u, -, ⟨c, hc⟩ | ⟨opening, hback⟩⟩
    · exact absurd hc ((hfree u).1 c)
    · exact absurd hback ((hfree u).2 opening)

/-- A transfer that keeps clear of the calls that are about to seek back. -/
theorem Inv.move_history (hs : Inv s) {fd count : ℕ} {entry : Bool}
    (hi : (s.files.fd fd).allocated = true) (hclear : s.Clear fd count False)
    (hentry : count = 0 → entry = false)
    (hdir : (s.files.inode (s.files.fd fd).inode).isDir = true) :
    ((s.files.fd fd).move (bytesMoved (s.files.fd fd).seek count) entry).History
      (s.behind fd).length := by
  have hhistory := hs.history fd hi hdir
  rw [bytesMoved_eq (hclear.1 hdir)]
  by_cases hcount : count = 0
  · rw [hentry hcount, hcount]
    exact hhistory.move_zero (hs.open'.seek_lt fd)
  · rw [hs.behind_of_not_pending hdir (hclear.2 hcount)] at hhistory ⊢
    exact hhistory.move_clear hcount (hclear.1 hdir)

theorem Inv.fatWrite_effect (hs : Inv s) (io : WriteIo) {fd count : ℕ}
    (hclear : io.loaded = true → s.Clear fd count False) :
    Safe Access.Valid (fatWrite io fd count) (fun _ f' => s.Effect t f') s.files := by
  refine (fatWrite_safe hs.tree hs.open').mono ?_
  rintro _ f' ⟨hkept, hsame | ⟨hloaded, hi, hupdate⟩⟩
  · exact hs.effect_same hkept hsame
  · refine hs.effect_update hkept hupdate (fun _ => ⟨?_, ?_⟩) ?_
    · rwa [Descriptor.move, place_allocated]
    · rw [Descriptor.move, place_opening]
    intro _ hdir
    rw [Descriptor.move, place_inode, hs.isDir_of_kept hkept hi] at hdir
    exact hs.move_history hi (hclear hloaded) (fun _ => rfl) hdir

theorem Inv.fatLseek_effect (hs : Inv s) {fd seek : ℕ} (whence : Whence)
    (hseek : seek < 0x100000000) (hpending : ¬ s.Pending fd) :
    Safe Access.Valid (fatLseek fd seek whence) (fun _ f' => s.Effect t f') s.files := by
  refine (fatLseek_safe hs.tree hs.open' hseek).mono ?_
  rintro _ f' ⟨hkept, hsame | ⟨hi, seek, -, hupdate⟩⟩
  · exact hs.effect_same hkept hsame
  · refine hs.effect_update hkept hupdate (fun _ => ⟨hi, rfl⟩) ?_
    intro _ hdir
    rw [Descriptor.reposition, place_inode, hs.isDir_of_kept hkept hi] at hdir
    rw [hs.behind_of_not_pending hdir hpending]
    exact .of_empty rfl rfl rfl

variable [DecidableEq T]

theorem int32_eq_32 {n : ℕ} (hn : n < 0x100000000) (h : int32 n = 32) : n = 32 := by
  rw [int32] at h
  split at h <;> omega

/-- A turn of `_fat_readdir` reads the end of the directory. -/
theorem Inv.readEnd (hs : Inv s) {fd : ℕ} {c : Caller} (hpc : s.pc t = .readLock fd c) {f' : Files}
    {trail' : List Access} (haccesses : ∀ a ∈ trail', a.Valid)
    (hfile : f' = s.files.setDesc fd ((s.files.fd fd).move 32 false))
    (hlt : (s.files.inode (s.files.fd fd).inode).isDir = true →
      (s.files.fd fd).seek + 32 < 0x100000000) :
    Inv ⟨f', Function.update s.pc t (.seekBack fd (f'.fd fd).opening), s.returns, trail',
      s.adjusts, Function.update s.behind fd (t :: s.behind fd)⟩ := by
  have hi := hs.reading t fd c hpc
  have hfd : f'.fd = Function.update s.files.fd fd ((s.files.fd fd).move 32 false) := by
    rw [hfile]; rfl
  have hkept : s.files.Kept f' := hfile ▸ .move hs.tree hs.open' hi 32 false
  have halloc : ((s.files.fd fd).move 32 false).allocated = true := by
    rwa [Descriptor.move, place_allocated]
  have hopening : ((s.files.fd fd).move 32 false).opening = (s.files.fd fd).opening := by
    rw [Descriptor.move, place_opening]
  have hout : ∀ fd', t ∉ s.behind fd' := by
    intro fd' hmem
    obtain ⟨opening, hback⟩ := (hs.mem_behind t fd').mp hmem
    rw [hpc] at hback
    cases hback
  refine hs.next hkept haccesses hs.adjusts nofun ?_ (hs.used_update hfd fun _ => ⟨halloc, hopening⟩)
    ?_ ?_ ?_ (hs.history_update hkept hfd (fun fd' hne => Function.update_of_ne hne _ _) ?_)
  · rintro _ _ ⟨⟩
    refine ⟨?_, rfl⟩
    rw [hfd, Function.update_self]
    exact halloc
  · intro u hu fd'
    by_cases hfd' : fd' = fd
    · rw [hfd', Function.update_self, List.mem_cons]
      exact or_iff_right hu
    · rw [Function.update_of_ne hfd']
  · intro fd'
    by_cases hfd' : fd' = fd
    · rw [hfd', Function.update_self]
      exact ⟨fun _ => ⟨_, rfl⟩, fun _ => List.mem_cons_self⟩
    · rw [Function.update_of_ne hfd']
      refine ⟨fun h => absurd h (hout fd'), ?_⟩
      rintro ⟨opening, h⟩
      cases h
      exact absurd rfl hfd'
  · intro fd'
    by_cases hfd' : fd' = fd
    · rw [hfd', Function.update_self]
      exact List.nodup_cons.mpr ⟨hout fd, hs.nodup_behind fd⟩
    · rw [Function.update_of_ne hfd']
      exact hs.nodup_behind fd'
  · intro _ hdir
    rw [Descriptor.move, place_inode, hs.isDir_of_kept hkept hi] at hdir
    rw [Function.update_self, List.length_cons]
    exact (hs.history fd hi hdir).move_end (hlt hdir)

/-- A turn of `_fat_readdir` steps back. -/
theorem Inv.seekBack (hs : Inv s) {fd opening : ℕ} (hpc : s.pc t = .seekBack fd opening) :
    Inv { (s.locked (seekBackSection fd)).finish t fat32NoMoreEntries none with
      adjusts := s.adjusts ++ [(opening, (s.files.fd fd).opening)]
      behind := Function.update s.behind fd ((s.behind fd).erase t) } := by
  obtain ⟨hi, hopening⟩ := hs.back t fd opening hpc
  have hsafe := seekBackSection_safe hi
  have hfile := hsafe.1
  have hfd : (seekBackSection fd s.files).state.fd =
      Function.update s.files.fd fd (s.files.fd fd).back := by
    rw [hfile]; rfl
  have hmem : t ∈ s.behind fd := (hs.mem_behind t fd).mpr ⟨opening, hpc⟩
  have hseek : (s.files.fd fd).back.seek < 0x100000000 := by
    rw [Descriptor.back, place_seek]
    exact Nat.mod_lt _ (by decide)
  have hinode : (s.files.fd fd).back.inode = (s.files.fd fd).inode := by
    rw [Descriptor.back, place_inode]
  have hkept : s.files.Kept (seekBackSection fd s.files).state :=
    hfile ▸ .setDesc hs.tree hs.open' hinode hi hseek
  refine hs.next hkept (trail_valid hs hsafe) ?_ nofun nofun (hs.used_update hfd fun _ => ⟨?_, ?_⟩)
    ?_ ?_ ?_ (hs.history_update hkept hfd (fun fd' hne => Function.update_of_ne hne _ _) ?_)
  · intro e he
    obtain he | he := List.mem_append.mp he
    · exact hs.adjusts e he
    · rw [List.mem_singleton.mp he]
      exact hopening.symm
  · rwa [Descriptor.back, place_allocated]
  · rw [Descriptor.back, place_opening]
  · intro u hu fd'
    by_cases hfd' : fd' = fd
    · rw [hfd', Function.update_self]
      exact List.mem_erase_of_ne hu
    · rw [Function.update_of_ne hfd']
  · intro fd'
    refine ⟨fun h => ?_, fun ⟨_, h⟩ => nomatch h⟩
    by_cases hfd' : fd' = fd
    · rw [hfd', Function.update_self] at h
      exact absurd h (hs.nodup_behind fd).not_mem_erase
    · rw [Function.update_of_ne hfd'] at h
      obtain ⟨_, hback⟩ := (hs.mem_behind t fd').mp h
      rw [hpc] at hback
      cases hback
      exact absurd rfl hfd'
  · intro fd'
    by_cases hfd' : fd' = fd
    · rw [hfd', Function.update_self]
      exact (hs.nodup_behind fd).erase t
    · rw [Function.update_of_ne hfd']
      exact hs.nodup_behind fd'
  · intro _ hdir
    rw [hinode, hs.isDir_of_kept hkept hi] at hdir
    obtain ⟨b, hb⟩ := Nat.exists_eq_succ_of_ne_zero (List.length_pos_of_mem hmem).ne'
    rw [Function.update_self, List.length_erase_of_mem hmem, hb]
    exact (hb ▸ hs.history fd hi hdir).back (hs.open'.seek_lt fd)

omit [DecidableEq T] in
/-- The section of `_fat_read` moves the position, for a caller that is not at the end of a
directory. -/
theorem Inv.move_effect (hs : Inv s) {fd done : ℕ} {f' : Files} {entry : Bool}
    (hi : (s.files.fd fd).allocated = true)
    (hfile : f' = s.files.setDesc fd ((s.files.fd fd).move done entry))
    (hhistory : (s.files.inode (s.files.fd fd).inode).isDir = true →
      ((s.files.fd fd).move done entry).History (s.behind fd).length) : s.Effect t f' := by
  have hkept : s.files.Kept f' := hfile ▸ .move hs.tree hs.open' hi done entry
  have hfd : f'.fd = Function.update s.files.fd fd ((s.files.fd fd).move done entry) := by
    rw [hfile]; rfl
  refine hs.effect_update hkept hfd (fun _ => ⟨?_, ?_⟩) ?_
  · rwa [Descriptor.move, place_allocated]
  · rw [Descriptor.move, place_opening]
  · intro _ hdir
    rw [Descriptor.move, place_inode, hs.isDir_of_kept hkept hi] at hdir
    exact hhistory hdir

/-- A task in the section of `_fat_read` leaves it. -/
theorem Inv.readTurn (hs : Inv s) {fd : ℕ} {c : Caller} (hpc : s.pc t = .readLock fd c)
    {loaded : Bool} {buf : ℕ → UInt8}
    (hclear : loaded = true → s.Clear fd c.count (c.AtEnd buf)) :
    Inv ((s.locked (fatReadSection fd c.count loaded (State.returnsEntry c buf))).afterRead t fd buf
      (fatReadSection fd c.count loaded (State.returnsEntry c buf) s.files).value c) := by
  have hi := hs.reading t fd c hpc
  have hsafe := fatReadSection_safe c.count loaded (State.returnsEntry c buf) hs.open' hi
  have htrail := trail_valid hs hsafe
  obtain ⟨hcase, -⟩ := hsafe
  set code := (fatReadSection fd c.count loaded (State.returnsEntry c buf) s.files).value
  set f' := (fatReadSection fd c.count loaded (State.returnsEntry c buf) s.files).state
  -- the call leaves the section for a place where no descriptor is held
  have hleave : ∀ pc' returns', (∀ fd opening, pc' ≠ .seekBack fd opening) →
      (∀ fd c, pc' ≠ .readLock fd c) → s.Effect t f' →
      Inv ⟨f', Function.update s.pc t pc', returns',
        (s.locked (fatReadSection fd c.count loaded (State.returnsEntry c buf))).trail,
        s.adjusts, s.behind⟩ := by
    intro pc' returns' hto hread heffect
    refine hs.advance heffect.kept htrail ?_ hto ?_ heffect.used heffect.history
    · rw [hpc]
      exact nofun
    · intro fd c h
      exact absurd h (hread fd c)
  cases c with
  | read count =>
    refine hleave .out _ nofun nofun ?_
    obtain ⟨hsame, -⟩ | ⟨hloaded, hfile, -⟩ := hcase
    · rw [hsame]
      exact hs.effect_same (.refl hs.tree hs.open') rfl
    · exact hs.move_effect hi hfile
        (hs.move_history hi (hclear hloaded) fun _ => rfl)
  | readdir scan =>
    by_cases hend : entryKind buf = .noMore
    · rw [State.afterRead]
      have hentry : State.returnsEntry (.readdir scan) buf = false := by
        rw [State.returnsEntry, hend]; rfl
      split
      · next hcode =>
        refine hleave .out _ nofun nofun ?_
        obtain ⟨hsame, -⟩ | ⟨hloaded, hfile, hvalue⟩ := hcase
        · rw [hsame]
          exact hs.effect_same (.refl hs.tree hs.open') rfl
        · refine hs.move_effect hi hfile ?_
          intro hdir
          have hmoved := bytesMoved_eq ((hclear hloaded).1 hdir)
          rw [hmoved] at hvalue
          exact absurd hvalue hcode
      · next hcode =>
        have hcode : code = 32 := not_not.mp hcode
        obtain ⟨-, hne⟩ | ⟨hloaded, hfile, hvalue⟩ := hcase
        · exact absurd hcode hne
        · have hmoved : bytesMoved (s.files.fd fd).seek (Caller.readdir scan).count = 32 :=
            int32_eq_32 (bytesMoved_lt ..) (hvalue.symm.trans hcode)
          rw [hmoved, hentry, Bool.false_and] at hfile
          rw [hend]
          exact hs.readEnd hpc htrail hfile (hclear hloaded).1
    · have heffect : s.Effect t f' := by
        obtain ⟨hsame, -⟩ | ⟨hloaded, hfile, -⟩ := hcase
        · rw [hsame]
          exact hs.effect_same (.refl hs.tree hs.open') rfl
        · obtain ⟨hlt, hpending⟩ := hclear hloaded
          exact hs.move_effect hi hfile
            (hs.move_history hi ⟨hlt, fun h h' => hend (hpending h h')⟩ fun h => nomatch h)
      rw [State.afterRead]
      split
      · exact hleave .out _ nofun nofun heffect
      · split
        · next hkind => exact absurd hkind hend
        · exact hleave _ _ nofun nofun heffect
        · exact hleave _ _ nofun nofun heffect
        · exact hleave _ _ nofun nofun heffect

/-- A task that is in a call goes on with it. -/
theorem Inv.turn (hs : Inv s) {loaded : Bool} {buf : ℕ → UInt8} {garbage : Bool}
    (horderly : Orderly s t (.turn loaded buf garbage)) : Inv (s.turn t loaded buf garbage) := by
  unfold State.turn
  split
  · exact hs
  · next fd c hpc =>
    split
    · cases c with
      | read count => exact hs.finish (by simp [hpc]) _ _
      | readdir scan => exact hs.finish (by simp [hpc]) _ _
    · next hi =>
      refine hs.goto (by simp [hpc]) nofun ?_
      rintro _ _ ⟨⟩
      simpa using hi
  · next fd c hpc =>
    have hclear : loaded = true → s.Clear fd c.count (c.AtEnd buf) := by
      simpa only [Orderly, hpc] using horderly
    exact hs.readTurn hpc hclear
  · next fd hpc =>
    split
    · exact hs.finish (by simp [hpc]) _ _
    · exact hs.goto (by simp [hpc]) nofun nofun
  · next fd hpc => exact hs.goto (by simp [hpc]) nofun nofun
  · next fd hpc => exact hs.goto (by simp [hpc]) nofun nofun
  · next fd hpc =>
    split
    · exact hs.goto (by simp [hpc]) nofun nofun
    · exact hs.finish (by simp [hpc]) _ _
  · next fd opening hpc => exact hs.seekBack hpc
  · next fd hpc =>
    split
    · exact hs.finish (by simp [hpc]) _ _
    · exact hs.finish (by simp [hpc]) _ _

/-- An orderly step keeps the invariant. -/
theorem Inv.step (hs : Inv s) {a : Act} (hpossible : a.Possible) (horderly : Orderly s t a) :
    Inv (s.step t a) := by
  cases a with
  | turn loaded buf garbage => exact hs.turn horderly
  | «open» pathname flags io =>
    rw [State.step]
    split
    · next hpc => exact hs.call hpc (hs.fatOpen_effect io pathname flags)
    · exact hs
  | opendir pathname io =>
    rw [State.step]
    split
    · next hpc =>
      have heffect := hs.fatOpen_effect (t := t) io pathname 1
      dsimp only
      split
      · exact hs.call hpc heffect
      · exact hs.advance heffect.1.kept (trail_valid hs heffect) (by simp [hpc]) nofun nofun
          heffect.1.used heffect.1.history
    · exact hs
  | close fd io =>
    rw [State.step]
    split
    · next hpc =>
      split
      · exact hs.finish (by simp [hpc]) _ _
      · have hfree : ∀ u, (∀ c, s.pc u ≠ .readLock fd c) ∧
            ∀ opening, s.pc u ≠ .seekBack fd opening := by
          simpa only [Orderly, hpc] using horderly
        exact hs.call hpc (hs.fatClose_effect io hfree)
    · exact hs
  | read fd count =>
    rw [State.step]
    split
    · next hpc =>
      split
      · exact hs.finish (by simp [hpc]) _ _
      · exact hs.goto (by simp [hpc]) nofun nofun
    · exact hs
  | write fd count io =>
    rw [State.step]
    split
    · next hpc =>
      have hclear : io.loaded = true → s.Clear fd count False := by
        simpa only [Orderly, hpc] using horderly
      exact hs.call hpc (hs.fatWrite_effect io hclear)
    · exact hs
  | lseek fd seek whence =>
    rw [State.step]
    split
    · next hpc =>
      split
      · exact hs.finish (by simp [hpc]) _ _
      · have hpending : ¬ s.Pending fd := by
          simpa only [Orderly, hpc] using horderly
        exact hs.call hpc (hs.fatLseek_effect whence hpossible hpending)
    · exact hs
  | readdir fd =>
    rw [State.step]
    split
    · next hpc =>
      split
      · exact hs.finish (by simp [hpc]) _ _
      · exact hs.goto (by simp [hpc]) nofun nofun
    · exact hs
  | remove pathname shouldBeDir io =>
    rw [State.step]
    split
    · next hpc =>
      have hfree : ∀ p parent,
          (checkRemove io pathname shouldBeDir s.files).value = .ok (p, parent) →
          ∀ fd, (s.files.fd fd).allocated = true → (s.files.fd fd).inode ≠ p ∧
            (s.files.inode (s.files.fd fd).inode).parent ≠ some p := by
        simpa only [Orderly, hpc] using horderly
      refine hs.call hpc ((fatRemove_safe hs.tree hs.open' hfree).mono ?_)
      rintro _ f' ⟨hkept, hfd⟩
      exact hs.effect_same hkept hfd
    · exact hs

end Steps

variable [DecidableEq T]

theorem Run.inv {s : State T} (hrun : Run Orderly s) : Inv s := by
  induction hrun with
  | start => exact .init
  | step _ hpossible hok ih => exact ih.step hpossible hok

/-- In an execution whose steps are all orderly, a section only accesses descriptors that are
allocated and inodes that are not released, a step back is applied to the opening whose end was
read, and each entry that the calls on a directory have passed over is returned once. -/
theorem orderly_valid {s : State T} (hrun : Run Orderly s) : s.Valid := hrun.inv.valid

section Orderly

variable {s : State T} {t : T} {pc : Pc} {fd : ℕ} {c : Caller} {loaded garbage : Bool}
  {buf : ℕ → UInt8}

omit [DecidableEq T]

/-- Outside the section of `_fat_read`, going on with a call is orderly. -/
theorem orderly_turn (hpc : s.pc t = pc) (hne : ∀ fd c, pc ≠ .readLock fd c) :
    Orderly s t (.turn loaded buf garbage) := by
  unfold Orderly
  split
  case h_5 hread _ => exact absurd (hpc.symm.trans hread) (hne _ _)
  all_goals trivial

/-- A transfer is orderly when no task is about to seek back. -/
theorem orderly_readLock (hpc : s.pc t = .readLock fd c)
    (hpos : (s.files.fd fd).seek + c.count < 0x100000000)
    (hfree : ∀ u fd opening, s.pc u ≠ .seekBack fd opening) :
    Orderly s t (.turn loaded buf garbage) := by
  simp only [Orderly, hpc]
  refine fun _ => ⟨fun _ => hpos, ?_⟩
  rintro - ⟨-, u, opening, hback⟩
  exact absurd hback (hfree u fd opening)

theorem orderly_read {count : ℕ} : Orderly s t (.read fd count) := by
  unfold Orderly
  split
  all_goals trivial

end Orderly

/-- The root directory is opened, and another task reads its first entry. -/
theorem orderly_valid_read :
    let files : OpenIo := ⟨fun _ _ => .endOfDir, true, true, true⟩
    let next : Act := .turn true (fun _ => 0) true
    let s₁ := (State.init Bool).step true (.opendir [slash] files)
    let s₂ := (s₁.step true next).step false (.read 0 32)
    let s₃ := s₂.step false next
    (s₃.step false next).Valid := by
  intro files next s₁ s₂ s₃
  have h₁ : Run Orderly s₁ := .step .start trivial trivial
  have hpc₁ : s₁.pc true = .opendirTest 0 := rfl
  have h₂ : Run Orderly s₂ :=
    .step (.step h₁ trivial (orderly_turn hpc₁ nofun)) (by decide : 32 < 0x100000000) orderly_read
  have hpc₂ : s₂.pc false = .readCheck 0 (.read 32) := rfl
  have h₃ : Run Orderly s₃ := .step h₂ trivial (orderly_turn hpc₂ nofun)
  have hpos : (s₃.files.fd 0).seek + 32 < 0x100000000 := by decide
  have hfalse : s₃.pc false = .readLock 0 (.read 32) := rfl
  have htrue : s₃.pc true = .out := rfl
  have hfree : ∀ u fd opening, s₃.pc u ≠ .seekBack fd opening := by
    intro u fd opening hback
    cases u with
    | false => rw [hfalse] at hback; cases hback
    | true => rw [htrue] at hback; cases hback
  have h₄ : Run Orderly (s₃.step false next) :=
    .step h₃ trivial (orderly_readLock hfalse hpos hfree)
  exact orderly_valid h₄

/-- A task reads the end of the directory. The descriptor is closed and opened again before it
seeks back, so that it moves the position of the new opening. -/
theorem seekBack_moves_later_opening :
    ¬ ∀ s : State Bool, Run (fun _ _ _ => True) s → s.Valid := by
  intro hvalid
  let files : OpenIo := ⟨fun _ _ => .endOfDir, true, true, true⟩
  let next : Act := .turn true (fun _ => 0) true
  let s₁ := (State.init Bool).step true (.opendir [slash] files)
  let s₂ := (s₁.step true next).step false (.readdir 0)
  let s₃ := (((s₂.step false next).step false next).step false next).step false next
  let s₄ := (s₃.step false next).step false next
  let s₅ := (s₄.step true (.close 0 ⟨true, true⟩)).step true (.opendir [slash] files)
  have h₁ : Run (fun _ _ _ => True) s₁ := .step .start trivial trivial
  have h₂ : Run (fun _ _ _ => True) s₂ := .step (.step h₁ trivial trivial) trivial trivial
  have h₃ : Run (fun _ _ _ => True) s₃ :=
    .step (.step (.step (.step h₂ trivial trivial) trivial trivial) trivial trivial) trivial trivial
  have h₄ : Run (fun _ _ _ => True) s₄ := .step (.step h₃ trivial trivial) trivial trivial
  have h₅ : Run (fun _ _ _ => True) s₅ := .step (.step h₄ trivial trivial) trivial trivial
  have h₆ : Run (fun _ _ _ => True) (s₅.step false next) := .step h₅ trivial trivial
  have hadjust : (0, 1) ∈ (s₅.step false next).adjusts := by decide
  exact absurd ((hvalid _ h₆).adjusts _ hadjust) (by decide)

end GietVm.Fat.Shared
