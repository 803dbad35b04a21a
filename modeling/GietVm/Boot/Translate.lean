import GietVm.Boot.PageTable
import Mathlib.Data.List.Pairwise

/-!
# The page table built is the page table read

The words of a table after any calls that register different pages are determined: PT1 holds
the big pages and the pointers to the tables of the array, in the order in which the regions
took them, and the entries of the tables hold the small pages. The other entries of a table
hold what the memory held before, so a translation takes the unmapped exit for every page that
is not registered exactly when all these words have a clear valid bit.
-/

namespace GietVm.Boot

open Library

/-- The physical address of a PT2. -/
def pt2Base (paddr id : ℕ) : ℕ := paddr + 8192 + 4096 * id

/-- A table as `boot_vseg_map` places it: at the address of a page, with PT2s below the end of
the physical addresses, whose number is computed from a 32-bit length, and with PT1 clear. -/
structure Ptab.Fresh (p : Ptab) : Prop where
  paddr_ne : p.paddr ≠ 0
  paddr_dvd : 2 ^ 12 ∣ p.paddr
  max_lt : p.maxPt2 < 2 ^ 20
  fits : pt2Base p.paddr p.maxPt2 ≤ 2 ^ 40
  next_eq : p.nextPt2 = 0
  clear : ∀ ix1 < 2048, p.mem (p.paddr + 4 * ix1) = 0

variable {p₀ p p' : Ptab} {R : List ℕ} {calls : List Registration} {r q : Registration}

@[simp] theorem write_mem_self (p : Ptab) (a v : ℕ) : (p.write a v).mem a = v :=
  Function.update_self ..

theorem write_mem_ne (p : Ptab) {a b v : ℕ} (h : b ≠ a) : (p.write a v).mem b = p.mem b :=
  Function.update_of_ne h ..

/-- The words of a table, with the regions that have taken a PT2. -/
structure Built (p₀ : Ptab) (R : List ℕ) (calls : List Registration) (p : Ptab) : Prop where
  paddr_eq : p.paddr = p₀.paddr
  max_eq : p.maxPt2 = p₀.maxPt2
  next : p.nextPt2 = R.length
  big : ∀ r ∈ calls, r.big = true →
    p.mem (p₀.paddr + 4 * r.region) = pte1Word r.flags r.ppn
  ptd : ∀ (id ix1 : ℕ), R[id]? = some ix1 →
    p.mem (p₀.paddr + 4 * ix1) = ptdWord (pt2Base p₀.paddr id)
  clear : ∀ ix1 < 2048, ix1 ∉ R → (∀ r ∈ calls, r.region ≠ ix1) →
    p.mem (p₀.paddr + 4 * ix1) = 0
  small : ∀ r ∈ calls, r.big = false → ∀ id : ℕ, R[id]? = some r.region →
    p.mem (pt2Base p₀.paddr id + 8 * (r.vpn % 512)) = pteV ||| r.flags ∧
      p.mem (pt2Base p₀.paddr id + 8 * (r.vpn % 512) + 4) = r.ppn
  kept : ∀ (id ix1 : ℕ), R[id]? = some ix1 → ∀ ix2 < 512,
    (∀ r ∈ calls, r.big = false → r.vpn ≠ ix1 * 512 + ix2) →
    p.mem (pt2Base p₀.paddr id + 8 * ix2) = p₀.mem (pt2Base p₀.paddr id + 8 * ix2)
  rest : ∀ a, pt2Base p₀.paddr R.length ≤ a → p.mem a = p₀.mem a

/-- The regions of the tables are different and belong to the small pages. -/
structure RegionsOk (R : List ℕ) (calls : List Registration) : Prop where
  nodup : R.Nodup
  lt : ∀ ix1 ∈ R, ix1 < 2048
  small : ∀ r ∈ calls, r.big = false → r.region ∈ R
  big : ∀ r ∈ calls, r.big = true → r.region ∉ R

theorem Registration.Ok.region_lt (h : r.Ok) : r.region < 2048 := by
  have := h.vpn_lt
  rw [Registration.region]
  omega

theorem built_nil (h : p₀.Fresh) : Built p₀ [] [] p₀ where
  paddr_eq := rfl
  max_eq := rfl
  next := h.next_eq
  big := nofun
  ptd := nofun
  clear := fun ix1 hlt _ _ => h.clear ix1 hlt
  small := nofun
  kept := nofun
  rest := fun _ _ => rfl

/-! ## Big pages -/

/-- `boot_add_pte1` writes one entry of PT1, which no other registration uses. -/
theorem Built.addPte1 (h : Built p₀ R calls p) (hfresh : p₀.Fresh) (hr : r.Ok)
    (hbig : r.big = true) (hsep : ∀ q ∈ calls, q.region ≠ r.region)
    (hnot : r.region ∉ R) :
    ∃ p', bootAddPte1 p r.vpn r.flags r.ppn = some p' ∧ Built p₀ R (r :: calls) p' := by
  have hregion := hr.region_lt
  refine ⟨p.write (p₀.paddr + 4 * r.region) (pte1Word r.flags r.ppn), ?_, ?_⟩
  · rw [bootAddPte1, h.paddr_eq, if_neg hfresh.paddr_ne, Nat.shiftRight_eq_div_pow]
    rfl
  refine ⟨h.paddr_eq, h.max_eq, h.next, ?_, ?_, ?_, ?_, ?_, ?_⟩
  · refine List.forall_mem_cons.mpr ⟨fun _ => write_mem_self .., fun q hq hqbig => ?_⟩
    rw [write_mem_ne p (by have := hsep q hq; omega)]
    exact h.big q hq hqbig
  · intro id ix1 hid
    have hne : ix1 ≠ r.region := fun heq => hnot (heq ▸ List.mem_of_getElem? hid)
    rw [write_mem_ne p (by omega)]
    exact h.ptd id ix1 hid
  · intro ix1 hlt hout hcalls
    obtain ⟨hne, hcalls⟩ := List.forall_mem_cons.mp hcalls
    rw [write_mem_ne p (by omega)]
    exact h.clear ix1 hlt hout hcalls
  · refine List.forall_mem_cons.mpr ⟨fun hsmall => ?_, fun q hq hsmall id hid => ?_⟩
    · rw [hbig] at hsmall
      cases hsmall
    · rw [write_mem_ne p (by rw [pt2Base]; omega), write_mem_ne p (by rw [pt2Base]; omega)]
      exact h.small q hq hsmall id hid
  · intro id ix1 hid ix2 hix2 hcalls
    rw [write_mem_ne p (by rw [pt2Base]; omega)]
    exact h.kept id ix1 hid ix2 hix2 (List.forall_mem_cons.mp hcalls).2
  · intro a ha
    rw [pt2Base] at ha
    rw [write_mem_ne p (by omega)]
    exact h.rest a (by rw [pt2Base]; omega)

/-! ## Small pages -/

/-- The first word of the address of a PT2. -/
theorem pt2Base_facts (hfresh : p₀.Fresh) {id : ℕ} (hid : id < p₀.maxPt2) :
    pt2Base p₀.paddr id < 2 ^ 40 ∧ 2 ^ 12 ∣ pt2Base p₀.paddr id := by
  have hfits := hfresh.fits
  have hdvd := hfresh.paddr_dvd
  rw [pt2Base] at hfits ⊢
  constructor
  · omega
  · omega

/-- A region that has a PT2 keeps it. -/
theorem Built.getPt2_old (h : Built p₀ R calls p) (hfresh : p₀.Fresh)
    (hmax : R.length ≤ p₀.maxPt2) {id ix1 : ℕ} (hid : R[id]? = some ix1) :
    getPt2 p ix1 = some (pt2Base p₀.paddr id, p) := by
  obtain ⟨hlt, -⟩ := List.getElem?_eq_some_iff.mp hid
  obtain ⟨hbase, hdvd⟩ := pt2Base_facts hfresh (hlt.trans_le hmax)
  have hword := ptdWord_eq hbase
  have hvalid : ¬ptdWord (pt2Base p₀.paddr id) &&& pteV = 0 := by
    rw [and_pteV_iff, hword]
    omega
  rw [getPt2, h.paddr_eq, h.ptd id ix1 hid, if_neg hvalid, ptdWord_base hbase hdvd]

/-- A region without a PT2 takes the next one. -/
theorem Built.getPt2_new (h : Built p₀ R calls p) (hfresh : p₀.Fresh)
    (hmax : R.length < p₀.maxPt2) {ix1 : ℕ} (hlt : ix1 < 2048) (hnot : ix1 ∉ R)
    (hcalls : ∀ q ∈ calls, q.region ≠ ix1) :
    ∃ p', getPt2 p ix1 = some (pt2Base p₀.paddr R.length, p') ∧
      Built p₀ (R ++ [ix1]) calls p' := by
  have hmul : mul32 4096 R.length = 4096 * R.length := by
    have := hfresh.max_lt
    exact mul32_eq (by omega)
  have hsplit : ∀ (id ix : ℕ), (R ++ [ix1])[id]? = some ix →
      R[id]? = some ix ∨ id = R.length ∧ ix = ix1 := by
    intro id ix hid
    rw [List.getElem?_append] at hid
    split at hid
    · exact Or.inl hid
    · rw [List.getElem?_singleton] at hid
      split at hid
      · exact Or.inr ⟨by omega, (Option.some.inj hid).symm⟩
      · cases hid
  refine ⟨({ p with nextPt2 := p.nextPt2 + 1 }).write (p₀.paddr + 4 * ix1)
    (ptdWord (pt2Base p₀.paddr R.length)), ?_, ?_⟩
  · have hclear : p.mem (p₀.paddr + 4 * ix1) = 0 := h.clear ix1 hlt hnot hcalls
    have hnext : ¬p.nextPt2 = p.maxPt2 := by
      rw [h.next, h.max_eq]
      omega
    rw [getPt2, h.paddr_eq, hclear, Nat.zero_and, if_pos rfl]
    dsimp only
    rw [if_neg hnext, h.next, hmul]
    rfl
  have hmem : ∀ a v b, b ≠ a →
      (({ p with nextPt2 := p.nextPt2 + 1 } : Ptab).write a v).mem b = p.mem b := by
    intro a v b hb
    exact Function.update_of_ne hb ..
  refine ⟨h.paddr_eq, h.max_eq, ?_, ?_, ?_, ?_, ?_, ?_, ?_⟩
  · change p.nextPt2 + 1 = _
    rw [h.next, List.length_append, List.length_singleton]
  · intro q hq hbig
    rw [hmem _ _ _ (by have := hcalls q hq; omega)]
    exact h.big q hq hbig
  · intro id ix hid
    obtain hold | ⟨hlast, hix⟩ := hsplit id ix hid
    · have hne : ix ≠ ix1 := fun heq => hnot (heq ▸ List.mem_of_getElem? hold)
      rw [hmem _ _ _ (by omega)]
      exact h.ptd id ix hold
    · rw [hlast, hix]
      exact write_mem_self ..
  · intro ix hix hout hcalls'
    rw [List.mem_append, List.mem_singleton, not_or] at hout
    rw [hmem _ _ _ (by omega)]
    exact h.clear ix hix hout.1 hcalls'
  · intro q hq hsmall id hid
    obtain hold | ⟨-, hix⟩ := hsplit id _ hid
    · rw [hmem _ _ _ (by rw [pt2Base]; omega), hmem _ _ _ (by rw [pt2Base]; omega)]
      exact h.small q hq hsmall id hold
    · exact absurd hix (hcalls q hq)
  · intro id ix hid ix2 hix2 hnone
    rw [hmem _ _ _ (by rw [pt2Base]; omega)]
    obtain hold | ⟨hlast, -⟩ := hsplit id ix hid
    · exact h.kept id ix hold ix2 hix2 hnone
    · rw [hlast]
      exact h.rest _ (Nat.le_add_right _ _)
  · intro a ha
    rw [pt2Base, List.length_append, List.length_singleton] at ha
    rw [hmem _ _ _ (by omega)]
    exact h.rest a (by rw [pt2Base]; omega)

/-- The two words of a small page, which no other registration uses. -/
theorem Built.writePte2 (h : Built p₀ R calls p) (hnodup : R.Nodup) (hR : ∀ ix1 ∈ R, ix1 < 2048)
    (hcalls : ∀ q ∈ calls, q.region < 2048) (hsmall : r.big = false)
    (hsep : ∀ q ∈ calls, q.big = false → q.vpn ≠ r.vpn) {id : ℕ} (hid : R[id]? = some r.region) :
    Built p₀ R (r :: calls)
      ((p.write (pt2Base p₀.paddr id + 8 * (r.vpn % 512)) (pteV ||| r.flags)).write
        (pt2Base p₀.paddr id + 8 * (r.vpn % 512) + 4) r.ppn) := by
  have hregion : r.region = r.vpn / 512 := rfl
  have hunique : ∀ (id' ix1 : ℕ), R[id']? = some ix1 → (id' = id ↔ ix1 = r.region) := by
    intro id' ix1 hid'
    constructor
    · intro heq
      exact Option.some.inj (hid'.symm.trans (heq ▸ hid))
    · intro heq
      obtain ⟨hlt, -⟩ := List.getElem?_eq_some_iff.mp hid'
      exact (List.getElem?_inj hlt hnodup).mp (hid'.trans (heq ▸ hid.symm))
  have hmem : ∀ b, b ≠ pt2Base p₀.paddr id + 8 * (r.vpn % 512) →
      b ≠ pt2Base p₀.paddr id + 8 * (r.vpn % 512) + 4 →
      ((p.write (pt2Base p₀.paddr id + 8 * (r.vpn % 512)) (pteV ||| r.flags)).write
        (pt2Base p₀.paddr id + 8 * (r.vpn % 512) + 4) r.ppn).mem b = p.mem b := by
    intro b hfirst hsecond
    rw [write_mem_ne _ hsecond, write_mem_ne _ hfirst]
  refine ⟨h.paddr_eq, h.max_eq, h.next, ?_, ?_, ?_, ?_, ?_, ?_⟩
  · refine List.forall_mem_cons.mpr ⟨fun hbig => ?_, fun q hq hbig => ?_⟩
    · rw [hsmall] at hbig
      cases hbig
    · have hlt := hcalls q hq
      rw [hmem _ (by rw [pt2Base]; omega) (by rw [pt2Base]; omega)]
      exact h.big q hq hbig
  · intro id' ix1 hid'
    have hlt := hR ix1 (List.mem_of_getElem? hid')
    rw [hmem _ (by rw [pt2Base]; omega) (by rw [pt2Base]; omega)]
    exact h.ptd id' ix1 hid'
  · intro ix1 hlt hout hnone
    rw [hmem _ (by rw [pt2Base]; omega) (by rw [pt2Base]; omega)]
    exact h.clear ix1 hlt hout (List.forall_mem_cons.mp hnone).2
  · refine List.forall_mem_cons.mpr ⟨fun _ id' hid' => ?_, fun q hq hqsmall id' hid' => ?_⟩
    · rw [(hunique id' _ hid').mpr rfl]
      refine ⟨?_, write_mem_self ..⟩
      rw [write_mem_ne _ (by omega)]
      exact write_mem_self ..
    · have hne := hsep q hq hqsmall
      have hcase := hunique id' _ hid'
      have hqregion : q.region = q.vpn / 512 := rfl
      rw [hmem _ (by simp only [pt2Base]; omega) (by simp only [pt2Base]; omega),
        hmem _ (by simp only [pt2Base]; omega) (by simp only [pt2Base]; omega)]
      exact h.small q hq hqsmall id' hid'
  · intro id' ix1 hid' ix2 hix2 hnone
    obtain ⟨hne, hnone⟩ := List.forall_mem_cons.mp hnone
    have hne := hne hsmall
    have hcase := hunique id' ix1 hid'
    rw [hmem _ (by simp only [pt2Base]; omega) (by simp only [pt2Base]; omega)]
    exact h.kept id' ix1 hid' ix2 hix2 hnone
  · intro a ha
    obtain ⟨hlt, -⟩ := List.getElem?_eq_some_iff.mp hid
    rw [pt2Base] at ha
    rw [hmem _ (by rw [pt2Base]; omega) (by rw [pt2Base]; omega)]
    exact h.rest a ha

/-- `boot_add_pte2`, from the PT2 of its region. -/
theorem Built.addPte2 (h : Built p₀ R calls p') (hfresh : p₀.Fresh) (hpaddr : p.paddr = p₀.paddr)
    (hnodup : R.Nodup) (hR : ∀ ix1 ∈ R, ix1 < 2048) (hcalls : ∀ q ∈ calls, q.region < 2048)
    (hsmall : r.big = false) (hsep : ∀ q ∈ calls, q.big = false → q.vpn ≠ r.vpn) {id : ℕ}
    (hid : R[id]? = some r.region)
    (hget : getPt2 p r.region = some (pt2Base p₀.paddr id, p')) :
    ∃ p'', bootAddPte2 p r.vpn r.flags r.ppn = some p'' ∧ Built p₀ R (r :: calls) p'' := by
  refine ⟨_, ?_, h.writePte2 hnodup hR hcalls hsmall hsep hid⟩
  have hix2 : r.vpn &&& 0x1FF = r.vpn % 512 := Nat.and_two_pow_sub_one_eq_mod r.vpn 9
  have hix1 : r.vpn >>> 9 = r.region := Nat.shiftRight_eq_div_pow r.vpn 9
  rw [bootAddPte2, hpaddr, if_neg hfresh.paddr_ne, hix1, hget, hix2]
  rfl

/-! ## All registrations -/

theorem mem_regions {ix1 : ℕ} : ix1 ∈ regions calls ↔
    ∃ r ∈ calls, r.big = false ∧ r.region = ix1 := by
  induction calls with
  | nil => simp [regions]
  | cons r earlier ih =>
    rw [regions]
    split
    · rename_i hcase
      rw [ih]
      constructor
      · intro h
        obtain ⟨q, hq, hrest⟩ := h
        exact ⟨q, List.mem_cons_of_mem _ hq, hrest⟩
      · intro h
        obtain ⟨q, hq, hsmall, hregion⟩ := h
        obtain heq | hq := List.mem_cons.mp hq
        · obtain hbig | hmem := hcase
          · rw [heq, hbig] at hsmall
            cases hsmall
          · have hix1 : r.region = ix1 := heq ▸ hregion
            exact ih.mp (hix1 ▸ hmem)
        · exact ⟨q, hq, hsmall, hregion⟩
    · rename_i hcase
      rw [not_or, Bool.not_eq_true] at hcase
      rw [List.mem_append, List.mem_singleton, ih]
      constructor
      · intro h
        obtain ⟨q, hq, hrest⟩ | heq := h
        · exact ⟨q, List.mem_cons_of_mem _ hq, hrest⟩
        · exact ⟨r, List.mem_cons_self, hcase.1, heq.symm⟩
      · intro h
        obtain ⟨q, hq, hsmall, hregion⟩ := h
        obtain heq | hq := List.mem_cons.mp hq
        · exact Or.inr (heq ▸ hregion.symm)
        · exact Or.inl ⟨q, hq, hsmall, hregion⟩

theorem regions_nodup (calls : List Registration) : (regions calls).Nodup := by
  induction calls with
  | nil => exact List.nodup_nil
  | cons r earlier ih =>
    rw [regions]
    split
    · exact ih
    · rename_i hcase
      rw [not_or] at hcase
      exact ih.append (List.nodup_singleton _) (List.disjoint_singleton.mpr hcase.2)

instance : Std.Symm Registration.Separate where
  symm a b h := by
    rw [Registration.Separate] at h ⊢
    split at h
    · rename_i hcase
      rw [if_pos hcase.symm]
      exact Ne.symm h
    · rename_i hcase
      rw [if_neg fun hor => hcase hor.symm]
      exact Ne.symm h

/-- A region with a small page has no big page. -/
theorem not_mem_regions_of_big (hsep : calls.Pairwise Registration.Separate) (hr : r ∈ calls)
    (hbig : r.big = true) : r.region ∉ regions calls := by
  intro hmem
  obtain ⟨q, hq, hsmall, hregion⟩ := mem_regions.mp hmem
  have hne : r ≠ q := by
    intro heq
    rw [heq, hsmall] at hbig
    cases hbig
  have hpair := hsep.forall hr hq hne
  rw [Registration.Separate, if_pos (Or.inl hbig)] at hpair
  exact hpair hregion.symm

/-- The words of the table after all calls; no call exits when there are enough PT2s. -/
theorem build_built (hfresh : p₀.Fresh) (hok : ∀ r ∈ calls, r.Ok)
    (hsep : calls.Pairwise Registration.Separate) (hmax : (regions calls).length ≤ p₀.maxPt2) :
    ∃ p, build p₀ calls = some p ∧ Built p₀ (regions calls) calls p := by
  induction calls with
  | nil => exact ⟨p₀, rfl, built_nil hfresh⟩
  | cons r earlier ih =>
    obtain ⟨hr, hok'⟩ := List.forall_mem_cons.mp hok
    obtain ⟨hhead, hsep'⟩ := List.pairwise_cons.mp hsep
    have hregions : ∀ ix1 ∈ regions (r :: earlier), ix1 < 2048 := by
      intro ix1 hix1
      obtain ⟨q, hq, -, hregion⟩ := mem_regions.mp hix1
      exact hregion ▸ (hok q hq).region_lt
    have hlt : ∀ q ∈ earlier, q.region < 2048 := fun q hq => (hok' q hq).region_lt
    have hle : (regions earlier).length ≤ p₀.maxPt2 := by
      refine le_trans ?_ hmax
      rw [regions]
      split
      · exact le_rfl
      · rw [List.length_append]
        exact Nat.le_add_right _ _
    obtain ⟨p, hbuild, hbuilt⟩ := ih hok' hsep' hle
    have hadd : ∃ p', r.add p = some p' ∧ Built p₀ (regions (r :: earlier)) (r :: earlier) p' := by
      rw [Registration.add]
      cases hbig : r.big with
      | true =>
        have hnot := not_mem_regions_of_big hsep List.mem_cons_self hbig
        have heq : regions (r :: earlier) = regions earlier := by
          rw [regions, if_pos (Or.inl hbig)]
        rw [heq] at hnot ⊢
        refine hbuilt.addPte1 hfresh hr hbig (fun q hq => ?_) hnot
        have hpair := hhead q hq
        rw [Registration.Separate, if_pos (Or.inl hbig)] at hpair
        exact hpair.symm
      | false =>
        have hvpn : ∀ q ∈ earlier, q.big = false → q.vpn ≠ r.vpn := by
          intro q hq hqsmall
          have hpair := hhead q hq
          rw [Registration.Separate, if_neg (by simp [hbig, hqsmall])] at hpair
          exact hpair.symm
        by_cases hmem : r.region ∈ regions earlier
        · have heq : regions (r :: earlier) = regions earlier := by
            rw [regions, if_pos (Or.inr hmem)]
          rw [heq] at hregions ⊢
          obtain ⟨id, hid⟩ := List.getElem?_of_mem hmem
          exact hbuilt.addPte2 hfresh hbuilt.paddr_eq (regions_nodup _) hregions hlt hbig hvpn
            hid (hbuilt.getPt2_old hfresh hle hid)
        · have heq : regions (r :: earlier) = regions earlier ++ [r.region] := by
            rw [regions, if_neg (by simp [hbig, hmem])]
          have hnodup := regions_nodup (r :: earlier)
          rw [heq] at hregions hmax hnodup ⊢
          rw [List.length_append, List.length_singleton] at hmax
          have hnone : ∀ q ∈ earlier, q.region ≠ r.region := by
            intro q hq hregion
            cases hqbig : q.big with
            | true =>
              have hpair := hhead q hq
              rw [Registration.Separate, if_pos (Or.inr hqbig)] at hpair
              exact hpair hregion.symm
            | false => exact hmem (mem_regions.mpr ⟨q, hq, hqbig, hregion⟩)
          obtain ⟨p', hget, hbuilt'⟩ := hbuilt.getPt2_new hfresh (by omega) hr.region_lt hmem hnone
          exact hbuilt'.addPte2 hfresh hbuilt.paddr_eq hnodup hregions hlt hbig hvpn
            List.getElem?_concat_length hget
    obtain ⟨p', hp', hbuilt'⟩ := hadd
    exact ⟨p', by rw [build, hbuild]; exact hp', hbuilt'⟩

/-! ## Translations -/

/-- A virtual address in a registered page. -/
theorem Built.translate_registered (h : Built p₀ (regions calls) calls p) (hfresh : p₀.Fresh)
    (hok : ∀ r ∈ calls, r.Ok) (hmax : (regions calls).length ≤ p₀.maxPt2) {vaddr : ℕ}
    (hvaddr : vaddr < 2 ^ 32) (hr : r ∈ calls) (hcovers : r.covers vaddr) :
    v2pTranslate p.mem p.paddr vaddr = some (r.translate vaddr) := by
  obtain ⟨hvpn, hppn, hflags⟩ := hok r hr
  rw [h.paddr_eq, Registration.translate]
  rw [Registration.covers] at hcovers
  cases hbig : r.big with
  | true =>
    rw [hbig, if_pos rfl] at hcovers
    have hword := h.big r hr hbig
    rw [hcovers] at hword
    rw [if_pos rfl]
    exact v2pTranslate_big hvaddr hflags hppn hword
  | false =>
    rw [hbig, if_neg Bool.false_ne_true] at hcovers
    obtain ⟨id, hid⟩ := List.getElem?_of_mem (mem_regions.mpr ⟨r, hr, hbig, rfl⟩)
    obtain ⟨hlt, -⟩ := List.getElem?_eq_some_iff.mp hid
    obtain ⟨hbase, hdvd⟩ := pt2Base_facts hfresh (hlt.trans_le hmax)
    obtain ⟨hfirst, hsecond⟩ := h.small r hr hbig id hid
    have hregion : r.region = vaddr / 2 ^ 21 := by
      rw [Registration.region]
      omega
    have hword := h.ptd id _ hid
    rw [hregion] at hword
    rw [hcovers] at hfirst hsecond
    rw [if_neg Bool.false_ne_true]
    exact v2pTranslate_small hvaddr hbase hdvd hword hflags hppn hfirst hsecond

/-- A virtual address in no registered page, in a region with a PT2: the translation exits
exactly when the word before the calls has a clear valid bit. -/
theorem Built.translate_unregistered (h : Built p₀ (regions calls) calls p) (hfresh : p₀.Fresh)
    (hmax : (regions calls).length ≤ p₀.maxPt2) {vaddr id : ℕ} (hvaddr : vaddr < 2 ^ 32)
    (hid : (regions calls)[id]? = some (vaddr / 2 ^ 21))
    (hnone : ∀ r ∈ calls, r.big = false → r.vpn ≠ vaddr / 2 ^ 12) :
    v2pTranslate p.mem p.paddr vaddr = none ↔
      p₀.mem (pt2Base p₀.paddr id + 8 * (vaddr / 2 ^ 12 % 512)) &&& pteV = 0 := by
  obtain ⟨hlt, -⟩ := List.getElem?_eq_some_iff.mp hid
  obtain ⟨hbase, hdvd⟩ := pt2Base_facts hfresh (hlt.trans_le hmax)
  have hkept := h.kept id _ hid (vaddr / 2 ^ 12 % 512) (Nat.mod_lt _ (by decide))
    (fun q hq hsmall heq => hnone q hq hsmall (by omega))
  rw [h.paddr_eq, v2pTranslate_ptd hvaddr hbase hdvd (h.ptd id _ hid), hkept]
  split
  · rename_i hclear
    exact iff_of_true rfl hclear
  · rename_i hvalid
    exact iff_of_false (Option.some_ne_none _) hvalid

/-- A virtual address in a region without registrations. -/
theorem Built.translate_clear (h : Built p₀ (regions calls) calls p) {vaddr : ℕ}
    (hvaddr : vaddr < 2 ^ 32) (hnone : ∀ r ∈ calls, r.region ≠ vaddr / 2 ^ 21) :
    v2pTranslate p.mem p.paddr vaddr = none := by
  have hout : vaddr / 2 ^ 21 ∉ regions calls := by
    intro hmem
    obtain ⟨q, hq, -, hregion⟩ := mem_regions.mp hmem
    exact hnone q hq hregion
  rw [h.paddr_eq]
  exact v2pTranslate_clear hvaddr (h.clear _ (by omega) hout hnone)

/-- The page table built is the page table read, exactly when the memory of the PT2s that are
taken has a clear valid bit in every entry that is not registered. The calls register
different pages, no region has pages of both sizes, and there are enough PT2s; then no call
exits. -/
theorem build_translate_iff (hfresh : p₀.Fresh) (hok : ∀ r ∈ calls, r.Ok)
    (hsep : calls.Pairwise Registration.Separate) (hmax : (regions calls).length ≤ p₀.maxPt2) :
    ∃ p, build p₀ calls = some p ∧
      ((∀ vaddr < 2 ^ 32, v2pTranslate p.mem p.paddr vaddr = registered calls vaddr) ↔
        ∀ (id ix1 : ℕ), (regions calls)[id]? = some ix1 → ∀ ix2 < 512,
          (∀ r ∈ calls, r.big = false → r.vpn ≠ ix1 * 512 + ix2) →
          p₀.mem (pt2Base p₀.paddr id + 8 * ix2) &&& pteV = 0) := by
  obtain ⟨p, hbuild, hbuilt⟩ := build_built hfresh hok hsep hmax
  refine ⟨p, hbuild, fun hread id ix1 hid ix2 hix2 hnone => ?_, fun hclear vaddr hvaddr => ?_⟩
  · -- the address of the entry is in no page
    have hmem := List.mem_of_getElem? hid
    obtain ⟨q, hq, -, hregion⟩ := mem_regions.mp hmem
    have hix1 : ix1 < 2048 := hregion ▸ (hok q hq).region_lt
    have hvaddr : ix1 * 2 ^ 21 + ix2 * 2 ^ 12 < 2 ^ 32 := by omega
    have hfirst : (ix1 * 2 ^ 21 + ix2 * 2 ^ 12) / 2 ^ 21 = ix1 := by omega
    have hpage : (ix1 * 2 ^ 21 + ix2 * 2 ^ 12) / 2 ^ 12 = ix1 * 512 + ix2 := by omega
    have hsecond : (ix1 * 512 + ix2) % 512 = ix2 := by omega
    have hout : registered calls (ix1 * 2 ^ 21 + ix2 * 2 ^ 12) = none := by
      rw [registered, Option.map_eq_none_iff, List.find?_eq_none]
      intro r hr hcovers
      have hcovers := of_decide_eq_true hcovers
      rw [Registration.covers, hfirst, hpage] at hcovers
      cases hbig : r.big with
      | true =>
        rw [hbig, if_pos rfl] at hcovers
        exact not_mem_regions_of_big hsep hr hbig (hcovers ▸ hmem)
      | false =>
        rw [hbig, if_neg Bool.false_ne_true] at hcovers
        exact hnone r hr hbig hcovers
    have hentry : (regions calls)[id]? = some ((ix1 * 2 ^ 21 + ix2 * 2 ^ 12) / 2 ^ 21) := by
      rw [hfirst]
      exact hid
    have hiff := hbuilt.translate_unregistered hfresh hmax hvaddr hentry (by
      rw [hpage]
      exact hnone)
    rw [hpage, hsecond] at hiff
    have hnothing := hread _ hvaddr
    rw [hout] at hnothing
    exact hiff.mp hnothing
  · cases hfind : calls.find? fun r => r.covers vaddr with
    | some r =>
      have hr := List.mem_of_find?_eq_some hfind
      have hfound : decide (r.covers vaddr) = true :=
        List.find?_some (p := fun q : Registration => decide (q.covers vaddr)) hfind
      have hcovers := of_decide_eq_true hfound
      rw [registered, hfind]
      exact hbuilt.translate_registered hfresh hok hmax hvaddr hr hcovers
    | none =>
      have hnone : ∀ r ∈ calls, ¬r.covers vaddr := by
        intro r hr hcovers
        exact List.find?_eq_none.mp hfind r hr (decide_eq_true hcovers)
      rw [registered, hfind]
      by_cases hmem : vaddr / 2 ^ 21 ∈ regions calls
      · obtain ⟨id, hid⟩ := List.getElem?_of_mem hmem
        have hpage : ∀ r ∈ calls, r.big = false → r.vpn ≠ vaddr / 2 ^ 12 := by
          intro r hr hsmall heq
          exact hnone r hr (by rw [Registration.covers, hsmall]; exact heq)
        refine (hbuilt.translate_unregistered hfresh hmax hvaddr hid hpage).mpr ?_
        refine hclear id _ hid _ (Nat.mod_lt _ (by decide)) fun r hr hsmall heq => ?_
        exact hpage r hr hsmall (by omega)
      · refine hbuilt.translate_clear hvaddr fun r hr hregion => ?_
        cases hbig : r.big with
        | true => exact hnone r hr (by rw [Registration.covers, hbig]; exact hregion)
        | false => exact hmem (mem_regions.mpr ⟨r, hr, hbig, hregion⟩)

/-- A table at 1 Mbyte in a memory whose words are all the same. -/
def tableIn (word : ℕ) : Ptab :=
  { paddr := 0x100000, maxPt2 := 4, nextPt2 := 0,
    mem := fun a => if a < 0x102000 then 0 else word }

theorem tableIn_fresh (word : ℕ) : (tableIn word).Fresh where
  paddr_ne := by
    change 0x100000 ≠ 0
    decide
  paddr_dvd := by
    change 2 ^ 12 ∣ 0x100000
    decide
  max_lt := by
    change 4 < 2 ^ 20
    decide
  fits := by
    change 0x100000 + 8192 + 4096 * 4 ≤ 2 ^ 40
    decide
  next_eq := rfl
  clear := fun ix1 hix1 => if_pos (by change 0x100000 + 4 * ix1 < 0x102000; omega)

/-- One small page and one big page in a clear memory. -/
theorem build_translate_iff_clear : ∃ p,
    build (tableIn 0) [⟨true, 0x200, 0x34C00000, 0x1200⟩, ⟨false, 5, 0x34C00000, 0x777⟩] = some p ∧
      ∀ vaddr < 2 ^ 32, v2pTranslate p.mem p.paddr vaddr =
        registered [⟨true, 0x200, 0x34C00000, 0x1200⟩, ⟨false, 5, 0x34C00000, 0x777⟩] vaddr := by
  have hok : ∀ r ∈ [⟨true, 0x200, 0x34C00000, 0x1200⟩, ⟨false, 5, 0x34C00000, 0x777⟩],
      Registration.Ok r :=
    List.forall_mem_cons.mpr ⟨⟨by decide, by decide, by decide⟩,
      List.forall_mem_singleton.mpr ⟨by decide, by decide, by decide⟩⟩
  obtain ⟨p, hbuild, hiff⟩ := build_translate_iff (tableIn_fresh 0) hok
    (List.pairwise_pair.mpr (by unfold Registration.Separate; decide)) (by decide)
  refine ⟨p, hbuild, hiff.mpr fun id ix1 _ ix2 _ _ => ?_⟩
  change (if _ then 0 else 0) &&& pteV = 0
  rw [ite_self]
  exact Nat.zero_and _

/-- A page that is not registered is translated from what the memory held before: the region
has a PT2, and the second word of every entry is arbitrary. -/
theorem build_translate_garbage :
    ¬∀ p, build (tableIn 0xFFFFFFFF) [⟨false, 5, 0x34C00000, 0x777⟩] = some p →
      ∀ vaddr < 2 ^ 32,
        v2pTranslate p.mem p.paddr vaddr = registered [⟨false, 5, 0x34C00000, 0x777⟩] vaddr := by
  intro hall
  obtain ⟨p, hbuild, hread⟩ : ∃ p,
      build (tableIn 0xFFFFFFFF) [⟨false, 5, 0x34C00000, 0x777⟩] = some p ∧
        v2pTranslate p.mem p.paddr 0x1000 = some (0xFFFFFFF000, 0xFFC00000) :=
    ⟨_, rfl, by decide⟩
  have hout : registered [⟨false, 5, 0x34C00000, 0x777⟩] 0x1000 = none := by decide
  have heq := hall p hbuild 0x1000 (by decide)
  rw [hread, hout] at heq
  cases heq

end GietVm.Boot
