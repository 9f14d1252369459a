import Rkhv.BootFiles

/-!
# Mapping the sections

Each section of the hypervisor fits below one page table, and no two sections
share a page. So mapping a section takes at most three regions of the pool, and
no page is mapped twice. Afterwards exactly the pages of the sections are
mapped, each with its permission.
-/

namespace Rkhv.BootSections

open ByteMemory WordFields HostTypes StateOutcome BootPagePool VmGuestPaging ArchitecturalWalk NestedWalk
  RadixWalk BootPaging BootWindow BootTables BootMapping BootRuns BootLoading BootTablePages BootFiles

variable {firmware : BootServices} {start : ℕ} {pml4 : Frame} {l₀ l l' : Loader}

/-! ## Addresses of the last two slots -/

/-- An address in the last two slots of the PML4. -/
def Upper (va : Word) : Prop := 2 ^ 64 - 2 ^ 40 ≤ va.toNat

instance (va : Word) : Decidable (Upper va) := inferInstanceAs (Decidable (_ ≤ _))

theorem toNat_slotOf (level : ℕ) (va : Word) :
    (slotOf level va).toNat = va.toNat / 2 ^ levelShift level % 512 := by
  rw [slotOf, BitVec.extractLsb'_toNat, Nat.shiftRight_eq_div_pow]

/-- Slots of such an address. -/
theorem Upper.slot {va : Word} (h : Upper va) : slotOf 4 va ≠ 0 ∧ slotOf 4 va ≠ 2 := by
  have hslot := toNat_slotOf 4 va
  have hshift : levelShift 4 = 39 := rfl
  have hlt := va.isLt
  rw [hshift] at hslot
  rw [Upper] at h
  constructor
  · intro he
    rw [he] at hslot
    have hzero : (0 : Slot).toNat = 0 := rfl
    omega
  · intro he
    rw [he] at hslot
    have htwo : (2 : Slot).toNat = 2 := rfl
    omega

theorem Upper.canonical {va : Word} (h : Upper va) : Canonical va := by
  rw [Upper] at h
  rw [Canonical]
  omega

/-- Canonical addresses with one path lie in one page. -/
theorem bootPath_inj {va va' : Word} (h : Canonical va) (h' : Canonical va')
    (hpath : bootPath va = bootPath va') : va.toNat / 4096 = va'.toNat / 4096 := by
  simp only [bootPath, List.cons.injEq, and_true, ← BitVec.toNat_inj, toNat_slotOf] at hpath
  have hfour : levelShift 4 = 39 := rfl
  have hthree : levelShift 3 = 30 := rfl
  have htwo : levelShift 2 = 21 := rfl
  have hone : levelShift 1 = 12 := rfl
  rw [hfour, hthree, htwo, hone] at hpath
  have hlt := va.isLt
  have hlt' := va'.isLt
  rw [Canonical] at h h'
  omega

/-- A section lies in the last two slots, below one page table, at a page boundary. -/
structure SectionFits (s : BootSection) : Prop where
  upper : Upper s.virtualAddress
  page : s.virtualAddress.toNat % 4096 = 0
  table : s.virtualAddress.toNat % 2 ^ 21 + s.sizeInPages.toNat * 4096 ≤ 2 ^ 21

/-- Address of page `j` of a section. -/
def pageAddress (s : BootSection) (j : ℕ) : Word := s.virtualAddress + BitVec.ofNat 64 j * pageSize

/-- The call that maps page `j` of a section. -/
def pageCall (s : BootSection) (physicalAddress : Word) (j : ℕ) : BootCall :=
  .mapPage (physicalAddress + BitVec.ofNat 64 j * pageSize) (pageAddress s j) s.permission

/-- The calls for the first pages of a section, newest first. -/
def pageCalls (s : BootSection) (physicalAddress : Word) : ℕ → List BootCall
  | 0 => []
  | j + 1 => pageCall s physicalAddress j :: pageCalls s physicalAddress j

theorem mem_pageCalls {s : BootSection} {physicalAddress : Word} {c : BootCall} {n : ℕ} :
    c ∈ pageCalls s physicalAddress n ↔ ∃ j < n, c = pageCall s physicalAddress j := by
  induction n with
  | zero => exact ⟨fun h => absurd h List.not_mem_nil, fun h => absurd h.choose_spec.1 (Nat.not_lt_zero _)⟩
  | succ n ih =>
    rw [pageCalls, List.mem_cons, ih]
    constructor
    · rintro (rfl | ⟨j, hj, rfl⟩)
      · exact ⟨n, Nat.lt_succ_self n, rfl⟩
      · exact ⟨j, Nat.lt_succ_of_lt hj, rfl⟩
    · rintro ⟨j, hj, rfl⟩
      obtain hj | rfl := Nat.lt_succ_iff_lt_or_eq.mp hj
      · exact Or.inr ⟨j, hj, rfl⟩
      · exact Or.inl rfl

section Fits

variable {s : BootSection} (h : SectionFits s) {j : ℕ} (hj : j < s.sizeInPages.toNat)

include h hj

/-- Pages of a section do not wrap. -/
theorem toNat_pageAddress : (pageAddress s j).toNat = s.virtualAddress.toNat + j * 4096 := by
  have htable := h.table
  have hlt := s.virtualAddress.isLt
  have hsize : pageSize.toNat = 4096 := rfl
  rw [pageAddress, BitVec.toNat_add, BitVec.toNat_mul, BitVec.toNat_ofNat, hsize]
  omega

theorem upper_pageAddress : Upper (pageAddress s j) := by
  have hupper := h.upper
  rw [Upper] at hupper ⊢
  rw [toNat_pageAddress h hj]
  omega

/-- All pages of a section have one page table. -/
theorem tablePath_pageAddress : tablePath (pageAddress s j) = tablePath s.virtualAddress := by
  have htable := h.table
  have haddress := toNat_pageAddress h hj
  have hlevel : ∀ level, 2 ≤ level → slotOf level (pageAddress s j) = slotOf level s.virtualAddress := by
    intro level hlevel
    apply BitVec.eq_of_toNat_eq
    have hshift : levelShift level = 21 + 9 * (level - 2) := by
      rw [levelShift]
      omega
    rw [toNat_slotOf, toNat_slotOf, hshift, Nat.pow_add, ← Nat.div_div_eq_div_mul,
      ← Nat.div_div_eq_div_mul, haddress]
    have hdiv : (s.virtualAddress.toNat + j * 4096) / 2 ^ 21 = s.virtualAddress.toNat / 2 ^ 21 := by
      omega
    rw [hdiv]
  rw [tablePath, tablePath, hlevel 4 (by decide), hlevel 3 (by decide), hlevel 2 (by decide)]

end Fits

/-! ## Runs of calls -/

/-- The pages of the calls are mapped and no others, at the cost of at most `n`
regions; slot 0 of the PML4 is empty. -/
structure Mapping (firmware : BootServices) (start : ℕ) (pml4 : Frame) (l₀ : Loader) (n : ℕ)
    (mapped : List BootCall) (l : Loader) : Prop where
  run : RunOk firmware start pml4 none mapped l
  held : TablesHeld firmware start pml4 l
  taken : TablesTaken firmware start pml4 n l₀ l
  absent : ∀ q, q.length = 4 → (∀ pa va permission, BootCall.mapPage pa va permission ∈ mapped →
    q ≠ bootPath va) → bootFollow none l.memory pml4 q = .absent
  low : bootFollow none l.memory pml4 [0] = .absent

/-- No call maps the page of an address. -/
def Unmapped (mapped : List BootCall) (va : Word) : Prop :=
  ∀ pa va' permission, BootCall.mapPage pa va' permission ∈ mapped → bootPath va ≠ bootPath va'

/-- Mapping one more page. -/
theorem Mapping.page {n k : ℕ} {mapped : List BootCall} (hfresh : FreshPages firmware start pml4)
    (h : Mapping firmware start pml4 l₀ n mapped l) (pa : Word) {va : Word} (hva : Upper va)
    (hnew : Unmapped mapped va) (permission : PagingPermission)
    (hk : k = 3 ∨ HasPageTable pml4 l va) :
    Ensures (pagingMapPage firmware (frameAddress pml4) pa va permission) l
      (fun _ l' => Mapping firmware start pml4 l₀ (n + k) (.mapPage pa va permission :: mapped) l' ∧
        HasPageTable pml4 l' va)
      (fun e _ => OutOfPages firmware (n + k) l₀ e) := by
  have habsent := h.absent (bootPath va) rfl hnew
  refine (pagingMapPage_taken hfresh h.held pa va permission hk).mono (fun _ l' hpage => ?_)
    fun e _ he => ?_
  · refine ⟨⟨h.run.added hpage.added, hpage.held, h.taken.trans hpage.taken, fun q hq hne => ?_, ?_⟩,
      hpage.table⟩
    · rw [hpage.added.follow q hq, if_neg (hne pa va permission List.mem_cons_self)]
      exact h.absent q hq fun pa' va' permission' hd => hne pa' va' permission' (List.mem_cons_of_mem _ hd)
    · have hslot := hva.slot.1
      rw [hpage.same [0] (by decide) fun hpre => hslot (List.cons_prefix_cons.mp hpre).1.symm, h.low]
  · obtain hout | ⟨entry, hleaf⟩ := he
    · obtain ⟨pages, hrecorded⟩ := h.taken.recorded
      exact hout.after hrecorded
    · rw [habsent] at hleaf
      cases hleaf

/-- Mapping the pages of a section. -/
theorem Mapping.section {n : ℕ} {mapped : List BootCall} (hfresh : FreshPages firmware start pml4)
    (h : Mapping firmware start pml4 l₀ n mapped l) {s : BootSection} (hs : SectionFits s)
    (physicalAddress : Word) (hnew : ∀ j < s.sizeInPages.toNat, Unmapped mapped (pageAddress s j)) :
    Ensures (forRange s.sizeInPages.toNat
        (mapSectionPage firmware (frameAddress pml4) s physicalAddress)) l
      (fun _ l' => Mapping firmware start pml4 l₀ (n + 3)
        (pageCalls s physicalAddress s.sizeInPages.toNat ++ mapped) l')
      (fun e _ => OutOfPages firmware (n + 3) l₀ e) := by
  -- only the first page needs tables
  refine (ensures_forRange (fun j t => ∃ k ≤ 3, (j = 0 ∧ k = 0 ∨ HasPageTable pml4 t s.virtualAddress) ∧
    Mapping firmware start pml4 l₀ (n + k) (pageCalls s physicalAddress j ++ mapped) t)
    ⟨0, Nat.zero_le 3, Or.inl ⟨rfl, rfl⟩, h⟩ fun j t hj ht => ?_).mono (fun _ t ht => ?_)
    fun _ _ he => he
  · obtain ⟨k, hk, htable, hmapping⟩ := ht
    have hpath := tablePath_pageAddress hs hj
    have hfresh' : Unmapped (pageCalls s physicalAddress j ++ mapped) (pageAddress s j) := by
      intro pa va' permission hd he
      rw [List.mem_append, mem_pageCalls] at hd
      obtain ⟨i, hi, hcall⟩ | hd := hd
      · obtain ⟨_, rfl, _⟩ := BootCall.mapPage.inj hcall
        have hi' := Nat.lt_trans hi hj
        have hpages := bootPath_inj (upper_pageAddress hs hj).canonical (upper_pageAddress hs hi').canonical he
        rw [toNat_pageAddress hs hj, toNat_pageAddress hs hi'] at hpages
        have halign := hs.page
        omega
      · exact hnew j hj pa va' permission hd he
    have hcost : ∃ c, n + k + c ≤ n + 3 ∧ (c = 3 ∨ HasPageTable pml4 t (pageAddress s j)) := by
      obtain ⟨_, rfl⟩ | ht := htable
      · exact ⟨3, Nat.le_refl _, Or.inl rfl⟩
      · refine ⟨0, by omega, Or.inr ?_⟩
        rw [HasPageTable, hpath]
        exact ht
    obtain ⟨c, hle, hc⟩ := hcost
    refine (hmapping.page hfresh _ (upper_pageAddress hs hj) hfresh' s.permission hc).mono
      (fun _ t' ht' => ?_) fun e _ he => he.mono hle
    refine ⟨k + c, by omega, Or.inr ?_, ?_⟩
    · rw [HasPageTable, ← hpath]
      exact ht'.2
    · rw [← Nat.add_assoc]
      exact ht'.1
  · obtain ⟨k, hk, _, hmapping⟩ := ht
    exact ⟨hmapping.run, hmapping.held, hmapping.taken.mono (by omega), hmapping.absent, hmapping.low⟩

/-! ## All sections -/

/-- Two sections share no page. -/
def Apart (s t : BootSection) : Prop :=
  s.virtualAddress.toNat + s.sizeInPages.toNat * 4096 ≤ t.virtualAddress.toNat ∨
    t.virtualAddress.toNat + t.sizeInPages.toNat * 4096 ≤ s.virtualAddress.toNat

/-- The calls for all sections at their physical addresses, after earlier ones. -/
def sectionCalls : List (BootSection × Word) → List BootCall → List BootCall
  | [], mapped => mapped
  | (s, physicalAddress) :: rest, mapped =>
    sectionCalls rest (pageCalls s physicalAddress s.sizeInPages.toNat ++ mapped)

theorem mem_sectionCalls {placed : List (BootSection × Word)} {c : BootCall} :
    ∀ {mapped : List BootCall}, c ∈ sectionCalls placed mapped ↔ c ∈ mapped ∨
      ∃ p ∈ placed, ∃ j < p.1.sizeInPages.toNat, c = pageCall p.1 p.2 j := by
  induction placed with
  | nil =>
    intro mapped
    rw [sectionCalls]
    exact ⟨Or.inl, fun h => h.elim id fun hp => absurd hp.choose_spec.1 List.not_mem_nil⟩
  | cons p rest ih =>
    intro mapped
    rw [sectionCalls, ih, List.mem_append, mem_pageCalls, List.exists_mem_cons_iff]
    constructor
    · rintro ((h | h) | h)
      · exact Or.inr (Or.inl h)
      · exact Or.inl h
      · exact Or.inr (Or.inr h)
    · rintro (h | h | h)
      · exact Or.inl (Or.inr h)
      · exact Or.inl (Or.inl h)
      · exact Or.inr h

/-- Pages of sections that are apart have different paths. -/
theorem Apart.path_ne {s t : BootSection} (h : Apart s t) (hs : SectionFits s) (ht : SectionFits t)
    {i j : ℕ} (hi : i < s.sizeInPages.toNat) (hj : j < t.sizeInPages.toNat) :
    bootPath (pageAddress s i) ≠ bootPath (pageAddress t j) := by
  intro he
  have hpages := bootPath_inj (upper_pageAddress hs hi).canonical (upper_pageAddress ht hj).canonical he
  rw [toNat_pageAddress hs hi, toNat_pageAddress ht hj] at hpages
  have hspage := hs.page
  have htpage := ht.page
  rw [Apart] at h
  omega

/-- How loading or mapping fails: with a status of the firmware, or for lack of
`n` regions in the pool. -/
def MapFails (firmware : Firmware) (n : ℕ) (l : Loader) (e : LoadStatus) : Prop :=
  FirmwareFails firmware (l.allocateCalls + n) e ∨
    e = .efi .bufferTooSmall ∧ l.pageTablePool.capacity < l.pageTablePool.pool.length + n

theorem mapFails_of_outOfPages {firmware : Firmware} {n k : ℕ} {e : EfiStatus}
    (h : OutOfPages firmware.toBootServices n l e) (hn : n ≤ k) :
    MapFails firmware k l (.efi e) := by
  have hasked : ∀ pages, TablePages pages → AsksFor firmware pages := by
    rintro pages (rfl | rfl)
    · exact Or.inl (by decide)
    · exact Or.inl (by decide)
  obtain hrefused | ⟨hfull, hroom⟩ := h
  · exact Or.inl (hrefused.mono (by omega) hasked)
  · exact Or.inr ⟨congrArg LoadStatus.efi hfull, by omega⟩

/-- The loop over the sections that maps their pages. -/
theorem mapSections_spec {firmware : Firmware}
    (hfresh : FreshPages firmware.toBootServices start pml4) (placed : List (BootSection × Word)) :
    ∀ {n : ℕ} {mapped : List BootCall} {b : Boot}, (∀ p ∈ placed, SectionFits p.1) →
      (placed.Pairwise fun p q => Apart p.1 q.1) →
      (∀ p ∈ placed, ∀ j < p.1.sizeInPages.toNat, Unmapped mapped (pageAddress p.1 j)) →
      Mapping firmware.toBootServices start pml4 l₀ n mapped b.loader →
      Ensures (mapSections firmware (frameAddress pml4) placed) b
        (fun _ b' => b'.chainloadPage = b.chainloadPage ∧
          Mapping firmware.toBootServices start pml4 l₀ (n + 3 * placed.length)
            (sectionCalls placed mapped) b'.loader)
        (fun e _ => MapFails firmware (n + 3 * placed.length) l₀ e) := by
  induction placed with
  | nil => exact fun {n mapped b} _ _ _ h => ⟨rfl, h⟩
  | cons p rest ih =>
    intro n mapped b hfits hapart hnew h
    obtain ⟨s, physicalAddress⟩ := p
    rw [List.forall_mem_cons] at hfits hnew
    rw [List.pairwise_cons] at hapart
    have hlen : n + 3 + 3 * rest.length = n + 3 * ((s, physicalAddress) :: rest).length := by
      rw [List.length_cons]
      omega
    rw [mapSections]
    refine ensures_afterService (fun e he => Or.inl (he.mono (Nat.zero_le _))) ?_
    rw [ensures_bind, ensures_onLoader]
    refine (h.section hfresh hfits.1 physicalAddress hnew.1).mono (fun _ l' hmapping => ?_)
      fun e _ he => mapFails_of_outOfPages he (by omega)
    have hnew' : ∀ p ∈ rest, ∀ j < p.1.sizeInPages.toNat, Unmapped
        (pageCalls s physicalAddress s.sizeInPages.toNat ++ mapped) (pageAddress p.1 j) := by
      intro p hp j hj pa va permission hd
      rw [List.mem_append, mem_pageCalls] at hd
      obtain ⟨i, hi, hcall⟩ | hd := hd
      · obtain ⟨_, rfl, _⟩ := BootCall.mapPage.inj hcall
        exact ((hapart.1 p hp).path_ne hfits.1 (hfits.2 p hp) hi hj).symm
      · exact hnew.2 p hp j hj pa va permission hd
    rw [sectionCalls, ← hlen]
    exact ih hfits.2 hapart.2 hnew' hmapping

/-- A new PML4 maps nothing. -/
theorem mapping_start (hpml4 : NewBlock firmware l₀ l pml4 1)
    (hrecorded : Recorded 1 l₀ l (regionPages ⟨frameAddress pml4, 1⟩)) :
    Mapping firmware l.allocateCalls pml4 l₀ 1 [] l := by
  have hin : InBlock pml4 1 pml4 := ⟨Nat.le_refl _, Nat.lt_succ_self _⟩
  obtain ⟨hok, hempty⟩ := @tablesOk_zero firmware _ _ (hpml4.zero pml4 hin)
  have hcalls := hpml4.calls
  have hmemory : OnlyTables firmware l.allocateCalls pml4 l₀.memory l.memory := fun f hf _ =>
    hpml4.others f fun hblock => hf (BitVec.eq_of_toNat_eq (by
      have hfrom := hblock.1
      have hto := hblock.2
      omega))
  refine ⟨runOk_zero (hpml4.zero pml4 hin), ⟨hok, hrecorded.fits, fun p t hp ht => ?_⟩,
    ⟨hmemory, by omega, _, hrecorded⟩, fun q hq _ => hempty q fun he => ?_, hempty [0] (by decide)⟩
  · have hroot : p = [] := by
      by_contra hne
      rw [hempty p hne] at ht
      cases ht
    rw [hroot] at ht
    rw [← End.table.inj ht, hrecorded.pages, regionPages_one]
    exact Or.inl (List.mem_singleton_self _)
  · rw [he] at hq
    cases hq

end Rkhv.BootSections
