import Rkhv.BootSections

/-!
# The address space that the bootloader builds

After the sections and the window are mapped, a canonical address leads to its
byte of a section, to its low 39 bits in the window, or nowhere. Every table
that a walk visits lies in a region recorded in the pool.
-/

namespace Rkhv.BootAddressSpace

open ByteMemory WordFields HostTypes StateOutcome BootPagePool VmGuestPaging ArchitecturalWalk NestedWalk
  RightsWalk RadixWalk BootPaging BootWindow BootTables BootMapping BootRuns BootLoading BootTablePages
  BootFiles BootSections

/-! ## Visited tables -/

/-- Visits go down. -/
theorem visited_level_le {format : EntryFormat} {read : ℕ → Except WalkFault Word} {visit : ℕ × ℕ}
    {level table x : ℕ} (h : visit ∈ visited format read level table x) : visit.1 ≤ level := by
  induction level generalizing table with
  | zero => cases h
  | succ level ih =>
    rw [visited, List.mem_cons] at h
    obtain rfl | h := h
    · exact Nat.le_refl _
    · split at h
      · cases h
      · split at h
        · cases h
        · exact (ih h).trans (Nat.le_succ _)

/-- Those after the first are below it. -/
theorem visited_tail_level {format : EntryFormat} {read : ℕ → Except WalkFault Word} {visit : ℕ × ℕ}
    {level table x : ℕ} (h : visit ∈ (visited format read (level + 1) table x).tail) :
    visit.1 ≤ level := by
  rw [visited, List.tail_cons] at h
  split at h
  · cases h
  · split at h
    · cases h
    · exact visited_level_le h

/-- The walk of an address below a PML4 visits the frame as a table. -/
def VisitsTable (m : Memory) (pml4 : Frame) (va : Word) (f : Frame) : Prop :=
  ∃ level, (level, (frameAddress f).toNat) ∈
    visited (guestFormat bootProcessor) (hostRead m) 4 (frameAddress pml4).toNat va.toNat

section Visited

variable {m : Memory} {f g : Frame} {va : Word} {k : ℕ} {visit : ℕ × ℕ}

/-- The visited tables from a table of a level. -/
def tableVisits (m : Memory) (level : ℕ) (f : Frame) (va : Word) : List (ℕ × ℕ) :=
  visited (guestFormat bootProcessor) (hostRead m) level (frameAddress f).toNat va.toNat

/-- The first one is the table itself. -/
theorem tableVisits_succ (m : Memory) (f : Frame) (va : Word) (k : ℕ) :
    tableVisits m (k + 1) f va = (k + 1, (frameAddress f).toNat) ::
      if !(guestFormat bootProcessor).present (slotWord m f (slotOf (k + 1) va)) ||
        (guestFormat bootProcessor).reserved (k + 1) (slotWord m f (slotOf (k + 1) va)) ||
        largePage (k + 1) (slotWord m f (slotOf (k + 1) va)) then []
      else visited (guestFormat bootProcessor) (hostRead m) k
        (entryAddress (slotWord m f (slotOf (k + 1) va)) 12) va.toNat := by
  rw [tableVisits, visited, hostRead_entryAt]

/-- An empty slot ends the visits. -/
theorem tableVisits_absent (h : slotWord m f (slotOf (k + 1) va) &&& ptePresent = 0) :
    tableVisits m (k + 1) f va = [(k + 1, (frameAddress f).toNat)] := by
  have habsent : (guestFormat bootProcessor).present (slotWord m f (slotOf (k + 1) va)) = false :=
    and_present_eq_zero_iff.mp h
  rw [tableVisits_succ, habsent, Bool.not_false, Bool.true_or, Bool.true_or, if_pos rfl]

/-- So does a large page. -/
theorem tableVisits_large (h : largePage (k + 1) (slotWord m f (slotOf (k + 1) va)) = true) :
    tableVisits m (k + 1) f va = [(k + 1, (frameAddress f).toNat)] := by
  rw [tableVisits_succ, h, Bool.or_true, if_pos rfl]

/-- The last table is visited alone. -/
theorem tableVisits_one (m : Memory) (f : Frame) (va : Word) :
    tableVisits m 1 f va = [(1, (frameAddress f).toNat)] := by
  rw [tableVisits_succ, visited, ite_self]

/-- The slot of a table leads to the visits from this table. -/
theorem tableVisits_table (h : slotWord m f (slotOf (k + 1) va) = tableEntry (frameAddress g)) :
    tableVisits m (k + 1) f va = (k + 1, (frameAddress f).toNat) :: tableVisits m k g va := by
  obtain ⟨hpresent, _, hsize, _⟩ := tableEntry_bits (frameAddress g)
  have hlarge : largePage (k + 1) (tableEntry (frameAddress g)) = false := by
    rw [largePage, hsize, Bool.and_false]
  have hbit : (guestFormat bootProcessor).present (tableEntry (frameAddress g)) = true := hpresent
  rw [tableVisits_succ, h, hbit, not_reserved (Or.inr hsize), hlarge, entryAddress_tableEntry,
    tableVisits]
  rfl

end Visited

/-- A property of all tables of a window, by their levels. -/
structure WindowTables (P : ℕ → Frame → Prop) (m : Memory) (pdpt : Frame) : Prop where
  root : P 3 pdpt
  directories : ∃ pds, PhysicalWindow m pdpt pds ∧ ∀ j, P 2 (directory pds j)

section Tables

variable {firmware : BootServices} {start : ℕ} {pml4 : Frame} {window : Option Frame} {l : Loader}
  {P : ℕ → Frame → Prop}

/-- The frame of a visit has the property of its level. -/
def VisitHas (P : ℕ → Frame → Prop) (visit : ℕ × ℕ) : Prop :=
  ∃ f, visit.2 = (frameAddress f).toNat ∧ P visit.1 f

/-- The tables of a window are all that is visited there. -/
theorem WindowTables.visits {m : Memory} {pdpt : Frame} (h : WindowTables P m pdpt) (va : Word) :
    ∀ visit ∈ tableVisits m 3 pdpt va, VisitHas P visit := by
  obtain ⟨pds, hwindow, hpds⟩ := h.directories
  have hlarge : largePage 2 (slotWord m (directory pds (slotOf 3 va)) (slotOf 2 va)) = true := by
    rw [hwindow.pages, largePage, (identityPde_bits _ _).2.2.1]
    rfl
  rw [tableVisits_table (hwindow.links (slotOf 3 va)), tableVisits_large hlarge]
  intro visit hvisit
  obtain rfl | hvisit := List.mem_cons.mp hvisit
  · exact ⟨pdpt, rfl, h.root⟩
  · rw [List.mem_singleton.mp hvisit]
    exact ⟨_, rfl, hpds (slotOf 3 va)⟩

/-- Above the page tables the visits follow the path. -/
theorem tableVisits_down {m : Memory} {level d : ℕ} {f : Frame} {va : Word} (hd : d < 3)
    (hf : P (level + 1) f)
    (hentry : EmptyOrTable (slotWord m f (slotOf (level + 1) va)))
    (hwindow : ∀ g, slotWord m f (slotOf (level + 1) va) = tableEntry (frameAddress g) →
      d = 0 → window ≠ some g)
    (hnext : ∀ g, bootTables window m d f (slotOf (level + 1) va) = .table g →
      ∀ visit ∈ tableVisits m level g va, VisitHas P visit) :
    ∀ visit ∈ tableVisits m (level + 1) f va, VisitHas P visit := by
  intro visit hvisit
  obtain habsent | ⟨g, hg⟩ := hentry
  · rw [tableVisits_absent habsent] at hvisit
    rw [List.mem_singleton.mp hvisit]
    exact ⟨f, rfl, hf⟩
  · have hdecode : bootTables window m d f (slotOf (level + 1) va) = .table g := by
      rw [bootTables, hg]
      exact bootDecode_tableEntry hd (hwindow g hg)
    rw [tableVisits_table hg] at hvisit
    obtain rfl | hvisit := List.mem_cons.mp hvisit
    · exact ⟨f, rfl, hf⟩
    · exact hnext g hdecode visit hvisit

/-- What holds of all tables that paths reach, and of those of the window,
holds of all that walks visit. -/
theorem visits_of_tables (h : TablesOk firmware start pml4 window l)
    (htables : ∀ p t, p.length < 4 → bootFollow window l.memory pml4 p = .table t →
      P (4 - p.length) t)
    (hwindow : ∀ pdpt, window = some pdpt → WindowTables P l.memory pdpt) {va : Word} {f : Frame}
    {level : ℕ} (hf : (level, (frameAddress f).toNat) ∈ tableVisits l.memory 4 pml4 va) :
    P level f := by
  have hall : ∀ visit ∈ tableVisits l.memory 4 pml4 va, VisitHas P visit := by
    have hroot := htables [] pml4 (by decide) (follow_nil _ _ _)
    by_cases hin : ∃ g, slotWord l.memory pml4 (slotOf 4 va) = tableEntry (frameAddress g) ∧
        window = some g
    · obtain ⟨pdpt, hslot, hpdpt⟩ := hin
      rw [tableVisits_table hslot, List.forall_mem_cons]
      exact ⟨⟨pml4, rfl, hroot⟩, (hwindow pdpt hpdpt).visits va⟩
    · have hempty := h.entries [] pml4 (slotOf 4 va) (by decide) (follow_nil _ _ _)
      refine tableVisits_down (d := 0) (by decide) hroot hempty (fun g hg _ hc => hin ⟨g, hg, hc⟩)
        fun f₁ h₁ => ?_
      have hpath₁ : bootFollow window l.memory pml4 [slotOf 4 va] = .table f₁ := by
        rw [bootFollow, follow_table h₁, follow_nil]
      refine tableVisits_down (d := 1) (by decide) (htables _ _ (by simp) hpath₁)
        (h.entries _ _ _ (by simp) hpath₁) (fun _ _ hc => absurd hc (by decide))
        fun f₂ (h₂ : bootTables window l.memory 1 f₁ (slotOf 3 va) = .table f₂) => ?_
      have hpath₂ : bootFollow window l.memory pml4 [slotOf 4 va, slotOf 3 va] = .table f₂ := by
        rw [bootFollow, follow_table h₁, follow_table h₂, follow_nil]
      refine tableVisits_down (d := 2) (by decide) (htables _ _ (by simp) hpath₂)
        (h.entries _ _ _ (by simp) hpath₂) (fun _ _ hc => absurd hc (by decide))
        fun f₃ (h₃ : bootTables window l.memory 2 f₂ (slotOf 2 va) = .table f₃) => ?_
      have hpath₃ : bootFollow window l.memory pml4 [slotOf 4 va, slotOf 3 va, slotOf 2 va] =
          .table f₃ := by
        rw [bootFollow, follow_table h₁, follow_table h₂, follow_table h₃, follow_nil]
      rw [tableVisits_one]
      intro visit hvisit
      rw [List.mem_singleton.mp hvisit]
      exact ⟨f₃, rfl, htables _ _ (by simp) hpath₃⟩
  obtain ⟨g, hg, hP⟩ := hall _ hf
  have hsame : f = g := frameAddress_injective (BitVec.eq_of_toNat_eq hg)
  rw [hsame]
  exact hP

end Tables

/-! ## The finished tables -/

/-- The address lies in the section. -/
def InSection (s : BootSection) (va : Word) : Prop :=
  s.virtualAddress.toNat ≤ va.toNat ∧
    va.toNat < s.virtualAddress.toNat + s.sizeInPages.toNat * 4096

instance (s : BootSection) (va : Word) : Decidable (InSection s va) :=
  inferInstanceAs (Decidable (_ ∧ _))

/-- The bytes of sections and of physical memory that addresses lead to. -/
structure AddressSpace (m : Memory) (pml4 : Frame) (placed : List (BootSection × Word)) : Prop where
  /-- A section with the permission that it asks for. -/
  sections : ∀ s a, (s, a) ∈ placed → ∀ j < s.sizeInPages.toNat * 4096,
    bootWalk m pml4 (s.virtualAddress + BitVec.ofNat 64 j) =
      .ok ⟨(a + BitVec.ofNat 64 j).toNat, decide (s.permission = .rw), decide (s.permission = .rx)⟩
  window : ∀ va, InWindow va → bootWalk m pml4 va = .ok ⟨va.toNat % 2 ^ 39, true, true⟩
  nothing : ∀ va, Canonical va → ¬InWindow va → (∀ s a, (s, a) ∈ placed → ¬InSection s va) →
    bootWalk m pml4 va = .error .notPresent

section Finish

variable {firmware : BootServices} {start : ℕ} {pml4 : Frame} {l₀ l l' : Loader} {n : ℕ}
  {placed : List (BootSection × Word)} {pdpt pds : Frame}

/-- The placed sections fit and the firmware gave their pages. -/
structure Placed (firmware : BootServices) (placed : List (BootSection × Word)) : Prop where
  fits : ∀ p ∈ placed, SectionFits p.1
  apart : placed.Pairwise fun p q => Apart p.1 q.1
  given : ∀ p ∈ placed, ∃ k, Given firmware k p.1.sizeInPages p.2

/-- The calls of the sections are in the last two slots. -/
theorem mem_sectionCalls_upper (h : Placed firmware placed) {pa va : Word}
    {permission : PagingPermission} (hd : BootCall.mapPage pa va permission ∈ sectionCalls placed []) :
    ∃ p ∈ placed, ∃ j < p.1.sizeInPages.toNat, va = pageAddress p.1 j ∧ Upper va := by
  obtain hd | ⟨p, hp, j, hj, hcall⟩ := mem_sectionCalls.mp hd
  · cases hd
  · obtain ⟨_, rfl, _⟩ := BootCall.mapPage.inj hcall
    exact ⟨p, hp, j, hj, rfl, upper_pageAddress (h.fits p hp) hj⟩

/-- Slot 0 is empty before the window is mapped. -/
theorem mapping_slot_empty {mapped : List BootCall}
    (h : Mapping firmware start pml4 l₀ n mapped l) :
    slotWord l.memory pml4 0 &&& ptePresent = 0 :=
  (BootTables.slot_empty (p := []) (i := 0) (follow_nil _ _ _) h.low).2

variable (hfresh : FreshPages firmware start pml4) (hpages : FirmwarePages firmware)
  (hplaced : Placed firmware placed)
  (h : Mapping firmware start pml4 l₀ n (sectionCalls placed []) l)
  (hwindow : WindowTaken firmware start pml4 l l' pdpt pds)

include hfresh hplaced h hwindow

/-- The invariant of the mapping calls with the window. -/
theorem runOk_finished : RunOk firmware start pml4 (some pdpt)
    (.mapPhysical :: sectionCalls placed []) l' := by
  refine runOk_window hfresh h.run hwindow.mapped (mapping_slot_empty h) fun pa va permission hd => ?_
  obtain ⟨_, _, _, _, _, hupper⟩ := mem_sectionCalls_upper hplaced hd
  exact hupper.slot.2

include hpages

/-- The pages of a section, byte by byte. -/
theorem bootWalk_section {s : BootSection} {a : Word} (hp : (s, a) ∈ placed) {j : ℕ}
    (hj : j < s.sizeInPages.toNat * 4096) :
    bootWalk l'.memory pml4 (s.virtualAddress + BitVec.ofNat 64 j) =
      .ok ⟨(a + BitVec.ofNat 64 j).toNat, decide (s.permission = .rw), decide (s.permission = .rx)⟩ := by
  have hrun := runOk_finished hfresh hplaced h hwindow
  have hs : SectionFits s := hplaced.fits _ hp
  obtain ⟨k, hgiven⟩ : ∃ k, Given firmware k s.sizeInPages a := hplaced.given _ hp
  obtain ⟨halign, hlimit⟩ := hpages.page _ _ _ hgiven
  have hpage : j / 4096 < s.sizeInPages.toNat := by omega
  have hcall : pageCall s a (j / 4096) ∈ BootCall.mapPhysical :: sectionCalls placed [] :=
    List.mem_cons_of_mem _ (mem_sectionCalls.mpr (Or.inr ⟨_, hp, _, hpage, rfl⟩))
  have haddress := toNat_pageAddress hs hpage
  have hva : (s.virtualAddress + BitVec.ofNat 64 j).toNat = s.virtualAddress.toNat + j := by
    have htable := hs.table
    have hlt := s.virtualAddress.isLt
    rw [BitVec.toNat_add, BitVec.toNat_ofNat]
    omega
  have halignVa := hs.page
  have hpath : bootPath (s.virtualAddress + BitVec.ofNat 64 j) = bootPath (pageAddress s (j / 4096)) := by
    refine bootPath_congr ?_
    rw [hva, haddress]
    omega
  have hsize : pageSize.toNat = 4096 := rfl
  have hphysical : (a + BitVec.ofNat 64 (j / 4096) * pageSize).toNat = a.toNat + j / 4096 * 4096 := by
    rw [BitVec.toNat_add, BitVec.toNat_mul, BitVec.toNat_ofNat, hsize]
    omega
  have hframe : frameAddress (frameOf (a + BitVec.ofNat 64 (j / 4096) * pageSize)) =
      a + BitVec.ofNat 64 (j / 4096) * pageSize := MachinePages.frameAddress_frameOf ⟨by omega, by omega⟩
  have hentry := entryAddress_pageEntry (frameOf (a + BitVec.ofNat 64 (j / 4096) * pageSize)) s.permission
  obtain ⟨_, hwrite, hexecute⟩ := pageEntry_bits (a + BitVec.ofNat 64 (j / 4096) * pageSize) s.permission
  have hbyte : (a + BitVec.ofNat 64 j).toNat = a.toNat + j := toNat_given_add hpages hgiven hj
  have hoffset : a.toNat + j / 4096 * 4096 + (s.virtualAddress.toNat + j) % 2 ^ 12 = a.toNat + j := by
    omega
  rw [hframe] at hentry
  rw [hrun.ok.bootWalk_eq, hpath, hrun.pages _ _ _ hcall, endTranslation, leafTranslation, hentry, hwrite,
    hexecute, Bool.not_not, hphysical, hva, hoffset, hbyte]

/-- Where all addresses lead. -/
theorem addressSpace_finished : AddressSpace l'.memory pml4 placed where
  sections := fun s a hp j hj => bootWalk_section hfresh hpages hplaced h hwindow hp hj
  window := fun va hva => hwindow.mapped.walk (slot_of_inWindow hva)
  nothing := fun va hcanonical hout hnone => by
    rw [inWindow_iff hcanonical, not_or] at hout
    have hrun := runOk_finished hfresh hplaced h hwindow
    have hbeside := bootFollow_beside hfresh h.held.ok hwindow.mapped (i := slotOf 4 va)
      (r := [slotOf 3 va, slotOf 2 va, slotOf 1 va]) hout.1 hout.2 (Nat.le_refl 4)
    have habsent : bootFollow none l.memory pml4 (bootPath va) = .absent := by
      refine h.absent _ rfl fun pa va' permission hd he => ?_
      obtain ⟨p, hp, j, hj, rfl, hupper⟩ := mem_sectionCalls_upper hplaced hd
      have haddress := toNat_pageAddress (hplaced.fits p hp) hj
      have hpage := bootPath_inj hcanonical hupper.canonical he
      have halign := (hplaced.fits p hp).page
      refine hnone p.1 p.2 hp ⟨?_, ?_⟩
      · omega
      · omega
    rw [hrun.ok.bootWalk_eq, bootPath, hbeside]
    change endTranslation va (bootFollow none l.memory pml4 (bootPath va)) = _
    rw [habsent, endTranslation]

omit hpages in
/-- The tables that walks visit lie in recorded regions. -/
theorem visited_mem_poolPages {va : Word} {f : Frame} (hf : VisitsTable l'.memory pml4 va f) :
    frameAddress f ∈ poolPages l' := by
  have hrun := runOk_finished hfresh hplaced h hwindow
  obtain ⟨level, hf⟩ := hf
  refine visits_of_tables (P := fun _ g => frameAddress g ∈ poolPages l') hrun.ok (fun p t hp ht => ?_)
    (fun g hg => ?_) hf
  · have hbefore := bootFollow_table_window hfresh h.held.ok hwindow.mapped hp.le ht
    exact hwindow.taken.kept (h.held.held p t hp hbefore)
  · obtain rfl := Option.some.inj hg
    exact ⟨hwindow.pdpt, pds, hwindow.mapped.window, hwindow.pds⟩

omit hpages in
/-- They are the PML4 and pages that were given after it, none of which is the PML4. -/
theorem visited_used {va : Word} {f : Frame} {level : ℕ}
    (hf : (level, (frameAddress f).toNat) ∈ tableVisits l'.memory 4 pml4 va) :
    (level < 4 → f ≠ pml4) ∧ Used firmware start pml4 l' f := by
  have hrun := runOk_finished hfresh hplaced h hwindow
  refine visits_of_tables (P := fun level g => (level < 4 → g ≠ pml4) ∧ Used firmware start pml4 l' g)
    hrun.ok (fun p t hp ht => ⟨fun hlevel => ?_, hrun.ok.used p t hp ht⟩) (fun g hg => ?_) hf
  · rintro rfl
    have hnil := hrun.ok.separate p [] t hp (by decide) ht (follow_nil _ _ _)
    rw [hnil] at hlevel
    exact absurd hlevel (by decide)
  · obtain ⟨pds', hok⟩ := hrun.ok.windowOk g hg
    obtain rfl := Option.some.inj hg
    obtain ⟨hpdpt, hpds⟩ := hok.apart [] pml4 (by decide) (follow_nil _ _ _)
    exact ⟨⟨fun _ => hpdpt.symm, hok.pdptUsed⟩, pds', hok.tables,
      fun j => ⟨fun _ => (hpds j).symm, hok.pdsUsed j⟩⟩

end Finish

/-- The sections of the hypervisor fit and are apart. -/
theorem bootSections_fit : (∀ s ∈ bootSections, SectionFits s) ∧ bootSections.Pairwise Apart := by
  constructor
  · intro s hs
    simp only [bootSections, List.mem_cons, List.not_mem_nil, or_false] at hs
    obtain rfl | rfl | rfl | rfl := hs
    all_goals exact ⟨by decide, by decide, by decide⟩
  · simp only [bootSections, List.pairwise_cons, List.mem_cons, List.not_mem_nil, or_false,
      forall_eq_or_imp, forall_eq, false_implies, implies_true, List.Pairwise.nil, and_true, Apart]
    decide

end Rkhv.BootAddressSpace
