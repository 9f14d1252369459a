import Rkhv.FreePageContract
import Rkhv.BootPagePool
import Rkhv.MemoryMapImport

/-!
# Pages behind the physical memory window

The hypervisor reaches physical memory through a window of 512 GiB, but neither
the import of the firmware's map nor the allocator knows this size. Allocated
pages lie inside the window exactly when every imported usable range does.
-/

namespace Rkhv.AddressablePages

open ByteMemory HostTypes HostState StateOutcome PageRuns FreePages FreePageSearch
  FreePageContract BootPagePool MemoryMapImport

/-- The page ends within the 512 GiB that are mapped from
`RKHV_PHYSICAL_MEMORY_BASE` upwards. -/
def InWindow (page : Word) : Prop := page.toNat + 4096 ≤ 2 ^ 39

/-- Every page that the allocator returns on an imported map is in the window,
whatever the used pages and the earlier calls. -/
def ReturnsInWindow (descs : List EfiMemoryDescriptor) : Prop :=
  ∀ s s' page, efiMmap s = importMmap descs → LeftByCalls (efiMmap s) (savedCursor s) →
    mmGetFreePage s = .ok page s' → InWindow page

/-- A page that a call returns is a page of an imported usable range. -/
theorem usablePage_of_ok {s s' : Hv} {page : Word} (hc : CursorOk (efiMmap s) (savedCursor s))
    (hcall : mmGetFreePage s = .ok page s') : UsablePage (efiMmap s) page := by
  have hspec := ensures_mmGetFreePage (Q := fun page _ => UsablePage (efiMmap s) page)
    (E := fun _ _ => True) hc (fun pos hv _ _ => usablePage_iff.mpr ⟨pos, hv, rfl⟩)
    (fun _ _ _ => trivial) (fun _ _ _ => trivial)
  exact hspec.of_ok hcall

/-- Usable pages are the pages covered by usable entries. -/
theorem usablePage_iff_covers {mmap : EfiMmap} {page : Word} :
    UsablePage mmap page ↔ Covers mmap.toList true page := Iff.rfl

/-- Pages of a firmware descriptor are aligned and lie between its ends. -/
theorem mem_efiPages {d : EfiMemoryDescriptor} (hd : FirmwareDescriptor d) {page : Word} :
    page ∈ efiPages d ↔ page.toNat % 4096 = 0 ∧ d.physicalStart.toNat ≤ page.toNat ∧
      page.toNat < d.physicalStart.toNat + d.numberOfPages.toNat * 4096 :=
  mem_runPages ⟨hd.1, hd.2.2.le⟩

/-- Pages after the given one, up to the last page that can be usable. -/
def pagesAfter (page : Word) : ChainloadRegion :=
  ⟨page + 4096, BitVec.ofNat 64 ((2 ^ 64 - 4096 - (page.toNat + 4096)) / 4096)⟩

/-- Pages before the given one. -/
def pagesBefore (page : Word) : ChainloadRegion := ⟨0, BitVec.ofNat 64 (page.toNat / 4096)⟩

/-- A chainload page that owns every page but one. -/
def lonePage (mmap : EfiMmap) (page : Word) : ChainloadPage where
  rkhvSections := Vector.replicate _ ⟨0, 0⟩
  chainloadPage := page + 4096
  attachments := Vector.replicate _ ⟨0, 0, chainloadAttachmentEnd⟩
  pageTableRegions :=
    ((Vector.replicate rkhvMaxPageTableRegions ⟨0, 0⟩).set 0 (pagesBefore page)).set 1 (pagesAfter page)
  efiMmapUsable := mmap

theorem lonePage_regions (mmap : EfiMmap) (page : Word) :
    (lonePage mmap page).pageTableRegions.toList =
      pagesBefore page :: pagesAfter page :: List.replicate 14 ⟨0, 0⟩ := rfl

section LonePage

variable {page : Word} (halign : page.toNat % 4096 = 0) (hbound : page.toNat + 4096 < 2 ^ 64)

include halign hbound

theorem pagesAfter_fits : RangeFits (pagesAfter page) ∧
    (pagesAfter page).physicalAddress.toNat = page.toNat + 4096 ∧
    (pagesAfter page).pages.toNat = (2 ^ 64 - 4096 - (page.toNat + 4096)) / 4096 := by
  have hstart : (pagesAfter page).physicalAddress.toNat = page.toNat + 4096 := by
    have h4096 : (4096 : Word).toNat = 4096 := rfl
    rw [pagesAfter, BitVec.toNat_add, h4096]
    omega
  have hpages : (pagesAfter page).pages.toNat = (2 ^ 64 - 4096 - (page.toNat + 4096)) / 4096 := by
    rw [pagesAfter, BitVec.toNat_ofNat]
    omega
  refine ⟨⟨?_, ?_⟩, hstart, hpages⟩
  · omega
  · omega

theorem pagesBefore_fits : RangeFits (pagesBefore page) ∧
    (pagesBefore page).physicalAddress.toNat = 0 ∧
    (pagesBefore page).pages.toNat = page.toNat / 4096 := by
  have hpages : (pagesBefore page).pages.toNat = page.toNat / 4096 := by
    rw [pagesBefore, BitVec.toNat_ofNat]
    omega
  refine ⟨⟨rfl, ?_⟩, rfl, hpages⟩
  have hzero : (pagesBefore page).physicalAddress.toNat = 0 := rfl
  omega

/-- The lone page is not owned. -/
theorem lonePage_free (mmap : EfiMmap) : mmPageUsedByChainload (lonePage mmap page) page = false := by
  obtain ⟨_, hafter, _⟩ := pagesAfter_fits halign hbound
  obtain ⟨_, hbefore, hpages⟩ := pagesBefore_fits halign hbound
  have hself : (page == page + 4096) = false := by
    rw [beq_eq_false_iff_ne]
    intro h
    have hn := congrArg BitVec.toNat h
    have h4096 : (4096 : Word).toNat = 4096 := rfl
    rw [BitVec.toNat_add, h4096] at hn
    omega
  have hsections : (lonePage mmap page).rkhvSections.toList = List.replicate 4 ⟨0, 0⟩ := rfl
  have hattachments : attachmentsUse page (lonePage mmap page).attachments.toList = false := rfl
  have huseAfter : regionUses page (pagesAfter page).physicalAddress (pagesAfter page).pages = false := by
    have hle : ¬(pagesAfter page).physicalAddress ≤ page := by
      rw [BitVec.le_def]
      omega
    simp only [regionUses, hle, decide_false, Bool.false_and, Bool.and_false]
  have huseBefore :
      regionUses page (pagesBefore page).physicalAddress (pagesBefore page).pages = false := by
    by_cases hz : (pagesBefore page).pages = 0
    · simp [regionUses, hz]
    · have hlast := @toNat_lastPage (pagesBefore page).physicalAddress _ hz (by omega)
      have hne : (pagesBefore page).pages.toNat ≠ 0 := fun h => hz (BitVec.eq_of_toNat_eq (by simpa using h))
      have hle : ¬page ≤ (pagesBefore page).physicalAddress + ((pagesBefore page).pages - 1) * pageSize := by
        rw [BitVec.le_def]
        change ¬page.toNat ≤ ((pagesBefore page).physicalAddress + ((pagesBefore page).pages - 1) * 4096).toNat
        omega
      simp only [regionUses, hle, decide_false, Bool.and_false]
  have hzero : regionUses page 0 0 = false := rfl
  have hchainload : (lonePage mmap page).chainloadPage = page + 4096 := rfl
  simp only [mmPageUsedByChainload, and_pageMask halign, hchainload, hself, hsections, hattachments,
    lonePage_regions, List.any_cons, List.any_replicate, huseAfter, huseBefore, hzero,
    Bool.or_false, ite_self]

/-- Every other page below the last one is owned. -/
theorem lonePage_used (mmap : EfiMmap) {other : Word} (hother : other.toNat % 4096 = 0)
    (hlt : other.toNat + 4096 < 2 ^ 64) (hne : other ≠ page) :
    mmPageUsedByChainload (lonePage mmap page) other = true := by
  obtain ⟨hfitAfter, hstartAfter, hpagesAfter⟩ := pagesAfter_fits halign hbound
  obtain ⟨hfitBefore, hstartBefore, hpagesBefore⟩ := pagesBefore_fits halign hbound
  have hn : other.toNat ≠ page.toNat := fun h => hne (BitVec.eq_of_toNat_eq h)
  have huse : regionUses other (pagesBefore page).physicalAddress (pagesBefore page).pages = true ∨
      regionUses other (pagesAfter page).physicalAddress (pagesAfter page).pages = true := by
    rcases Nat.lt_or_gt_of_ne hn with hbefore | hafter
    · refine Or.inl (regionUses_of_mem hfitBefore ((mem_runPages hfitBefore.runFits).mpr ?_))
      omega
    · refine Or.inr (regionUses_of_mem hfitAfter ((mem_runPages hfitAfter.runFits).mpr ?_))
      omega
  rcases huse with huse | huse
  · simp only [mmPageUsedByChainload, and_pageMask hother, lonePage_regions, List.any_cons, huse,
      Bool.true_or, Bool.or_true]
  · simp only [mmPageUsedByChainload, and_pageMask hother, lonePage_regions, List.any_cons, huse,
      Bool.true_or, Bool.or_true]

end LonePage

/-- A usable page that is the only free one is returned by the first call. -/
theorem mmGetFreePage_lonePage {mmap : EfiMmap} {page : Word} (hpage : UsablePage mmap page)
    (hfits : ∀ other, UsablePage mmap other → other.toNat % 4096 = 0 ∧ other.toNat + 4096 < 2 ^ 64) :
    ∃ s', mmGetFreePage (bootState (lonePage mmap page) (fun _ => 0) idleCpu) = .ok page s' := by
  obtain ⟨halign, hbound⟩ := hfits page hpage
  have hfree : ∀ other, mmPageIsFree (bootState (lonePage mmap page) (fun _ => 0) idleCpu) other =
      !mmPageUsedByChainload (lonePage mmap page) other := fun other => by
    simp [mmPageIsFree, bootState, mmPageUsedByArena, mmPageUsedByVmx, mmPageUsedByVmManager]
  have hspec := ensures_mmGetFreePage (s := bootState (lonePage mmap page) (fun _ => 0) idleCpu)
    (Q := fun p _ => p = page) (E := fun _ _ => False) (Or.inl rfl)
    (fun pos hv hf _ => by
      by_contra hne
      obtain ⟨ha, hb⟩ := hfits _ (usablePage_iff.mpr ⟨pos, hv, rfl⟩)
      change mmPageIsFree _ (positionPage mmap pos) = true at hf
      rw [hfree, lonePage_used halign hbound mmap ha hb hne] at hf
      cases hf)
    (fun _ _ hnone => by
      obtain ⟨pos, hv, hp⟩ := usablePage_iff.mp hpage
      have hused := hnone pos hv
      change mmPageIsFree _ (positionPage mmap pos) = false at hused
      rw [← hp, hfree, lonePage_free halign hbound] at hused
      cases hused)
    (fun _ _ hnone => by
      obtain ⟨pos, hv, hp⟩ := usablePage_iff.mp hpage
      have hused := hnone pos hv (Or.inl rfl)
      change mmPageIsFree _ (positionPage mmap pos) = false at hused
      rw [← hp, hfree, lonePage_free halign hbound] at hused
      cases hused)
  unfold Ensures at hspec
  split at hspec
  · rename_i p s' hs
    exact ⟨s', by rw [hs, hspec]⟩
  · exact hspec.elim

/-- The allocator stays inside the window exactly when no imported usable range
of at least one page ends above it. -/
theorem mmGetFreePage_inWindow_iff (descs : List EfiMemoryDescriptor)
    (hdescs : ∀ d ∈ descs, FirmwareDescriptor d) :
    ∃ imported, Imported descs imported ∧ (ReturnsInWindow descs ↔
      ∀ d ∈ imported, usableType d.memoryType = true → d.numberOfPages ≠ 0 →
        d.physicalStart.toNat + d.numberOfPages.toNat * 4096 ≤ 2 ^ 39) := by
  obtain ⟨imported, h⟩ := exists_imported descs
  have hfirmware : ∀ d ∈ imported, FirmwareDescriptor d := fun d hd =>
    hdescs d (h.isPrefix.subset hd)
  have husable : ∀ page, UsablePage (importMmap descs) page ↔
      ∃ d ∈ imported, usableType d.memoryType = true ∧ page ∈ efiPages d := fun page =>
    usablePage_iff_covers.trans (h.covers hdescs true page)
  refine ⟨imported, h, ?_, ?_⟩
  · intro hreturns d hd hu hne
    have hfd := hfirmware d hd
    have hpos : d.numberOfPages.toNat ≠ 0 := fun hz => hne (BitVec.eq_of_toNat_eq (by simpa using hz))
    have hlast := toNat_lastPage hne hfd.2.2.le
    have halign := hfd.1
    have hmem : d.physicalStart + (d.numberOfPages - 1) * 4096 ∈ efiPages d := by
      rw [mem_efiPages hfd, hlast]
      omega
    have hfits : ∀ other, UsablePage (importMmap descs) other →
        other.toNat % 4096 = 0 ∧ other.toNat + 4096 < 2 ^ 64 := fun other ho => by
      obtain ⟨e, he, _, hp⟩ := (husable other).mp ho
      have hfe := hfirmware e he
      have hend := hfe.2.2
      have hestart := hfe.1
      rw [mem_efiPages hfe] at hp
      omega
    obtain ⟨s', hs⟩ := mmGetFreePage_lonePage ((husable _).mpr ⟨d, hd, hu, hmem⟩) hfits
    have hin := hreturns _ s' _ rfl .boot hs
    rw [InWindow, hlast] at hin
    omega
  · intro hbound s s' page hmap hleft hcall
    obtain ⟨d, hd, hu, hp⟩ := (husable page).mp (hmap ▸ usablePage_of_ok hleft.cursorOk hcall)
    have hfd := hfirmware d hd
    have hstart := hfd.1
    rw [mem_efiPages hfd] at hp
    have hne : d.numberOfPages ≠ 0 := fun hz => by
      have hz' : d.numberOfPages.toNat = 0 := by rw [hz]; rfl
      omega
    have hend := hbound d hd hu hne
    rw [InWindow]
    omega

/-- A machine with one MiB of usable memory stays inside the window. -/
theorem mmGetFreePage_inWindow_small : ReturnsInWindow [⟨.conventionalMemory, 0, 256⟩] := by
  obtain ⟨imported, h, hiff⟩ := mmGetFreePage_inWindow_iff [⟨.conventionalMemory, 0, 256⟩]
    (by simp [FirmwareDescriptor])
  rw [hiff, h.whole (by decide)]
  simp

/-- With one usable page right above 512 GiB the allocator returns it. -/
theorem mmGetFreePage_outside_window :
    ¬∀ descs, (∀ d ∈ descs, FirmwareDescriptor d) → ReturnsInWindow descs := by
  intro h
  have hdescs : ∀ d ∈ [(⟨.conventionalMemory, 0x8000000000, 1⟩ : EfiMemoryDescriptor)],
      FirmwareDescriptor d := by simp [FirmwareDescriptor]
  obtain ⟨imported, himported⟩ := exists_imported [⟨.conventionalMemory, 0x8000000000, 1⟩]
  have husable : ∀ page, UsablePage (importMmap [⟨.conventionalMemory, 0x8000000000, 1⟩]) page ↔
      page = 0x8000000000 := fun page => by
    rw [usablePage_iff_covers, himported.covers hdescs true page, himported.whole (by decide)]
    simp [usableType, efiPages]
  obtain ⟨s', hs⟩ := mmGetFreePage_lonePage ((husable _).mpr rfl) fun other ho => by
    rw [(husable other).mp ho]
    decide
  exact absurd (h _ hdescs _ s' _ rfl .boot hs) (by simp [InWindow])

end Rkhv.AddressablePages
