import Rkhv.GuestMemory
import Rkhv.Vmcs

/-!
# Pages of the whole hypervisor

Host pages are held as arenas, as VMX pages, as VMCS regions and as tracked
pages of the machines. The state is in order when every machine is, no page is
tracked twice, the other pages are tracked by no machine and nothing held
belongs to the bootloader's image. A step either hands out pages for one
machine or one page for everybody, and both keep the state in order.
-/

namespace Rkhv.HostPages

open ByteMemory HostTypes HostState StateOutcome PageRuns FreePages FreePageSearch FreePageContract
  PageTracker PageTrackerRuns EptWalk MachinePages MachineSteps GuestMemory

/-! ## Held pages -/

/-- The VMXON region and the page of the MSR bitmaps. -/
def vmxPages (s : Hv) : List Word :=
  (if s.vmxonRegionValid then [s.vmxonRegion] else []) ++
    (if s.msrBitmapsPageValid then [s.msrBitmapsPage] else [])

/-- VMCS regions of the listed machines. -/
def vmcsPages (s : Hv) : List Word :=
  (s.vmManagerVmList.filter fun vm => (s.vmAt vm).flags &&& vmTFlagVmcsInitialized != 0).map
    fun vm => (s.vmAt vm).vmcsRegion

/-- Pages that are held without being tracked. -/
def specialPages (s : Hv) : List Word := s.arenaList ++ vmxPages s ++ vmcsPages s

/-- Tracked pages of all machines. -/
def vmPages (s : Hv) : List Word := s.vmManagerVmList.flatMap (machinePages s)

/-- All pages that are held. -/
def heldPages (s : Hv) : List Word := specialPages s ++ vmPages s

theorem mem_vmPages {s : Hv} {page : Word} :
    page ∈ vmPages s ↔ ∃ vm ∈ s.vmManagerVmList, page ∈ machinePages s vm := by
  rw [vmPages, List.mem_flatMap]

theorem not_mem_vmxPages {s : Hv} {page : Word} (h : mmPageUsedByVmx s page = false) :
    page ∉ vmxPages s := by
  simp only [mmPageUsedByVmx, Bool.or_eq_false_iff, Bool.and_eq_false_iff] at h
  simp only [vmxPages, List.mem_append, not_or]
  constructor
  · rcases h.1 with hv | hne
    · rw [hv]
      exact List.not_mem_nil
    · split
      · exact fun hmem => absurd (List.mem_singleton.mp hmem) (beq_eq_false_iff_ne.mp hne)
      · exact List.not_mem_nil
  · rcases h.2 with hv | hne
    · rw [hv]
      exact List.not_mem_nil
    · split
      · exact fun hmem => absurd (List.mem_singleton.mp hmem) (beq_eq_false_iff_ne.mp hne)
      · exact List.not_mem_nil

theorem not_mem_vmcsPages {s : Hv} {page : Word} (h : ∀ vm ∈ s.vmManagerVmList,
    ((s.vmAt vm).flags &&& vmTFlagVmcsInitialized != 0 && (s.vmAt vm).vmcsRegion == page) = false) :
    page ∉ vmcsPages s := by
  intro hmem
  obtain ⟨vm, hvm, rfl⟩ := List.mem_map.mp hmem
  rw [List.mem_filter] at hvm
  have hused := h vm hvm.1
  rw [hvm.2, Bool.true_and, beq_self_eq_true] at hused
  cases hused

theorem not_mem_arenaList {s : Hv} {page : Word} (hpage : PageOk page)
    (h : mmPageUsedByArena s page = false) : page ∉ s.arenaList := by
  intro hmem
  rw [mmPageUsedByArena, List.any_eq_false] at h
  have hne := h page hmem
  rw [and_pageMask hpage.1, beq_self_eq_true] at hne
  exact hne rfl

/-- A page that may be handed out: below the limit, held by nobody and no part
of the bootloader's image. -/
structure FreshPage (s : Hv) (page : Word) : Prop where
  ok : PageOk page
  unowned : mmPageUsedByChainload s.mmChainloadPage page = false
  unheld : page ∉ heldPages s

/-- Pages that an operation was handed out, newest first. -/
structure HandedOut (s s' : Hv) (taken : List Word) : Prop where
  returned : s'.mmReturned = taken ++ s.mmReturned
  nodup : taken.Nodup
  fresh : ∀ page ∈ taken, FreshPage s page
  chainload : s'.mmChainloadPage = s.mmChainloadPage

/-- The state of the hypervisor is in order. -/
structure HostOk (s : Hv) : Prop where
  map : ∀ page, UsablePage (efiMmap s) page → PageOk page
  cursor : CursorOk (efiMmap s) (savedCursor s)
  machines : ∀ vm ∈ s.vmManagerVmList, MachineOk s vm
  distinct : (vmPages s).Nodup
  apart : ∀ page ∈ specialPages s, page ∉ vmPages s
  unowned : ∀ page ∈ heldPages s, mmPageUsedByChainload s.mmChainloadPage page = false
  listed : s.vmManagerVmList.Nodup
  arena : ∀ page, s.vmManagerArena = some page →
    page ∈ s.arenaList ∧ (s.arenaAt page).usedSize.toNat ≤ 4064
  pointers : ∀ vm ∈ s.vmManagerVmList, ∃ page, s.vmManagerArena = some page ∧
    (vm - p2vIdentityMap page).toNat < 32 + (s.arenaAt page).usedSize.toNat

/-- A page that every test rejects is fresh. -/
theorem fresh_of_unused {s : Hv} {page : Word} (hpage : PageOk page)
    (hchainload : mmPageUsedByChainload s.mmChainloadPage page = false)
    (harena : mmPageUsedByArena s page = false) (hvmx : mmPageUsedByVmx s page = false)
    (hvmcs : ∀ vm ∈ s.vmManagerVmList,
      ((s.vmAt vm).flags &&& vmTFlagVmcsInitialized != 0 && (s.vmAt vm).vmcsRegion == page) = false)
    (hnew : ∀ vm ∈ s.vmManagerVmList, page ∉ machinePages s vm) : FreshPage s page := by
  refine ⟨hpage, hchainload, ?_⟩
  simp only [heldPages, specialPages, List.mem_append, not_or]
  refine ⟨⟨⟨not_mem_arenaList hpage harena, not_mem_vmxPages hvmx⟩, not_mem_vmcsPages hvmcs⟩, ?_⟩
  intro hmem
  obtain ⟨vm, hvm, hpages⟩ := mem_vmPages.mp hmem
  exact hnew vm hvm hpages

/-- A tracked page is in use. -/
theorem HostOk.not_mem_machinePages {s : Hv} (h : HostOk s) {vm page : Word}
    (hvm : vm ∈ s.vmManagerVmList)
    (hunused : (s.vmAt vm).trackedPages.any (pageListUses page) = false) :
    page ∉ machinePages s vm := by
  intro hmem
  have hany := pageListUses_of_mem (h.machines vm hvm).entries hmem
  rw [trackedOf, hunused] at hany
  cases hany

/-- Pages used by nobody but one machine, and not by it either, are fresh. -/
theorem HostOk.fresh {s : Hv} (h : HostOk s) {vm page : Word} (hpage : PageOk page)
    (hothers : usedByOthers s vm page = false) (hnew : page ∉ machinePages s vm) :
    FreshPage s page := by
  simp only [usedByOthers, Bool.or_eq_false_iff, List.any_eq_false, Bool.not_eq_true] at hothers
  obtain ⟨⟨⟨hchainload, harena⟩, hvmx⟩, hmachines⟩ := hothers
  refine fresh_of_unused hpage hchainload harena hvmx (fun w hw => (hmachines w hw).1) fun w hw => ?_
  by_cases hvm : w = vm
  · exact hvm ▸ hnew
  · have hunused := (hmachines w hw).2
    rw [decide_eq_true hvm, Bool.true_and] at hunused
    exact h.not_mem_machinePages hw hunused

/-- A page that the allocator takes for free is fresh. -/
theorem HostOk.fresh_of_free {s : Hv} (h : HostOk s) {page : Word} (hpage : PageOk page)
    (hfree : mmPageIsFree s page = true) : FreshPage s page := by
  simp only [mmPageIsFree, mmPageUsedByVmManager, Bool.not_eq_true', Bool.or_eq_false_iff,
    List.any_eq_false, Bool.not_eq_true] at hfree
  obtain ⟨⟨⟨hchainload, harena⟩, hvmx⟩, hmachines⟩ := hfree
  refine fresh_of_unused hpage hchainload harena hvmx (fun w hw => (hmachines w hw).1) fun w hw => ?_
  exact h.not_mem_machinePages hw (List.any_eq_false.mpr fun e he => by
    rw [(hmachines w hw).2 e he]; exact Bool.false_ne_true)

/-- In order, the allocator returns a fresh page or changes nothing. -/
theorem hostGetFreePage_spec {s : Hv} (h : HostOk s) :
    Ensures mmGetFreePage s
      (fun page s' => ∃ pos, ValidPosition (efiMmap s) pos ∧ s' = taking s page pos ∧
        FreshPage s page)
      (fun _ s' => s' = s) :=
  ensures_mmGetFreePage h.cursor
    (fun pos hv hf _ => ⟨pos, hv, rfl, h.fresh_of_free (h.map _ (usablePage_iff.mpr ⟨pos, hv, rfl⟩)) hf⟩)
    (fun _ _ _ => rfl) (fun _ _ _ => rfl)

/-! ## A machine that a step does not concern -/

/-- The machine stays in order with its pages, its size and its translations. -/
structure MachineKept (s s' : Hv) (vm : Word) : Prop where
  ok : MachineOk s' vm
  tracked : trackedOf s' vm = trackedOf s vm
  guestPages : (s'.vmAt vm).guestPhysicalPages = (s.vmAt vm).guestPhysicalPages
  follow : ∀ q, q.length ≤ 4 → eptFollow s' vm q = eptFollow s vm q

/-- The tables and the pages of a machine are as before. -/
structure SameMachine (s s' : Hv) (vm : Word) : Prop where
  tracked : trackedOf s' vm = trackedOf s vm
  guestPages : (s'.vmAt vm).guestPhysicalPages = (s.vmAt vm).guestPhysicalPages
  ept : hasEpt (s'.vmAt vm) ↔ hasEpt (s.vmAt vm)
  eptp : (s'.vmAt vm).vmcsConfig.eptp = (s.vmAt vm).vmcsConfig.eptp

theorem SameMachine.machinePages_eq {s s' : Hv} {vm : Word} (h : SameMachine s s' vm) :
    machinePages s' vm = machinePages s vm := by
  rw [machinePages, machinePages, h.tracked]

/-- Writing outside the frames of a machine keeps it. -/
theorem MachineOk.kept {s s' : Hv} {vm : Word} (h : MachineOk s vm)
    (hlisted : vm ∈ s'.vmManagerVmList) (hmap : efiMmap s' = efiMmap s)
    (hcursor : CursorOk (efiMmap s) (savedCursor s')) (hsame : SameMachine s s' vm)
    (hmemory : ∀ f, frameAddress f ∈ machinePages s vm → SameFrame s.memory s'.memory f) :
    MachineKept s s' vm := by
  have hframe : ∀ f pageType pool, (frameAddress f, pageType, pool) ∈ contents (trackedOf s vm) →
      SameFrame s.memory s'.memory f := fun f _ _ hf => hmemory f (MachineOk.mem_machinePages hf)
  have hkept : MachineOk s' vm ∧ ∀ q, q.length ≤ 4 → eptFollow s' vm q = eptFollow s vm q := by
    refine h.of_same hlisted hmap hcursor hsame.ept hsame.eptp (hsame.tracked ▸ h.entries)
      (hsame.machinePages_eq ▸ h.distinct) (fun f hf => ?_) (fun f hf => ?_)
    · rw [hsame.tracked]
      exact ⟨hf, hframe f _ _ hf⟩
    · rw [hsame.tracked] at hf
      exact (h.zeroed f hf).of_same (hframe f _ _ hf)
  exact ⟨hkept.1, hsame.tracked, hsame.guestPages, hkept.2⟩

/-- A kept machine keeps its guest memory. -/
theorem MachineKept.guestMapped {s s' : Hv} {vm : Word} {n : ℕ} {host : ℕ → Frame}
    (h : MachineKept s s' vm) (hg : GuestMapped s vm n host) : GuestMapped s' vm n host :=
  hg.of_kept h.ok (fun t ht _ => by rw [h.tracked]; exact ht) h.follow

end Rkhv.HostPages
