import Rkhv.HostPages

/-!
# Steps of the whole hypervisor

Two kinds of steps hand out host pages. A step of one machine adds its pages to
those that the machine tracks and leaves all other machines alone. A special
step takes one page, writes to nothing else and leaves every machine alone.
-/

namespace Rkhv.HostSteps

open ByteMemory HostTypes HostState StateOutcome FreePages FreePageSearch FreePageContract
  PageTracker PageTrackerRuns EptWalk MachinePages MachineSteps GuestMemory HostPages

variable {s s' : Hv}

/-- Two machines track different pages. -/
theorem disjoint_machinePages (h : HostOk s) {vm w page : Word} (hvm : vm ∈ s.vmManagerVmList)
    (hw : w ∈ s.vmManagerVmList) (hne : vm ≠ w) (hpage : page ∈ machinePages s vm) :
    page ∉ machinePages s w := by
  have hpairs := (List.nodup_flatMap.mp h.distinct).2
  have hsymm : Std.Symm (Function.onFun List.Disjoint (machinePages s)) :=
    ⟨fun _ _ hd => List.Disjoint.symm hd⟩
  exact fun hmem => hpairs.forall hvm hw hne hpage hmem

/-! ## Steps of one machine -/

section Machine

variable {vm : Word} {loose taken : List Word}

/-- The pages that a machine operation takes are fresh. -/
theorem handedOut_grown (h : HostOk s) (hg : Grown vm s s' loose taken) : HandedOut s s' taken :=
  ⟨hg.takes.returned, hg.takes.nodup, fun page hp => h.fresh (hg.takes.fresh page hp).1
    (hg.takes.fresh page hp).2.1 (hg.takes.fresh page hp).2.2, hg.frame.chainload⟩

/-- Machine operations change no page that is held without being tracked. -/
theorem specialPages_eq (hf : MachineFrame vm s s') : specialPages s' = specialPages s := by
  have harena : s'.arenaList = s.arenaList := hf.field Hv.arenaList
  have hon : s'.vmxonRegionValid = s.vmxonRegionValid := hf.field Hv.vmxonRegionValid
  have hregion : s'.vmxonRegion = s.vmxonRegion := hf.field Hv.vmxonRegion
  have hvalid : s'.msrBitmapsPageValid = s.msrBitmapsPageValid := hf.field Hv.msrBitmapsPageValid
  have hbitmaps : s'.msrBitmapsPage = s.msrBitmapsPage := hf.field Hv.msrBitmapsPage
  obtain ⟨tracked, eptp, flags, hv, hflags⟩ := hf.machine
  have hmachine : ∀ w, (s'.vmAt w).flags &&& vmTFlagVmcsInitialized =
      (s.vmAt w).flags &&& vmTFlagVmcsInitialized ∧
      (s'.vmAt w).vmcsRegion = (s.vmAt w).vmcsRegion := fun w => by
    by_cases hw : w = vm
    · rw [hw, hv]
      exact ⟨hflags, rfl⟩
    · rw [hf.others w hw]
      exact ⟨rfl, rfl⟩
  rw [specialPages, specialPages, vmxPages, vmxPages, vmcsPages, vmcsPages, harena, hon, hregion,
    hvalid, hbitmaps, hf.vmList]
  simp only [hmachine]

/-- Tracked pages of other machines are not touched. -/
theorem machinePages_other (hf : MachineFrame vm s s') {w : Word} (hw : w ≠ vm) :
    machinePages s' w = machinePages s w := by
  rw [machinePages, machinePages, trackedOf, trackedOf, hf.others w hw]

/-- All tracked pages after an operation of one machine. -/
theorem vmPages_perm (hlisted : s.vmManagerVmList.Nodup) (hvm : vm ∈ s.vmManagerVmList)
    (hg : Grown vm s s' [] taken) : (vmPages s').Perm (taken ++ vmPages s) := by
  have hsplit : ∀ t : Hv, t.vmManagerVmList = s.vmManagerVmList → (vmPages t).Perm
      (machinePages t vm ++ (s.vmManagerVmList.erase vm).flatMap (machinePages t)) := by
    intro t ht
    rw [vmPages, ht]
    exact (List.perm_cons_erase hvm).flatMap_right _
  have hrest : (s.vmManagerVmList.erase vm).flatMap (machinePages s') =
      (s.vmManagerVmList.erase vm).flatMap (machinePages s) := by
    refine List.flatMap_congr fun w hw => machinePages_other hg.frame ?_
    exact (hlisted.mem_erase_iff.mp hw).1
  have hpages : (machinePages s' vm).Perm (taken ++ machinePages s vm) := hg.pages
  have hafter := hsplit s' hg.frame.vmList
  rw [hrest] at hafter
  have hgrown := hpages.append_right ((s.vmManagerVmList.erase vm).flatMap (machinePages s))
  rw [List.append_assoc] at hgrown
  exact (hafter.trans hgrown).trans ((hsplit s rfl).symm.append_left taken)

/-- An operation of one machine keeps the others. -/
theorem kept_other (h : HostOk s) (hvm : vm ∈ s.vmManagerVmList) (hok : MachineOk s' vm)
    (hg : Grown vm s s' [] taken) {w : Word} (hw : w ∈ s.vmManagerVmList) (hne : w ≠ vm) :
    MachineKept s s' w := by
  have hv := hg.frame.others w hne
  have hsame : SameMachine s s' w :=
    ⟨by rw [trackedOf, trackedOf, hv], by rw [hv], by rw [hv], by rw [hv]⟩
  refine MachineOk.kept (h.machines w hw) (hg.frame.vmList ▸ hw) hg.frame.map
    (hg.frame.map ▸ hok.cursor) hsame fun f hf => hg.memory f fun hmem => ?_
  have hpages : (machinePages s' vm).Perm (taken ++ machinePages s vm) := hg.pages
  rw [List.nil_append, hpages.mem_iff, List.mem_append] at hmem
  rcases hmem with hmem | hmem
  · have hunheld := (h.fresh (hg.takes.fresh _ hmem).1 (hg.takes.fresh _ hmem).2.1
      (hg.takes.fresh _ hmem).2.2).unheld
    exact hunheld (List.mem_append_right _ (mem_vmPages.mpr ⟨w, hw, hf⟩))
  · exact disjoint_machinePages h hvm hw (Ne.symm hne) hmem hf

/-- An operation of one machine keeps the state in order. -/
theorem hostOk_grown (h : HostOk s) (hvm : vm ∈ s.vmManagerVmList) (hok : MachineOk s' vm)
    (hg : Grown vm s s' [] taken) :
    HostOk s' ∧ (heldPages s').Perm (taken ++ heldPages s) := by
  have hspecial := specialPages_eq hg.frame
  have hvmPages := vmPages_perm h.listed hvm hg
  have hhanded := handedOut_grown h hg
  have hfresh : ∀ page ∈ taken, page ∉ specialPages s ∧ page ∉ vmPages s := fun page hp => by
    have hunheld := (hhanded.fresh page hp).unheld
    rw [heldPages, List.mem_append, not_or] at hunheld
    exact hunheld
  have hheld : (heldPages s').Perm (taken ++ heldPages s) := by
    have hfront := hvmPages.append_left (specialPages s)
    rw [← List.append_assoc] at hfront
    rw [heldPages, heldPages, hspecial, ← List.append_assoc]
    exact hfront.trans (List.perm_append_comm.append_right _)
  refine ⟨⟨hok.map, hok.cursor, fun w hw => ?_, ?_, fun page hp => ?_, fun page hp => ?_, ?_,
    fun page hp => ?_, fun w hw => ?_⟩, hheld⟩
  · rw [hg.frame.vmList] at hw
    by_cases hne : w = vm
    · exact hne ▸ hok
    · exact (kept_other h hvm hok hg hw hne).ok
  · rw [hvmPages.nodup_iff]
    exact List.nodup_append.mpr ⟨hhanded.nodup, h.distinct, fun a ha b hb hab =>
      (hfresh a ha).2 (hab ▸ hb)⟩
  · rw [hspecial] at hp
    rw [hvmPages.mem_iff, List.mem_append, not_or]
    exact ⟨fun hmem => (hfresh page hmem).1 hp, h.apart page hp⟩
  · rw [hheld.mem_iff, List.mem_append] at hp
    rw [hg.frame.chainload]
    exact hp.elim (fun hmem => (hhanded.fresh page hmem).unowned) (h.unowned page)
  · rw [hg.frame.vmList]
    exact h.listed
  · rw [hg.frame.managerArena] at hp
    have harena : s'.arenaList = s.arenaList := hg.frame.field Hv.arenaList
    rw [harena]
    exact ⟨(h.arena page hp).1, (hg.frame.arena page hp (h.arena page hp).2).2⟩
  · rw [hg.frame.vmList] at hw
    obtain ⟨page, hpage, hoffset⟩ := h.pointers w hw
    have hused := hg.frame.arena page hpage (h.arena page hpage).2
    exact ⟨page, hg.frame.managerArena ▸ hpage, by omega⟩

end Machine

/-! ## Special steps -/

/-- A step that takes one page for everybody: it writes to this page only,
leaves the machines and the arena of the machines alone, and holds at most this
page more. -/
structure SpecialStep (s s' : Hv) (page : Word) : Prop where
  chainload : s'.mmChainloadPage = s.mmChainloadPage
  cursor : CursorOk (efiMmap s) (savedCursor s')
  vmList : s'.vmManagerVmList = s.vmManagerVmList
  same : ∀ vm ∈ s.vmManagerVmList, SameMachine s s' vm
  memory : ∀ f, frameAddress f ≠ page → SameFrame s.memory s'.memory f
  managerArena : s'.vmManagerArena = s.vmManagerArena
  arena : ∀ a, s.vmManagerArena = some a → s'.arenaAt a = s.arenaAt a
  arenaList : ∀ a ∈ s.arenaList, a ∈ s'.arenaList
  special : ∀ p ∈ specialPages s', p = page ∨ p ∈ specialPages s

theorem SpecialStep.map {page : Word} (h : SpecialStep s s' page) : efiMmap s' = efiMmap s :=
  congrArg ChainloadPage.efiMmapUsable h.chainload

/-- The tracked pages are those of before. -/
theorem SpecialStep.vmPages_eq {page : Word} (h : SpecialStep s s' page) : vmPages s' = vmPages s := by
  rw [vmPages, vmPages, h.vmList]
  exact List.flatMap_congr fun vm hvm => (h.same vm hvm).machinePages_eq

/-- A special step keeps every machine. -/
theorem kept_special {page : Word} (h : HostOk s) (hp : FreshPage s page)
    (hstep : SpecialStep s s' page) {vm : Word} (hvm : vm ∈ s.vmManagerVmList) :
    MachineKept s s' vm := by
  refine MachineOk.kept (h.machines vm hvm) (hstep.vmList ▸ hvm) hstep.map hstep.cursor
    (hstep.same vm hvm) fun f hf => hstep.memory f fun he => ?_
  exact hp.unheld (List.mem_append_right _ (mem_vmPages.mpr ⟨vm, hvm, he ▸ hf⟩))

/-- A special step keeps the state in order. -/
theorem hostOk_special {page : Word} (h : HostOk s) (hp : FreshPage s page)
    (hstep : SpecialStep s s' page) : HostOk s' := by
  have hunheld := hp.unheld
  rw [heldPages, List.mem_append, not_or] at hunheld
  refine ⟨hstep.map ▸ h.map, hstep.map ▸ hstep.cursor, fun vm hvm => ?_, ?_, fun p hmem => ?_,
    fun p hmem => ?_, ?_, fun a ha => ?_, fun vm hvm => ?_⟩
  · rw [hstep.vmList] at hvm
    exact (kept_special h hp hstep hvm).ok
  · rw [hstep.vmPages_eq]
    exact h.distinct
  · rw [hstep.vmPages_eq]
    rcases hstep.special p hmem with rfl | hmem
    · exact hunheld.2
    · exact h.apart p hmem
  · rw [hstep.chainload]
    rw [heldPages, List.mem_append, hstep.vmPages_eq] at hmem
    rcases hmem with hmem | hmem
    · rcases hstep.special p hmem with rfl | hmem
      · exact hp.unowned
      · exact h.unowned p (List.mem_append_left _ hmem)
    · exact h.unowned p (List.mem_append_right _ hmem)
  · rw [hstep.vmList]
    exact h.listed
  · rw [hstep.managerArena] at ha
    rw [hstep.arena a ha]
    exact ⟨hstep.arenaList a (h.arena a ha).1, (h.arena a ha).2⟩
  · rw [hstep.vmList] at hvm
    obtain ⟨a, ha, hoffset⟩ := h.pointers vm hvm
    exact ⟨a, hstep.managerArena ▸ ha, by rw [hstep.arena a ha]; exact hoffset⟩

end Rkhv.HostSteps
