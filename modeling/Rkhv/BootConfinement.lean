import Rkhv.BootReservation
import Rkhv.GuestRuns

/-!
# The boot image under the guests

Frames that count as used by the chainload page are written by nothing that the
hypervisor does to build its machines, nor by a guest. So the page tables that
`efi_main` built translate in every later state as they did at the hand-over.
-/

namespace Rkhv.BootConfinement

open ByteMemory WordFields HostTypes HostState StateOutcome FreePages Arenas PageTracker MachinePages
  MachineSteps HostPages HostSteps HostOperations HostRuns VmxPages VmxInstructions Vmcs VmManager
  VmIoPorts Vmd8250Uart GuestRam GuestIsolation ExitMemory VmcsConfinement MachineBuilding GuestRuns
  RightsWalk NestedWalk GuestMemory BootPaging BootWindow BootLoading BootFiles BootAddressSpace
  BootHandover BootReservation

variable {hw : Hardware} {s s' : Hv} {vm : Word}

/-- The frames that count as used by the chainload page are as before. -/
structure ReservedKept (s s' : Hv) : Prop where
  chainload : s'.mmChainloadPage = s.mmChainloadPage
  memory : ∀ f, mmPageUsedByChainload s.mmChainloadPage (frameAddress f) = true →
    SameFrame s.memory s'.memory f

theorem ReservedKept.refl (s : Hv) : ReservedKept s s := ⟨rfl, fun _ _ => SameFrame.refl _ _⟩

theorem ReservedKept.trans {s'' : Hv} (h : ReservedKept s s') (h' : ReservedKept s' s'') :
    ReservedKept s s'' where
  chainload := h'.chainload.trans h.chainload
  memory := fun f hf => (h.memory f hf).trans (h'.memory f (by rwa [h.chainload]))

/-- No page is written. -/
theorem reservedKept_sameMemory (hchainload : s'.mmChainloadPage = s.mmChainloadPage)
    (hmemory : s'.memory = s.memory) : ReservedKept s s' :=
  ⟨hchainload, fun _ _ a _ => congrFun hmemory a⟩

/-- A fresh page that only its taker writes. -/
theorem reservedKept_fresh {page : Word} (hp : FreshPage s page)
    (hchainload : s'.mmChainloadPage = s.mmChainloadPage)
    (hmemory : ∀ f, frameAddress f ≠ page → SameFrame s.memory s'.memory f) : ReservedKept s s' := by
  refine ⟨hchainload, fun f hf => hmemory f ?_⟩
  rintro rfl
  exact absurd (hf.symm.trans hp.unowned) (by decide)

/-- Only memory of a listed machine is written. -/
theorem reservedKept_guestMemory (h : HostOk s) (hvm : vm ∈ s.vmManagerVmList)
    (hchainload : s'.mmChainloadPage = s.mmChainloadPage)
    (hmemory : ∀ a, ¬InGuestMemory s vm a → s'.memory a = s.memory a) : ReservedKept s s' := by
  refine ⟨hchainload, fun f hf a ha => hmemory a ?_⟩
  rintro ⟨g, hg, hag⟩
  obtain rfl : g = f := InFrame.eq hag ha
  have hheld : frameAddress g ∈ heldPages s :=
    List.mem_append_right _ (mem_vmPages.mpr ⟨vm, hvm, MachineOk.mem_machinePages hg⟩)
  exact absurd (hf.symm.trans (h.unowned _ hheld)) (by decide)

/-! ## Operations -/

theorem getVmxonRegion_reserved (h : HostOk s) :
    Ensures vmxGetVmxonRegion s (fun _ s' => ReservedKept s s') (fun _ _ => True) := by
  simp only [vmxGetVmxonRegion, ensures_bind, ensures_get, ensures_ite, ensures_pure,
    ensures_modify, v2p_p2v]
  refine ⟨fun _ => ReservedKept.refl s, fun _ => ?_⟩
  refine (hostGetFreePage_spec h).mono ?_ fun _ _ _ => trivial
  rintro page _ ⟨pos, hpos, rfl, hp⟩
  change ReservedKept s (vmxonTaken s page pos)
  exact reservedKept_fresh hp rfl fun f hf => sameFrame_writeDword_page hp.ok hf

theorem getMsrBitmapsPage_reserved (h : HostOk s) :
    Ensures vmxGetMsrBitmapsPage s (fun _ s' => ReservedKept s s') (fun _ _ => True) := by
  refine (vmxGetMsrBitmapsPage_state h).mono ?_ fun _ _ _ => trivial
  rintro _ s' (⟨_, rfl⟩ | ⟨hvalid, page, pos, hp, hpos, rfl⟩)
  · exact ReservedKept.refl s'
  · have hstep := specialStep_msrBitmapsTaken hvalid hp hpos
    exact reservedKept_fresh hp hstep.chainload hstep.memory

theorem arenaCreate_reserved (h : HostOk s) :
    Ensures arenaCreate s (fun _ s' => ReservedKept s s') (fun _ _ => True) := by
  simp only [arenaCreate, ensures_bind, ensures_modify, ensures_pure]
  refine (hostGetFreePage_spec h).mono ?_ fun _ _ _ => trivial
  rintro page _ ⟨pos, hpos, rfl, hp⟩
  exact reservedKept_sameMemory rfl rfl

theorem arenaAllocate_reserved {arena : Option Word} {size : Word} :
    Ensures (arenaAllocate arena size) s (fun _ s' => ReservedKept s s') (fun _ _ => True) := by
  rw [ensures_arenaAllocate]
  split
  · exact trivial
  · exact ⟨fun _ => trivial, fun _ => reservedKept_sameMemory rfl rfl⟩

theorem createVmxMachine_reserved (h : HostOk s) (name : String) :
    Ensures (vmManagerCreateVmxMachine name) s (fun _ s' => ReservedKept s s') (fun _ _ => True) := by
  simp only [vmManagerCreateVmxMachine, ensures_bind, ensures_get, ensures_ite, ensures_modify,
    ensures_pure]
  constructor
  · intro _
    refine (arenaCreate_reserved h).mono (fun a s₁ hfirst => ?_) fun _ _ _ => trivial
    rw [ensures_arenaAllocate]
    exact ⟨fun _ => trivial, fun _ => ⟨hfirst.chainload, hfirst.memory⟩⟩
  · intro _
    rw [ensures_arenaAllocate]
    split
    · exact trivial
    · exact ⟨fun _ => trivial, fun _ => reservedKept_sameMemory rfl rfl⟩

/-- Pages that a machine tracks are not reserved. -/
theorem allocate_reserved (h : HostOk s) (hvm : vm ∈ s.vmManagerVmList) (n : Word) :
    Ensures (vmManagerAllocateGuestPhysicalMemory vm n) s (fun _ s' => ReservedKept s s')
      (fun _ _ => True) := by
  refine ((allocate_host h hvm n).and
    (vmManagerAllocateGuestPhysicalMemory_spec (h.machines vm hvm) n)).mono ?_ fun _ _ _ => trivial
  rintro _ s' ⟨⟨hdone, _⟩, hzero, halloc⟩
  obtain ⟨taken, hgrown⟩ := halloc.grown
  have hchainload : s'.mmChainloadPage = s.mmChainloadPage := hgrown.frame.field Hv.mmChainloadPage
  refine ⟨hchainload, fun f hf => hgrown.memory f fun hmem => ?_⟩
  rw [List.nil_append] at hmem
  have hheld : frameAddress f ∈ heldPages s' :=
    List.mem_append_right _ (mem_vmPages.mpr ⟨vm, hdone.vmList ▸ hvm, hmem⟩)
  have hunowned := hdone.ok.unowned _ hheld
  rw [hchainload] at hunowned
  exact absurd (hf.symm.trans hunowned) (by decide)

theorem createInitializedVmcs_reserved (h : HostOk s) :
    Ensures (vmxCreateInitializedVmcs hw vm) s (fun _ s' => ReservedKept s s') (fun _ _ => True) := by
  simp only [vmxCreateInitializedVmcs, vmxGetFreeVmcsRegion, vmxVmclear, vmxVmptrld, ensures_bind,
    ensures_get, ensures_ite, ensures_panicWith, ensures_modify, ensures_modifyVm, ensures_pure,
    ensures_vmxAssert, ensures_rdmsr, v2p_p2v]
  refine ⟨fun _ => trivial, fun hflag => ?_⟩
  rw [not_not] at hflag
  refine (hostGetFreePage_spec h).mono ?_ fun _ _ _ => trivial
  rintro page _ ⟨pos, hpos, rfl, hp⟩
  refine ⟨fun _ => ⟨fun _ => ⟨fun _ => ?_, fun hf => absurd hf (by decide)⟩,
    fun _ => ⟨fun hf => absurd hf (by decide), fun _ => trivial⟩⟩, fun _ => trivial⟩
  change Ensures vmxGetMsrBitmapsPage (vmcsLoaded s vm page pos { s.cpu with vmcsPointer := page }) _ _
  have hstep := @specialStep_vmcsLoaded _ _ _ _ { s.cpu with vmcsPointer := page } hp hpos hflag
  have hloaded := reservedKept_fresh hp hstep.chainload hstep.memory
  refine (getMsrBitmapsPage_reserved (untouched_special h hp hstep).ok).mono (fun bitmaps t hbitmaps => ?_)
    fun _ _ _ => trivial
  refine (writeVmcsFields_spec hw _ t).mono ?_ fun _ _ _ => trivial
  rintro _ _ ⟨cpu, rfl⟩
  have hall := hloaded.trans hbitmaps
  exact ⟨hall.chainload, hall.memory⟩

/-- No operation writes a reserved frame. -/
theorem hostOp_reserved (h : HostOk s) {op : HostOp} (hop : BuildsGuests s op) :
    Ensures (hostOp hw op) s (fun _ s' => ReservedKept s s') (fun _ _ => True) := by
  cases op with
  | getVmxonRegion =>
    rw [hostOp, ensures_bind]
    exact getVmxonRegion_reserved h
  | getMsrBitmapsPage =>
    rw [hostOp, ensures_bind]
    exact getMsrBitmapsPage_reserved h
  | arenaCreate =>
    rw [hostOp, ensures_bind]
    exact arenaCreate_reserved h
  | createVmxMachine name =>
    rw [hostOp, ensures_bind]
    exact createVmxMachine_reserved h name
  | allocateGuestPhysicalMemory vm n => exact allocate_reserved h hop.1 n
  | createInitializedVmcs vm => exact createInitializedVmcs_reserved h
  | eptMapPage _ _ _ => exact hop.elim

/-! ## Devices -/

theorem vmdGetDeviceArena_reserved (h : HostOk s) :
    Ensures vmdGetDeviceArena s (fun _ s' => ReservedKept s s') (fun _ _ => True) := by
  simp only [vmdGetDeviceArena, ensures_bind, ensures_get, ensures_ite, ensures_pure, ensures_modify]
  refine ⟨fun _ => ?_, fun _ => ReservedKept.refl s⟩
  refine (arenaCreate_reserved h).mono (fun a t hkept => ?_) fun _ _ _ => trivial
  exact ⟨hkept.chainload, hkept.memory⟩

theorem createUart_reserved {portBase : BitVec 16} {portName : String} {d : ℕ} (hok : GuestsOk s)
    (h : vmd8250UartCreate portBase portName s = .ok d s') : ReservedKept s s' := by
  rw [vmd8250UartCreate, bind_eq_ok] at h
  obtain ⟨arena, s₁, harena, h⟩ := h
  rw [bind_eq_ok] at h
  obtain ⟨_, s₂, hdevice, h⟩ := h
  rw [bind_eq_ok] at h
  obtain ⟨arena', s₃, harena', h⟩ := h
  rw [bind_eq_ok] at h
  obtain ⟨_, s₄, huart, h⟩ := h
  have hlast : ReservedKept s₄ s' := by
    cases h
    exact reservedKept_sameMemory rfl rfl
  have hok₁ := (vmdGetDeviceArena_builds harena hok).1
  have hok₂ := (arenaAllocate_builds (by decide) hdevice hok₁).1
  have hfirst := (vmdGetDeviceArena_reserved hok.host).of_ok harena
  have hsecond : ReservedKept s₁ s₂ := arenaAllocate_reserved.of_ok hdevice
  have hthird := (vmdGetDeviceArena_reserved hok₂.host).of_ok harena'
  have hfourth : ReservedKept s₃ s₄ := arenaAllocate_reserved.of_ok huart
  exact hfirst.trans (hsecond.trans (hthird.trans (hfourth.trans hlast)))

theorem register_reserved {d : ℕ} (h : vmManagerRegisterDevice vm d s = .ok () s') :
    ReservedKept s s' := by
  have hspec : Ensures (vmManagerRegisterDevice vm d) s (fun _ s' => ReservedKept s s')
      (fun _ _ => True) := by
    simp only [vmManagerRegisterDevice, ensures_bind, ensures_get]
    split
    · exact trivial
    · simp only [ensures_ite, ensures_panicWith, ensures_modify, implies_true, true_and]
      exact fun _ => reservedKept_sameMemory rfl rfl
  exact hspec.of_ok h

theorem SetUp.reserved (hok : GuestsOk s) (hvm : vm ∈ s.vmManagerVmList) (h : SetUp s s' vm) :
    ReservedKept s s' :=
  reservedKept_guestMemory hok.host hvm h.only.structural.chainload h.only.memory

/-! ## Runs -/

/-- Building machines writes no reserved frame. -/
theorem BuildRun.reserved {s₀ : Hv} (hrun : BuildRun hw s₀ s) (hok : GuestsOk s₀) :
    ReservedKept s₀ s := by
  induction hrun with
  | start => exact ReservedKept.refl _
  | op hrun hadmitted hcall ih =>
    exact ih.trans ((hostOp_reserved (hrun.builds hok).1.host hadmitted).of_ok hcall)
  | setUp hrun hvm hset ih => exact ih.trans (SetUp.reserved (hrun.builds hok).1 hvm hset)
  | createUart hrun hcall ih => exact ih.trans (createUart_reserved (hrun.builds hok).1 hcall)
  | register _ _ hcall ih => exact ih.trans (register_reserved hcall)

/-- Neither does a launch. -/
theorem Launched.reserved {vmlaunchSucceeds : Cpu → Bool} {boot s₀ : Hv} (hok : GuestsOk boot)
    (h : Launched hw vmlaunchSucceeds boot vm s₀ s) : ReservedKept boot s := by
  obtain ⟨s₁, s₂, ⟨gpr, xcr0⟩, hcreate, hmore, hlaunch⟩ := h.launch
  have hok₀ := (h.built.builds hok).1
  have hcreated : ReservedKept s₀ s₁ := (createInitializedVmcs_reserved hok₀.host).of_ok hcreate
  have hok₁ : GuestsOk s₁ :=
    (@hostOp_builds hw s₀ s₁ (.createInitializedVmcs vm) h.listed hcreate hok₀).1
  have hlast : ReservedKept s₂ s := by
    rw [(vmManagerLaunch_returned hlaunch).1]
    exact reservedKept_sameMemory rfl rfl
  exact (BuildRun.reserved h.built hok).trans
    (hcreated.trans ((BuildRun.reserved hmore hok₁).trans hlast))

/-- Nor anything that the machine does afterwards. -/
theorem SealedSince.reserved (h : Running s vm) (hsealed : SealedSince s s' vm) : ReservedKept s s' :=
  reservedKept_guestMemory h.guests.host h.listed (hsealed.confined.field Hv.mmChainloadPage)
    hsealed.confined.memory

/-- States of the hypervisor: it builds machines, or a machine that it launched
runs. -/
inductive Lives (hw : Hardware) (vmlaunchSucceeds : Cpu → Bool) (p : Processor) (boot : Hv) :
    Hv → Prop where
  | building {s : Hv} (hrun : BuildRun hw boot s) : Lives hw vmlaunchSucceeds p boot s
  | running {s₀ s s' : Hv} {vm : Word} (hlaunched : Launched hw vmlaunchSucceeds boot vm s₀ s)
      (hrun : MachineRun hw p s s') : Lives hw vmlaunchSucceeds p boot s'

/-- In all of them the guests are in order and the reserved frames as at boot. -/
theorem Lives.reserved {vmlaunchSucceeds : Cpu → Bool} {p : Processor} {c : ChainloadPage}
    {memory : Memory} {cpu : Cpu} (hmap : PhysicalMap c.efiMmapUsable)
    (hsupported : SupportsConfinement cpu)
    (h : Lives hw vmlaunchSucceeds p (bootState c memory cpu) s) :
    GuestsOk s ∧ ReservedKept (bootState c memory cpu) s := by
  have hboot := guestsOk_boot hmap memory cpu
  cases h with
  | building hrun => exact ⟨(hrun.builds hboot).1, BuildRun.reserved hrun hboot⟩
  | running hlaunched hrun =>
    obtain ⟨hrunning, _, _⟩ := Launched.running hmap hsupported hlaunched
    obtain ⟨hrunning', hsealed⟩ := hrun.sealed hrunning
    exact ⟨hrunning'.guests, (Launched.reserved hboot hlaunched).trans
      (SealedSince.reserved hrunning hsealed)⟩

/-! ## The image -/

section Image

variable {firmware : Firmware} {rounds : ℕ} {page : Word} {addresses : List Word}
  {entry last : ChainloadAttachment} {root f : Frame} {b : Boot} {memory : Memory} {pointer : Word}

/-- Each byte of a range of pages lies in a frame of the range. -/
theorem exists_frame_between {address : Word} {n j : ℕ} (halign : address.toNat % 4096 = 0)
    (hlimit : address.toNat + n ≤ 2 ^ 52) (hj : j < n) :
    ∃ f, InFrame f (address + BitVec.ofNat 64 j) ∧ address.toNat ≤ (frameAddress f).toNat ∧
      (frameAddress f).toNat < address.toNat + n := by
  have hsum : (address + BitVec.ofNat 64 j).toNat = address.toNat + j := by
    rw [BitVec.toNat_add, BitVec.toNat_ofNat]
    omega
  have hin : InFrame (frameOf (address + BitVec.ofNat 64 j)) (address + BitVec.ofNat 64 j) :=
    inFrame_frameOf (by omega)
  have hframe := frameAddress_aligned (frameOf (address + BitVec.ofNat 64 j))
  refine ⟨_, hin, ?_⟩
  rw [inFrame_iff, hsum] at hin
  rw [toNat_frameAddress] at hframe ⊢
  omega

/-- The memory that `chainload` leaves to the hypervisor: its store to the PML4 takes
the window at address zero away. Its other store is to the stack, which like the
hypervisor's variables is no part of this memory. -/
def chainloadMemory (m : Memory) (root : Frame) : Memory := writeQword m (frameAddress root) 0

/-- The store is to slot 0. -/
theorem chainloadMemory_eq (m : Memory) (root : Frame) :
    chainloadMemory m root = writeQword m (slotAddress root 0) 0 := by
  have hslot := frameAddress_add_slot root 0
  have hzero : (0 : Slot).setWidth 64 * 8 = (0 : Word) := by decide
  have hadd : frameAddress root + 0 = frameAddress root := BitVec.add_zero _
  rw [hzero, hadd] at hslot
  rw [chainloadMemory, hslot]

/-- Other frames keep their bytes. -/
theorem sameFrame_chainloadMemory {m : Memory} (h : f ≠ root) :
    SameFrame m (chainloadMemory m root) f := by
  rw [chainloadMemory_eq]
  exact sameFrame_writeSlot h

theorem slotWord_chainloadMemory (m : Memory) (root : Frame) (i : Slot) :
    slotWord (chainloadMemory m root) root i = if i = 0 then 0 else slotWord m root i := by
  rw [chainloadMemory_eq, slotWord_writeSlot]
  by_cases hi : i = 0
  · rw [if_pos ⟨rfl, hi⟩, if_pos hi]
  · rw [if_neg fun hboth => hi hboth.2, if_neg hi]

variable (hpages : FirmwarePages firmware.toBootServices)
  (h : HandedOver firmware rounds page addresses entry last root b) {m : Memory}
  (himage : ∀ f, ImageFrame b root f → SameFrame (chainloadMemory b.loader.memory root) m f)

include h

omit himage in
/-- Walks depend on the tables only. -/
theorem bootWalk_image (htables : ∀ va f, VisitsTable b.loader.memory root va f →
      SameFrame (chainloadMemory b.loader.memory root) m f) (va : Word) :
    bootWalk m root va =
      if slotOf 4 va = 0 then .error .notPresent else bootWalk b.loader.memory root va := by
  have hroot : ∀ i, slotWord m root i = if i = 0 then 0 else slotWord b.loader.memory root i :=
    fun i => ((htables va root ⟨4, List.mem_cons_self⟩).slotWord i).trans
      (slotWord_chainloadMemory _ _ i)
  obtain ⟨n, hlast⟩ := h.tablesLast
  by_cases hslot : slotOf 4 va = 0
  · have hread := hostRead_entryAt m 4 root va
    rw [hroot, if_pos hslot] at hread
    rw [if_pos hslot]
    exact walkRights_absent hread rfl
  · rw [if_neg hslot]
    refine bootWalk_congr ((hroot _).trans (if_neg hslot)) fun f hf => ?_
    refine (sameFrame_chainloadMemory (hlast.below va f hf)).trans (htables va f ?_)
    obtain ⟨level, hvisit⟩ := hf
    exact ⟨level, List.mem_of_mem_tail hvisit⟩

omit h
include himage

/-- Frames of the image but the PML4 hold what was loaded. -/
theorem sameFrame_image (hf : ImageFrame b root f) (hne : f ≠ root) :
    SameFrame b.loader.memory m f :=
  (sameFrame_chainloadMemory hne).trans (himage f hf)

include h

include hpages

/-- Sections hold the bytes that were loaded. -/
theorem section_image {q : BootSection × ChainloadRegion}
    (hq : q ∈ bootSections.zip b.page.rkhvSections.toList) {j : ℕ}
    (hj : j < q.1.sizeInPages.toNat * 4096) :
    m (q.2.physicalAddress + BitVec.ofNat 64 j) = sectionByte firmware q.1 j := by
  obtain ⟨_, hplaced⟩ := HandedOver.section_entry h hq
  obtain ⟨_, hat⟩ := List.forall₂_iff_zip.mp h.sections
  obtain ⟨n, hlast⟩ := h.tablesLast
  obtain ⟨k, hk, hgiven⟩ := hlast.sections _ hplaced
  obtain ⟨halign, hlimit⟩ := hpages.page _ _ _ hgiven
  obtain ⟨f, hin, hle, hlt⟩ := exists_frame_between halign hlimit hj
  have hne : f ≠ root := by
    rintro rfl
    have hsame := hpages.disjoint k n f ⟨_, _, hgiven, hle, hlt⟩ hlast.given
    omega
  rw [sameFrame_image himage (.sectionPage q hq hle hlt) hne _ hin]
  exact (hat hplaced).bytes j hj

/-- So does the kernel. -/
theorem attachment_image {size : Word}
    (hget : mmGetAttachment b.page chainloadAttachmentLinuxBzimage = (pointer, size)) {j : ℕ}
    (hj : j < size.toNat) :
    m (v2pIdentityMap pointer + BitVec.ofNat 64 j) =
      b.loader.memory (v2pIdentityMap pointer + BitVec.ofNat 64 j) := by
  obtain ⟨n, hlast⟩ := h.tablesLast
  have hgiven : ∃ k < n, ∃ pages, Given firmware.toBootServices k pages (v2pIdentityMap pointer) ∧
      size.toNat ≤ pages.toNat * 4096 := by
    have hsame := hget
    rw [HandedOver.mmGetAttachment_eq h] at hsame
    split at hsame
    · obtain ⟨_, rfl⟩ := Prod.mk.inj hsame
      exact absurd hj (Nat.not_lt_zero j)
    · rename_i hsize
      obtain ⟨rfl, rfl⟩ := Prod.mk.inj hsame
      have hwide : (entry.size.setWidth 64).toNat = entry.size.toNat := by
        have hlt := entry.size.isLt
        rw [BitVec.toNat_setWidth]
        omega
      rw [v2p_p2v, hwide]
      exact hlast.attachment hsize
  obtain ⟨k, hk, pages, hgiven, hsize⟩ := hgiven
  obtain ⟨halign, hlimit⟩ := hpages.page _ _ _ hgiven
  obtain ⟨f, hin, hle, hlt⟩ := exists_frame_between halign ((Nat.add_le_add_left hsize _).trans hlimit) hj
  have hne : f ≠ root := by
    rintro rfl
    have hsame := hpages.disjoint k n f ⟨_, _, hgiven, hle, by omega⟩ hlast.given
    omega
  exact sameFrame_image himage (.attachment pointer size hget hle hlt) hne _ hin

end Image

end Rkhv.BootConfinement
