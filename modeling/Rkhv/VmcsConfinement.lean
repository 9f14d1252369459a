import Rkhv.GuestIsolation
import Rkhv.VmcsFields

/-!
# A VMCS that confines its machine

A VMCS confines a machine when extended paging starts at the machine's own
tables and the MSR bitmaps are those of the hypervisor. The creation of a VMCS
for a machine with a guest memory makes it so, on a processor that has the asked
controls, and no later operation on any machine undoes it.
-/

namespace Rkhv.VmcsConfinement

open ByteMemory WordFields HostTypes HostState StateOutcome FreePages FreePageSearch FreePageContract
  PageTracker PageTrackerRuns Arenas RadixWalk EptWalk VmxPages VmxInstructions Vmcs VmManager VmxMsr
  MachinePages MachineSteps GuestMemory HostPages HostSteps HostOperations HostRuns GuestIsolation
  VmcsFields

variable {hw : Hardware} {s s' : Hv} {vm : Word}

/-! ## Confining fields -/

/-- `VMCS_CF_PRIMARY_PROCESSOR_BASED_VM_EXECUTION_CONTROLS` -/
def vmcsCfPrimaryControls : Word := 0x4002

/-- `VMCS_CF_SECONDARY_PROCESSOR_BASED_VM_EXECUTION_CONTROLS` -/
def vmcsCfSecondaryControls : Word := 0x401e

/-- `VMCS_CF_ADDRESS_OF_MSR_BITMAPS` -/
def vmcsCfAddressOfMsrBitmaps : Word := 0x2004

/-- `VMCS_CF_EPT_POINTER` -/
def vmcsCfEptPointer : Word := 0x201a

/-- `VMCS_CF_PPBVMEC_USE_MSR_BITMAPS` is set in the fields of a VMCS. -/
def usesMsrBitmaps (fields : Word → Word) : Bool := (fields vmcsCfPrimaryControls).getLsbD 28

/-- `VMCS_CF_PPBVMEC_ACTIVATE_SECONDARY_CONTROLS` and `VMCS_CF_SPBVMEC_ENABLE_EPT`
are set. -/
def usesEpt (fields : Word → Word) : Bool :=
  (fields vmcsCfPrimaryControls).getLsbD 31 && (fields vmcsCfSecondaryControls).getLsbD 1

/-- The capability registers allow extended page tables and MSR bitmaps. -/
def SupportsConfinement (cpu : Cpu) : Prop :=
  (cpu.msr 0x482).getLsbD (32 + 28) = true ∧ (cpu.msr 0x482).getLsbD (32 + 31) = true ∧
    (cpu.msr 0x48b).getLsbD (32 + 1) = true

instance (cpu : Cpu) : Decidable (SupportsConfinement cpu) := inferInstanceAs (Decidable (_ ∧ _ ∧ _))

/-- The VMCS of a machine confines it to its tables and to the listed MSRs. -/
structure VmcsConfines (s : Hv) (vm : Word) : Prop where
  registered : (s.vmAt vm).flags &&& vmTFlagVmcsInitialized ≠ 0
  sized : (s.vmAt vm).guestPhysicalPages ≠ 0
  hasEpt : hasEpt (s.vmAt vm)
  bitmapsValid : s.msrBitmapsPageValid = true
  ept : usesEpt (s.cpu.vmcs (s.vmAt vm).vmcsRegion) = true
  eptPointer : frameOf (s.cpu.vmcs (s.vmAt vm).vmcsRegion vmcsCfEptPointer) =
    frameOf (s.vmAt vm).vmcsConfig.eptp
  msrBitmaps : usesMsrBitmaps (s.cpu.vmcs (s.vmAt vm).vmcsRegion) = true
  bitmapsPage : s.cpu.vmcs (s.vmAt vm).vmcsRegion vmcsCfAddressOfMsrBitmaps = s.msrBitmapsPage
  apart : s.msrBitmapsPage ≠ (s.vmAt vm).vmcsRegion

/-- Flags in the low bits leave the frame of the root in place. -/
theorem frameOf_eptPointer (eptp : Word) :
    frameOf ((eptp &&& vmcsCfEptpPhysicalAddressPml4) ||| vmcsCfEptpPageWalkLength4 |||
      vmcsCfEptpWriteBack) = frameOf eptp := by
  have hmask : vmcsCfEptpPhysicalAddressPml4.extractLsb' 12 40 = BitVec.allOnes 40 := by decide
  have hlength : vmcsCfEptpPageWalkLength4.extractLsb' 12 40 = 0 := by decide
  have htype : vmcsCfEptpWriteBack.extractLsb' 12 40 = 0 := by decide
  rw [frameOf, BitVec.extractLsb'_or, BitVec.extractLsb'_or, BitVec.extractLsb'_and, hmask, hlength,
    htype, BitVec.and_allOnes]
  simp only [BitVec.ofNat_eq_ofNat, BitVec.or_zero]
  rfl

/-- An asked control that is allowed is set. -/
theorem getLsbD_writtenValue {msr : BitVec 32 → Word} {entry : VmcsField} {i : ℕ} (hi : i < 32)
    (hmsr : entry.allowedMsr ≠ 0) (hasked : entry.value.getLsbD i = true)
    (hallowed : (msr (entry.allowedMsr.setWidth 32)).getLsbD (32 + i) = true) :
    (writtenValue msr entry).getLsbD i = true := by
  have hwide : i < 64 := by omega
  rw [writtenValue, if_pos hmsr, BitVec.getLsbD_setWidth, getLsbD_vmxEnsureAllowedBits _ _ hi,
    BitVec.getLsbD_setWidth, hasked, hallowed]
  simp only [hi, hwide, decide_true, Bool.and_self, Bool.true_or]

/-- A new VMCS of a machine with a guest memory confines it, if the bitmaps were in
place before. -/
theorem VmcsCreated.confines (h : VmcsCreated hw s s' vm) (hplace : s.msrBitmapsPageValid = true)
    (hsized : (s.vmAt vm).guestPhysicalPages ≠ 0) (hept : MachinePages.hasEpt (s.vmAt vm))
    (hsupported : SupportsConfinement s.cpu) : VmcsConfines s' vm := by
  have hrecord : s'.vmAt vm = { s.vmAt vm with
      vmcsRegion := s'.cpu.vmcsPointer
      flags := (s.vmAt vm).flags ||| vmTFlagVmcsInitialized } := by
    rw [h.vmAt, Function.update_self]
  have hregion : (s'.vmAt vm).vmcsRegion = s'.cpu.vmcsPointer := by rw [hrecord]
  have hfield : ∀ entry, entry ∈ defaultVmcsFields hw (s.vmAt vm).vmcsConfig s'.msrBitmapsPage
      (s.cpu.msr ia32Efer) → s'.cpu.vmcs (s'.vmAt vm).vmcsRegion entry.fieldEncoding =
        writtenValue s.cpu.msr entry := fun entry hmem => by
    rw [hregion]
    exact h.fields entry hmem
  have hprimary := hfield ⟨vmcsCfPrimaryControls, primaryControls, 0x482⟩
    (by simp only [defaultVmcsFields, vmcsCfPrimaryControls, List.mem_cons, true_or])
  have hsecondary := hfield ⟨vmcsCfSecondaryControls, secondaryControls, 0x48b⟩
    (by simp only [defaultVmcsFields, vmcsCfSecondaryControls, List.mem_cons, true_or, or_true])
  have hpointer := hfield ⟨vmcsCfEptPointer, ((s.vmAt vm).vmcsConfig.eptp &&&
    vmcsCfEptpPhysicalAddressPml4) ||| vmcsCfEptpPageWalkLength4 ||| vmcsCfEptpWriteBack, 0⟩
    (by simp only [defaultVmcsFields, vmcsCfEptPointer, List.mem_cons, true_or, or_true])
  have hbitmaps := hfield ⟨vmcsCfAddressOfMsrBitmaps, s'.msrBitmapsPage, 0⟩
    (by simp only [defaultVmcsFields, vmcsCfAddressOfMsrBitmaps, List.mem_cons, true_or, or_true])
  obtain ⟨hallowed28, hallowed31, hallowed1⟩ := hsupported
  have hprimaryBit : ∀ i < 32, primaryControls.getLsbD i = true →
      (s.cpu.msr 0x482).getLsbD (32 + i) = true →
      (s'.cpu.vmcs (s'.vmAt vm).vmcsRegion vmcsCfPrimaryControls).getLsbD i = true := by
    intro i hi hasked hallowed
    rw [hprimary]
    exact getLsbD_writtenValue hi (by decide) hasked hallowed
  have hsecondaryBit : (s'.cpu.vmcs (s'.vmAt vm).vmcsRegion vmcsCfSecondaryControls).getLsbD 1 =
      true := by
    rw [hsecondary]
    exact getLsbD_writtenValue (by decide) (by decide) (by decide) hallowed1
  have hsame : s'.msrBitmapsPage = s.msrBitmapsPage := by
    rcases h.bitmaps with ⟨_, hpage⟩ | ⟨hnone, _⟩
    · exact hpage
    · exact absurd (hplace.symm.trans hnone) (by decide)
  have hheld : s.msrBitmapsPage ∈ heldPages s := by
    rw [heldPages, specialPages, vmxPages, hplace]
    simp only [List.mem_append, if_true, List.mem_singleton, true_or, or_true]
  refine ⟨?_, ?_, ?_, h.bitmapsValid, ?_, ?_, ?_, ?_, ?_⟩
  · rw [hrecord]
    exact (flags_registered _).1
  · rw [hrecord]
    exact hsized
  · rw [hrecord, MachinePages.hasEpt, (flags_registered _).2]
    exact hept
  · rw [usesEpt, hprimaryBit 31 (by decide) (by decide) hallowed31, hsecondaryBit]
    rfl
  · rw [hpointer, writtenValue, if_neg (not_not.mpr rfl), frameOf_eptPointer, hrecord]
  · exact hprimaryBit 28 (by decide) (by decide) hallowed28
  · rw [hbitmaps, writtenValue, if_neg (not_not.mpr rfl)]
  · rw [hsame, hregion]
    exact ne_of_mem_of_not_mem hheld h.fresh.unheld

/-! ## Operations of the hypervisor -/

/-- The bitmaps that are in place denote the list. -/
def BitmapsOk (s : Hv) : Prop :=
  s.msrBitmapsPageValid = true → PageOk s.msrBitmapsPage ∧ BitmapsDenote s.memory s.msrBitmapsPage

/-- Two records of a machine with the same VMCS, tables and size. -/
structure SameShape (v v' : Vm) : Prop where
  flags : v'.flags = v.flags
  vmcsRegion : v'.vmcsRegion = v.vmcsRegion
  eptp : v'.vmcsConfig.eptp = v.vmcsConfig.eptp
  guestPhysicalPages : v'.guestPhysicalPages = v.guestPhysicalPages

theorem SameShape.refl (v : Vm) : SameShape v v := ⟨rfl, rfl, rfl, rfl⟩

theorem SameShape.of_eq {v v' : Vm} (h : v' = v) : SameShape v v' := h ▸ SameShape.refl v

/-- What an operation of the hypervisor leaves alone: the pages that are held
without being tracked, the VMCS in use and the machines that are complete. -/
structure HostKept (s s' : Hv) : Prop where
  bitmapsPage : s.msrBitmapsPageValid = true →
    s'.msrBitmapsPageValid = true ∧ s'.msrBitmapsPage = s.msrBitmapsPage
  newBitmaps : s.msrBitmapsPageValid = false → BitmapsOk s'
  memory : ∀ f, frameAddress f ∈ specialPages s → SameFrame s.memory s'.memory f
  record : ∀ w ∈ s.vmManagerVmList, (s.vmAt w).flags &&& vmTFlagVmcsInitialized ≠ 0 →
    (s.vmAt w).guestPhysicalPages ≠ 0 → SameShape (s.vmAt w) (s'.vmAt w)
  vmcs : ∀ region ∈ vmcsPages s, s'.cpu.vmcs region = s.cpu.vmcs region
  listed : ∀ w ∈ s.vmManagerVmList, w ∈ s'.vmManagerVmList
  msr : s'.cpu.msr = s.cpu.msr

theorem HostKept.refl (s : Hv) : HostKept s s :=
  ⟨fun h => ⟨h, rfl⟩, fun h hvalid => absurd (hvalid.symm.trans h) (by decide),
    fun f _ => SameFrame.refl _ f, fun _ _ _ _ => SameShape.refl _, fun _ _ => rfl, fun _ h => h, rfl⟩

/-- The bitmaps stay in order. -/
theorem BitmapsOk.kept (h : BitmapsOk s) (hkept : HostKept s s') : BitmapsOk s' := by
  cases hvalid : s.msrBitmapsPageValid with
  | false => exact hkept.newBitmaps hvalid
  | true =>
    obtain ⟨hpage, hdenote⟩ := h hvalid
    obtain ⟨_, hsame⟩ := hkept.bitmapsPage hvalid
    intro _
    rw [hsame]
    refine ⟨hpage, bitmapsDenote_of_same hpage (hkept.memory _ ?_) hdenote⟩
    rw [frameAddress_frameOf hpage, specialPages, vmxPages, hvalid]
    simp only [List.mem_append, if_true, List.mem_singleton, true_or, or_true]

/-- A registered region of a listed machine. -/
theorem mem_vmcsPages (hvm : vm ∈ s.vmManagerVmList)
    (h : (s.vmAt vm).flags &&& vmTFlagVmcsInitialized ≠ 0) :
    (s.vmAt vm).vmcsRegion ∈ vmcsPages s := by
  rw [vmcsPages]
  exact List.mem_map.mpr ⟨vm, List.mem_filter.mpr ⟨hvm, bne_iff_ne.mpr h⟩, rfl⟩

/-- A confining VMCS goes on to confine its machine. -/
theorem VmcsConfines.kept (h : VmcsConfines s vm) (hvm : vm ∈ s.vmManagerVmList)
    (hkept : HostKept s s') : VmcsConfines s' vm := by
  have hrecord := hkept.record vm hvm h.registered h.sized
  have hvmcs := hkept.vmcs _ (mem_vmcsPages hvm h.registered)
  obtain ⟨hvalid, hpage⟩ := hkept.bitmapsPage h.bitmapsValid
  refine ⟨?_, ?_, ?_, hvalid, ?_, ?_, ?_, ?_, ?_⟩
  · rw [hrecord.flags]
    exact h.registered
  · rw [hrecord.guestPhysicalPages]
    exact h.sized
  · rw [MachinePages.hasEpt, hrecord.flags]
    exact h.hasEpt
  · rw [hrecord.vmcsRegion, hvmcs]
    exact h.ept
  · rw [hrecord.vmcsRegion, hvmcs, hrecord.eptp]
    exact h.eptPointer
  · rw [hrecord.vmcsRegion, hvmcs]
    exact h.msrBitmaps
  · rw [hrecord.vmcsRegion, hvmcs, hpage]
    exact h.bitmapsPage
  · rw [hrecord.vmcsRegion, hpage]
    exact h.apart

/-- A fresh page that only its taker writes. -/
theorem hostKept_special {page : Word} (hp : FreshPage s page)
    (hmemory : ∀ f, frameAddress f ≠ page → SameFrame s.memory s'.memory f)
    (hvmList : s'.vmManagerVmList = s.vmManagerVmList) (hvmAt : s'.vmAt = s.vmAt)
    (hcpu : s'.cpu = s.cpu) (hbitmaps : s'.msrBitmapsPageValid = s.msrBitmapsPageValid)
    (hpage : s'.msrBitmapsPage = s.msrBitmapsPage) : HostKept s s' where
  bitmapsPage := fun h => ⟨hbitmaps.trans h, hpage⟩
  newBitmaps := fun h hvalid => absurd (hvalid.symm.trans (hbitmaps.trans h)) (by decide)
  memory := fun f hf => hmemory f (ne_of_mem_of_not_mem (List.mem_append_left _ hf) hp.unheld)
  record := fun w _ _ _ => SameShape.of_eq (congrFun hvmAt w)
  vmcs := fun _ _ => by rw [hcpu]
  listed := fun _ hw => hvmList ▸ hw
  msr := congrArg Cpu.msr hcpu

theorem getVmxonRegion_kept (h : HostOk s) :
    Ensures vmxGetVmxonRegion s (fun _ s' => HostKept s s') (fun _ _ => True) := by
  simp only [vmxGetVmxonRegion, ensures_bind, ensures_get, ensures_ite, ensures_pure,
    ensures_modify, v2p_p2v]
  refine ⟨fun _ => HostKept.refl s, fun _ => ?_⟩
  refine (hostGetFreePage_spec h).mono ?_ fun _ _ _ => trivial
  rintro page _ ⟨pos, hpos, rfl, hp⟩
  change HostKept s (vmxonTaken s page pos)
  exact hostKept_special hp (fun f hf => sameFrame_writeDword_page hp.ok hf) rfl rfl rfl rfl rfl

theorem getMsrBitmapsPage_kept (h : HostOk s) :
    Ensures vmxGetMsrBitmapsPage s (fun _ s' => HostKept s s') (fun _ _ => True) := by
  refine (vmxGetMsrBitmapsPage_state h).mono ?_ fun _ _ _ => trivial
  rintro _ s' (⟨_, rfl⟩ | ⟨hvalid, page, pos, hp, hpos, rfl⟩)
  · exact HostKept.refl s'
  · have hstep := specialStep_msrBitmapsTaken hvalid hp hpos
    exact ⟨fun h => absurd (h.symm.trans hvalid) (by decide),
      fun _ _ => ⟨hp.ok, bitmapsDenote_init s.memory page⟩,
      fun f hf => hstep.memory f (ne_of_mem_of_not_mem (List.mem_append_left _ hf) hp.unheld),
      fun _ _ _ _ => SameShape.refl _, fun _ _ => rfl, fun _ hw => hw, rfl⟩

theorem arenaCreate_kept (h : HostOk s) :
    Ensures arenaCreate s (fun _ s' => HostKept s s') (fun _ _ => True) := by
  simp only [arenaCreate, ensures_bind, ensures_modify, ensures_pure]
  refine (hostGetFreePage_spec h).mono ?_ fun _ _ _ => trivial
  rintro page _ ⟨pos, hpos, rfl, hp⟩
  exact hostKept_special hp (fun f _ => SameFrame.refl _ f) rfl rfl rfl rfl rfl

/-- A new record is none of a complete machine. -/
theorem HostKept.created {t : Hv} {a : Word} {name : String} (h : HostKept s t)
    (hready : ArenaReady s t a) : HostKept s (vmCreated t a name) := by
  refine ⟨h.bitmapsPage, h.newBitmaps, h.memory, fun w hw hset hsized => ?_, h.vmcs,
    fun w hw => List.mem_cons_of_mem _ (h.listed w hw), h.msr⟩
  rw [vmCreated_other hready.ok hready.arena (h.listed w hw)]
  exact h.record w hw hset hsized

theorem createVmxMachine_kept (h : HostOk s) (name : String) :
    Ensures (vmManagerCreateVmxMachine name) s (fun _ s' => HostKept s s') (fun _ _ => True) := by
  simp only [vmManagerCreateVmxMachine, ensures_bind, ensures_get, ensures_ite, ensures_modify,
    ensures_pure]
  constructor
  · intro hnone
    have hboth := (arenaCreate_spec h).and (arenaCreate_kept h)
    refine hboth.mono (fun a s₁ hdone => ?_) fun _ _ _ => trivial
    have hcreated := hdone.1
    have hkept := hdone.2
    have hready := arenaReady_first (hcreated.managerArena.trans hnone) hcreated.untouched
      hcreated.accounted hcreated.listed hcreated.empty
    have hgiven : HostKept s { s₁ with vmManagerArena := some a } := {
      bitmapsPage := hkept.bitmapsPage
      newBitmaps := fun hvalid => hkept.newBitmaps hvalid
      memory := hkept.memory
      record := hkept.record
      vmcs := hkept.vmcs
      listed := hkept.listed
      msr := hkept.msr }
    rw [ensures_arenaAllocate]
    exact ⟨fun _ => trivial, fun _ => hgiven.created hready⟩
  · intro hsome
    rw [ensures_arenaAllocate]
    split
    · exact absurd ‹_› hsome
    · rename_i a ha
      have hready : ArenaReady s s a := ⟨h, ha, rfl, (untouched_refl h).kept, accounted_refl s⟩
      exact ⟨fun _ => trivial, fun _ => (HostKept.refl s).created hready⟩

theorem allocate_kept (h : HostOk s) (hvm : vm ∈ s.vmManagerVmList) (n : Word) :
    Ensures (vmManagerAllocateGuestPhysicalMemory vm n) s (fun _ s' => HostKept s s')
      (fun _ _ => True) := by
  refine ((allocate_host h hvm n).and
    (vmManagerAllocateGuestPhysicalMemory_spec (h.machines vm hvm) n)).mono ?_ fun _ _ _ => trivial
  rintro _ s' ⟨⟨hdone, _⟩, hzero, halloc⟩
  obtain ⟨taken, hgrown⟩ := halloc.grown
  have hspecial := (specialPages_eq hgrown.frame).trans (specialPages_sized s vm n)
  have hvalid : s'.msrBitmapsPageValid = s.msrBitmapsPageValid :=
    hgrown.frame.field Hv.msrBitmapsPageValid
  have hcpu : s'.cpu = s.cpu := hgrown.frame.field Hv.cpu
  refine ⟨fun h => ⟨hvalid.trans h, hgrown.frame.field Hv.msrBitmapsPage⟩,
    fun h hv => absurd (hv.symm.trans (hvalid.trans h)) (by decide), fun f hf => ?_,
    fun w hw _ hsized => ?_, fun _ _ => by rw [hcpu], fun w hw => hdone.vmList ▸ hw,
    congrArg Cpu.msr hcpu⟩
  · refine hgrown.memory f fun hmem => ?_
    rw [List.nil_append] at hmem
    refine hdone.ok.apart _ (hspecial ▸ hf) (mem_vmPages.mpr ⟨vm, hdone.vmList ▸ hvm, hmem⟩)
  · have hne : w ≠ vm := fun he => hsized (he ▸ hzero)
    exact SameShape.of_eq ((hgrown.frame.others w hne).trans (Function.update_of_ne hne _ _))

theorem createInitializedVmcs_kept (h : HostOk s) :
    Ensures (vmxCreateInitializedVmcs hw vm) s (fun _ s' => HostKept s s') (fun _ _ => True) := by
  refine (vmxCreateInitializedVmcs_created h).mono (fun _ s' hc => ?_) fun _ _ _ => trivial
  refine ⟨fun hvalid => ⟨hc.bitmapsValid, ?_⟩, fun hvalid _ => ?_,
    fun f hf => hc.memory f (List.mem_append_left _ hf), fun w _ hset _ => ?_,
    fun region hregion => ?_, fun w hw => ?_, hc.msr⟩
  · rcases hc.bitmaps with ⟨_, hpage⟩ | ⟨hnone, _⟩
    · exact hpage
    · exact absurd (hvalid.symm.trans hnone) (by decide)
  · rcases hc.bitmaps with ⟨hsome, _⟩ | ⟨_, hok⟩
    · exact absurd (hsome.symm.trans hvalid) (by decide)
    · exact hok
  · rw [hc.vmAt]
    refine SameShape.of_eq (Function.update_of_ne (fun he => hset ?_) _ _)
    rw [he]
    exact hc.unset
  · refine hc.others region (ne_of_mem_of_not_mem ?_ hc.fresh.unheld)
    exact List.mem_append_left _ (List.mem_append_right _ hregion)
  · rw [hc.host]
    exact hw

/-- Every operation that builds machines. -/
theorem hostOp_kept (h : HostOk s) {op : HostOp} (hop : BuildsGuests s op) :
    Ensures (hostOp hw op) s (fun _ s' => HostKept s s') (fun _ _ => True) := by
  cases op with
  | getVmxonRegion =>
    rw [hostOp, ensures_bind]
    exact getVmxonRegion_kept h
  | getMsrBitmapsPage =>
    rw [hostOp, ensures_bind]
    exact getMsrBitmapsPage_kept h
  | arenaCreate =>
    rw [hostOp, ensures_bind]
    exact arenaCreate_kept h
  | createVmxMachine name =>
    rw [hostOp, ensures_bind]
    exact createVmxMachine_kept h name
  | allocateGuestPhysicalMemory vm n => exact allocate_kept h hop.1 n
  | eptMapPage _ _ _ => exact absurd hop id
  | createInitializedVmcs vm => exact createInitializedVmcs_kept h

end Rkhv.VmcsConfinement
