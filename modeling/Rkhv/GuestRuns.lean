import Rkhv.MachineBuilding
import Rkhv.NestedWalk

/-!
# Whole runs of a launched machine

A machine is launched and from then on runs its guest and has its exits handled.
The guest does whatever the processor lets it do: it stores where extended paging
leads, writes the registers that the MSR bitmaps let through and changes its own
part of the VMCS. Through all of this, other machines, the tables, the
hypervisor's pages and the confining fields stay as they were at the launch.
-/

namespace Rkhv.GuestRuns

open ByteMemory WordFields HostTypes HostState StateOutcome FreePageContract PageTracker PageTrackerRuns
  Ept EptWalk VmxPages VmxInstructions VmxMsr VmManager Vmcs MachinePages HostPages HostRuns
  GuestIsolation MsrBitmaps ArchitecturalWalk NestedWalk VmxVmexit VmexitFrame ExitMemory VmcsFields
  VmcsConfinement MachineBuilding

variable {hw : Hardware} {p : Processor} {s s' s'' : Hv} {vm : Word}

/-! ## Launch -/

/-- `vm_manager_launch`, for whether `vmlaunch` succeeds on a processor. A guest that
was entered does not return; the results are the registers and the XCR0 that
`vmx_vmlaunch` loads for it. -/
def vmManagerLaunch (hw : Hardware) (vmlaunchSucceeds : Cpu → Bool) (vm : Word) :
    HvM (VmxVmexitRegState × Word) := do
  vmxMsrVmlaunch
  let s ← get
  vmxAssert "vmx_vmptrld(vm->vmcs_region)" (← vmxVmptrld hw (s.vmAt vm).vmcsRegion)
  modify fun s => { s with vmManagerCurrentVm := some vm }
  let s ← get
  vmxAssert "vmx_vmlaunch(&vm->initial_gpr_state, &vm->permanent_state)" (vmlaunchSucceeds s.cpu)
  return ((s.vmAt vm).initialGprState, (s.vmAt vm).xcr0)

/-- A launch backs up the exchanged registers and makes the machine and its VMCS
the current ones. -/
theorem vmManagerLaunch_returned {vmlaunchSucceeds : Cpu → Bool} {gpr : VmxVmexitRegState}
    {xcr0 : Word} (h : vmManagerLaunch hw vmlaunchSucceeds vm s = .ok (gpr, xcr0) s') :
    s' = { s with
      vmxMsrHostBackup := withRwbk (fun entry => s.cpu.msr entry.addr) s.vmxMsrHostBackup
      cpu := { s.cpu with vmcsPointer := (s.vmAt vm).vmcsRegion }
      vmManagerCurrentVm := some vm } ∧
    gpr = (s.vmAt vm).initialGprState ∧ xcr0 = (s.vmAt vm).xcr0 := by
  have hspec : Ensures (vmManagerLaunch hw vmlaunchSucceeds vm) s (fun result s' => s' = { s with
      vmxMsrHostBackup := withRwbk (fun entry => s.cpu.msr entry.addr) s.vmxMsrHostBackup
      cpu := { s.cpu with vmcsPointer := (s.vmAt vm).vmcsRegion }
      vmManagerCurrentVm := some vm } ∧
      result = ((s.vmAt vm).initialGprState, (s.vmAt vm).xcr0)) (fun _ _ => True) := by
    rw [vmManagerLaunch, ensures_bind, Ensures, vmxMsrVmlaunch_eq]
    simp only [vmxVmptrld, ensures_bind, ensures_get, ensures_ite, ensures_modify, ensures_pure,
      ensures_vmxAssert, implies_true, and_true, Bool.false_eq_true, false_implies]
  obtain ⟨hs, hresult⟩ := hspec.of_ok h
  exact ⟨hs, congrArg Prod.fst hresult, congrArg Prod.snd hresult⟩

/-! ## What the processor lets a guest do -/

/-- The type of a field, bits 10 and 11 of its encoding: 0 is a control field, 1
exit information, 2 guest state and 3 host state. -/
def fieldType (field : Word) : Word := (field >>> 10) &&& 3

/-- Fields that the processor writes by itself: exit information, guest state, and
two of the entry controls at an exit. -/
def ProcessorWritten (field : Word) : Prop :=
  fieldType field = 1 ∨ fieldType field = 2 ∨ field = 0x4012 ∨ field = 0x4016

instance (field : Word) : Decidable (ProcessorWritten field) :=
  inferInstanceAs (Decidable (_ ∨ _ ∨ _ ∨ _))

/-- Some guest physical address is translated to the byte, along the tables that
the current VMCS names. Without extended paging a guest reaches every byte. -/
def Reaches (p : Processor) (s : Hv) (a : Word) : Prop :=
  usesEpt (currentField s.cpu) = true → ∃ (gpa : Word) (hpa : ℕ),
    walk (eptFormat p) (hostRead s.memory) 4 (entryAddress (currentField s.cpu vmcsCfEptPointer) 12)
      gpa.toNat = .ok hpa ∧ a = BitVec.ofNat 64 hpa

/-- A write to the register does not exit, by the bitmaps that the current VMCS
names. -/
def WritesMsr (s : Hv) (addr : BitVec 32) : Prop :=
  usesMsrBitmaps (currentField s.cpu) = true → MsrCovered (addr.setWidth 64) ∧
    wrmsrExits s.memory (currentField s.cpu vmcsCfAddressOfMsrBitmaps) (addr.setWidth 64) = false

/-- What happens between an entry of the guest and its next exit. -/
structure GuestPhase (p : Processor) (s s' : Hv) : Prop where
  host : s' = { s with memory := s'.memory, cpu := s'.cpu }
  vmcs : CurrentVmcsOnly s.cpu s'.cpu
  fields : ∀ field, ¬ProcessorWritten field → currentField s'.cpu field = currentField s.cpu field
  memory : ∀ a, s'.memory a ≠ s.memory a → Reaches p s a
  msr : ∀ addr, s'.cpu.msr addr ≠ s.cpu.msr addr → WritesMsr s addr

/-- Phases of the guest and handled exits, in any order and number. -/
inductive MachineRun (hw : Hardware) (p : Processor) (s₀ : Hv) : Hv → Prop where
  | launched : MachineRun hw p s₀ s₀
  | guest {s s' : Hv} (hrun : MachineRun hw p s₀ s) (hphase : GuestPhase p s s') :
      MachineRun hw p s₀ s'
  | exit {s s' : Hv} {reg reg' : VmxVmexitRegState} {vm : Word} (hrun : MachineRun hw p s₀ s)
      (hexit : vmxVmexitHandler hw reg s = .ok (reg', vm) s') : MachineRun hw p s₀ s'

/-! ## The invariant -/

/-- The machine runs on its own VMCS, which confines it. -/
structure Running (s : Hv) (vm : Word) : Prop where
  guests : GuestsOk s
  listed : vm ∈ s.vmManagerVmList
  current : s.vmManagerCurrentVm = some vm
  vmcsPointer : s.cpu.vmcsPointer = (s.vmAt vm).vmcsRegion
  confines : VmcsConfines s vm
  bitmaps : BitmapsOk s

/-- What stays as it was at the launch. -/
structure SealedSince (s₀ s : Hv) (vm : Word) : Prop where
  confined : Confined vm s₀ s
  vmcs : CurrentVmcsOnly s₀.cpu s.cpu
  fields : ∀ field, ¬ProcessorWritten field → field ≠ vmcsCfCr4ReadShadow →
    currentField s.cpu field = currentField s₀.cpu field
  msr : ∀ addr : BitVec 32, addr.setWidth 64 ∉ vmxMsrList → s.cpu.msr addr = s₀.cpu.msr addr
  backup : ∀ entry : RwbkMsr,
    rwbkValue s.vmxMsrHostBackup entry = rwbkValue s₀.vmxMsrHostBackup entry

theorem SealedSince.refl (s : Hv) (vm : Word) : SealedSince s s vm :=
  ⟨Confined.refl vm s, CurrentVmcsOnly.refl s.cpu, fun _ _ _ => rfl, fun _ _ => rfl, fun _ => rfl⟩

theorem SealedSince.trans (h : SealedSince s s' vm) (h' : SealedSince s' s'' vm) :
    SealedSince s s'' vm where
  confined := h.confined.trans h'.confined
  vmcs := h.vmcs.trans h'.vmcs
  fields := fun field hw hs => (h'.fields field hw hs).trans (h.fields field hw hs)
  msr := fun addr ha => (h'.msr addr ha).trans (h.msr addr ha)
  backup := fun entry => (h'.backup entry).trans (h.backup entry)

/-- The machine goes on to run confined. -/
theorem Running.sealed (h : Running s vm) (hs : SealedSince s s' vm)
    (hcurrent : s'.vmManagerCurrentVm = s.vmManagerCurrentVm) : Running s' vm := by
  have hregion : (s'.vmAt vm).vmcsRegion = (s.vmAt vm).vmcsRegion :=
    hs.confined.recordField vm Vm.vmcsRegion fun _ => rfl
  have hflags : (s'.vmAt vm).flags = (s.vmAt vm).flags :=
    hs.confined.recordField vm Vm.flags fun _ => rfl
  have hpages : (s'.vmAt vm).guestPhysicalPages = (s.vmAt vm).guestPhysicalPages :=
    hs.confined.recordField vm Vm.guestPhysicalPages fun _ => rfl
  have hconfig : (s'.vmAt vm).vmcsConfig = (s.vmAt vm).vmcsConfig :=
    hs.confined.recordField vm Vm.vmcsConfig fun _ => rfl
  have hvalid : s'.msrBitmapsPageValid = s.msrBitmapsPageValid :=
    hs.confined.field Hv.msrBitmapsPageValid
  have hpage : s'.msrBitmapsPage = s.msrBitmapsPage := hs.confined.field Hv.msrBitmapsPage
  have hpointer : s'.cpu.vmcsPointer = (s'.vmAt vm).vmcsRegion :=
    hs.vmcs.vmcsPointer.trans (h.vmcsPointer.trans hregion.symm)
  have hfield : ∀ field, ¬ProcessorWritten field → field ≠ vmcsCfCr4ReadShadow →
      s'.cpu.vmcs (s'.vmAt vm).vmcsRegion field = s.cpu.vmcs (s.vmAt vm).vmcsRegion field :=
    fun field hw hne => by
      have hsame := hs.fields field hw hne
      rwa [currentField, currentField, hpointer, h.vmcsPointer] at hsame
  have hprimary := hfield vmcsCfPrimaryControls (by decide) (by decide)
  have hsecondary := hfield vmcsCfSecondaryControls (by decide) (by decide)
  obtain ⟨hbitmapsOk, hdenote⟩ := h.bitmaps h.confines.bitmapsValid
  refine ⟨GuestsOk.guestMemoryOnly h.guests h.listed hs.confined.guestMemoryOnly,
    hs.confined.guestMemoryOnly.structural.vmList ▸ h.listed,
    hcurrent.trans h.current, hpointer, ⟨?_, ?_, ?_, hvalid.trans h.confines.bitmapsValid, ?_, ?_, ?_,
    ?_, ?_⟩, fun _ => ?_⟩
  · rw [hflags]
    exact h.confines.registered
  · rw [hpages]
    exact h.confines.sized
  · rw [MachinePages.hasEpt, hflags]
    exact h.confines.hasEpt
  · rw [usesEpt, hprimary, hsecondary]
    exact h.confines.ept
  · rw [hfield _ (by decide) (by decide), hconfig]
    exact h.confines.eptPointer
  · rw [usesMsrBitmaps, hprimary]
    exact h.confines.msrBitmaps
  · rw [hfield _ (by decide) (by decide), hpage]
    exact h.confines.bitmapsPage
  · rw [hpage, hregion]
    exact h.confines.apart
  · rw [hpage]
    refine ⟨hbitmapsOk, bitmapsDenote_of_same hbitmapsOk (fun a ha => hs.confined.memory a ?_) hdenote⟩
    refine not_inGuestMemory_special h.guests.host h.listed ?_ ha
    rw [frameAddress_frameOf hbitmapsOk, specialPages, vmxPages, h.confines.bitmapsValid]
    simp only [List.mem_append, if_true, List.mem_singleton, true_or, or_true]

/-! ## Guest phases -/

/-- Extended paging leads the guest into its own memory only. -/
theorem Running.reaches (h : Running s vm) {a : Word} (ha : Reaches p s a) :
    InGuestMemory s vm a := by
  have hfields : currentField s.cpu = s.cpu.vmcs (s.vmAt vm).vmcsRegion := by
    funext field
    rw [currentField, h.vmcsPointer]
  rw [Reaches, hfields] at ha
  obtain ⟨gpa, hpa, hwalk, rfl⟩ := ha h.confines.ept
  have hbuilt := h.guests.built vm h.listed
  have hroot := ((h.guests.host.machines vm h.listed).tree h.confines.hasEpt).root
  have hpointer : entryAddress (s.cpu.vmcs (s.vmAt vm).vmcsRegion vmcsCfEptPointer) 12 =
      (s.vmAt vm).vmcsConfig.eptp.toNat := by
    rw [← eptTable_toNat, and_eptPtePhysicalAddressPage, h.confines.eptPointer, hroot]
  have hflag : ¬(s.vmAt vm).flags &&& vmTFlagEptPml4Initialized = 0 := h.confines.hasEpt
  have hagrees := vmxEptGetHostPhysicalAddress_agrees p s.memory (s.vmAt vm) gpa
  rw [eptWalk, if_neg hflag, ← hpointer, hwalk] at hagrees
  obtain ⟨f, hf, hframe⟩ := GuestBuilt.walk_inFrame hbuilt hagrees
  exact ⟨f, hf, hframe ▸ inFrame_guestOffset f gpa⟩

/-- The bitmaps let the guest write the listed registers only. -/
theorem Running.writesMsr (h : Running s vm) {addr : BitVec 32} (ha : WritesMsr s addr) :
    addr.setWidth 64 ∈ vmxMsrList := by
  have hfields : currentField s.cpu = s.cpu.vmcs (s.vmAt vm).vmcsRegion := by
    funext field
    rw [currentField, h.vmcsPointer]
  rw [WritesMsr, hfields, h.confines.bitmapsPage] at ha
  obtain ⟨hcovered, hwrite⟩ := ha h.confines.msrBitmaps
  have hdenote := ((h.bitmaps h.confines.bitmapsValid).2 _ hcovered).1
  rw [hwrite] at hdenote
  by_contra hnot
  exact absurd (hdenote.mpr hnot) (by decide)

theorem Running.guestPhase (h : Running s vm) (hphase : GuestPhase p s s') :
    SealedSince s s' vm ∧ s'.vmManagerCurrentVm = s.vmManagerCurrentVm := by
  have hmemory : ∀ a, ¬InGuestMemory s vm a → s'.memory a = s.memory a := fun a ha => by
    by_contra hne
    exact ha (h.reaches (hphase.memory a hne))
  have hmsr : ∀ addr : BitVec 32, addr.setWidth 64 ∉ vmxMsrList → s'.cpu.msr addr = s.cpu.msr addr :=
    fun addr haddr => by
      by_contra hne
      exact haddr (h.writesMsr (hphase.msr addr hne))
  have hhost := hphase.host
  refine ⟨⟨⟨?_, fun w _ => ?_, hmemory⟩, hphase.vmcs, fun field hw _ => hphase.fields field hw, hmsr,
    fun _ => ?_⟩, ?_⟩
  · rw [hhost]
    rfl
  · rw [hhost]
  · rw [hhost]
  · rw [hhost]

/-! ## Exits -/

theorem vmxMsrVmresume_vmcs {vmState : VmxVmexitState}
    (h : vmxMsrVmresume hw vmState s = .ok () s') : CurrentVmcsOnly s.cpu s'.cpu := by
  have hwrite : ∀ entries s, Ensures (writeVmcsMsrs hw vmState.msrs entries) s
      (fun _ s' => CurrentVmcsOnly s.cpu s'.cpu) (fun _ _ => True) := by
    intro entries
    induction entries with
    | nil => exact fun s => CurrentVmcsOnly.refl s.cpu
    | cons entry entries ih =>
      intro s
      simp only [writeVmcsMsrs, ensures_bind, ensures_vmwriteAsserted, implies_true, and_true]
      exact fun _ => (ih _).mono (fun _ _ hrest => (currentVmcsOnly_cpuVmwrite _ _ _).trans hrest)
        fun _ _ _ => trivial
  rw [vmxMsrVmresume, bind_eq_ok] at h
  obtain ⟨_, t, hwritten, hresume⟩ := h
  have hloaded := (resumeRwbkMsrs_eq vmState.msrs).of_ok hresume
  obtain ⟨hpointer, hothers⟩ := (hwrite vmcsMsrs s).of_ok hwritten
  rw [hloaded]
  exact ⟨hpointer, hothers⟩

theorem writeVmState_vmcs {vmState : VmxVmexitState} (h : writeVmState hw vmState s = .ok () s') :
    CurrentVmcsOnly s.cpu s'.cpu := by
  refine CurrentVmcsOnly.trans ?_ (vmxMsrVmresume_vmcs (writeVmState_exchanges h))
  simp only [writtenCpu, List.foldl_cons, List.foldl_nil]
  repeat first
    | exact CurrentVmcsOnly.refl s.cpu
    | refine CurrentVmcsOnly.trans ?_ (currentVmcsOnly_cpuVmwrite _ _ _)

/-- A register that is exchanged at exits is listed. -/
theorem RwbkMsr.addr_listed (entry : RwbkMsr) : entry.addr.setWidth 64 ∈ vmxMsrList := by
  cases entry <;> decide

/-- A handled exit leaves alone all that is sealed. -/
theorem Running.exit (h : Running s vm) {reg reg' : VmxVmexitRegState} {w : Word}
    (hexit : vmxVmexitHandler hw reg s = .ok (reg', w) s') :
    SealedSince s s' vm ∧ s'.vmManagerCurrentVm = s.vmManagerCurrentVm ∧ w = vm := by
  obtain ⟨vmState, vmState', t, t', hread, hhandle, hwrite, _, rfl⟩ := vmxVmexitHandler_stages hexit
  have hreadState := readVmState_returned hread
  have hhandled := handleExit_returned hhandle
  have hwritten := writeVmState_returned hwrite
  obtain rfl : vmState.vm = vm := Option.some_inj.mp (hreadState.vm.symm.trans h.current)
  have hsame : vmState'.vm = vmState.vm := by rw [hhandled.same]
  have hstart : Confined vmState.vm s t := by
    rw [hreadState.host]
    exact ⟨rfl, fun _ _ => rfl, fun _ _ => rfl⟩
  have hbuilt := GuestBuilt.guestMemoryOnly (h.guests.built _ h.listed) hstart.guestMemoryOnly
  have hswitch := handleExit_confined hbuilt hhandle
  have hend : Confined vmState.vm t' s' := by
    rw [hwritten.host]
    exact ⟨rfl, fun _ _ => rfl, fun _ _ => rfl⟩
  have hcpu : CurrentVmcsOnly t.cpu t'.cpu ∧ t'.cpu.msr = t.cpu.msr ∧
      ∀ field, field ≠ vmcsCfCr4ReadShadow →
        currentField t'.cpu field = currentField t.cpu field := by
    rw [hhandled.cpu]
    split
    · exact ⟨currentVmcsOnly_cpuVmwrite _ _ _, rfl, fun field hne => by
        rw [currentField_cpuVmwrite, if_neg hne]⟩
    · exact ⟨CurrentVmcsOnly.refl _, rfl, fun _ _ => rfl⟩
  have hstartCpu : t.cpu = { s.cpu with
      msr := loadRwbk (rwbkValue s.vmxMsrHostBackup) s.cpu.msr } := by rw [hreadState.host]
  have hstartVmcs : CurrentVmcsOnly s.cpu t.cpu := by
    rw [hstartCpu]
    exact ⟨rfl, fun _ _ => rfl⟩
  have hnot : ∀ addr : BitVec 32, addr.setWidth 64 ∉ vmxMsrList → ∀ entry : RwbkMsr,
      addr ≠ entry.addr := fun addr haddr entry he => haddr (he ▸ RwbkMsr.addr_listed entry)
  refine ⟨⟨hstart.trans (hswitch.trans hend), hstartVmcs.trans (hcpu.1.trans (writeVmState_vmcs hwrite)),
    fun field hprocessor hshadow => ?_, fun addr haddr => ?_, fun entry => ?_⟩, ?_, hsame⟩
  · have hguest : ∀ other, ProcessorWritten other → field ≠ other := fun other hother he =>
      hprocessor (he ▸ hother)
    rw [hwritten.other field (fun entry => hguest _ (by cases entry <;> decide)) (by
        simp only [List.mem_cons, List.not_mem_nil, or_false, not_or]
        exact ⟨hguest _ (by decide), hguest _ (by decide), hguest _ (by decide),
          hguest _ (by decide), hguest _ (by decide), hguest _ (by decide)⟩),
      hcpu.2.2 field hshadow, hstartCpu]
    rfl
  · rw [hwritten.msr, loadRwbk_other _ _ (hnot addr haddr), hcpu.2.1, hstartCpu]
    exact loadRwbk_other _ _ (hnot addr haddr)
  · rw [hwritten.host]
    dsimp only
    rw [rwbkValue_withRwbk, hcpu.2.1, hstartCpu]
    exact loadRwbk_addr _ _ entry
  · rw [hwritten.host]
    dsimp only
    rw [hhandled.host]
    dsimp only
    rw [hreadState.host]

/-! ## Runs -/

/-- Through any run the machine stays confined, and what is sealed stays as it was. -/
theorem MachineRun.sealed {s₀ : Hv} (hrun : MachineRun hw p s₀ s) (h : Running s₀ vm) :
    Running s vm ∧ SealedSince s₀ s vm := by
  induction hrun with
  | launched => exact ⟨h, SealedSince.refl s₀ vm⟩
  | guest _ hphase ih =>
    obtain ⟨hsealed, hcurrent⟩ := ih.1.guestPhase hphase
    exact ⟨ih.1.sealed hsealed hcurrent, ih.2.trans hsealed⟩
  | exit _ hexit ih =>
    obtain ⟨hsealed, hcurrent, _⟩ := ih.1.exit hexit
    exact ⟨ih.1.sealed hsealed hcurrent, ih.2.trans hsealed⟩

/-- How a machine comes to run: it is built along with others, gets its VMCS when
it has a guest memory and the MSR bitmaps are in place, and after anything else was
built and set up it is launched. -/
structure Launched (hw : Hardware) (vmlaunchSucceeds : Cpu → Bool) (boot : Hv) (vm : Word)
    (s₀ s : Hv) : Prop where
  built : BuildRun hw boot s₀
  listed : vm ∈ s₀.vmManagerVmList
  sized : (s₀.vmAt vm).guestPhysicalPages ≠ 0
  bitmaps : s₀.msrBitmapsPageValid = true
  launch : ∃ s₁ s₂ result, vmxCreateInitializedVmcs hw vm s₀ = .ok () s₁ ∧ BuildRun hw s₁ s₂ ∧
    vmManagerLaunch hw vmlaunchSucceeds vm s₂ = .ok result s

/-- A machine with guest pages has tables. -/
theorem GuestBuilt.hasEpt (h : GuestBuilt s vm) (hsized : (s.vmAt vm).guestPhysicalPages ≠ 0) :
    MachinePages.hasEpt (s.vmAt vm) := by
  obtain ⟨_, host, hmapped⟩ := h
  have hpos : 0 < guestPages s vm := by
    rw [guestPages, Nat.pos_iff_ne_zero]
    exact fun hzero => hsized (BitVec.eq_of_toNat_eq hzero)
  have hfirst := hmapped.mapped 0 hpos
  by_contra hnone
  rw [eptFollow, if_neg hnone] at hfirst
  cases hfirst

/-- The registers that say which bits of a control field are allowed. -/
def capabilityMsrs : List (BitVec 32) := [0x481, 0x482, 0x483, 0x484, 0x48b]

theorem defaultVmcsFields_allowedMsr (config : VmxInitialVmcsConfig) (page efer : Word)
    {entry : VmcsField} (h : entry ∈ defaultVmcsFields hw config page efer)
    (hadjusted : entry.allowedMsr ≠ 0) : entry.allowedMsr.setWidth 32 ∈ capabilityMsrs := by
  have hlist : (defaultVmcsFields hw config page efer).all (fun field =>
      field.allowedMsr == 0 || decide (field.allowedMsr.setWidth 32 ∈ capabilityMsrs)) = true := rfl
  have hentry := List.all_eq_true.mp hlist entry h
  rw [Bool.or_eq_true, beq_iff_eq, decide_eq_true_iff] at hentry
  exact hentry.resolve_left hadjusted

/-- A field of the table as a launched machine has it: the value of its entry, and
for a control field one that the processor accepts. -/
structure FieldSet (msr : BitVec 32 → Word) (cpu : Cpu) (entry : VmcsField) : Prop where
  value : currentField cpu entry.fieldEncoding = writtenValue msr entry
  allowed : entry.allowedMsr ≠ 0 → AllowedControl (msr (entry.allowedMsr.setWidth 32))
    ((currentField cpu entry.fieldEncoding).setWidth 32)

theorem FieldSet.of_value {msr : BitVec 32 → Word} {cpu : Cpu} {entry : VmcsField}
    (hcapable : entry.allowedMsr ≠ 0 → Capability (msr (entry.allowedMsr.setWidth 32)))
    (h : currentField cpu entry.fieldEncoding = writtenValue msr entry) : FieldSet msr cpu entry := by
  refine ⟨h, fun hadjusted => ?_⟩
  have hadjust : (currentField cpu entry.fieldEncoding).setWidth 32 = vmxEnsureAllowedBits
      (msr (entry.allowedMsr.setWidth 32)) (entry.value.setWidth 32) := by
    rw [h, writtenValue, if_pos hadjusted, BitVec.setWidth_setWidth_of_le _ (by decide),
      BitVec.setWidth_eq]
  rw [hadjust]
  exact (vmxEnsureAllowedBits_allowed (hcapable hadjusted) _).1

/-- A launched machine runs on a VMCS that confines it. -/
theorem Launched.running {vmlaunchSucceeds : Cpu → Bool} {c : ChainloadPage} {memory : Memory}
    {cpu : Cpu} {s₀ : Hv} (hmap : PhysicalMap c.efiMmapUsable) (hsupported : SupportsConfinement cpu)
    (h : Launched hw vmlaunchSucceeds (bootState c memory cpu) vm s₀ s) :
    Running s vm ∧ (∀ entry : RwbkMsr, rwbkValue s.vmxMsrHostBackup entry = cpu.msr entry.addr) ∧
      ∀ entry ∈ defaultVmcsFields hw (s₀.vmAt vm).vmcsConfig s₀.msrBitmapsPage (cpu.msr ia32Efer),
        currentField s.cpu entry.fieldEncoding = writtenValue cpu.msr entry := by
  obtain ⟨s₁, s₂, result, hcreate, hmore, hlaunch⟩ := h.launch
  obtain ⟨hok₀, hkept₀⟩ := h.built.builds (guestsOk_boot hmap memory cpu)
  have hbitmaps₀ : BitmapsOk s₀ := hkept₀.bitmaps fun hvalid => absurd hvalid Bool.false_ne_true
  have hmsr₀ : s₀.cpu.msr = cpu.msr := hkept₀.msr
  have hcreated := (vmxCreateInitializedVmcs_created hok₀.host).of_ok hcreate
  have hsupported₀ : SupportsConfinement s₀.cpu := by
    rw [SupportsConfinement, hmsr₀]
    exact hsupported
  have hconfines := VmcsCreated.confines hcreated h.bitmaps h.sized
    (GuestBuilt.hasEpt (hok₀.built vm h.listed) h.sized) hsupported₀
  have hcreation : Builds s₀ s₁ :=
    @hostOp_builds hw s₀ s₁ (.createInitializedVmcs vm) h.listed hcreate
  obtain ⟨hok₁, hkept₁⟩ := hcreation hok₀
  obtain ⟨hok₂, hkept₂⟩ := hmore.builds hok₁
  have hvm₁ := hkept₁.listed vm h.listed
  have hvm₂ := hkept₂.listed vm hvm₁
  obtain ⟨hconfines₂, hvmcs₂⟩ := hkept₂.confined vm hvm₁ hconfines
  have hbitmaps₂ := hkept₂.bitmaps (hkept₁.bitmaps hbitmaps₀)
  have hmsr₂ : s₂.cpu.msr = cpu.msr := hkept₂.msr.trans (hkept₁.msr.trans hmsr₀)
  have hpage : s₁.msrBitmapsPage = s₀.msrBitmapsPage := by
    rcases hcreated.bitmaps with ⟨_, hsame⟩ | ⟨hnone, _⟩
    · exact hsame
    · exact absurd (hnone.symm.trans h.bitmaps) Bool.false_ne_true
  have hregion : (s₁.vmAt vm).vmcsRegion = s₁.cpu.vmcsPointer := by
    rw [hcreated.vmAt, Function.update_self]
  obtain ⟨rfl, _⟩ := vmManagerLaunch_returned hlaunch
  refine ⟨⟨GuestsOk.structural hok₂ rfl fun _ _ f _ _ => SameFrame.refl _ f, hvm₂, rfl, rfl,
    ⟨hconfines₂.registered, hconfines₂.sized, hconfines₂.hasEpt, hconfines₂.bitmapsValid,
      hconfines₂.ept, hconfines₂.eptPointer, hconfines₂.msrBitmaps, hconfines₂.bitmapsPage,
      hconfines₂.apart⟩, hbitmaps₂⟩, fun entry => ?_, fun entry hentry => ?_⟩
  · dsimp only
    rw [rwbkValue_withRwbk, hmsr₂]
  · have hfield := hcreated.fields entry
    rw [hpage, hmsr₀] at hfield
    rw [← hfield hentry]
    exact (congrFun hvmcs₂ entry.fieldEncoding).trans (by rw [hregion]; rfl)

/-! ## A first guest -/

/-- A processor that allows every control. -/
def permissiveCpu : Cpu := ⟨0, fun _ _ => 0, fun _ => 0xffffffff00000000⟩

/-- The boot state of a host with sixteen usable pages on that processor. -/
def permissiveHost : Hv :=
  bootState { (default : ChainloadPage) with efiMmapUsable := smallMap 16 } (fun _ => 0)
    permissiveCpu

/-- The guest executes CPUID: the processor saves the reason of the exit and the
length of the instruction. -/
def cpuidPhase (s : Hv) : Hv :=
  { s with
    cpu := cpuVmwrite (cpuVmwrite s.cpu vmcsExitReason vmexitReasonCpuid)
      vmcsVmExitInstructionLength 2 }

theorem cpuidPhase_guestPhase (s : Hv) : GuestPhase p s (cpuidPhase s) where
  host := rfl
  vmcs := (currentVmcsOnly_cpuVmwrite _ _ _).trans (currentVmcsOnly_cpuVmwrite _ _ _)
  fields := fun field hw => by
    have hreason : field ≠ vmcsExitReason := fun he => hw (he ▸ by decide)
    have hlength : field ≠ vmcsVmExitInstructionLength := fun he => hw (he ▸ by decide)
    rw [cpuidPhase, currentField_cpuVmwrite, if_neg hlength, currentField_cpuVmwrite, if_neg hreason]
  memory := fun _ h => (h rfl).elim
  msr := fun _ h => (h rfl).elim

/-- The launch of a machine and the round of its first CPUID. -/
def cpuidRound (hw : Hardware) (vm : Word) : HvM Unit := do
  let _ ← vmManagerLaunch hw (fun _ => true) vm
  modify cpuidPhase
  let _ ← vmxVmexitHandler hw default

/-- A machine with two guest pages is launched, executes CPUID and is resumed
behind it. -/
theorem exists_launched : ∃ s₀ s s', Launched obedientHardware (fun _ => true)
    permissiveHost firstOfSixteen s₀ s ∧ MachineRun obedientHardware ⟨39, false⟩ s s' ∧
    currentField s'.cpu vmcsGuestRip = 2 := by
  have hbuild : returnsWith (hostOp obedientHardware (.createVmxMachine "guest") permissiveHost)
      (fun s => s.vmManagerVmList == [firstOfSixteen] &&
        returnsWith (hostOp obedientHardware .getMsrBitmapsPage s) fun s =>
          s.vmManagerVmList == [firstOfSixteen] &&
            returnsWith (hostOp obedientHardware (.allocateGuestPhysicalMemory firstOfSixteen 2) s)
              fun s => (s.vmManagerVmList == [firstOfSixteen] && (s.msrBitmapsPageValid &&
                (s.vmAt firstOfSixteen).guestPhysicalPages == 2)) &&
                returnsWith (hostOp obedientHardware (.createInitializedVmcs firstOfSixteen) s)
                  fun s => returnsWith (cpuidRound obedientHardware firstOfSixteen s)
                    fun s => currentField s.cpu vmcsGuestRip == 2) = true := by
    decide +kernel
  obtain ⟨s₁, h₁, htest⟩ := exists_of_returnsWith hbuild
  obtain ⟨hlist₁, htest⟩ := (Bool.and_eq_true _ _).mp htest
  obtain ⟨s₂, h₂, htest⟩ := exists_of_returnsWith htest
  obtain ⟨hlist₂, htest⟩ := (Bool.and_eq_true _ _).mp htest
  obtain ⟨s₃, h₃, htest⟩ := exists_of_returnsWith htest
  obtain ⟨hready, htest⟩ := (Bool.and_eq_true _ _).mp htest
  obtain ⟨hlist₃, hready⟩ := (Bool.and_eq_true _ _).mp hready
  obtain ⟨hvalid, hsized⟩ := (Bool.and_eq_true _ _).mp hready
  obtain ⟨s₄, h₄, htest⟩ := exists_of_returnsWith htest
  have hlisted : ∀ s : Hv, (s.vmManagerVmList == [firstOfSixteen]) = true →
      firstOfSixteen ∈ s.vmManagerVmList := fun s hlist => by
    rw [beq_iff_eq.mp hlist]
    exact List.mem_singleton_self _
  have hcreated : BuildRun obedientHardware permissiveHost s₁ :=
    .op .start (by exact trivial) h₁
  have hbitmaps : BuildRun obedientHardware permissiveHost s₂ :=
    .op hcreated (by exact trivial) h₂
  have hallocated : BuildRun obedientHardware permissiveHost s₃ :=
    .op hbitmaps (by exact ⟨hlisted s₂ hlist₂, by decide⟩) h₃
  obtain ⟨s₆, hround, htest⟩ := exists_of_returnsWith htest
  rw [cpuidRound, bind_eq_ok] at hround
  obtain ⟨entry, s₅, hlaunch, hround⟩ := hround
  rw [bind_eq_ok] at hround
  obtain ⟨_, _, hphase, hround⟩ := hround
  obtain rfl := modify_eq_ok.mp hphase
  rw [bind_eq_ok] at hround
  obtain ⟨result, t, hexit, hdone⟩ := hround
  rw [(pure_eq_ok.mp hdone).2] at hexit
  have hlaunched : Launched obedientHardware (fun _ => true) permissiveHost firstOfSixteen s₃ s₅ :=
    ⟨hallocated, hlisted s₃ hlist₃, fun hzero => by
      rw [hzero] at hsized
      exact absurd hsized (by decide), hvalid, s₄, s₄, entry, h₄, .start, hlaunch⟩
  have hrun : MachineRun obedientHardware ⟨39, false⟩ s₅ s₆ :=
    .exit (.guest .launched (cpuidPhase_guestPhase s₅)) hexit
  exact ⟨s₃, s₅, s₆, hlaunched, hrun, beq_iff_eq.mp htest⟩

theorem physicalMap_sixteen : PhysicalMap (smallMap 16) :=
  physicalMap_smallMap fun page hp => by fin_cases hp <;> exact ⟨by decide, by decide⟩

/-! ## Results -/

end Rkhv.GuestRuns
