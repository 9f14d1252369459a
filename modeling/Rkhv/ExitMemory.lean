import Rkhv.GuestRam
import Rkhv.PortStrings
import Rkhv.VmexitFrame

/-!
# What an exit changes outside of its machine

An emulated INS stores through a pointer that was found by walking the guest's
own tables, whatever these hold. Every page that such a walk ends on is a page
of the machine's guest memory, so that no instruction reaches a table, another
machine or the hypervisor. The state in which only guest memory, devices and the
processor changed still has all guest memories in place.
-/

namespace Rkhv.ExitMemory

open ByteMemory WordFields HostTypes HostState StateOutcome FreePages FreePageContract PageTracker
  VmxInstructions
  PageTrackerRuns RadixWalk Ept EptWalk VmxMsr VmGuestPaging VmIoPorts VmEmulatedInstructions
  EptAgreement MachinePages GuestMemory HostPages HostSteps GuestIsolation GuestRam GuestAccess
  VmexitEffects PortStrings VmxVmexit VmexitFrame

variable {s s' s'' : Hv} {vm : Word}

/-! ## Guest memory alone -/

/-- The byte lies in a page that the machine tracks as guest memory. -/
def InGuestMemory (s : Hv) (vm a : Word) : Prop :=
  ∃ f, (frameAddress f, .guestPhysical, false) ∈ contents (trackedOf s vm) ∧ InFrame f a

/-- What of a machine record its tables and pages are found by. -/
def skeleton (v : Vm) : Vm :=
  { (default : Vm) with
    flags := v.flags
    vmcsRegion := v.vmcsRegion
    vmcsConfig := { (default : VmxInitialVmcsConfig) with eptp := v.vmcsConfig.eptp }
    guestPhysicalPages := v.guestPhysicalPages
    trackedPages := v.trackedPages }

/-- The part of the state that says which pages are whose. -/
def structuralPart (s : Hv) : Hv :=
  { s with
    vmAt := fun vm => skeleton (s.vmAt vm)
    vmManagerCurrentVm := none
    vmdDeviceArena := none
    deviceList := []
    vmxMsrHostBackup := default
    memory := fun _ => 0
    cpu := ⟨0, fun _ _ => 0, fun _ => 0⟩
    console := [] }

/-- All pages stay whose they are. -/
def SameStructure (s s' : Hv) : Prop := structuralPart s' = structuralPart s

namespace SameStructure

theorem field {α : Type} (h : SameStructure s s') (get : Hv → α) :
    get (structuralPart s') = get (structuralPart s) := congrArg get h

theorem recordField {α : Type} (h : SameStructure s s') (w : Word) (get : Vm → α)
    (hget : ∀ v, get (skeleton v) = get v) : get (s'.vmAt w) = get (s.vmAt w) := by
  have hrecord : skeleton (s'.vmAt w) = skeleton (s.vmAt w) := congrFun (h.field Hv.vmAt) w
  rw [← hget, hrecord, hget]

theorem flags (h : SameStructure s s') (w : Word) : (s'.vmAt w).flags = (s.vmAt w).flags :=
  h.recordField w Vm.flags fun _ => rfl

theorem vmcsRegion (h : SameStructure s s') (w : Word) :
    (s'.vmAt w).vmcsRegion = (s.vmAt w).vmcsRegion := h.recordField w Vm.vmcsRegion fun _ => rfl

theorem eptp (h : SameStructure s s') (w : Word) :
    (s'.vmAt w).vmcsConfig.eptp = (s.vmAt w).vmcsConfig.eptp :=
  h.recordField w (fun v => v.vmcsConfig.eptp) fun _ => rfl

theorem guestPhysicalPages (h : SameStructure s s') (w : Word) :
    (s'.vmAt w).guestPhysicalPages = (s.vmAt w).guestPhysicalPages :=
  h.recordField w Vm.guestPhysicalPages fun _ => rfl

theorem tracked (h : SameStructure s s') (w : Word) : trackedOf s' w = trackedOf s w :=
  h.recordField w Vm.trackedPages fun _ => rfl

theorem vmList (h : SameStructure s s') : s'.vmManagerVmList = s.vmManagerVmList :=
  h.field Hv.vmManagerVmList

theorem chainload (h : SameStructure s s') : s'.mmChainloadPage = s.mmChainloadPage :=
  h.field Hv.mmChainloadPage

theorem map (h : SameStructure s s') : efiMmap s' = efiMmap s :=
  congrArg ChainloadPage.efiMmapUsable h.chainload

theorem specialPages_eq (h : SameStructure s s') : specialPages s' = specialPages s := by
  have harenas : s'.arenaList = s.arenaList := h.field Hv.arenaList
  have hvmx : vmxPages s' = vmxPages s := h.field vmxPages
  rw [specialPages, specialPages, harenas, hvmx, vmcsPages, vmcsPages, h.vmList]
  simp only [h.flags, h.vmcsRegion]

end SameStructure

/-- Moreover no page is written but guest memory of one machine. -/
structure GuestMemoryOnly (vm : Word) (s s' : Hv) : Prop where
  structural : SameStructure s s'
  memory : ∀ a, ¬InGuestMemory s vm a → s'.memory a = s.memory a

/-! ## Confined changes -/

/-- A machine record without its XCR0. -/
def withoutXcr0 (v : Vm) : Vm := { v with xcr0 := 0 }

/-- The part of the state that an exit never changes: XCR0 aside, the machines
are in it. -/
def sealedPart (s : Hv) : Hv :=
  { s with
    vmAt := fun vm => withoutXcr0 (s.vmAt vm)
    deviceList := []
    vmxMsrHostBackup := default
    memory := fun _ => 0
    cpu := ⟨0, fun _ _ => 0, fun _ => 0⟩
    console := [] }

/-- Besides devices, console and processor, only guest memory of one machine and
its XCR0 changed. -/
structure Confined (vm : Word) (s s' : Hv) : Prop where
  sealed : sealedPart s' = sealedPart s
  others : ∀ w, w ≠ vm → s'.vmAt w = s.vmAt w
  memory : ∀ a, ¬InGuestMemory s vm a → s'.memory a = s.memory a

namespace Confined

theorem refl (vm : Word) (s : Hv) : Confined vm s s := ⟨rfl, fun _ _ => rfl, fun _ _ => rfl⟩

theorem field {α : Type} (h : Confined vm s s') (get : Hv → α) :
    get (sealedPart s') = get (sealedPart s) := congrArg get h.sealed

theorem recordField {α : Type} (h : Confined vm s s') (w : Word) (get : Vm → α)
    (hget : ∀ v, get (withoutXcr0 v) = get v) : get (s'.vmAt w) = get (s.vmAt w) := by
  have hrecord : withoutXcr0 (s'.vmAt w) = withoutXcr0 (s.vmAt w) := congrFun (h.field Hv.vmAt) w
  rw [← hget, hrecord, hget]

theorem guestMemoryOnly (h : Confined vm s s') : GuestMemoryOnly vm s s' :=
  ⟨h.field structuralPart, h.memory⟩

theorem tracked (h : Confined vm s s') (w : Word) : trackedOf s' w = trackedOf s w :=
  h.guestMemoryOnly.structural.tracked w

theorem inGuestMemory_iff (h : Confined vm s s') (w a : Word) :
    InGuestMemory s' w a ↔ InGuestMemory s w a := by
  rw [InGuestMemory, InGuestMemory, h.tracked]

theorem trans (h : Confined vm s s') (h' : Confined vm s' s'') : Confined vm s s'' where
  sealed := h'.sealed.trans h.sealed
  others := fun w hw => (h'.others w hw).trans (h.others w hw)
  memory := fun a ha =>
    (h'.memory a (mt (h.inGuestMemory_iff vm a).mp ha)).trans (h.memory a ha)

end Confined

/-- A change of devices and console only. -/
theorem confined_device {α : Type} {f : HvM α} {a : α} (hf : DeviceOnly f)
    (heffect : Ensures f s (fun _ s' => IoEffect s s') (fun _ _ => True)) (h : f s = .ok a s')
    (vm : Word) : Confined vm s s' := by
  obtain ⟨hmemory, hvm, -⟩ := hf s a s' h
  have hio := heffect.of_ok h
  refine ⟨?_, fun w _ => by rw [hvm], fun b _ => by rw [hmemory]⟩
  rw [hio]
  rfl

/-- A store into guest memory. -/
theorem confined_store {m : Memory} (hm : ∀ a, ¬InGuestMemory s vm a → m a = s.memory a) :
    Confined vm s { s with memory := m } := ⟨rfl, fun _ _ => rfl, hm⟩

/-! ## Machines after guest memory was written -/

/-- A frame of guest memory of one machine is tracked by no machine as anything else. -/
theorem not_inGuestMemory_ept (h : HostOk s) (hvm : vm ∈ s.vmManagerVmList) {w : Word}
    (hw : w ∈ s.vmManagerVmList) {f : Frame} {pool : Bool}
    (hf : (frameAddress f, .ept, pool) ∈ contents (trackedOf s w)) {a : Word} (ha : InFrame f a) :
    ¬InGuestMemory s vm a := by
  rintro ⟨g, hg, hag⟩
  obtain rfl : g = f := InFrame.eq hag ha
  by_cases hne : vm = w
  · obtain rfl := hne
    have hkind := congrArg (fun t : TrackedPage => t.2.1)
      ((h.machines vm hvm).kind_unique hg hf rfl)
    cases hkind
  · exact disjoint_machinePages h hvm hw hne (MachineOk.mem_machinePages hg)
      (MachineOk.mem_machinePages hf)

/-- Guest memory holds no page that is held without being tracked. -/
theorem not_inGuestMemory_special (h : HostOk s) (hvm : vm ∈ s.vmManagerVmList) {f : Frame}
    (hf : frameAddress f ∈ specialPages s) {a : Word} (ha : InFrame f a) :
    ¬InGuestMemory s vm a := by
  rintro ⟨g, hg, hag⟩
  obtain rfl : g = f := InFrame.eq hag ha
  exact h.apart _ hf (mem_vmPages.mpr ⟨vm, hvm, MachineOk.mem_machinePages hg⟩)

/-- The frames that a machine tracks for its tables are as before. -/
def TablesKept (s s' : Hv) (vm : Word) : Prop :=
  ∀ f pool, (frameAddress f, .ept, pool) ∈ contents (trackedOf s vm) →
    SameFrame s.memory s'.memory f

/-- A machine whose table pages are left alone stays in order with all its paths. -/
theorem machineOk_structural (hs : SameStructure s s') {w : Word} (h : MachineOk s w)
    (hept : TablesKept s s' w) :
    MachineOk s' w ∧ ∀ q, q.length ≤ 4 → eptFollow s' w q = eptFollow s w q := by
  have hcursor : savedCursor s' = savedCursor s := hs.field savedCursor
  refine h.of_same (hs.vmList ▸ h.listed) hs.map (hcursor ▸ h.cursor)
    (by rw [hasEpt, hasEpt, hs.flags]) (hs.eptp w) (by rw [hs.tracked]; exact h.entries)
    (by rw [machinePages, hs.tracked]; exact h.distinct) (fun f hf => ?_) fun f hf => ?_
  · rw [hs.tracked]
    exact ⟨hf, hept f false hf⟩
  · rw [hs.tracked] at hf
    exact (h.zeroed f hf).of_same (hept f true hf)

/-- A guest memory stays mapped. -/
theorem guestBuilt_structural (hs : SameStructure s s') {w : Word} (h : GuestBuilt s w)
    (hept : TablesKept s s' w) : GuestBuilt s' w := by
  obtain ⟨host, hmapped⟩ := h.mapped
  have hpages : guestPages s' w = guestPages s w := congrArg BitVec.toNat (hs.guestPhysicalPages w)
  have hkept := machineOk_structural hs hmapped.ok hept
  refine ⟨hpages ▸ h.bounded, host, ?_⟩
  rw [hpages]
  exact hmapped.of_kept hkept.1 (fun t ht _ => by rw [hs.tracked]; exact ht) hkept.2

/-- The machine whose memory is written keeps its own tables. -/
theorem GuestBuilt.guestMemoryOnly (h : GuestBuilt s vm) (hc : GuestMemoryOnly vm s s') :
    GuestBuilt s' vm := by
  obtain ⟨host, hmapped⟩ := h.mapped
  refine guestBuilt_structural hc.structural h fun f pool hf a ha => hc.memory a ?_
  rintro ⟨g, hg, hag⟩
  obtain rfl : g = f := InFrame.eq hag ha
  have hkind := congrArg (fun t : TrackedPage => t.2.1) (hmapped.ok.kind_unique hg hf rfl)
  cases hkind

/-- Every guest memory is in place after a change that leaves the tables alone. -/
theorem GuestsOk.structural (h : GuestsOk s) (hs : SameStructure s s')
    (hept : ∀ w ∈ s.vmManagerVmList, TablesKept s s' w) : GuestsOk s' := by
  have hvmPages : vmPages s' = vmPages s := by
    rw [vmPages, vmPages, hs.vmList]
    exact List.flatMap_congr fun w _ => by rw [machinePages, machinePages, hs.tracked]
  have harena : s'.vmManagerArena = s.vmManagerArena := hs.field Hv.vmManagerArena
  have harenaAt : s'.arenaAt = s.arenaAt := hs.field Hv.arenaAt
  have harenaList : s'.arenaList = s.arenaList := hs.field Hv.arenaList
  have hcursor : savedCursor s' = savedCursor s := hs.field savedCursor
  refine ⟨⟨hs.map ▸ h.host.map, ?_, fun w hw => ?_, ?_, ?_, ?_, ?_, ?_, ?_⟩, fun w hw => ?_⟩
  · rw [hs.map, hcursor]
    exact h.host.cursor
  · rw [hs.vmList] at hw
    exact (machineOk_structural hs (h.host.machines w hw) (hept w hw)).1
  · rw [hvmPages]
    exact h.host.distinct
  · rw [hs.specialPages_eq, hvmPages]
    exact h.host.apart
  · rw [heldPages, hs.specialPages_eq, hvmPages, hs.chainload]
    exact h.host.unowned
  · rw [hs.vmList]
    exact h.host.listed
  · rw [harena, harenaAt, harenaList]
    exact h.host.arena
  · rw [hs.vmList, harena, harenaAt]
    exact h.host.pointers
  · rw [hs.vmList] at hw
    exact guestBuilt_structural hs (h.built w hw) (hept w hw)

/-- In particular after the memory of one machine was written. -/
theorem GuestsOk.guestMemoryOnly (h : GuestsOk s) (hvm : vm ∈ s.vmManagerVmList)
    (hc : GuestMemoryOnly vm s s') : GuestsOk s' :=
  GuestsOk.structural h hc.structural fun _ hw _ _ hf a ha =>
    hc.memory a (not_inGuestMemory_ept h.host hvm hw hf ha)

/-! ## Pointers into guest memory -/

/-- Every address that the walker of the extended page tables gives lies in a page
of guest memory. -/
theorem GuestBuilt.walk_inFrame (h : GuestBuilt s vm) {gpa hpa : Word}
    (hwalk : vmxEptGetHostPhysicalAddress s.memory (s.vmAt vm) gpa = some hpa) :
    ∃ f, (frameAddress f, .guestPhysical, false) ∈ contents (trackedOf s vm) ∧
      hpa = frameAddress f + linearAddressGetOffset gpa := by
  obtain ⟨host, hmapped⟩ := h.mapped
  have hbounded := h.bounded
  have hresolves := (GuestMapped.resolves_iff hmapped hbounded gpa).mp (by rw [hwalk]; rfl)
  have hi : gpa.toNat % 2 ^ 48 / 4096 < guestPages s vm := by omega
  have hpath : eptPath gpa = eptPath (guestPage (gpa.toNat % 2 ^ 48 / 4096)) := by
    rw [← eptPath_low48, eptPath_eq_iff (guestPage_ok (by omega)) (by rw [toNat_low48]; omega),
      InPage, toNat_guestPage (by omega), toNat_low48]
    omega
  rw [walk_eq hmapped.ok, hpath, hmapped.mapped _ hi] at hwalk
  refine ⟨_, hmapped.tracked _ hi, ?_⟩
  exact (Option.some_inj.mp hwalk).symm.trans (leafAddress_eptEntry (pageOk_frameAddress _) gpa)

/-- A pointer that the handler found for data on one page points into guest memory. -/
theorem GuestBuilt.pointer_inGuestMemory (h : GuestBuilt s vm) {cr3 gva p : Word} {bytes : ℕ}
    (hp : guestHostva s.memory (s.vmAt vm) cr3 gva = some p)
    (hpage : p.toNat % 4096 + bytes ≤ 4096) {a : Word} (ha : (a - v2pIdentityMap p).toNat < bytes) :
    InGuestMemory s vm a := by
  rw [guestHostva, Option.map_eq_some_iff] at hp
  obtain ⟨hpa, hwalk, rfl⟩ := hp
  rw [Option.bind_eq_some_iff] at hwalk
  obtain ⟨gpa, -, hwalk⟩ := hwalk
  obtain ⟨f, hf, rfl⟩ := GuestBuilt.walk_inFrame h hwalk
  have hbase : rkhvPhysicalMemoryBase.toNat = 0x10000000000 := rfl
  have hframe := toNat_frameAddress f
  have hlimit := f.isLt
  have hin := inFrame_guestOffset f gpa
  rw [v2p_p2v] at ha
  rw [p2vIdentityMap, BitVec.toNat_add, hbase] at hpage
  refine ⟨f, hf, ?_⟩
  rw [InFrame] at hin ⊢
  bv_omega

/-! ## Instructions -/

theorem IoSize.outAccess (size : IoSize) : OutAccess size.vmOut := by
  cases size
  · exact outAccess_vmOutb
  · exact outAccess_vmOutw
  · exact outAccess_vmOutd

theorem IoSize.inAccess (size : IoSize) : InAccess size.vmIn := by
  cases size
  · exact inAccess_vmInb
  · exact inAccess_vmInw
  · exact inAccess_vmInd

/-- What the six macros have, for every size, every instruction of the table has. -/
theorem emulatedIoInstruction_rule {P : EmulatedIo → Prop}
    (hout : ∀ size : IoSize, P (vmEmulatedInstructionOutSingle size.bytes size.vmOut))
    (hin : ∀ (size : IoSize) mask, P (vmEmulatedInstructionInSingle size.bytes size.vmIn mask))
    (houtStr : ∀ size : IoSize, P (vmEmulatedInstructionOutStr size.bytes size.vmOut))
    (hinStr : ∀ size : IoSize, P (vmEmulatedInstructionInStr size.bytes size.vmIn))
    (hrep : ∀ string, P string → P (vmEmulatedInstructionIoStrrep string))
    {exitQualification : Word} {instruction : EmulatedIo}
    (h : emulatedIoInstruction exitQualification = some instruction) : P instruction := by
  rw [emulatedIoInstruction, Option.bind_eq_some_iff] at h
  obtain ⟨forms, hforms, hchosen⟩ := h
  have hall : P forms.single ∧ P forms.str ∧ P forms.strrep := by
    have houts : ∀ size : IoSize, P (vmEmulatedInstructionOutSingle size.bytes size.vmOut) ∧
        P (vmEmulatedInstructionOutStr size.bytes size.vmOut) ∧ P (vmEmulatedInstructionIoStrrep
          (vmEmulatedInstructionOutStr size.bytes size.vmOut)) := fun size =>
      ⟨hout size, houtStr size, hrep _ (houtStr size)⟩
    have hins : ∀ (size : IoSize) mask, P (vmEmulatedInstructionInSingle size.bytes size.vmIn mask) ∧
        P (vmEmulatedInstructionInStr size.bytes size.vmIn) ∧ P (vmEmulatedInstructionIoStrrep
          (vmEmulatedInstructionInStr size.bytes size.vmIn)) := fun size mask =>
      ⟨hin size mask, hinStr size, hrep _ (hinStr size)⟩
    unfold emulatedIoInstructions at hforms
    split at hforms
    · split at hforms
      · cases hforms
        exact houts .b
      split at hforms
      · cases hforms
        exact houts .w
      split at hforms
      · cases hforms
        exact houts .d
      · cases hforms
    · split at hforms
      · cases hforms
        exact hins .b _
      split at hforms
      · cases hforms
        exact hins .w _
      split at hforms
      · cases hforms
        exact hins .d _
      · cases hforms
  split at hchosen
  · cases hchosen
    exact hall.1
  · cases hchosen
    exact hall.2.1
  · cases hchosen
    exact hall.2.2
  · cases hchosen

/-- Wherever it starts, the instruction changes guest memory of its machine only. -/
def ConfinedIo (instruction : EmulatedIo) : Prop :=
  ∀ vmState port s, GuestBuilt s vmState.vm → Ensures (instruction vmState port) s
    (fun vmState' s' => vmState'.vm = vmState.vm ∧ Confined vmState.vm s s') (fun _ _ => True)

/-- An access of the devices is confined. -/
theorem ensures_deviceOnly {α : Type} {f : HvM α} (hf : DeviceOnly f)
    (heffect : Ensures f s (fun _ s' => IoEffect s s') (fun _ _ => True)) (vm : Word) :
    Ensures f s (fun _ s' => Confined vm s s' ∧ s'.memory = s.memory ∧ s'.vmAt = s.vmAt)
      (fun _ _ => True) := by
  cases hrun : f s with
  | ok a s' =>
    obtain ⟨hmemory, hvm, -⟩ := hf s a s' hrun
    exact Ensures.ok hrun ⟨confined_device hf heffect hrun vm, hmemory, hvm⟩
  | error e s' =>
    rw [Ensures, hrun]
    trivial

theorem confinedIo_outSingle (size : IoSize) :
    ConfinedIo (vmEmulatedInstructionOutSingle size.bytes size.vmOut) := by
  intro vmState port s _
  simp only [vmEmulatedInstructionOutSingle, ensures_bind, ensures_pure]
  exact (ensures_deviceOnly (size.vmOut_deviceOnly _ _ _) (IoSize.outAccess size _ _ _ s)
    vmState.vm).mono (fun _ _ hd => ⟨trivial, hd.1⟩) fun _ _ _ => trivial

theorem confinedIo_inSingle (size : IoSize) (mask : Word) :
    ConfinedIo (vmEmulatedInstructionInSingle size.bytes size.vmIn mask) := by
  intro vmState port s _
  simp only [vmEmulatedInstructionInSingle, ensures_bind, ensures_pure]
  exact (ensures_deviceOnly (size.vmIn_deviceOnly _ _) (IoSize.inAccess size _ _ s)
    vmState.vm).mono (fun _ _ hd => ⟨trivial, hd.1⟩) fun _ _ _ => trivial

theorem confinedIo_outStr (size : IoSize) :
    ConfinedIo (vmEmulatedInstructionOutStr size.bytes size.vmOut) := by
  intro vmState port s _
  simp only [vmEmulatedInstructionOutStr, ensures_bind, ensures_get, ensures_pure]
  refine (hostVirtualAddress_effect _ _ _ _).mono (fun _ t ht => ?_) fun _ _ _ => trivial
  rw [ht]
  exact (ensures_deviceOnly (size.vmOut_deviceOnly _ _ _) (IoSize.outAccess size _ _ _ s)
    vmState.vm).mono (fun _ _ hd => ⟨trivial, hd.1⟩) fun _ _ _ => trivial

/-- INS stores behind the pointer that was found before the device answered. -/
theorem confinedIo_inStr (size : IoSize) :
    ConfinedIo (vmEmulatedInstructionInStr size.bytes size.vmIn) := by
  intro vmState port s hbuilt
  simp only [vmEmulatedInstructionInStr, ensures_bind, ensures_modifyMemory, ensures_pure]
  have hpointer : Ensures (vmGuestPagingGetHostVirtualAddressDuringVmexit vmState
      vmState.regState.rdi (BitVec.ofNat 64 size.bytes)) s (fun p t => t = s ∧
        ∀ a, (a - v2pIdentityMap p).toNat < size.bytes → InGuestMemory s vmState.vm a)
      (fun _ _ => True) := by
    cases hrun : vmGuestPagingGetHostVirtualAddressDuringVmexit vmState vmState.regState.rdi
        (BitVec.ofNat 64 size.bytes) s with
    | ok p t =>
      obtain ⟨rfl, hp, hpage⟩ := pointer_returned size.bytes_few.1 size.bytes_few.2 hrun
      exact Ensures.ok hrun ⟨rfl, fun _ ha => GuestBuilt.pointer_inGuestMemory hbuilt hp hpage ha⟩
    | error e t =>
      rw [Ensures, hrun]
      trivial
  refine hpointer.mono (fun p t hp => ?_) fun _ _ _ => trivial
  obtain ⟨rfl, hguest⟩ := hp
  refine (ensures_deviceOnly (size.vmIn_deviceOnly _ _) (IoSize.inAccess size _ _ t)
    vmState.vm).mono (fun value t' hd => ⟨trivial, hd.1.trans (confined_store fun a ha => ?_)⟩)
    fun _ _ _ => trivial
  refine writeBytes_apply_of_le (Nat.le_of_not_lt fun hlt => ha ?_)
  exact (hd.1.inGuestMemory_iff _ _).mpr (hguest a hlt)

theorem confinedIo_repeat {string : EmulatedIo} (h : ConfinedIo string) :
    ConfinedIo (vmEmulatedInstructionIoStrrep string) := by
  have hrounds : ∀ rounds, ConfinedIo (repeatString string rounds) := fun rounds => by
    induction rounds with
    | zero =>
      intro vmState port s _
      rw [repeatString, ensures_ite]
      exact ⟨fun _ => ⟨rfl, Confined.refl _ _⟩, fun _ => trivial⟩
    | succ rounds ih =>
      intro vmState port s hbuilt
      rw [repeatString, ensures_ite]
      refine ⟨fun _ => ⟨rfl, Confined.refl _ _⟩, fun _ => ?_⟩
      rw [ensures_bind]
      refine (h vmState port s hbuilt).mono (fun vmState' s' hround => ?_) fun _ _ _ => trivial
      obtain ⟨hvm, hc⟩ := hround
      have hbuilt' : GuestBuilt s' vmState'.vm := hvm ▸ GuestBuilt.guestMemoryOnly hbuilt hc.guestMemoryOnly
      refine (ih { vmState' with regState := { vmState'.regState with
        rcx := vmState'.regState.rcx - 1 } } port s' hbuilt').mono (fun _ _ hrest => ?_)
        fun _ _ _ => trivial
      exact ⟨hrest.1.trans hvm, hc.trans (hvm ▸ hrest.2)⟩
  exact fun vmState port s => hrounds _ vmState port s

/-- Every instruction of the table is confined to its machine. -/
theorem emulatedIoInstruction_confined {exitQualification : Word} {instruction : EmulatedIo}
    (h : emulatedIoInstruction exitQualification = some instruction) : ConfinedIo instruction :=
  emulatedIoInstruction_rule confinedIo_outSingle confinedIo_inSingle confinedIo_outStr
    confinedIo_inStr (fun _ => confinedIo_repeat) h

/-! ## The handler -/

/-- An exit other than an I/O instruction leaves the memory alone. -/
theorem handleExit_memory {hw : Hardware} {exitReason exitQualification instructionLength : Word}
    {vmState vmState' : VmxVmexitState} (hio : exitReason ≠ vmexitReasonIoInstruction)
    (h : handleExit hw exitReason exitQualification instructionLength vmState s = .ok vmState' s') :
    s'.memory = s.memory := by
  have hspec : Ensures (handleExit hw exitReason exitQualification instructionLength vmState) s
      (fun _ s' => s'.memory = s.memory) (fun _ _ => True) := by
    simp only [handleExit, vmxVmexitCrAccesses, vmEmulatedInstructionMovToCr,
      vmEmulatedInstructionMovFromCr, vmEmulatedInstructionXsetbv, vmwriteAsserted, vmxVmwrite,
      ensures_ite, ensures_bind, ensures_pure, ensures_get, ensures_modify, ensures_modifyVm, ensures_panicWith,
      ensures_vmxAssert, hio, implies_true, and_true, false_implies, true_and]
  exact hspec.of_ok h

/-- A handled exit changes guest memory of the current machine only. -/
theorem handleExit_confined {hw : Hardware} {exitReason exitQualification instructionLength : Word}
    {vmState vmState' : VmxVmexitState} (hbuilt : GuestBuilt s vmState.vm)
    (h : handleExit hw exitReason exitQualification instructionLength vmState s = .ok vmState' s') :
    Confined vmState.vm s s' := by
  have hhandled := handleExit_returned h
  have hmemory : ∀ a, ¬InGuestMemory s vmState.vm a → s'.memory a = s.memory a := by
    by_cases hio : exitReason = vmexitReasonIoInstruction
    · rw [handleExit, if_neg (by rw [hio]; decide), if_neg (by rw [hio]; decide), if_pos hio,
        bind_eq_ok] at h
      obtain ⟨v, t, hrun, h⟩ := h
      cases h
      unfold vmxVmexitIo at hrun
      cases hchosen : emulatedIoInstruction exitQualification with
      | none =>
        rw [hchosen] at hrun
        cases hrun
      | some instruction =>
        rw [hchosen] at hrun
        exact ((emulatedIoInstruction_confined hchosen _ _ _ hbuilt).of_ok hrun).2.memory
    · have hsame : s'.memory = s.memory := handleExit_memory hio h
      exact fun a _ => by rw [hsame]
  have hvmAt : s'.vmAt = s.vmAt ∨ s'.vmAt = Function.update s.vmAt vmState.vm
      { s.vmAt vmState.vm with xcr0 := newXcr0 vmState.regState } := by
    rw [hhandled.vmAt]
    split
    · exact Or.inr rfl
    · exact Or.inl rfl
  refine ⟨?_, fun w hw => ?_, hmemory⟩
  · have hrecords : (fun vm => withoutXcr0 (s'.vmAt vm)) = fun vm => withoutXcr0 (s.vmAt vm) := by
      funext w
      rcases hvmAt with hsame | hupdate
      · rw [hsame]
      · rw [hupdate, Function.update_apply]
        split
        · rename_i hw
          rw [hw]
          rfl
        · rfl
    rw [sealedPart, hrecords, hhandled.host]
    rfl
  · rcases hvmAt with hsame | hupdate
    · rw [hsame]
    · rw [hupdate, Function.update_of_ne hw]

end Rkhv.ExitMemory
