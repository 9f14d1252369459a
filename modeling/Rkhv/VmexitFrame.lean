import Rkhv.HostRuns
import Rkhv.VmexitEffects

/-!
# The frame of a handled VM exit

A handled exit moves RIP behind the instruction, keeps RFLAGS, CR0 and the
model-specific registers, and changes of the control and general registers only
those that its instruction names. The handler is cut into its three stages:
reading the guest's state, emulating the instruction and writing the state back.
-/

namespace Rkhv.VmexitFrame

open ByteMemory WordFields HostTypes HostState StateOutcome VmxInstructions VmManager Vmcs VmxMsr
open VmEmulatedInstructions VmxVmexit VmexitEffects HostRuns

/-! ## What an exit names -/

/-- Register of a MOV to or from a control register. -/
def crGpr (exitQualification : Word) : Fin 16 :=
  ⟨(vmexitQualificationCrMovGpr exitQualification).toNat, by
    rw [vmexitQualificationCrMovGpr, BitVec.toNat_and]
    exact Nat.lt_of_le_of_lt Nat.and_le_right (by decide)⟩

/-- The exit of a MOV to the given control register. -/
def MovToCr (exitReason exitQualification crn : Word) : Prop :=
  exitReason = vmexitReasonCrAccesses ∧
    vmexitQualificationCrAccessType exitQualification = vmexitQualificationCrAccessTypeMovToCr ∧
    vmexitQualificationCrCrn exitQualification = crn

instance (exitReason exitQualification crn : Word) :
    Decidable (MovToCr exitReason exitQualification crn) := inferInstanceAs (Decidable (_ ∧ _ ∧ _))

/-- The exit of a MOV from a control register. -/
def MovFromCr (exitReason exitQualification : Word) : Prop :=
  exitReason = vmexitReasonCrAccesses ∧
    vmexitQualificationCrAccessType exitQualification = vmexitQualificationCrAccessTypeMovFromCr

instance (exitReason exitQualification : Word) :
    Decidable (MovFromCr exitReason exitQualification) := inferInstanceAs (Decidable (_ ∧ _))

/-- The exit of an IN that is no string instruction, with its size. -/
def InSingle (exitReason exitQualification size : Word) : Prop :=
  exitReason = vmexitReasonIoInstruction ∧
    vmexitQualificationIoString exitQualification = false ∧
    vmexitQualificationIoDirection exitQualification ≠ 0 ∧
    vmexitQualificationIoSize exitQualification = size

/-- General registers that the instruction of an exit may change. -/
def changedGprs (exitReason exitQualification : Word) : List (Fin 16) :=
  if exitReason = vmexitReasonCpuid then cpuidGprs
  else if MovFromCr exitReason exitQualification then [crGpr exitQualification]
  else if exitReason = vmexitReasonIoInstruction then ioGprs exitQualification
  else []

/-- RAX after an IN: a byte or word replaces its low bits, a doubleword all. -/
structure InValue (exitReason exitQualification rax rax' : Word) : Prop where
  byte : InSingle exitReason exitQualification 0 →
    ∃ value : BitVec 8, rax' = rax.extractLsb' 8 56 ++ value
  word : InSingle exitReason exitQualification 1 →
    ∃ value : BitVec 16, rax' = rax.extractLsb' 16 48 ++ value
  dword : InSingle exitReason exitQualification 3 →
    ∃ value : BitVec 32, rax' = value.setWidth 64

/-! ## The IN masks -/

/-- Masking and joining replaces the low bits. -/
theorem and_fieldMask_or (x : Word) (n k : ℕ) (hn : n + k = 64) (v : BitVec n) :
    (x &&& fieldMask n k) ||| v.setWidth 64 = (x.extractLsb' n k ++ v).setWidth 64 := by
  apply BitVec.eq_of_getLsbD_eq
  intro i hi
  simp only [BitVec.getLsbD_or, BitVec.getLsbD_and, getLsbD_fieldMask, BitVec.getLsbD_setWidth,
    BitVec.getLsbD_append, BitVec.getLsbD_extractLsb', hi, decide_true, Bool.true_and]
  by_cases hin : i < n
  · simp [hin]
  · have hv : v.getLsbD i = false := BitVec.getLsbD_of_ge _ _ (by omega)
    simp [hin, hv]
    grind

theorem inSingle_value {bytes : ℕ} {vmIn : VmIn bytes} {mask : Word} {vmState vmState' : VmxVmexitState}
    {port : BitVec 16} {s s' : Hv}
    (h : vmEmulatedInstructionInSingle bytes vmIn mask vmState port s = .ok vmState' s') :
    ∃ value : BitVec (8 * bytes), vmState'.regState.rax =
      (vmState.regState.rax &&& mask) ||| value.setWidth 64 := by
  rw [vmEmulatedInstructionInSingle, bind_eq_ok] at h
  obtain ⟨value, t, _, h⟩ := h
  cases h
  exact ⟨value, rfl⟩

/-- The instruction that the table holds for an IN of some size. -/
theorem emulatedIoInstruction_in {exitQualification size : Word} {instruction : EmulatedIo}
    (h : emulatedIoInstruction exitQualification = some instruction)
    (hin : InSingle vmexitReasonIoInstruction exitQualification size) :
    (size = 0 → instruction = vmEmulatedInstructionInb) ∧
      (size = 1 → instruction = vmEmulatedInstructionInw) ∧
      (size = 3 → instruction = vmEmulatedInstructionInd) := by
  obtain ⟨_, hstring, hdirection, hsize⟩ := hin
  rw [emulatedIoInstruction, Option.bind_eq_some_iff] at h
  obtain ⟨forms, hforms, hchosen⟩ := h
  rw [hstring] at hchosen
  rw [emulatedIoInstructions, if_neg hdirection, hsize] at hforms
  have hsingle : forms.single = instruction := by
    cases hrep : vmexitQualificationIoRep exitQualification with
    | false =>
      rw [hrep] at hchosen
      exact Option.some.inj hchosen
    | true =>
      rw [hrep] at hchosen
      cases hchosen
  refine ⟨fun hs => ?_, fun hs => ?_, fun hs => ?_⟩
  · rw [hs, if_pos rfl] at hforms
    rw [← hsingle, ← Option.some.inj hforms]
  · rw [hs, if_neg (by decide), if_pos rfl] at hforms
    rw [← hsingle, ← Option.some.inj hforms]
  · rw [hs, if_neg (by decide), if_neg (by decide), if_pos rfl] at hforms
    rw [← hsingle, ← Option.some.inj hforms]

/-- What an IN leaves in RAX. -/
theorem emulatedIoInstruction_inValue {exitQualification : Word} {instruction : EmulatedIo}
    (h : emulatedIoInstruction exitQualification = some instruction)
    {vmState vmState' : VmxVmexitState} {port : BitVec 16} {s s' : Hv}
    (hrun : instruction vmState port s = .ok vmState' s') :
    InValue vmexitReasonIoInstruction exitQualification vmState.regState.rax
      vmState'.regState.rax := by
  constructor
  · intro hin
    rw [(emulatedIoInstruction_in h hin).1 rfl, vmEmulatedInstructionInb] at hrun
    obtain ⟨value, hvalue⟩ := inSingle_value hrun
    have hmask : (0xffffffffffffff00 : Word) = fieldMask 8 56 := by decide
    refine ⟨value, ?_⟩
    rw [hvalue, hmask]
    exact (and_fieldMask_or _ 8 56 rfl value).trans (BitVec.setWidth_eq _)
  · intro hin
    rw [(emulatedIoInstruction_in h hin).2.1 rfl, vmEmulatedInstructionInw] at hrun
    obtain ⟨value, hvalue⟩ := inSingle_value hrun
    have hmask : (0xffffffffffff0000 : Word) = fieldMask 16 48 := by decide
    refine ⟨value, ?_⟩
    rw [hvalue, hmask]
    exact (and_fieldMask_or _ 16 48 rfl value).trans (BitVec.setWidth_eq _)
  · intro hin
    rw [(emulatedIoInstruction_in h hin).2.2 rfl, vmEmulatedInstructionInd] at hrun
    obtain ⟨value, hvalue⟩ := inSingle_value hrun
    have hzero : vmState.regState.rax &&& (0 : Word) = 0 := BitVec.and_zero
    refine ⟨value, ?_⟩
    rw [hvalue, hzero]
    exact BitVec.zero_or

/-! ## The emulated instruction -/

/-- XCR0 values that `vm_emulated_instruction_xsetbv` stores. -/
def AcceptedXcr0 (hostXcr0 xcr0 : Word) : Prop :=
  xcr0 &&& 1 = 1 ∧ xcr0 &&& ~~~hostXcr0 = 0 ∧ xcr0 &&& 0x6 ≠ 0x4

/-- What the `switch` of the handler has done when it is left. -/
structure Handled (exitReason exitQualification instructionLength : Word)
    (vmState vmState' : VmxVmexitState) (s s' : Hv) : Prop where
  host : s' = { s with
    cpu := s'.cpu, vmAt := s'.vmAt, memory := s'.memory
    deviceList := s'.deviceList, console := s'.console }
  same : vmState' = { vmState with
    rip := vmState.rip + instructionLength
    regState := vmState'.regState, rsp := vmState'.rsp, cr3 := vmState'.cr3, cr4 := vmState'.cr4 }
  cr3 : vmState'.cr3 = if MovToCr exitReason exitQualification 3 then
    (possibleGpr vmState)[crGpr exitQualification] else vmState.cr3
  cr4 : vmState'.cr4 = if MovToCr exitReason exitQualification 4 then
    (possibleGpr vmState)[crGpr exitQualification] ||| cr4Vmxe else vmState.cr4
  cpu : s'.cpu = if MovToCr exitReason exitQualification 4 then
    cpuVmwrite s.cpu vmcsCfCr4ReadShadow ((possibleGpr vmState)[crGpr exitQualification] &&& cr4Vmxe)
    else s.cpu
  gpr : GprFrame (changedGprs exitReason exitQualification)
    (guestGpr vmState.regState vmState.rsp) (guestGpr vmState'.regState vmState'.rsp)
  movFromCr : MovFromCr exitReason exitQualification →
    (guestGpr vmState'.regState vmState'.rsp)[crGpr exitQualification] = vmState.cr3
  inValue : InValue exitReason exitQualification vmState.regState.rax vmState'.regState.rax
  xcr0 : exitReason = vmexitReasonXsetbv → AcceptedXcr0 s.xsaveHostXcr0 (newXcr0 vmState.regState)
  vmAt : s'.vmAt = if exitReason = vmexitReasonXsetbv then
    Function.update s.vmAt vmState.vm { s.vmAt vmState.vm with xcr0 := newXcr0 vmState.regState }
    else s.vmAt

variable {hw : Hardware} {exitQualification instructionLength : Word}
  {vmState vmState' : VmxVmexitState} {s s' : Hv}

theorem inValue_of_ne {exitReason exitQualification rax rax' : Word}
    (h : exitReason ≠ vmexitReasonIoInstruction) :
    InValue exitReason exitQualification rax rax' :=
  ⟨fun hin => absurd hin.1 h, fun hin => absurd hin.1 h, fun hin => absurd hin.1 h⟩

theorem movToCr_of_ne {exitReason exitQualification : Word} (h : exitReason ≠ vmexitReasonCrAccesses)
    (crn : Word) : ¬MovToCr exitReason exitQualification crn := fun hmov => h hmov.1

theorem movFromCr_of_ne {exitReason exitQualification : Word}
    (h : exitReason ≠ vmexitReasonCrAccesses) : ¬MovFromCr exitReason exitQualification :=
  fun hmov => h hmov.1

/-- An instruction other than a MOV to or from a control register leaves the
control registers and the shadow alone. -/
theorem handled_of_ne {exitReason : Word} (hcr : exitReason ≠ vmexitReasonCrAccesses)
    (hhost : s' = { s with
      vmAt := s'.vmAt, memory := s'.memory, deviceList := s'.deviceList, console := s'.console })
    (hsame : vmState' = { vmState with
      rip := vmState.rip + instructionLength, regState := vmState'.regState })
    (hgpr : GprFrame (changedGprs exitReason exitQualification)
      (guestGpr vmState.regState vmState.rsp) (guestGpr vmState'.regState vmState'.rsp))
    (hin : InValue exitReason exitQualification vmState.regState.rax vmState'.regState.rax)
    (hxcr0 : exitReason = vmexitReasonXsetbv →
      AcceptedXcr0 s.xsaveHostXcr0 (newXcr0 vmState.regState))
    (hvm : s'.vmAt = if exitReason = vmexitReasonXsetbv then
      Function.update s.vmAt vmState.vm { s.vmAt vmState.vm with xcr0 := newXcr0 vmState.regState }
      else s.vmAt) :
    Handled exitReason exitQualification instructionLength vmState vmState' s s' where
  host := by rw [hhost]
  same := by rw [hsame]
  cr3 := by rw [if_neg (movToCr_of_ne hcr 3), hsame]
  cr4 := by rw [if_neg (movToCr_of_ne hcr 4), hsame]
  cpu := by rw [if_neg (movToCr_of_ne hcr 4), hhost]
  gpr := hgpr
  movFromCr := fun hmov => absurd hmov (movFromCr_of_ne hcr)
  inValue := hin
  xcr0 := hxcr0
  vmAt := hvm

theorem handled_cpuid : Handled vmexitReasonCpuid exitQualification instructionLength vmState
    (skipInstruction instructionLength (vmEmulatedInstructionCpuid hw vmState)) s s := by
  have hcpuid : (skipInstruction instructionLength (vmEmulatedInstructionCpuid hw vmState)) =
      { vmState with
        rip := vmState.rip + instructionLength
        regState := (vmEmulatedInstructionCpuid hw vmState).regState } := by
    unfold skipInstruction vmEmulatedInstructionCpuid
    dsimp only
    split <;> rfl
  have hgpr : GprFrame cpuidGprs (guestGpr vmState.regState vmState.rsp)
      (guestGpr (vmEmulatedInstructionCpuid hw vmState).regState vmState.rsp) := by
    unfold vmEmulatedInstructionCpuid
    dsimp only
    split
    · exact GprFrame.refl _ _
    · exact gprFrame_cpuid _ _ _ _ _ _
  refine handled_of_ne (by decide) rfl ?_ ?_ (inValue_of_ne (by decide))
    (fun heq => absurd heq (by decide)) ?_
  · rw [hcpuid]
  · rw [hcpuid, changedGprs, if_pos rfl]
    exact hgpr
  · rw [if_neg (by decide)]

theorem handled_io (h : vmxVmexitIo exitQualification vmState s = .ok vmState' s') :
    Handled vmexitReasonIoInstruction exitQualification instructionLength vmState
      (skipInstruction instructionLength vmState') s s' := by
  unfold vmxVmexitIo at h
  cases hchosen : emulatedIoInstruction exitQualification with
  | none =>
    rw [hchosen] at h
    cases h
  | some instruction =>
    rw [hchosen] at h
    have hdone := (emulatedIoInstruction_changesOnly hchosen _ _ _).of_ok h
    have hhost := hdone.host
    rw [IoEffect] at hhost
    have hin := @emulatedIoInstruction_inValue _ _ hchosen _ vmState' _ _ _ h
    refine handled_of_ne (by decide) ?_ ?_ ?_ hin
      (fun heq => absurd heq (by decide)) ?_
    · rw [hhost]
    · rw [skipInstruction, hdone.same]
    · rw [changedGprs, if_neg (by decide), if_neg (movFromCr_of_ne (by decide)), if_pos rfl]
      exact hdone.gpr
    · rw [if_neg (by decide), hhost]

theorem handled_xsetbv (h : vmEmulatedInstructionXsetbv vmState s = .ok () s') :
    Handled vmexitReasonXsetbv exitQualification instructionLength vmState
      (skipInstruction instructionLength vmState) s s' := by
  have hspec : Ensures (vmEmulatedInstructionXsetbv vmState) s (fun _ s' =>
      AcceptedXcr0 s.xsaveHostXcr0 (newXcr0 vmState.regState) ∧ s' = { s with
        vmAt := Function.update s.vmAt vmState.vm
          { s.vmAt vmState.vm with xcr0 := newXcr0 vmState.regState } }) (fun _ _ => True) := by
    simp only [vmEmulatedInstructionXsetbv, ensures_ite, ensures_bind, ensures_get,
      ensures_panicWith, ensures_modifyVm, implies_true, true_and, and_true]
    intro _ hbit hbits
    rw [not_or] at hbits
    exact ⟨not_not.mp hbit, not_not.mp hbits.1, hbits.2⟩
  obtain ⟨haccepted, hs'⟩ := hspec.of_ok h
  refine handled_of_ne (by decide) ?_ rfl ?_ (inValue_of_ne (by decide)) (fun _ => haccepted) ?_
  · rw [hs']
  · rw [changedGprs, if_neg (by decide), if_neg (movFromCr_of_ne (by decide)), if_neg (by decide)]
    exact GprFrame.refl _ _
  · rw [if_pos rfl, hs']

theorem handled_crAccesses (h : vmxVmexitCrAccesses hw exitQualification vmState s = .ok vmState' s') :
    Handled vmexitReasonCrAccesses exitQualification instructionLength vmState
      (skipInstruction instructionLength vmState') s s' := by
  have hmovTo : ∀ crn, MovToCr vmexitReasonCrAccesses exitQualification crn ↔
      vmexitQualificationCrAccessType exitQualification = vmexitQualificationCrAccessTypeMovToCr ∧
        vmexitQualificationCrCrn exitQualification = crn := fun crn => by
    rw [MovToCr, eq_self_iff_true, true_and]
  have hindex : (possibleGpr vmState)[(vmexitQualificationCrMovGpr exitQualification).toNat]! =
      (possibleGpr vmState)[crGpr exitQualification] :=
    getElem!_pos (possibleGpr vmState) _ (crGpr exitQualification).isLt
  unfold vmxVmexitCrAccesses at h
  by_cases hto : vmexitQualificationCrAccessType exitQualification =
      vmexitQualificationCrAccessTypeMovToCr
  · have hfrom : ¬MovFromCr vmexitReasonCrAccesses exitQualification := fun hfrom => by
      rw [MovFromCr, hto] at hfrom
      exact absurd hfrom.2 (by decide)
    have hchanged : changedGprs vmexitReasonCrAccesses exitQualification = [] := by
      rw [changedGprs, if_neg (by decide), if_neg hfrom, if_neg (by decide)]
    rw [if_pos hto, hindex, vmEmulatedInstructionMovToCr] at h
    by_cases h3 : vmexitQualificationCrCrn exitQualification = 3
    · rw [if_pos h3] at h
      cases h
      have h4 : ¬MovToCr vmexitReasonCrAccesses exitQualification 4 := fun h4 => by
        rw [hmovTo, h3] at h4
        exact absurd h4.2 (by decide)
      exact {
        host := rfl
        same := rfl
        cr3 := (if_pos ((hmovTo 3).mpr ⟨hto, h3⟩)).symm
        cr4 := (if_neg h4).symm
        cpu := (if_neg h4).symm
        gpr := hchanged ▸ GprFrame.refl _ _
        movFromCr := fun hf => absurd hf hfrom
        inValue := inValue_of_ne (by decide)
        xcr0 := fun heq => absurd heq (by decide)
        vmAt := (if_neg (by decide)).symm }
    · rw [if_neg h3] at h
      have h3' : ¬MovToCr vmexitReasonCrAccesses exitQualification 3 := fun hmov =>
        h3 ((hmovTo 3).mp hmov).2
      by_cases h4 : vmexitQualificationCrCrn exitQualification = 4
      · rw [if_pos h4, bind_eq_ok] at h
        obtain ⟨_, t, hwrite, h⟩ := h
        cases h
        have hwritten := vmwriteAsserted_returned hwrite
        have h4' := (hmovTo 4).mpr ⟨hto, h4⟩
        exact {
          host := by rw [hwritten]
          same := rfl
          cr3 := (if_neg h3').symm
          cr4 := (if_pos h4').symm
          cpu := by rw [if_pos h4', hwritten]
          gpr := hchanged ▸ GprFrame.refl _ _
          movFromCr := fun hf => absurd hf hfrom
          inValue := inValue_of_ne (by decide)
          xcr0 := fun heq => absurd heq (by decide)
          vmAt := by rw [if_neg (by decide), hwritten] }
      · rw [if_neg h4] at h
        cases h
  · have hnot : ∀ crn, ¬MovToCr vmexitReasonCrAccesses exitQualification crn :=
      fun crn hmov => hto ((hmovTo crn).mp hmov).1
    rw [if_neg hto] at h
    by_cases hfrom : vmexitQualificationCrAccessType exitQualification =
        vmexitQualificationCrAccessTypeMovFromCr
    · rw [if_pos hfrom, bind_eq_ok] at h
      obtain ⟨value, t, hread, h⟩ := h
      cases h
      have hvalue : value = vmState.cr3 ∧ s' = s := by
        rw [vmEmulatedInstructionMovFromCr] at hread
        split at hread
        · cases hread
          exact ⟨rfl, rfl⟩
        · cases hread
      obtain ⟨hcr3, rfl⟩ := hvalue
      have hgprs := gprFrame_withGprs vmState (crGpr exitQualification) value
      exact {
        host := rfl
        same := rfl
        cr3 := (if_neg (hnot 3)).symm
        cr4 := (if_neg (hnot 4)).symm
        cpu := (if_neg (hnot 4)).symm
        gpr := by
          rw [changedGprs, if_neg (by decide), if_pos ⟨rfl, hfrom⟩]
          exact hgprs.1
        movFromCr := fun _ => hgprs.2.trans hcr3
        inValue := inValue_of_ne (by decide)
        xcr0 := fun heq => absurd heq (by decide)
        vmAt := (if_neg (by decide)).symm }
    · rw [if_neg hfrom] at h
      cases h

/-- The `switch` of the handler as a whole. -/
theorem handleExit_returned {exitReason : Word}
    (h : handleExit hw exitReason exitQualification instructionLength vmState s = .ok vmState' s') :
    Handled exitReason exitQualification instructionLength vmState vmState' s s' := by
  unfold handleExit at h
  split at h
  · rename_i hreason
    cases h
    exact hreason ▸ handled_cpuid
  split at h
  · rename_i hreason
    rw [bind_eq_ok] at h
    obtain ⟨v, t, hrun, h⟩ := h
    cases h
    exact hreason ▸ handled_crAccesses hrun
  split at h
  · rename_i hreason
    rw [bind_eq_ok] at h
    obtain ⟨v, t, hrun, h⟩ := h
    cases h
    exact hreason ▸ handled_io hrun
  split at h
  · cases h
  split at h
  · cases h
  split at h
  · rename_i hreason
    rw [bind_eq_ok] at h
    obtain ⟨v, t, hrun, h⟩ := h
    cases h
    exact hreason ▸ handled_xsetbv hrun
  split at h
  · cases h
  · cases h

/-! ## Reading and writing the guest's state -/

theorem vmManagerGetCurrentVm_returned {vm : Word} (h : vmManagerGetCurrentVm hw s = .ok vm s') :
    s.vmManagerCurrentVm = some vm ∧ s' = s := by
  have hspec : Ensures (vmManagerGetCurrentVm hw) s
      (fun vm t => s.vmManagerCurrentVm = some vm ∧ t = s) (fun _ _ => True) := by
    simp only [vmManagerGetCurrentVm, vmxVmptrst, ensures_bind, ensures_get, ensures_pure,
      ensures_vmxAssert, implies_true, and_true]
    intro _
    cases hcurrent : s.vmManagerCurrentVm with
    | none => trivial
    | some vm =>
      rw [ensures_ite]
      exact ⟨fun _ => trivial, fun _ => ⟨rfl, rfl⟩⟩
  exact hspec.of_ok h

/-- `vm_state` when the `switch` is entered. -/
structure ReadState (s s' : Hv) (reg : VmxVmexitRegState) (vmState : VmxVmexitState) : Prop where
  host : s' = { s with
    cpu := { s.cpu with msr := loadRwbk (rwbkValue s.vmxMsrHostBackup) s.cpu.msr } }
  vm : s.vmManagerCurrentVm = some vmState.vm
  regState : vmState.regState = reg
  rip : vmState.rip = currentField s.cpu vmcsGuestRip
  rsp : vmState.rsp = currentField s.cpu vmcsGuestRsp
  rflags : vmState.rflags = currentField s.cpu vmcsGuestRflags
  cr0 : vmState.cr0 = currentField s.cpu vmcsGuestCr0
  cr3 : vmState.cr3 = currentField s.cpu vmcsGuestCr3
  cr4 : vmState.cr4 = currentField s.cpu vmcsGuestCr4
  vmcsMsr : ∀ entry : VmcsMsr, vmcsValue vmState.msrs entry = currentField s.cpu entry.field
  rwbkMsr : ∀ entry : RwbkMsr, rwbkValue vmState.msrs entry = s.cpu.msr entry.addr

/-- `vm_state` before the model-specific registers are exchanged. -/
def initialVmState (cpu : Cpu) (reg : VmxVmexitRegState) (vm : Word) : VmxVmexitState where
  vm := vm
  regState := reg
  rip := currentField cpu vmcsGuestRip
  rsp := currentField cpu vmcsGuestRsp
  rflags := currentField cpu vmcsGuestRflags
  cr0 := currentField cpu vmcsGuestCr0
  cr3 := currentField cpu vmcsGuestCr3
  cr4 := currentField cpu vmcsGuestCr4
  msrs := default

/-- The reads change nothing, so that the exchange starts from the exit's state. -/
theorem readVmState_exchanges {reg : VmxVmexitRegState}
    (h : readVmState hw reg s = .ok vmState s') : ∃ vm, s.vmManagerCurrentVm = some vm ∧
      vmxMsrVmexit hw (initialVmState s.cpu reg vm) s = .ok vmState s' := by
  rw [readVmState, bind_eq_ok] at h
  obtain ⟨vm, s₀, hvm, h⟩ := h
  obtain ⟨hcurrent, rfl⟩ := vmManagerGetCurrentVm_returned hvm
  rw [bind_eq_ok] at h
  obtain ⟨rip, _, hread, h⟩ := h
  obtain ⟨rfl, rfl⟩ := vmreadAsserted_returned hread
  rw [bind_eq_ok] at h
  obtain ⟨rsp, _, hread, h⟩ := h
  obtain ⟨rfl, rfl⟩ := vmreadAsserted_returned hread
  rw [bind_eq_ok] at h
  obtain ⟨rflags, _, hread, h⟩ := h
  obtain ⟨rfl, rfl⟩ := vmreadAsserted_returned hread
  rw [bind_eq_ok] at h
  obtain ⟨cr0, _, hread, h⟩ := h
  obtain ⟨rfl, rfl⟩ := vmreadAsserted_returned hread
  rw [bind_eq_ok] at h
  obtain ⟨cr3, _, hread, h⟩ := h
  obtain ⟨rfl, rfl⟩ := vmreadAsserted_returned hread
  rw [bind_eq_ok] at h
  obtain ⟨cr4, _, hread, h⟩ := h
  obtain ⟨rfl, rfl⟩ := vmreadAsserted_returned hread
  exact ⟨vm, hcurrent, h⟩

theorem readVmState_returned {reg : VmxVmexitRegState}
    (h : readVmState hw reg s = .ok vmState s') : ReadState s s' reg vmState := by
  obtain ⟨vm, hcurrent, hexit⟩ := readVmState_exchanges h
  obtain ⟨⟨msrs, rfl, hvmcs, hrwbk⟩, hs'⟩ := vmxMsrVmexit_returned hexit
  exact ⟨hs', hcurrent, rfl, rfl, rfl, rfl, rfl, rfl, rfl, hvmcs, hrwbk⟩

/-- The processor after `vm_state` was written back. -/
structure WrittenState (s s' : Hv) (vmState : VmxVmexitState) : Prop where
  host : s' = { s with
    vmxMsrHostBackup := withRwbk (fun entry => s.cpu.msr entry.addr) s.vmxMsrHostBackup
    cpu := s'.cpu }
  vmcsPointer : s'.cpu.vmcsPointer = s.cpu.vmcsPointer
  msr : s'.cpu.msr = loadRwbk (rwbkValue vmState.msrs) s.cpu.msr
  rip : currentField s'.cpu vmcsGuestRip = vmState.rip
  rsp : currentField s'.cpu vmcsGuestRsp = vmState.rsp
  rflags : currentField s'.cpu vmcsGuestRflags = vmState.rflags
  cr0 : currentField s'.cpu vmcsGuestCr0 = vmState.cr0
  cr3 : currentField s'.cpu vmcsGuestCr3 = vmState.cr3
  cr4 : currentField s'.cpu vmcsGuestCr4 = vmState.cr4
  vmcsMsr : ∀ entry : VmcsMsr, currentField s'.cpu entry.field = vmcsValue vmState.msrs entry
  other : ∀ field, (∀ entry : VmcsMsr, field ≠ entry.field) → field ∉ [vmcsGuestRip, vmcsGuestRsp,
    vmcsGuestRflags, vmcsGuestCr0, vmcsGuestCr3, vmcsGuestCr4] →
    currentField s'.cpu field = currentField s.cpu field

/-- The processor after the registers of `vm_state` were written. -/
def writtenCpu (cpu : Cpu) (vmState : VmxVmexitState) : Cpu :=
  [(vmcsGuestRip, vmState.rip), (vmcsGuestRsp, vmState.rsp), (vmcsGuestRflags, vmState.rflags),
    (vmcsGuestCr0, vmState.cr0), (vmcsGuestCr3, vmState.cr3), (vmcsGuestCr4, vmState.cr4)].foldl
    (fun written entry => cpuVmwrite written entry.1 entry.2) cpu

/-- The resume starts with the written registers. -/
theorem writeVmState_exchanges (h : writeVmState hw vmState s = .ok () s') :
    vmxMsrVmresume hw vmState { s with cpu := writtenCpu s.cpu vmState } = .ok () s' := by
  rw [writeVmState, bind_eq_ok] at h
  obtain ⟨_, _, hwrite, h⟩ := h
  obtain rfl := vmwriteAsserted_returned hwrite
  rw [bind_eq_ok] at h
  obtain ⟨_, _, hwrite, h⟩ := h
  obtain rfl := vmwriteAsserted_returned hwrite
  rw [bind_eq_ok] at h
  obtain ⟨_, _, hwrite, h⟩ := h
  obtain rfl := vmwriteAsserted_returned hwrite
  rw [bind_eq_ok] at h
  obtain ⟨_, _, hwrite, h⟩ := h
  obtain rfl := vmwriteAsserted_returned hwrite
  rw [bind_eq_ok] at h
  obtain ⟨_, _, hwrite, h⟩ := h
  obtain rfl := vmwriteAsserted_returned hwrite
  rw [bind_eq_ok] at h
  obtain ⟨_, _, hwrite, h⟩ := h
  obtain rfl := vmwriteAsserted_returned hwrite
  exact h

theorem currentField_writtenCpu (cpu : Cpu) (vmState : VmxVmexitState) (field : Word) :
    currentField (writtenCpu cpu vmState) field =
      if field = vmcsGuestCr4 then vmState.cr4
      else if field = vmcsGuestCr3 then vmState.cr3
      else if field = vmcsGuestCr0 then vmState.cr0
      else if field = vmcsGuestRflags then vmState.rflags
      else if field = vmcsGuestRsp then vmState.rsp
      else if field = vmcsGuestRip then vmState.rip
      else currentField cpu field := by
  simp only [writtenCpu, List.foldl_cons, List.foldl_nil, currentField_cpuVmwrite]

theorem writeVmState_returned (h : writeVmState hw vmState s = .ok () s') :
    WrittenState s s' vmState := by
  obtain ⟨cpu, rfl, hmsr, hpointer, hvmcs, hother⟩ :=
    vmxMsrVmresume_returned (writeVmState_exchanges h)
  have hne : ∀ field, field ∈ [vmcsGuestRip, vmcsGuestRsp, vmcsGuestRflags, vmcsGuestCr0,
      vmcsGuestCr3, vmcsGuestCr4] → ∀ entry : VmcsMsr, field ≠ entry.field := by
    intro field hmem entry heq
    rw [heq] at hmem
    cases entry <;> exact absurd hmem (by decide)
  refine ⟨rfl, hpointer, hmsr, ?_, ?_, ?_, ?_, ?_, ?_, hvmcs, fun field hentry hfield => ?_⟩
  · rw [hother _ (hne _ (by decide)), currentField_writtenCpu]
    simp [vmcsGuestRip, vmcsGuestRsp, vmcsGuestRflags, vmcsGuestCr0, vmcsGuestCr3, vmcsGuestCr4]
  · rw [hother _ (hne _ (by decide)), currentField_writtenCpu]
    simp [vmcsGuestRsp, vmcsGuestRflags, vmcsGuestCr0, vmcsGuestCr3, vmcsGuestCr4]
  · rw [hother _ (hne _ (by decide)), currentField_writtenCpu]
    simp [vmcsGuestRflags, vmcsGuestCr0, vmcsGuestCr3, vmcsGuestCr4]
  · rw [hother _ (hne _ (by decide)), currentField_writtenCpu]
    simp [vmcsGuestCr0, vmcsGuestCr3, vmcsGuestCr4]
  · rw [hother _ (hne _ (by decide)), currentField_writtenCpu]
    simp [vmcsGuestCr3, vmcsGuestCr4]
  · rw [hother _ (hne _ (by decide)), currentField_writtenCpu, if_pos rfl]
  · simp only [List.mem_cons, List.not_mem_nil, or_false, not_or] at hfield
    rw [hother field hentry, currentField_writtenCpu]
    simp only [hfield, if_false]

/-! ## The handler -/

/-- The three stages of a handled exit. -/
theorem vmxVmexitHandler_stages {reg reg' : VmxVmexitRegState} {vm : Word}
    (h : vmxVmexitHandler hw reg s = .ok (reg', vm) s') :
    ∃ vmState vmState' t t', readVmState hw reg s = .ok vmState t ∧
      handleExit hw (currentField s.cpu vmcsExitReason) (currentField s.cpu vmcsExitQualification)
        (currentField s.cpu vmcsVmExitInstructionLength) vmState t = .ok vmState' t' ∧
      writeVmState hw vmState' t' = .ok () s' ∧ reg' = vmState'.regState ∧ vm = vmState'.vm := by
  rw [vmxVmexitHandler, bind_eq_ok] at h
  obtain ⟨reason, _, hread, h⟩ := h
  obtain ⟨rfl, rfl⟩ := vmreadAsserted_returned hread
  rw [bind_eq_ok] at h
  obtain ⟨qualification, _, hread, h⟩ := h
  obtain ⟨rfl, rfl⟩ := vmreadAsserted_returned hread
  rw [bind_eq_ok] at h
  obtain ⟨length, _, hread, h⟩ := h
  obtain ⟨rfl, rfl⟩ := vmreadAsserted_returned hread
  rw [bind_eq_ok] at h
  obtain ⟨vmState, t, hread, h⟩ := h
  rw [bind_eq_ok] at h
  obtain ⟨vmState', t', hhandle, h⟩ := h
  rw [bind_eq_ok] at h
  obtain ⟨_, t'', hwrite, h⟩ := h
  cases h
  exact ⟨vmState, vmState', t, t', hread, hhandle, hwrite, rfl, rfl⟩

/-- The architectural frame of a handled exit, from the states and general
registers before and after it. -/
structure ExitFrame (s s' : Hv) (reg reg' : VmxVmexitRegState) (exitReason exitQualification
    instructionLength : Word) : Prop where
  /-- The same VMCS is the current one. -/
  vmcsPointer : s'.cpu.vmcsPointer = s.cpu.vmcsPointer
  rip : currentField s'.cpu vmcsGuestRip = currentField s.cpu vmcsGuestRip + instructionLength
  rflags : currentField s'.cpu vmcsGuestRflags = currentField s.cpu vmcsGuestRflags
  cr0 : currentField s'.cpu vmcsGuestCr0 = currentField s.cpu vmcsGuestCr0
  vmcsMsr : ∀ entry : VmcsMsr, currentField s'.cpu entry.field = currentField s.cpu entry.field
  msr : s'.cpu.msr = s.cpu.msr
  cr3 : ¬MovToCr exitReason exitQualification 3 →
    currentField s'.cpu vmcsGuestCr3 = currentField s.cpu vmcsGuestCr3
  cr4 : ¬MovToCr exitReason exitQualification 4 →
    currentField s'.cpu vmcsGuestCr4 = currentField s.cpu vmcsGuestCr4
  rsp : ¬(MovFromCr exitReason exitQualification ∧ crGpr exitQualification = 4) →
    currentField s'.cpu vmcsGuestRsp = currentField s.cpu vmcsGuestRsp
  gpr : GprFrame (changedGprs exitReason exitQualification)
    (guestGpr reg (currentField s.cpu vmcsGuestRsp))
    (guestGpr reg' (currentField s'.cpu vmcsGuestRsp))
  /-- A MOV from a control register loads the register with CR3. -/
  movFromCr : MovFromCr exitReason exitQualification →
    (guestGpr reg' (currentField s'.cpu vmcsGuestRsp))[crGpr exitQualification] =
      currentField s.cpu vmcsGuestCr3
  inValue : InValue exitReason exitQualification reg.rax reg'.rax

theorem ioGprs_rsp (exitQualification : Word) : (4 : Fin 16) ∉ ioGprs exitQualification := by
  unfold ioGprs
  split
  · split <;> decide
  · dsimp only
    split <;> split <;> decide

/-- RSP is changed by a MOV from a control register with index 4 only. -/
theorem changedGprs_rsp {exitReason exitQualification : Word}
    (h : ¬(MovFromCr exitReason exitQualification ∧ crGpr exitQualification = 4)) :
    (4 : Fin 16) ∉ changedGprs exitReason exitQualification := by
  unfold changedGprs
  split
  · decide
  split
  · rename_i hfrom
    exact fun hmem => h ⟨hfrom, (List.mem_singleton.mp hmem).symm⟩
  split
  · exact ioGprs_rsp exitQualification
  · exact List.not_mem_nil

/-- Every exit that `vmx_vmexit_handler` handles has its architectural frame. -/
theorem vmxVmexitHandler_frame {reg reg' : VmxVmexitRegState} {vm : Word}
    (h : vmxVmexitHandler hw reg s = .ok (reg', vm) s') :
    ExitFrame s s' reg reg' (currentField s.cpu vmcsExitReason)
      (currentField s.cpu vmcsExitQualification)
      (currentField s.cpu vmcsVmExitInstructionLength) := by
  obtain ⟨vmState, vmState', t, t', hcall, hcall', hcall'', rfl, rfl⟩ := vmxVmexitHandler_stages h
  have hread := readVmState_returned hcall
  have hhandled := handleExit_returned hcall'
  have hwritten := writeVmState_returned hcall''
  have hmsrs : vmState'.msrs = vmState.msrs := by rw [hhandled.same]
  have hgpr := hhandled.gpr
  rw [hread.regState, hread.rsp, ← hwritten.rsp] at hgpr
  have hpointer : t'.cpu.vmcsPointer = s.cpu.vmcsPointer := by
    rw [hhandled.cpu, hread.host]
    split <;> rfl
  have hexit : t'.cpu.msr = loadRwbk (rwbkValue s.vmxMsrHostBackup) s.cpu.msr := by
    rw [hhandled.cpu, hread.host]
    split <;> rfl
  have hguest : rwbkValue vmState.msrs = fun entry : RwbkMsr => s.cpu.msr entry.addr :=
    funext hread.rwbkMsr
  exact {
    vmcsPointer := hwritten.vmcsPointer.trans hpointer
    rip := by rw [hwritten.rip, hhandled.same, hread.rip]
    rflags := by rw [hwritten.rflags, hhandled.same, hread.rflags]
    cr0 := by rw [hwritten.cr0, hhandled.same, hread.cr0]
    vmcsMsr := fun entry => by rw [hwritten.vmcsMsr, hmsrs, hread.vmcsMsr]
    msr := by rw [hwritten.msr, hmsrs, hexit, loadRwbk_loadRwbk, hguest, loadRwbk_self]
    cr3 := fun hmov => by rw [hwritten.cr3, hhandled.cr3, if_neg hmov, hread.cr3]
    cr4 := fun hmov => by rw [hwritten.cr4, hhandled.cr4, if_neg hmov, hread.cr4]
    rsp := fun hmov => hgpr 4 (changedGprs_rsp hmov)
    gpr := hgpr
    movFromCr := fun hmov => by rw [hwritten.rsp, hhandled.movFromCr hmov, hread.cr3]
    inValue := hread.regState ▸ hhandled.inValue }

/-- A host whose current VMCS, the one of its current machine, has given fields. -/
def exitingHost (field : Word → Word) : Hv :=
  { bootState default (fun _ => 0) ⟨0x5000, fun _ => field, fun _ => 0⟩ with
    vmManagerCurrentVm := some firstVm
    vmAt := fun _ => { (default : Vm) with vmcsRegion := 0x5000 } }

/-- Fields of an exit for an IN of one byte. -/
def inByteExit (field : Word) : Word :=
  if field = vmcsExitReason then vmexitReasonIoInstruction
  else if field = vmcsExitQualification then 0x3f80008
  else if field = vmcsVmExitInstructionLength then 1
  else 0xffffffffffffffff

/-- An IN of one byte clears the low byte of RAX, and RIP wraps to zero. -/
theorem vmxVmexitHandler_frame_inByte : ∃ reg' vm s',
    vmxVmexitHandler obedientHardware { (default : VmxVmexitRegState) with rax := 0x1234 }
      (exitingHost inByteExit) = .ok (reg', vm) s' ∧ reg'.rax = 0x1200 ∧
      currentField s'.cpu vmcsGuestRip = 0 ∧
      ExitFrame (exitingHost inByteExit) s' { (default : VmxVmexitRegState) with rax := 0x1234 }
        reg' vmexitReasonIoInstruction 0x3f80008 1 := by
  have hreturned : (match vmxVmexitHandler obedientHardware
      { (default : VmxVmexitRegState) with rax := 0x1234 } (exitingHost inByteExit) with
      | .ok result s' => result.1.rax == 0x1200 && currentField s'.cpu vmcsGuestRip == 0
      | .error _ _ => false) = true := by
    decide +kernel
  cases hrun : vmxVmexitHandler obedientHardware
      { (default : VmxVmexitRegState) with rax := 0x1234 } (exitingHost inByteExit) with
  | ok result s' =>
    have hframe := @vmxVmexitHandler_frame obedientHardware (exitingHost inByteExit) s'
      { (default : VmxVmexitRegState) with rax := 0x1234 } result.1 result.2 hrun
    rw [hrun] at hreturned
    have htests := (Bool.and_eq_true _ _).mp hreturned
    exact ⟨result.1, result.2, s', rfl, beq_iff_eq.mp htests.1, beq_iff_eq.mp htests.2, hframe⟩
  | error _ _ =>
    rw [hrun] at hreturned
    cases hreturned

end Rkhv.VmexitFrame
