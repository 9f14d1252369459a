import Rkhv.VmEmulatedInstructions
import Rkhv.VmManager

/-!
# The VM-exit handler

`vmx_vmexit_handler` reads the guest's registers from the VMCS, exchanges the
model-specific registers, lets the instruction of the exit be emulated, moves
RIP behind it and writes everything back.
-/

namespace Rkhv.VmxVmexit

open ByteMemory HostTypes HostState StateOutcome VmxInstructions VmManager Vmcs VmxMsr
open VmEmulatedInstructions

/-! ## Constants -/

/-- `VMCS_EXIT_REASON` -/
def vmcsExitReason : Word := 0x4402

/-- `VMCS_EXIT_QUALIFICATION` -/
def vmcsExitQualification : Word := 0x6400

/-- `VMCS_VM_EXIT_INSTRUCTION_LENGTH` -/
def vmcsVmExitInstructionLength : Word := 0x440c

def vmexitReasonCpuid : Word := 10
def vmexitReasonHlt : Word := 12
def vmexitReasonCrAccesses : Word := 28
def vmexitReasonIoInstruction : Word := 30
def vmexitReasonRdmsr : Word := 31
def vmexitReasonWrmsr : Word := 32
def vmexitReasonXsetbv : Word := 55

/-- `VMEXIT_QUALIFICATION_CR_CRN` -/
def vmexitQualificationCrCrn (x : Word) : Word := x &&& 0xf

/-- `VMEXIT_QUALIFICATION_CR_ACCESS_TYPE` -/
def vmexitQualificationCrAccessType (x : Word) : Word := (x >>> 4) &&& 3

def vmexitQualificationCrAccessTypeMovToCr : Word := 0
def vmexitQualificationCrAccessTypeMovFromCr : Word := 1

/-- `VMEXIT_QUALIFICATION_CR_MOV_GPR` -/
def vmexitQualificationCrMovGpr (x : Word) : Word := (x >>> 8) &&& 0xf

/-- `VMEXIT_QUALIFICATION_IO_SIZE` -/
def vmexitQualificationIoSize (x : Word) : Word := x &&& 3

/-- `VMEXIT_QUALIFICATION_IO_DIRECTION`, 1 for an `in`. -/
def vmexitQualificationIoDirection (x : Word) : Word := (x >>> 3) &&& 1

/-- `VMEXIT_QUALIFICATION_IO_STRING` -/
def vmexitQualificationIoString (x : Word) : Bool := (x >>> 4) &&& 1 ≠ 0

/-- `VMEXIT_QUALIFICATION_IO_REP` -/
def vmexitQualificationIoRep (x : Word) : Bool := (x >>> 5) &&& 1 ≠ 0

/-- `VMEXIT_QUALIFICATION_IO_PORT` -/
def vmexitQualificationIoPort (x : Word) : BitVec 16 := (x >>> 16).setWidth 16

/-! ## General registers -/

/-- What the pointers of `possible_gpr` point to. -/
def possibleGpr (vmState : VmxVmexitState) : Vector Word 16 :=
  let reg := vmState.regState
  #v[reg.rax, reg.rcx, reg.rdx, reg.rbx, vmState.rsp, reg.rbp, reg.rsi, reg.rdi,
    reg.r8, reg.r9, reg.r10, reg.r11, reg.r12, reg.r13, reg.r14, reg.r15]

/-- `vm_state` with given values behind the pointers of `possible_gpr`. -/
def withGprs (vmState : VmxVmexitState) (gpr : Vector Word 16) : VmxVmexitState :=
  { vmState with
    rsp := gpr[4]
    regState := {
      rax := gpr[0], rcx := gpr[1], rdx := gpr[2], rbx := gpr[3], rbp := gpr[5], rsi := gpr[6]
      rdi := gpr[7], r8 := gpr[8], r9 := gpr[9], r10 := gpr[10], r11 := gpr[11], r12 := gpr[12]
      r13 := gpr[13], r14 := gpr[14], r15 := gpr[15] } }

/-- `vmx_vmexit_cr_accesses` -/
def vmxVmexitCrAccesses (hw : Hardware) (exitQualification : Word) (vmState : VmxVmexitState) :
    HvM VmxVmexitState := do
  let crn := vmexitQualificationCrCrn exitQualification
  let gpr := possibleGpr vmState
  let index := (vmexitQualificationCrMovGpr exitQualification).toNat
  if vmexitQualificationCrAccessType exitQualification =
      vmexitQualificationCrAccessTypeMovToCr then
    vmEmulatedInstructionMovToCr hw vmState crn gpr[index]!
  else if vmexitQualificationCrAccessType exitQualification =
      vmexitQualificationCrAccessTypeMovFromCr then
    let value ← vmEmulatedInstructionMovFromCr vmState crn
    return withGprs vmState (gpr.setIfInBounds index value)
  else panicWith "unsupported CR VM-exit qualification"

/-! ## Ports -/

/-- The three forms of an instruction in `emulated_io_instructions`. -/
structure EmulatedIoForms where
  single : EmulatedIo
  str : EmulatedIo
  strrep : EmulatedIo

/-- `emulated_io_instructions`; the entries of size 2 are null. -/
def emulatedIoInstructions (direction size : Word) : Option EmulatedIoForms :=
  if direction = 0 then
    if size = 0 then some ⟨vmEmulatedInstructionOutb, vmEmulatedInstructionOutsb,
      vmEmulatedInstructionRepOutsb⟩
    else if size = 1 then some ⟨vmEmulatedInstructionOutw, vmEmulatedInstructionOutsw,
      vmEmulatedInstructionRepOutsw⟩
    else if size = 3 then some ⟨vmEmulatedInstructionOutd, vmEmulatedInstructionOutsd,
      vmEmulatedInstructionRepOutsd⟩
    else none
  else
    if size = 0 then some ⟨vmEmulatedInstructionInb, vmEmulatedInstructionInsb,
      vmEmulatedInstructionRepInsb⟩
    else if size = 1 then some ⟨vmEmulatedInstructionInw, vmEmulatedInstructionInsw,
      vmEmulatedInstructionRepInsw⟩
    else if size = 3 then some ⟨vmEmulatedInstructionInd, vmEmulatedInstructionInsd,
      vmEmulatedInstructionRepInsd⟩
    else none

/-- The `emulated_io_instruction` that `vmx_vmexit_io` chooses. -/
def emulatedIoInstruction (exitQualification : Word) : Option EmulatedIo :=
  (emulatedIoInstructions (vmexitQualificationIoDirection exitQualification)
      (vmexitQualificationIoSize exitQualification)).bind fun forms =>
    match vmexitQualificationIoString exitQualification,
        vmexitQualificationIoRep exitQualification with
    | false, false => some forms.single
    | true, false => some forms.str
    | true, true => some forms.strrep
    | false, true => none

/-- `vmx_vmexit_io` -/
def vmxVmexitIo (exitQualification : Word) (vmState : VmxVmexitState) : HvM VmxVmexitState :=
  match emulatedIoInstruction exitQualification with
  | none => panicWith "unsupported I/O VM-exit qualification"
  | some instruction => instruction vmState (vmexitQualificationIoPort exitQualification)

/-! ## The handler -/

/-- The beginning of `vmx_vmexit_handler`, after the exit's own fields. -/
def readVmState (hw : Hardware) (vmRegState : VmxVmexitRegState) : HvM VmxVmexitState := do
  let vm ← vmManagerGetCurrentVm hw
  let rip ← vmreadAsserted hw "vmx_vmread(VMCS_GUEST_RIP, &vm_state.rip)" vmcsGuestRip
  let rsp ← vmreadAsserted hw "vmx_vmread(VMCS_GUEST_RSP, &vm_state.rsp)" vmcsGuestRsp
  let rflags ← vmreadAsserted hw "vmx_vmread(VMCS_GUEST_RFLAGS, &vm_state.rflags)" vmcsGuestRflags
  let cr0 ← vmreadAsserted hw "vmx_vmread(VMCS_GUEST_CR0, &vm_state.cr0)" vmcsGuestCr0
  let cr3 ← vmreadAsserted hw "vmx_vmread(VMCS_GUEST_CR3, &vm_state.cr3)" vmcsGuestCr3
  let cr4 ← vmreadAsserted hw "vmx_vmread(VMCS_GUEST_CR4, &vm_state.cr4)" vmcsGuestCr4
  vmxMsrVmexit hw { vm, regState := vmRegState, rip, rsp, rflags, cr0, cr3, cr4, msrs := default }

/-- `vm_state.rip += instruction_length` -/
def skipInstruction (instructionLength : Word) (vmState : VmxVmexitState) : VmxVmexitState :=
  { vmState with rip := vmState.rip + instructionLength }

/-- The `switch` of `vmx_vmexit_handler`. -/
def handleExit (hw : Hardware) (exitReason exitQualification instructionLength : Word)
    (vmState : VmxVmexitState) : HvM VmxVmexitState := do
  if exitReason = vmexitReasonCpuid then
    return skipInstruction instructionLength (vmEmulatedInstructionCpuid hw vmState)
  else if exitReason = vmexitReasonCrAccesses then
    let vmState ← vmxVmexitCrAccesses hw exitQualification vmState
    return skipInstruction instructionLength vmState
  else if exitReason = vmexitReasonIoInstruction then
    let vmState ← vmxVmexitIo exitQualification vmState
    return skipInstruction instructionLength vmState
  else if exitReason = vmexitReasonRdmsr then panicWith "unsupported MSR"
  else if exitReason = vmexitReasonWrmsr then panicWith "unsupported MSR"
  else if exitReason = vmexitReasonXsetbv then
    vmEmulatedInstructionXsetbv vmState
    return skipInstruction instructionLength vmState
  else if exitReason = vmexitReasonHlt then panicWith "VM halted"
  else panicWith "Unsupported VM-Exit reason"

/-- The end of `vmx_vmexit_handler`. -/
def writeVmState (hw : Hardware) (vmState : VmxVmexitState) : HvM Unit := do
  vmwriteAsserted hw "vmx_vmwrite(VMCS_GUEST_RIP, vm_state.rip)" vmcsGuestRip vmState.rip
  vmwriteAsserted hw "vmx_vmwrite(VMCS_GUEST_RSP, vm_state.rsp)" vmcsGuestRsp vmState.rsp
  vmwriteAsserted hw "vmx_vmwrite(VMCS_GUEST_RFLAGS, vm_state.rflags)" vmcsGuestRflags vmState.rflags
  vmwriteAsserted hw "vmx_vmwrite(VMCS_GUEST_CR0, vm_state.cr0)" vmcsGuestCr0 vmState.cr0
  vmwriteAsserted hw "vmx_vmwrite(VMCS_GUEST_CR3, vm_state.cr3)" vmcsGuestCr3 vmState.cr3
  vmwriteAsserted hw "vmx_vmwrite(VMCS_GUEST_CR4, vm_state.cr4)" vmcsGuestCr4 vmState.cr4
  vmxMsrVmresume hw vmState

/-- `vmx_vmexit_handler`; the results are the registers that the stub restores
and the machine whose `permanent_state` is returned. -/
def vmxVmexitHandler (hw : Hardware) (vmRegState : VmxVmexitRegState) :
    HvM (VmxVmexitRegState × Word) := do
  let exitReason ← vmreadAsserted hw "vmx_vmread(VMCS_EXIT_REASON, &exit_reason)" vmcsExitReason
  let exitQualification ← vmreadAsserted hw
    "vmx_vmread(VMCS_EXIT_QUALIFICATION, &exit_qualification)" vmcsExitQualification
  let instructionLength ← vmreadAsserted hw
    "vmx_vmread(VMCS_VM_EXIT_INSTRUCTION_LENGTH, &instruction_length)" vmcsVmExitInstructionLength
  let vmState ← readVmState hw vmRegState
  let vmState ← handleExit hw exitReason exitQualification instructionLength vmState
  writeVmState hw vmState
  return (vmState.regState, vmState.vm)

end Rkhv.VmxVmexit
