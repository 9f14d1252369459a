import Rkhv.VmGuestPaging
import Rkhv.VmIoPorts

/-!
# Emulated instructions

`vm_emulated_instructions.c` carries out for the guest the instructions that
made it exit. Each one reads and changes the exit's `vm_state`; the port
instructions come in three widths and, for strings, with a repeat prefix.
-/

namespace Rkhv.VmEmulatedInstructions

open ByteMemory HostTypes HostState StateOutcome VmxInstructions Vmcs VmxMsr VmGuestPaging
open VmIoPorts

/-- `vm_emulated_instruction_cpuid` -/
def vmEmulatedInstructionCpuid (hw : Hardware) (vmState : VmxVmexitState) : VmxVmexitState :=
  let reg := vmState.regState
  if 0x40000000 ≤ reg.rax ∧ reg.rax ≤ 0x4fffffff then vmState
  else
    let result := hw.cpuid (reg.rax.setWidth 32) (reg.rcx.setWidth 32)
    { vmState with regState := { reg with
      rax := result.eax.setWidth 64
      rbx := result.ebx.setWidth 64
      rcx := result.ecx.setWidth 64
      rdx := result.edx.setWidth 64 } }

/-- `vm_emulated_instruction_mov_to_cr` -/
def vmEmulatedInstructionMovToCr (hw : Hardware) (vmState : VmxVmexitState) (crn newCr : Word) :
    HvM VmxVmexitState := do
  if crn = 3 then return { vmState with cr3 := newCr }
  else if crn = 4 then
    vmwriteAsserted hw "vmx_vmwrite(VMCS_CF_CR4_READ_SHADOW, new_cr & CR4_VMXE)" vmcsCfCr4ReadShadow
      (newCr &&& cr4Vmxe)
    return { vmState with cr4 := newCr ||| cr4Vmxe }
  else panicWith "unsupported CR in emulated MOV to CR"

/-- `vm_emulated_instruction_mov_from_cr` -/
def vmEmulatedInstructionMovFromCr (vmState : VmxVmexitState) (crn : Word) : HvM Word := do
  if crn = 3 then return vmState.cr3
  else panicWith "unsupported CR in emulated MOV from CR"

/-! ## Ports -/

/-- A `vm_out*` function. -/
abbrev VmOut (bytes : ℕ) := Word → BitVec 16 → BitVec (8 * bytes) → HvM Unit

/-- A `vm_in*` function. -/
abbrev VmIn (bytes : ℕ) := Word → BitVec 16 → HvM (BitVec (8 * bytes))

/-- An `emulated_io_instruction_t`. -/
abbrev EmulatedIo := VmxVmexitState → BitVec 16 → HvM VmxVmexitState

/-- `VM_EMULATED_INSTRUCTION_OUT_SINGLE(size)` -/
def vmEmulatedInstructionOutSingle (bytes : ℕ) (vmOut : VmOut bytes) : EmulatedIo :=
  fun vmState port => do
    vmOut vmState.vm port (vmState.regState.rax.setWidth (8 * bytes))
    return vmState

/-- `VM_EMULATED_INSTRUCTION_IN_SINGLE(size, mask)` -/
def vmEmulatedInstructionInSingle (bytes : ℕ) (vmIn : VmIn bytes) (mask : Word) : EmulatedIo :=
  fun vmState port => do
    let value ← vmIn vmState.vm port
    return { vmState with regState := { vmState.regState with
      rax := (vmState.regState.rax &&& mask) ||| value.setWidth 64 } }

/-- `RFLAGS_DF` -/
def rflagsDf : Word := 0x400

/-- The value that `*hostva` reads, for a pointer to some bytes. -/
def readBytes (m : Memory) (a : Word) : (bytes : ℕ) → BitVec (8 * bytes)
  | 0 => 0
  | bytes + 1 => (m (a + BitVec.ofNat 64 bytes) ++ readBytes m a bytes).setWidth (8 * (bytes + 1))

/-- How far a string instruction moves its index register. -/
def stringStep (vmState : VmxVmexitState) (bytes : ℕ) : Word :=
  if vmState.rflags &&& rflagsDf ≠ 0 then -BitVec.ofNat 64 bytes else BitVec.ofNat 64 bytes

/-- `VM_EMULATED_INSTRUCTION_OUT_STR(size, type)` -/
def vmEmulatedInstructionOutStr (bytes : ℕ) (vmOut : VmOut bytes) : EmulatedIo :=
  fun vmState port => do
    let hostva ← vmGuestPagingGetHostVirtualAddressDuringVmexit vmState vmState.regState.rsi
      (BitVec.ofNat 64 bytes)
    let s ← get
    vmOut vmState.vm port (readBytes s.memory (v2pIdentityMap hostva) bytes)
    return { vmState with regState := { vmState.regState with
      rsi := vmState.regState.rsi + stringStep vmState bytes } }

/-- `VM_EMULATED_INSTRUCTION_IN_STR(size, type)` -/
def vmEmulatedInstructionInStr (bytes : ℕ) (vmIn : VmIn bytes) : EmulatedIo :=
  fun vmState port => do
    let hostva ← vmGuestPagingGetHostVirtualAddressDuringVmexit vmState vmState.regState.rdi
      (BitVec.ofNat 64 bytes)
    let value ← vmIn vmState.vm port
    modifyMemory fun m => writeBytes m (v2pIdentityMap hostva) bytes value
    return { vmState with regState := { vmState.regState with
      rdi := vmState.regState.rdi + stringStep vmState bytes } }

/-- The loop of `VM_EMULATED_INSTRUCTION_IO_STRREP`, for a number of rounds that
is enough when it is RCX. -/
def repeatString (string : EmulatedIo) : ℕ → EmulatedIo
  | rounds, vmState, port =>
    if vmState.regState.rcx = 0 then pure vmState
    else
      match rounds with
      | 0 => throw .hang
      | rounds + 1 => do
        let vmState ← string vmState port
        repeatString string rounds { vmState with regState := { vmState.regState with
          rcx := vmState.regState.rcx - 1 } } port

/-- `VM_EMULATED_INSTRUCTION_IO_STRREP(direction, size)` -/
def vmEmulatedInstructionIoStrrep (string : EmulatedIo) : EmulatedIo := fun vmState port =>
  repeatString string vmState.regState.rcx.toNat vmState port

def vmEmulatedInstructionOutb : EmulatedIo := vmEmulatedInstructionOutSingle 1 vmOutb
def vmEmulatedInstructionOutw : EmulatedIo := vmEmulatedInstructionOutSingle 2 vmOutw
def vmEmulatedInstructionOutd : EmulatedIo := vmEmulatedInstructionOutSingle 4 vmOutd

/-- `~0xff`, an `int` that is sign extended. -/
def vmEmulatedInstructionInb : EmulatedIo :=
  vmEmulatedInstructionInSingle 1 vmInb 0xffffffffffffff00

/-- `~0xffff`, an `int` that is sign extended. -/
def vmEmulatedInstructionInw : EmulatedIo :=
  vmEmulatedInstructionInSingle 2 vmInw 0xffffffffffff0000

/-- `~0xffffffff`, which is zero as an `unsigned int`. -/
def vmEmulatedInstructionInd : EmulatedIo := vmEmulatedInstructionInSingle 4 vmInd 0

def vmEmulatedInstructionOutsb : EmulatedIo := vmEmulatedInstructionOutStr 1 vmOutb
def vmEmulatedInstructionOutsw : EmulatedIo := vmEmulatedInstructionOutStr 2 vmOutw
def vmEmulatedInstructionOutsd : EmulatedIo := vmEmulatedInstructionOutStr 4 vmOutd
def vmEmulatedInstructionInsb : EmulatedIo := vmEmulatedInstructionInStr 1 vmInb
def vmEmulatedInstructionInsw : EmulatedIo := vmEmulatedInstructionInStr 2 vmInw
def vmEmulatedInstructionInsd : EmulatedIo := vmEmulatedInstructionInStr 4 vmInd

def vmEmulatedInstructionRepOutsb : EmulatedIo :=
  vmEmulatedInstructionIoStrrep vmEmulatedInstructionOutsb
def vmEmulatedInstructionRepOutsw : EmulatedIo :=
  vmEmulatedInstructionIoStrrep vmEmulatedInstructionOutsw
def vmEmulatedInstructionRepOutsd : EmulatedIo :=
  vmEmulatedInstructionIoStrrep vmEmulatedInstructionOutsd
def vmEmulatedInstructionRepInsb : EmulatedIo :=
  vmEmulatedInstructionIoStrrep vmEmulatedInstructionInsb
def vmEmulatedInstructionRepInsw : EmulatedIo :=
  vmEmulatedInstructionIoStrrep vmEmulatedInstructionInsw
def vmEmulatedInstructionRepInsd : EmulatedIo :=
  vmEmulatedInstructionIoStrrep vmEmulatedInstructionInsd

/-! ## XSETBV -/

/-- `new_xcr0` of `vm_emulated_instruction_xsetbv` -/
def newXcr0 (reg : VmxVmexitRegState) : Word := (reg.rdx <<< 32) ||| (reg.rax &&& 0xffffffff)

/-- `vm_emulated_instruction_xsetbv` -/
def vmEmulatedInstructionXsetbv (vmState : VmxVmexitState) : HvM Unit := do
  if vmState.regState.rcx ≠ 0 then
    panicWith "unsupported XCR specified by RCX on emulated XSETBV"
  else
    let s ← get
    let xcr0 := newXcr0 vmState.regState
    if xcr0 &&& 1 ≠ 1 then panicWith "new guest XCR0 doesn't have bit 0 set"
    else if xcr0 &&& ~~~s.xsaveHostXcr0 ≠ 0 ∨ xcr0 &&& 0x6 = 0x4 then
      panicWith "new guest XCR0 set unsupported bits"
    else modifyVm vmState.vm fun v => { v with xcr0 := xcr0 }

end Rkhv.VmEmulatedInstructions
