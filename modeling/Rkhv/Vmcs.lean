import Rkhv.VmxInstructions
import Rkhv.VmxPages

/-!
# Creating the VMCS of a machine

`vmx_create_initialized_vmcs` takes a page for the VMCS, loads it, fills every
field of a fixed table and sets the machine's flag last. The table needs the
page of the MSR bitmaps, which is taken at the first call.
-/

namespace Rkhv.Vmcs

open ByteMemory HostTypes HostState StateOutcome VmxInstructions VmxPages

/-! ## Field encodings and values -/

/-- `IA32_EFER` -/
def ia32Efer : BitVec 32 := 0xc0000080

/-- `CR4_VMXE` -/
def cr4Vmxe : Word := 0x2000

/-- `RKHV_DS` -/
def rkhvDs : Word := 0x08

/-- `RKHV_CS` -/
def rkhvCs : Word := 0x10

/-- `RKHV_STACK_TOP` -/
def rkhvStackTop : Word := 0xfffffffffffffff8

/-- `VMCS_CF_CR4_READ_SHADOW` -/
def vmcsCfCr4ReadShadow : Word := 0x6006

def vmcsGuestFsBase : Word := 0x680e
def vmcsGuestGsBase : Word := 0x6810
def vmcsGuestCr0 : Word := 0x6800
def vmcsGuestCr3 : Word := 0x6802
def vmcsGuestCr4 : Word := 0x6804
def vmcsGuestRsp : Word := 0x681c
def vmcsGuestRip : Word := 0x681e
def vmcsGuestRflags : Word := 0x6820
def vmcsGuestIa32Efer : Word := 0x2806

/-- The primary processor-based controls: HLT exiting, unconditional I/O
exiting, MSR bitmaps and secondary controls. Bit 31 of the `int` expression is
its sign. -/
def primaryControls : Word := 0xffffffff91000080

/-- The secondary controls: EPT, unrestricted guest, INVPCID and XSAVES. -/
def secondaryControls : Word := 0x101082

/-- `VMCS_CF_EPTP_PHYSICAL_ADDRESS_PML4`, an `int` that is sign extended. -/
def vmcsCfEptpPhysicalAddressPml4 : Word := 0xfffffffffffff000

/-- `VMCS_CF_EPTP_PAGE_WALK_LENGTH_4` -/
def vmcsCfEptpPageWalkLength4 : Word := 0x18

/-- `VMCS_CF_EPTP_WRITE_BACK` -/
def vmcsCfEptpWriteBack : Word := 6

/-- An entry of `default_vmcs_fields`. -/
structure VmcsField where
  fieldEncoding : Word
  value : Word
  allowedMsr : Word
  deriving DecidableEq

/-- `vmx_ensure_allowed_bits` -/
def vmxEnsureAllowedBits (msrValue : Word) (mask : BitVec 32) : BitVec 32 :=
  let allowedZeros := msrValue.setWidth 32
  let allowedOnes := (msrValue >>> 32).setWidth 32
  (mask ||| allowedZeros) &&& allowedOnes

/-- `vmx_read_segment_access_right_from_gdt` -/
def vmxReadSegmentAccessRightFromGdt (hw : Hardware) (segmentSelector : BitVec 16) (gdt : Word) :
    BitVec 32 :=
  let segmentDescriptor := hw.gdtEntry gdt ((segmentSelector >>> 3).setWidth 64)
  ((segmentDescriptor.flags &&& 0xf0).setWidth 32 <<< 8) ||| segmentDescriptor.access.setWidth 32

/-- `default_vmcs_fields`, for the page of the MSR bitmaps and the value of
`IA32_EFER`. -/
def defaultVmcsFields (hw : Hardware) (config : VmxInitialVmcsConfig) (msrBitmapsPage efer : Word) :
    List VmcsField :=
  let guest := config.guestState
  let ds := guest.ds.setWidth 64
  let dsAccess := (vmxReadSegmentAccessRightFromGdt hw guest.ds guest.gdtr.offset).setWidth 64
  let csAccess := (vmxReadSegmentAccessRightFromGdt hw guest.cs guest.gdtr.offset).setWidth 64
  [
    -- control fields
    ⟨0x4002, primaryControls, 0x482⟩, ⟨0x401e, secondaryControls, 0x48b⟩,
    ⟨0x2004, msrBitmapsPage, 0⟩, ⟨0x202c, 0, 0⟩,
    ⟨0x201a, (config.eptp &&& vmcsCfEptpPhysicalAddressPml4) ||| vmcsCfEptpPageWalkLength4 |||
      vmcsCfEptpWriteBack, 0⟩,
    ⟨0x4000, 0, 0x481⟩, ⟨0x400c, 0x300200, 0x483⟩,
    ⟨0x400e, 0, 0⟩, ⟨0x4010, 0, 0⟩, ⟨0x4004, 0, 0⟩, ⟨0x4006, 0, 0⟩, ⟨0x4008, 0, 0⟩,
    ⟨0x4012, 0x8200, 0x484⟩, ⟨0x4014, 0, 0⟩, ⟨0x4016, 0, 0⟩,
    ⟨0x400a, 0, 0⟩, ⟨0x6000, 0, 0⟩, ⟨0x6004, 0, 0⟩, ⟨0x6002, cr4Vmxe, 0⟩,
    ⟨vmcsCfCr4ReadShadow, cr4Vmxe, 0⟩,
    -- host state
    ⟨0x0c00, rkhvDs, 0⟩, ⟨0x0c02, rkhvCs, 0⟩, ⟨0x0c04, rkhvDs, 0⟩, ⟨0x0c06, rkhvDs, 0⟩,
    ⟨0x0c08, rkhvDs, 0⟩, ⟨0x0c0a, rkhvDs, 0⟩, ⟨0x0c0c, rkhvDs, 0⟩,
    ⟨0x6c06, 0, 0⟩, ⟨0x6c08, 0, 0⟩, ⟨0x6c0a, 0, 0⟩,
    ⟨0x6c00, hw.cr0, 0⟩, ⟨0x6c02, hw.cr3, 0⟩, ⟨0x6c04, hw.cr4, 0⟩,
    ⟨0x6c0c, hw.gdtr.offset, 0⟩, ⟨0x6c0e, hw.idtr.offset, 0⟩,
    ⟨0x6c14, rkhvStackTop, 0⟩, ⟨0x6c16, hw.vmxVmexit, 0⟩,
    ⟨0x6c10, 0, 0⟩, ⟨0x6c12, 0, 0⟩, ⟨0x2c02, efer, 0⟩,
    -- guest state
    ⟨0x0800, ds, 0⟩, ⟨0x0802, guest.cs.setWidth 64, 0⟩, ⟨0x0804, ds, 0⟩, ⟨0x0806, ds, 0⟩,
    ⟨0x0808, ds, 0⟩, ⟨0x080a, ds, 0⟩, ⟨0x080e, 0, 0⟩, ⟨0x080c, 0, 0⟩,
    ⟨vmcsGuestFsBase, 0, 0⟩, ⟨vmcsGuestGsBase, 0, 0⟩, ⟨0x6814, 0, 0⟩, ⟨0x6812, 0, 0⟩,
    ⟨0x6808, 0, 0⟩, ⟨0x680a, 0, 0⟩, ⟨0x680c, 0, 0⟩, ⟨0x6806, 0, 0⟩,
    ⟨0x4808, 0xffffffff, 0⟩, ⟨0x480a, 0xffffffff, 0⟩, ⟨0x4802, 0xffffffff, 0⟩,
    ⟨0x4804, 0xffffffff, 0⟩, ⟨0x4806, 0xffffffff, 0⟩, ⟨0x4800, 0xffffffff, 0⟩,
    ⟨0x480c, 0, 0⟩, ⟨0x480e, 0, 0⟩,
    ⟨0x4814, dsAccess, 0⟩, ⟨0x4816, csAccess, 0⟩, ⟨0x4818, dsAccess, 0⟩, ⟨0x481a, dsAccess, 0⟩,
    ⟨0x481c, dsAccess, 0⟩, ⟨0x481e, dsAccess, 0⟩, ⟨0x4820, 0x10000, 0⟩, ⟨0x4822, 0x8b, 0⟩,
    ⟨vmcsGuestCr0, guest.cr0, 0⟩, ⟨vmcsGuestCr3, guest.cr3, 0⟩, ⟨vmcsGuestCr4, guest.cr4, 0⟩,
    ⟨0x6816, guest.gdtr.offset, 0⟩, ⟨0x4810, guest.gdtr.size.setWidth 64, 0⟩,
    ⟨0x6818, guest.idtr.offset, 0⟩, ⟨0x4812, guest.idtr.size.setWidth 64, 0⟩,
    ⟨vmcsGuestRsp, guest.rsp, 0⟩, ⟨vmcsGuestRip, guest.rip, 0⟩, ⟨vmcsGuestRflags, 2, 0⟩,
    ⟨0x6824, 0, 0⟩, ⟨0x6826, 0, 0⟩, ⟨0x482a, 0, 0⟩, ⟨vmcsGuestIa32Efer, guest.ia32Efer, 0⟩,
    ⟨0x681a, 0, 0⟩, ⟨0x2802, 0, 0⟩, ⟨0x4826, 0, 0⟩, ⟨0x4824, 0, 0⟩, ⟨0x6822, 0, 0⟩,
    ⟨0x2800, 0xffffffffffffffff, 0⟩]

/-! ## Creation -/

/-- The loop of `vmx_create_initialized_vmcs` over the table. -/
def writeVmcsFields (hw : Hardware) : List VmcsField → HvM Unit
  | [] => pure ()
  | field :: fields => do
    let value ← if field.allowedMsr ≠ 0 then do
        let msrValue ← rdmsr (field.allowedMsr.setWidth 32)
        pure ((vmxEnsureAllowedBits msrValue (field.value.setWidth 32)).setWidth 64)
      else pure field.value
    vmwriteAsserted hw "vmx_vmwrite(field_encoding, value)" field.fieldEncoding value
    writeVmcsFields hw fields

/-- `vmx_create_initialized_vmcs` -/
def vmxCreateInitializedVmcs (hw : Hardware) (vm : Word) : HvM Unit := do
  let s ← get
  if (s.vmAt vm).flags &&& vmTFlagVmcsInitialized ≠ 0 then
    panicWith "Trying to reinitialize an already initialized VMCS"
  else
    let vmcsRegion ← vmxGetFreeVmcsRegion
    modifyVm vm fun v => { v with vmcsRegion := vmcsRegion }
    vmxAssert "vmx_vmclear(vm->vmcs_region)" (← vmxVmclear hw vmcsRegion)
    vmxAssert "vmx_vmptrld(vm->vmcs_region)" (← vmxVmptrld hw vmcsRegion)
    let msrBitmapsPage ← vmxGetMsrBitmapsPage
    let efer ← rdmsr ia32Efer
    let s ← get
    writeVmcsFields hw (defaultVmcsFields hw (s.vmAt vm).vmcsConfig msrBitmapsPage efer)
    modifyVm vm fun v => { v with flags := v.flags ||| vmTFlagVmcsInitialized }

end Rkhv.Vmcs
