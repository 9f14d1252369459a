import Rkhv.Ept
import Rkhv.VmxInstructions

/-!
# The machine manager

`vm_manager_create_vmx_machine` cuts the record of a machine off the manager's
arena, which it creates at the first call, and lists it.
`vm_manager_allocate_guest_physical_memory` first reserves the table pages that
a guest memory of the given size needs at most, and then takes, tracks and maps
the guest pages one by one.
-/

namespace Rkhv.VmManager

open ByteMemory HostTypes HostState StateOutcome Arenas PageTracker VmxPages VmxInstructions Ept

/-- A machine record after `memset`, with its name and its first XCR0. -/
def newVm (name : String) : Vm := { (default : Vm) with name := name, xcr0 := 1 }

/-- `vm_manager_create_vmx_machine` -/
def vmManagerCreateVmxMachine (name : String) : HvM Word := do
  let s ← get
  if s.vmManagerArena = none then
    let arena ← arenaCreate
    modify fun s => { s with vmManagerArena := some arena }
  let s ← get
  let result ← arenaAllocate s.vmManagerArena sizeofVm
  modify fun s => { s with
    vmAt := Function.update s.vmAt result (newVm name)
    vmManagerVmList := result :: s.vmManagerVmList }
  return result

/-- `CEIL_DIV` -/
def ceilDiv (a b : Word) : Word := a / b + (if a % b = 0 then 0 else 1)

/-- `ept_pages`: table pages that are reserved for a guest memory. -/
def eptPages (guestPhysicalPages : Word) : Word :=
  let eptAmountPt := ceilDiv guestPhysicalPages (BitVec.ofNat 64 pageTableEntries)
  let eptAmountPd := ceilDiv eptAmountPt (BitVec.ofNat 64 pageTableEntries)
  let eptAmountPdpt := ceilDiv eptAmountPd (BitVec.ofNat 64 pageTableEntries)
  let eptAmountPml4 := ceilDiv eptAmountPdpt (BitVec.ofNat 64 pageTableEntries)
  eptAmountPt + eptAmountPd + eptAmountPdpt + eptAmountPml4

/-- One round of the first loop of `vm_manager_allocate_guest_physical_memory`. -/
def reserveEptPage (vm : Word) : HvM Unit := do
  let eptPage ← vmxGetFreeEptPage
  vmManagerTrackPage vm (v2pIdentityMap eptPage) .ept true

/-- One round of its second loop. -/
def addGuestPage (vm guestPhysicalPage : Word) : HvM Unit := do
  let pagePa ← vmManagerGetFreeGuestPhysicalPage
  vmManagerTrackPage vm pagePa .guestPhysical false
  vmxEptMapPage vm guestPhysicalPage pagePa

/-- `vm_manager_allocate_guest_physical_memory` -/
def vmManagerAllocateGuestPhysicalMemory (vm guestPhysicalPages : Word) : HvM Unit := do
  let s ← get
  if (s.vmAt vm).guestPhysicalPages ≠ 0 then
    panicWith "Reallocating guest physical memory on a VM with memory already allocated"
  else
    modifyVm vm fun v => { v with guestPhysicalPages := guestPhysicalPages }
    forRange (eptPages guestPhysicalPages).toNat fun _ => reserveEptPage vm
    forRange guestPhysicalPages.toNat fun i => addGuestPage vm (BitVec.ofNat 64 i * pageSize)

/-- `vm_manager_get_current_vm` -/
def vmManagerGetCurrentVm (hw : Hardware) : HvM Word := do
  let (succeeded, currVmcsRegion) ← vmxVmptrst hw
  vmxAssert "vmx_vmptrst(&curr_vmcs_region)" succeeded
  let s ← get
  match s.vmManagerCurrentVm with
  | none => panicWith "vm_manager_current_vm and current VMCS pointer unsynced"
  | some vm =>
    if currVmcsRegion ≠ (s.vmAt vm).vmcsRegion then
      panicWith "vm_manager_current_vm and current VMCS pointer unsynced"
    else return vm

end Rkhv.VmManager
