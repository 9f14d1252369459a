import Rkhv.Ept
import Rkhv.VmxMsr

/-!
# Guest page tables

`vm_guest_paging_setup_identity` lays identity tables with 2 MiB pages below the
end of a machine's guest memory. `vm_guest_paging_get_guest_physical_address`
walks the four levels of a guest's tables, each of which lies in guest memory and
is reached through the extended page tables.
-/

namespace Rkhv.VmGuestPaging

open ByteMemory HostTypes HostState StateOutcome Ept VmxMsr

/-! ## Entries of `paging.h` -/

/-- `PTE_PRESENT`, also the present bit of every other level. -/
def ptePresent : Word := 0x1

/-- `PTE_READ_WRITE`, also of every other level. -/
def pteReadWrite : Word := 0x2

/-- `PDE_PAGE_SIZE` and `PDPTE_PAGE_SIZE` -/
def pdePageSize : Word := 0x80

/-- `PTE_PHYSICAL_ADDRESS_PAGE`, also the table address of the other levels. -/
def ptePhysicalAddressPage : Word := 0x000ffffffffff000

/-- `PDPTE_PHYSICAL_ADDRESS_PAGE` -/
def pdptePhysicalAddressPage : Word := 0x000fffffc0000000

/-- `PDE_PHYSICAL_ADDRESS_PAGE` -/
def pdePhysicalAddressPage : Word := 0x000fffffffe00000

/-! ## Identity tables -/

/-- `EPT_GET_HOSTVA` of the setup, which panics. -/
def eptGetHostva (vm guestpa : Word) : HvM Word := do
  let s ← get
  match vmxEptGetHostPhysicalAddress s.memory (s.vmAt vm) guestpa with
  | none => panicWith ("Unable to walk EPT to get host physical address from guest physical address " ++
      "during guest identity paging setup")
  | some hostpa => return p2vIdentityMap hostpa

/-- Count one more page for the setup and find it in host memory. -/
def takeSetupPage (vm guestpa : Word) : HvM Word := do
  modifyVm vm fun v => { v with
    guestPhysicalPagesUsedByInitialSetup := v.guestPhysicalPagesUsedByInitialSetup + 1 }
  eptGetHostva vm guestpa

/-- The entry of an identity page directory. -/
def identityPde (pdptIndex pdIndex : ℕ) : Word :=
  let pdePhysicalAddressPage' : Word :=
    (BitVec.ofNat 64 pdptIndex * BitVec.ofNat 64 pageTableEntries + BitVec.ofNat 64 pdIndex) <<<
      linearAddressDShift
  ptePresent ||| pteReadWrite ||| pdePageSize ||| (pdePhysicalAddressPage' &&& pdePhysicalAddressPage)

/-- An entry that points to a table. -/
def tableEntry (guestpa : Word) : Word :=
  ptePresent ||| pteReadWrite ||| (guestpa &&& ptePhysicalAddressPage)

/-- One round of the loop over the page directories. -/
def setupPageDirectory (vm pdptGuestpa pdptHostva : Word) (pdptIndex : ℕ) : HvM Unit := do
  let pdGuestpa := pdptGuestpa - (BitVec.ofNat 64 pdptIndex + 1) * pageSize
  let pdHostva ← takeSetupPage vm pdGuestpa
  forRange pageTableEntries fun pdIndex =>
    writeElement pdHostva (BitVec.ofNat 64 pdIndex) (identityPde pdptIndex pdIndex)
  writeElement pdptHostva (BitVec.ofNat 64 pdptIndex) (tableEntry pdGuestpa)

/-- `vm_guest_paging_setup_identity` -/
def vmGuestPagingSetupIdentity (vm : Word) : HvM Word := do
  let s ← get
  if (s.vmAt vm).guestPhysicalPages = 0 then
    panicWith "Unable to setup guest identity paging on a VM without guest physical pages allocated"
  else if (s.vmAt vm).guestPhysicalPagesUsedByInitialSetup ≠ 0 then
    panicWith "Guest identity paging should be setup before any other steps allocating memory"
  else
    let pml4Guestpa := ((s.vmAt vm).guestPhysicalPages - 1) * pageSize
    let pml4Hostva ← takeSetupPage vm pml4Guestpa
    let pdptGuestpa := pml4Guestpa - pageSize
    let pdptHostva ← takeSetupPage vm pdptGuestpa
    forRange pageTableEntries fun pdptIndex =>
      setupPageDirectory vm pdptGuestpa pdptHostva pdptIndex
    memset pml4Hostva 0 pageSize.toNat
    writeElement pml4Hostva (linearAddressGetPml4 0) (tableEntry pdptGuestpa)
    return pml4Guestpa

/-! ## Walking -/

/-- `vm_guest_paging_get_guest_physical_address` as a function of the memory
and the machine record; `none` stands for `false`. -/
def vmGuestPagingGetGuestPhysicalAddress (m : Memory) (v : Vm) (guestCr3 guestLinearAddr : Word) :
    Option Word := do
  -- `EPT_GET_HOSTVA` of the walk, and an entry of the table that it finds
  let element := fun (guestpa index : Word) =>
    (vmxEptGetHostPhysicalAddress m v guestpa).map fun hostpa =>
      readQword m (v2pIdentityMap (p2vIdentityMap hostpa + index * 8))
  let pml4e ← element (guestCr3 &&& pageMask) (linearAddressGetPml4 guestLinearAddr)
  if pml4e &&& ptePresent = 0 then none
  else
    let pdpte ← element (pml4e &&& ptePhysicalAddressPage)
      (linearAddressGetDirectoryPtr guestLinearAddr)
    if pdpte &&& ptePresent = 0 then none
    else if pdpte &&& pdePageSize ≠ 0 then
      some ((pdpte &&& pdptePhysicalAddressPage) ||| (guestLinearAddr &&&
        (linearAddressDMask ||| linearAddressTableMask ||| linearAddressOffsetMask)))
    else
      let pde ← element (pdpte &&& ptePhysicalAddressPage)
        (linearAddressGetDirectory guestLinearAddr)
      if pde &&& ptePresent = 0 then none
      else if pde &&& pdePageSize ≠ 0 then
        some ((pde &&& pdePhysicalAddressPage) ||| (guestLinearAddr &&&
          (linearAddressTableMask ||| linearAddressOffsetMask)))
      else
        let pte ← element (pde &&& ptePhysicalAddressPage) (linearAddressGetTable guestLinearAddr)
        if pte &&& ptePresent = 0 then none
        else some ((pte &&& ptePhysicalAddressPage) ||| linearAddressGetOffset guestLinearAddr)

/-! ## Pointers to guest data -/

/-- `CR0_PG`, an `int` that is sign extended. -/
def cr0Pg : Word := 0xffffffff80000000

/-- `CR4_PAE` -/
def cr4Pae : Word := 0x20

/-- `CR4_LA57` -/
def cr4La57 : Word := 0x1000

/-- `IA32_EFER_LME` -/
def ia32EferLme : Word := 0x100

/-- `vm_guest_paging_get_host_virtual_address_during_vmexit` -/
def vmGuestPagingGetHostVirtualAddressDuringVmexit (vmState : VmxVmexitState)
    (guestVirtualAddress guestDataSize : Word) : HvM Word := do
  if vmState.cr0 &&& cr0Pg = 0 ∨ vmState.cr4 &&& cr4Pae = 0 ∨ vmState.cr4 &&& cr4La57 ≠ 0 ∨
      vmState.msrs.ia32Efer &&& ia32EferLme = 0 then
    panicWith ("Resolving guest virtual address in an unsupported configuration " ++
      "(not long mode with 4-level paging)")
  else
    let s ← get
    match vmGuestPagingGetGuestPhysicalAddress s.memory (s.vmAt vmState.vm) vmState.cr3
        guestVirtualAddress with
    | none => panicWith ("Unable to walk guest page table to resolve guest linear address " ++
        "in VM-Exit handler")
    | some guestPhysicalAddress =>
      match vmxEptGetHostPhysicalAddress s.memory (s.vmAt vmState.vm) guestPhysicalAddress with
      | none => panicWith ("Unable to walk EPT to resolve guest physical address " ++
          "in VM-Exit handler")
      | some hostPhysicalAddress =>
        let hostVirtualAddress := p2vIdentityMap hostPhysicalAddress
        if hostVirtualAddress &&& pageMask ≠
            (hostVirtualAddress + (guestDataSize - 1)) &&& pageMask then
          panicWith "Resolving guest virtual address across page boudaries in VM-Exit handler"
        else return hostVirtualAddress

end Rkhv.VmGuestPaging
