import Rkhv.PageTracker
import Rkhv.VmxPages

/-!
# Extended page tables

`vmx_ept_map_page` adds one 4 KiB translation to a machine's extended page
tables and creates the tables that are missing on the way, from the machine's
reserved pool or from the allocator. `vmx_ept_get_host_physical_address` walks
the tables of a machine, with 1 GiB and 2 MiB pages.
-/

namespace Rkhv.Ept

open ByteMemory HostTypes HostState StateOutcome PageTracker VmxPages

/-! ## Entries -/

/-- `EPT_PTE_READ`, also the present bit of every other level. -/
def eptPteRead : Word := 0x1

/-- `EPT_PTE_WRITE` -/
def eptPteWrite : Word := 0x2

/-- `EPT_PTE_EXECUTE` -/
def eptPteExecute : Word := 0x4

/-- `EPT_PDE_PAGE_SIZE` and `EPT_PDPTE_PAGE_SIZE` -/
def eptPdePageSize : Word := 0x80

/-- `EPT_PTE_PHYSICAL_ADDRESS_PAGE`, also the table address of the other levels. -/
def eptPtePhysicalAddressPage : Word := 0x000ffffffffff000

/-- `EPT_PDPTE_PHYSICAL_ADDRESS_PAGE` -/
def eptPdptePhysicalAddressPage : Word := 0x000fffffc0000000

/-- `EPT_PDE_PHYSICAL_ADDRESS_PAGE` -/
def eptPdePhysicalAddressPage : Word := 0x000fffffffe00000

/-- The entry that points to a table, or to a page. -/
def eptEntry (physicalAddress : Word) : Word :=
  eptPteRead ||| eptPteWrite ||| eptPteExecute ||| (physicalAddress &&& eptPtePhysicalAddressPage)

/-- `already_mapped_panic_str` -/
def alreadyMappedPanicStr : String := "Remapping an already mapped guest physical page in EPT"

/-! ## Mapping -/

/-- A page for a table: of the reserved pool, or a free one. -/
def eptTablePage (vm : Word) : HvM Word := do
  match ← vmManagerUntrackEptPageFromReservedPool vm with
  | some eptPage => return eptPage
  | none => vmxGetFreeEptPage

/-- The `ept_pml4` part of `vmx_ept_map_page`. -/
def eptPml4 (vm : Word) : HvM Word := do
  let s ← get
  if (s.vmAt vm).flags &&& vmTFlagEptPml4Initialized ≠ 0 then
    return p2vIdentityMap (s.vmAt vm).vmcsConfig.eptp
  else
    let pml4 ← eptTablePage vm
    modifyVm vm fun v => { v with
      vmcsConfig := { v.vmcsConfig with eptp := v2pIdentityMap pml4 }
      flags := v.flags ||| vmTFlagEptPml4Initialized }
    vmManagerTrackEptPage vm pml4
    return pml4

/-- The three equal parts of `vmx_ept_map_page` that go one level down. The
bit of a large page is zero for the PML4, which has none. -/
def eptNextTable (vm pageSizeBit table index : Word) : HvM Word := do
  let entry ← readElement table index
  if entry &&& eptPteRead ≠ 0 then
    if entry &&& pageSizeBit ≠ 0 then panicWith alreadyMappedPanicStr
    else return p2vIdentityMap (entry &&& eptPtePhysicalAddressPage)
  else
    let next ← eptTablePage vm
    vmManagerTrackEptPage vm next
    writeElement table index (eptEntry (v2pIdentityMap next))
    return next

/-- `vmx_ept_map_page` -/
def vmxEptMapPage (vm guestPhysicalPage hostPhysicalPage : Word) : HvM Unit := do
  let pml4 ← eptPml4 vm
  let pdpt ← eptNextTable vm 0 pml4 (linearAddressGetPml4 guestPhysicalPage)
  let pd ← eptNextTable vm eptPdePageSize pdpt (linearAddressGetDirectoryPtr guestPhysicalPage)
  let pt ← eptNextTable vm eptPdePageSize pd (linearAddressGetDirectory guestPhysicalPage)
  let entry ← readElement pt (linearAddressGetTable guestPhysicalPage)
  if entry &&& eptPteRead ≠ 0 then panicWith alreadyMappedPanicStr
  else writeElement pt (linearAddressGetTable guestPhysicalPage) (eptEntry hostPhysicalPage)

/-! ## Walking -/

/-- `vmx_ept_get_host_physical_address` as a function of the memory and the
machine record; `none` stands for `false`. -/
def vmxEptGetHostPhysicalAddress (m : Memory) (v : Vm) (guestPhysicalAddress : Word) : Option Word :=
  let element := fun table index => readQword m (v2pIdentityMap (table + index * 8))
  if v.flags &&& vmTFlagEptPml4Initialized = 0 then none
  else
    let pml4 := p2vIdentityMap v.vmcsConfig.eptp
    let pml4e := element pml4 (linearAddressGetPml4 guestPhysicalAddress)
    if pml4e &&& eptPteRead = 0 then none
    else
      let pdpt := p2vIdentityMap (pml4e &&& eptPtePhysicalAddressPage)
      let pdpte := element pdpt (linearAddressGetDirectoryPtr guestPhysicalAddress)
      if pdpte &&& eptPteRead = 0 then none
      else if pdpte &&& eptPdePageSize ≠ 0 then
        some ((pdpte &&& eptPdptePhysicalAddressPage) ||| (guestPhysicalAddress &&&
          (linearAddressDMask ||| linearAddressTableMask ||| linearAddressOffsetMask)))
      else
        let pd := p2vIdentityMap (pdpte &&& eptPtePhysicalAddressPage)
        let pde := element pd (linearAddressGetDirectory guestPhysicalAddress)
        if pde &&& eptPteRead = 0 then none
        else if pde &&& eptPdePageSize ≠ 0 then
          some ((pde &&& eptPdePhysicalAddressPage) ||| (guestPhysicalAddress &&&
            (linearAddressTableMask ||| linearAddressOffsetMask)))
        else
          let pt := p2vIdentityMap (pde &&& eptPtePhysicalAddressPage)
          let pte := element pt (linearAddressGetTable guestPhysicalAddress)
          if pte &&& eptPteRead = 0 then none
          else some ((pte &&& eptPtePhysicalAddressPage) |||
            linearAddressGetOffset guestPhysicalAddress)

end Rkhv.Ept
