import Rkhv.WordFields

/-!
# Constants and records shared by the bootloader and the hypervisor

Page sizes, address fields and the identity window of `common/include/rkhv`,
the chainload page that the bootloader fills for the hypervisor, and the
records of `hv/include/rkhv` for virtual machines. Counters, addresses and
sizes are 64-bit words; a C bit-field keeps its own width.
-/

namespace Rkhv.HostTypes

open ByteMemory

/-! ## Pages and addresses -/

/-- `PAGE_SIZE`, also `EFI_PAGE_SIZE` of the firmware headers. -/
def pageSize : Word := 0x1000

/-- `PAGE_MASK`: the `int` constant `~0xfff`, sign extended to 64 bits. -/
def pageMask : Word := 0xfffffffffffff000

/-- A page-aligned address is its own page. -/
theorem and_pageMask {page : Word} (h : page.toNat % 4096 = 0) : page &&& pageMask = page := by
  apply BitVec.eq_of_toNat_eq
  have hlt := page.isLt
  have hmask : pageMask = BitVec.ofNat 64 (2 ^ 52 - 1) <<< 12 := by decide
  have hp : page = BitVec.ofNat 64 (page.toNat / 4096) <<< 12 := by
    apply BitVec.eq_of_toNat_eq
    rw [BitVec.toNat_shiftLeft, BitVec.toNat_ofNat, Nat.shiftLeft_eq]
    omega
  rw [hmask, hp, ← BitVec.shiftLeft_and_distrib]
  congr 2
  apply BitVec.eq_of_toNat_eq
  rw [BitVec.toNat_and, BitVec.toNat_ofNat, BitVec.toNat_ofNat]
  rw [Nat.mod_eq_of_lt (by omega : 2 ^ 52 - 1 < 2 ^ 64), Nat.and_two_pow_sub_one_eq_mod]
  omega

/-- `PAGE_TABLE_ENTRIES`: quadwords in one page. -/
def pageTableEntries : ℕ := 512

/-- `RKHV_PHYSICAL_MEMORY_BASE`: where the window on physical memory starts. -/
def rkhvPhysicalMemoryBase : Word := 0x0000010000000000

/-- `P2V_IDENTITY_MAP`: pointer to a physical address, through the window. -/
def p2vIdentityMap (pa : Word) : Word := pa + rkhvPhysicalMemoryBase

/-- `V2P_IDENTITY_MAP`: physical address behind a pointer into the window. -/
def v2pIdentityMap (va : Word) : Word := va - rkhvPhysicalMemoryBase

@[simp] theorem v2p_p2v (pa : Word) : v2pIdentityMap (p2vIdentityMap pa) = pa := by
  rw [v2pIdentityMap, p2vIdentityMap, BitVec.add_sub_cancel]

@[simp] theorem p2v_v2p (va : Word) : p2vIdentityMap (v2pIdentityMap va) = va := by
  rw [v2pIdentityMap, p2vIdentityMap, BitVec.sub_add_cancel]

@[simp] theorem p2v_inj {a b : Word} : p2vIdentityMap a = p2vIdentityMap b ↔ a = b := by
  constructor
  · intro h
    rw [← v2p_p2v a, h, v2p_p2v]
  · exact congrArg _

/-- A pointer moved by an offset moves its physical address by that offset. -/
@[simp] theorem v2p_p2v_add (pa k : Word) : v2pIdentityMap (p2vIdentityMap pa + k) = pa + k := by
  rw [v2pIdentityMap, p2vIdentityMap, BitVec.add_assoc, BitVec.add_comm _ k, ← BitVec.add_assoc,
    BitVec.add_sub_cancel]

def linearAddressPml4Mask : Word := 0x0000ff8000000000
def linearAddressDpMask : Word := 0x0000007fc0000000
def linearAddressDMask : Word := 0x000000003fe00000
def linearAddressTableMask : Word := 0x00000000001ff000
def linearAddressOffsetMask : Word := 0x0000000000000fff

/-- `LINEAR_ADDRESS_D_SHIFT` -/
def linearAddressDShift : ℕ := 21

/-- `LINEAR_ADDRESS_GET_PML4`, also used for guest physical addresses. -/
def linearAddressGetPml4 (x : Word) : Word := (x &&& linearAddressPml4Mask) >>> 39

/-- `LINEAR_ADDRESS_GET_DIRECTORY_PTR` -/
def linearAddressGetDirectoryPtr (x : Word) : Word := (x &&& linearAddressDpMask) >>> 30

/-- `LINEAR_ADDRESS_GET_DIRECTORY` -/
def linearAddressGetDirectory (x : Word) : Word := (x &&& linearAddressDMask) >>> linearAddressDShift

/-- `LINEAR_ADDRESS_GET_TABLE` -/
def linearAddressGetTable (x : Word) : Word := (x &&& linearAddressTableMask) >>> 12

/-- `LINEAR_ADDRESS_GET_OFFSET` -/
def linearAddressGetOffset (x : Word) : Word := x &&& linearAddressOffsetMask

/-! ## The chainload page -/

/-- `chainload_mmap_desc_t`: one range of the firmware's memory map. -/
structure ChainloadMmapDesc where
  physicalAddress : Word
  /-- A 63-bit bit-field. -/
  pages : BitVec 63
  usable : Bool
  deriving DecidableEq, Inhabited

/-- `chainload_page_table_region_t`, and the equal anonymous record that the
chainload page uses for the hypervisor's sections. -/
structure ChainloadRegion where
  physicalAddress : Word
  pages : Word
  deriving DecidableEq, Inhabited

/-- `chainload_attachment_t`: a file loaded next to the hypervisor. -/
structure ChainloadAttachment where
  physicalAddress : Word
  /-- Size in bytes, a 56-bit bit-field. -/
  size : BitVec 56
  /-- `chainload_attachment_type_t`, an 8-bit bit-field. -/
  attachmentType : BitVec 8
  deriving DecidableEq, Inhabited

/-- `CHAINLOAD_ATTACHMENT_END` -/
def chainloadAttachmentEnd : BitVec 8 := 0

/-- `RKHV_MAX_SECTIONS` -/
abbrev rkhvMaxSections : ℕ := 4

/-- `RKHV_MAX_PAGE_TABLE_REGIONS` -/
abbrev rkhvMaxPageTableRegions : ℕ := 16

/-- `RKHV_MAX_ATTACHMENTS` -/
abbrev rkhvMaxAttachments : ℕ := 4

/-- `RKHV_MAX_EFI_MMAP_DESCRIPTORS` -/
abbrev rkhvMaxEfiMmapDescriptors : ℕ := 231

theorem rkhvMaxEfiMmapDescriptors_pos : 0 < rkhvMaxEfiMmapDescriptors := by decide

/-- The firmware memory map inside the chainload page. -/
abbrev EfiMmap := Vector ChainloadMmapDesc rkhvMaxEfiMmapDescriptors

/-- `chainload_page_t`: what the bootloader tells the hypervisor. -/
structure ChainloadPage where
  rkhvSections : Vector ChainloadRegion rkhvMaxSections
  /-- Physical address of the chainload page itself. -/
  chainloadPage : Word
  attachments : Vector ChainloadAttachment rkhvMaxAttachments
  pageTableRegions : Vector ChainloadRegion rkhvMaxPageTableRegions
  efiMmapUsable : EfiMmap
  deriving DecidableEq, Inhabited

/-! ## Virtual machines -/

/-- `vm_page_type_t` -/
inductive VmPageType where
  | ept
  | guestPhysical
  deriving DecidableEq, Inhabited

/-- `vm_page_list_t`: a run of consecutive pages of one type and pool. The
`next` link is the order of the list that holds it. -/
structure VmPageList where
  physicalAddress : Word
  /-- A 56-bit bit-field. -/
  pages : BitVec 56
  pageType : VmPageType
  reservedPool : Bool
  deriving DecidableEq, Inhabited

/-- `gdtr_t` and `idtr_t`: limit and base of a descriptor table. -/
structure DescriptorTable where
  size : BitVec 16
  offset : Word
  deriving DecidableEq, Inhabited

/-- The `guest_state` part of `vmx_initial_vmcs_config_t`. -/
structure InitialGuestState where
  rip : Word
  rsp : Word
  cr0 : Word
  cr3 : Word
  cr4 : Word
  ia32Efer : Word
  cs : BitVec 16
  ds : BitVec 16
  gdtr : DescriptorTable
  idtr : DescriptorTable
  deriving DecidableEq, Inhabited

/-- `vmx_initial_vmcs_config_t` -/
structure VmxInitialVmcsConfig where
  eptp : Word
  guestState : InitialGuestState
  deriving DecidableEq, Inhabited

/-- `vmx_vmexit_reg_state_t`, and the compatible `vmx_initial_gpr_state_t`. -/
structure VmxVmexitRegState where
  r15 : Word
  r14 : Word
  r13 : Word
  r12 : Word
  r11 : Word
  r10 : Word
  r9 : Word
  r8 : Word
  rdi : Word
  rsi : Word
  rbp : Word
  rdx : Word
  rcx : Word
  rbx : Word
  rax : Word
  deriving DecidableEq, Inhabited

/-- `VM_T_FLAG_VMCS_INITIALIZED` -/
def vmTFlagVmcsInitialized : Word := 1

/-- `VM_T_FLAG_EPT_PML4_INITIALIZED` -/
def vmTFlagEptPml4Initialized : Word := 2

/-- `vm_t`. The `next` link is the order of the list of machines, and
`permanent_state` has the single field `xcr0`. -/
structure Vm where
  name : String
  flags : Word
  vmcsRegion : Word
  vmcsConfig : VmxInitialVmcsConfig
  initialGprState : VmxVmexitRegState
  guestPhysicalPages : Word
  guestPhysicalPagesUsedByInitialSetup : Word
  trackedPages : List VmPageList
  /-- First registered device, by its number. -/
  devices : Option ℕ
  xcr0 : Word
  deriving DecidableEq, Inhabited

/-- `sizeof(vm_t)`: four words, the 80-byte configuration, fifteen registers
and five more words. -/
def sizeofVm : Word := 272

/-- `sizeof(vm_page_list_t)`, checked by a static assertion of the source. -/
def sizeofVmPageList : Word := 24

/-- `sizeof(arena_header_t)` -/
def sizeofArenaHeader : Word := 32

end Rkhv.HostTypes
