import Rkhv.Arenas
import Rkhv.WordFields

/-!
# Pages for VMX structures and guests

The functions that take a page from the allocator for one purpose: the VMXON
region and the MSR bitmaps, which are taken once and remembered, and the VMCS
regions, EPT tables and guest pages, which their callers register. Each writes
only to the page that it took.
-/

namespace Rkhv.VmxPages

open ByteMemory WordFields HostTypes HostState StateOutcome FreePages

/-! ## MSR bitmaps -/

/-- `VMCS_MSR_BITMAPS_READ_LOW` -/
def vmcsMsrBitmapsReadLow : Word := 0

/-- `VMCS_MSR_BITMAPS_READ_HIGH` -/
def vmcsMsrBitmapsReadHigh : Word := 1024

/-- `VMCS_MSR_BITMAPS_WRITE_LOW` -/
def vmcsMsrBitmapsWriteLow : Word := 2048

/-- `VMCS_MSR_BITMAPS_WRITE_HIGH` -/
def vmcsMsrBitmapsWriteHigh : Word := 3072

/-- `VMCS_MSR_BITMAPS_HIGH_BASE` -/
def vmcsMsrBitmapsHighBase : Word := 0xc0000000

/-- Addresses of `VMX_MSR_LIST`, in its order. -/
def vmxMsrList : List Word :=
  [0xc0000080, 0xc0000100, 0xc0000101, 0x1a0, 0x8b, 0xda0, 0xc0000102]

/-- `X_ALLOW_MSR`: clear the write bit of an MSR. -/
def xAllowMsr (msrBitmaps : Word) (m : Memory) (addr : Word) : Memory :=
  if addr < vmcsMsrBitmapsHighBase then
    let cell := v2pIdentityMap (msrBitmaps + (vmcsMsrBitmapsWriteLow + addr / 8))
    Function.update m cell (m cell &&& ~~~((1 : BitVec 8) <<< (addr % 8)))
  else
    let cell := v2pIdentityMap
      (msrBitmaps + (vmcsMsrBitmapsWriteHigh + (addr - vmcsMsrBitmapsHighBase) / 8))
    Function.update m cell (m cell &&& ~~~((1 : BitVec 8) <<< ((addr - vmcsMsrBitmapsHighBase) % 8)))

/-- The four `memset` calls of `vmx_msr_init_bitmaps`. -/
def clearMsrBitmaps (m : Memory) (msrBitmaps : Word) : Memory :=
  let m := fill m (v2pIdentityMap (msrBitmaps + vmcsMsrBitmapsReadLow)) 0 1024
  let m := fill m (v2pIdentityMap (msrBitmaps + vmcsMsrBitmapsReadHigh)) 0 1024
  let m := fill m (v2pIdentityMap (msrBitmaps + vmcsMsrBitmapsWriteLow)) 0xff 1024
  fill m (v2pIdentityMap (msrBitmaps + vmcsMsrBitmapsWriteHigh)) 0xff 1024

/-- `vmx_msr_init_bitmaps`, for a pointer to the bitmaps. -/
def vmxMsrInitBitmaps (m : Memory) (msrBitmaps : Word) : Memory :=
  vmxMsrList.foldl (xAllowMsr msrBitmaps) (clearMsrBitmaps m msrBitmaps)

/-! ## Taking pages -/

/-- `IA32_VMX_BASIC` -/
def ia32VmxBasic : BitVec 32 := 0x480

/-- `vmx_get_vmcs_revision_identifier` -/
def vmxGetVmcsRevisionIdentifier (cpu : Cpu) : BitVec 32 :=
  (cpu.msr ia32VmxBasic &&& 0x7fffffff).setWidth 32

/-- `vmx_get_vmxon_region` -/
def vmxGetVmxonRegion : HvM Word := do
  let s ← get
  if s.vmxonRegionValid then return s.vmxonRegion
  else
    let vmxonRegion ← mmGetFreePage
    modify fun s => { s with
      vmxonRegion := vmxonRegion
      vmxonRegionValid := true
      memory := writeDword s.memory (v2pIdentityMap (p2vIdentityMap vmxonRegion))
        (vmxGetVmcsRevisionIdentifier s.cpu) }
    return vmxonRegion

/-- `vmx_get_msr_bitmaps_page` -/
def vmxGetMsrBitmapsPage : HvM Word := do
  let s ← get
  if s.msrBitmapsPageValid then return s.msrBitmapsPage
  else
    let msrBitmapsPage ← mmGetFreePage
    modify fun s => { s with
      msrBitmapsPage := msrBitmapsPage
      msrBitmapsPageValid := true
      memory := vmxMsrInitBitmaps s.memory (p2vIdentityMap msrBitmapsPage) }
    return msrBitmapsPage

/-- `vmx_get_free_vmcs_region` -/
def vmxGetFreeVmcsRegion : HvM Word := do
  let vmcsRegion ← mmGetFreePage
  modify fun s => { s with
    memory := writeDword s.memory (v2pIdentityMap (p2vIdentityMap vmcsRegion))
      (vmxGetVmcsRevisionIdentifier s.cpu) }
  return vmcsRegion

/-- `vmx_get_free_ept_page`; the result is a pointer. -/
def vmxGetFreeEptPage : HvM Word := do
  let eptPage ← mmGetFreePage
  memset (p2vIdentityMap eptPage) 0 4096
  return p2vIdentityMap eptPage

/-- `vm_manager_get_free_guest_physical_page` -/
def vmManagerGetFreeGuestPhysicalPage : HvM Word := do
  let pagePa ← mmGetFreePage
  memset (p2vIdentityMap pagePa) 0 4096
  return pagePa

/-! ## What is written where -/

/-- An address at an offset within a page lies in the page's frame. -/
theorem inFrame_offset {f : Frame} {k : Word} (hk : k.toNat < 4096) :
    InFrame f (frameAddress f + k) := by
  rw [InFrame, BitVec.add_comm, BitVec.add_sub_cancel]
  exact hk

/-- Changing one byte of a frame changes no other frame. -/
theorem sameFrame_update {m : Memory} {f g : Frame} {a : Word} {v : BitVec 8} (ha : InFrame f a)
    (h : g ≠ f) : SameFrame m (Function.update m a v) g := by
  intro b hb
  have hne : b ≠ a := fun he => h (InFrame.eq (he ▸ hb) ha)
  simp only [Function.update, hne, dite_false]

/-- Filling a block inside a frame changes no other frame. -/
theorem sameFrame_fill_part {m : Memory} {f g : Frame} {k : Word} {v : BitVec 8} {n : ℕ}
    (hk : k.toNat + n ≤ 4096) (h : g ≠ f) : SameFrame m (fill m (frameAddress f + k) v n) g := by
  intro a ha
  refine fill_apply_of_le (Nat.le_of_not_lt fun hlt => h ?_)
  have hin : InFrame f (frameAddress f + (k + (a - (frameAddress f + k)))) :=
    inFrame_offset (by rw [BitVec.toNat_add]; omega)
  rw [← BitVec.add_assoc, BitVec.add_comm (frameAddress f + k), BitVec.sub_add_cancel] at hin
  exact InFrame.eq ha hin

/-- MSR addresses that the bitmaps cover. -/
def MsrCovered (addr : Word) : Prop :=
  addr.toNat < 0x2000 ∨ 0xc0000000 ≤ addr.toNat ∧ addr.toNat < 0xc0002000

/-- Allowing an MSR writes to the page of the bitmaps only. -/
theorem sameFrame_xAllowMsr {m : Memory} {f g : Frame} {addr : Word} (haddr : MsrCovered addr)
    (h : g ≠ f) : SameFrame m (xAllowMsr (p2vIdentityMap (frameAddress f)) m addr) g := by
  have h8 : (8 : Word).toNat = 8 := rfl
  have hbase : vmcsMsrBitmapsHighBase.toNat = 0xc0000000 := rfl
  have hlow : vmcsMsrBitmapsWriteLow.toNat = 2048 := rfl
  have hhigh : vmcsMsrBitmapsWriteHigh.toNat = 3072 := rfl
  rw [xAllowMsr]
  split
  · rename_i hlt
    rw [BitVec.lt_def, hbase] at hlt
    rw [v2p_p2v_add]
    refine sameFrame_update (inFrame_offset ?_) h
    rw [MsrCovered] at haddr
    rw [BitVec.toNat_add, BitVec.toNat_udiv, h8, hlow]
    omega
  · rename_i hlt
    rw [BitVec.lt_def, hbase] at hlt
    rw [v2p_p2v_add]
    refine sameFrame_update (inFrame_offset ?_) h
    rw [MsrCovered] at haddr
    rw [BitVec.toNat_add, BitVec.toNat_udiv, BitVec.toNat_sub, h8, hbase, hhigh]
    omega

/-- Initialising the bitmaps writes to their page only. -/
theorem sameFrame_vmxMsrInitBitmaps {m : Memory} {f g : Frame} (h : g ≠ f) :
    SameFrame m (vmxMsrInitBitmaps m (p2vIdentityMap (frameAddress f))) g := by
  have hfold : ∀ (l : List Word) (m : Memory), (∀ addr ∈ l, MsrCovered addr) →
      SameFrame m (l.foldl (xAllowMsr (p2vIdentityMap (frameAddress f))) m) g := by
    intro l
    induction l with
    | nil => exact fun m _ => SameFrame.refl m g
    | cons addr l ih =>
      intro m hl
      rw [List.forall_mem_cons] at hl
      exact (sameFrame_xAllowMsr hl.1 h).trans (ih _ hl.2)
  have hclear : SameFrame m (clearMsrBitmaps m (p2vIdentityMap (frameAddress f))) g := by
    simp only [clearMsrBitmaps, v2p_p2v_add]
    exact (((sameFrame_fill_part (by decide) h).trans (sameFrame_fill_part (by decide) h)).trans
      (sameFrame_fill_part (by decide) h)).trans (sameFrame_fill_part (by decide) h)
  exact hclear.trans (hfold vmxMsrList _ (by simp [vmxMsrList, MsrCovered]))

end Rkhv.VmxPages
