import Rkhv.PagedTranslation
import Rkhv.EptWalk
import Rkhv.VmGuestPaging
import Rkhv.HostRuns

/-!
# Pointers to guest data of several bytes

The helper of INS and OUTS translates the first byte of the guest's data and
checks that the data ends on the same host page. Both walks act on whole pages,
whatever the two sets of tables hold and however large their pages are, so that
every further byte lies behind the pointer, as long as the size of the data
does not wrap around in the check.
-/

namespace Rkhv.GuestAccess

open ByteMemory WordFields HostTypes HostState StateOutcome PagedTranslation EptWalk Ept VmxMsr
open VmGuestPaging HostRuns

/-! ## Both walks act on pages -/

theorem linearAddressGetPml4_append (page : PageNumber) (offset : PageOffset) :
    linearAddressGetPml4 (page ++ offset) = (page.extractLsb' 27 9).setWidth 64 := by
  rw [linearAddressGetPml4_eq, ← extractLsb'_append page offset 27 9]

theorem linearAddressGetDirectoryPtr_append (page : PageNumber) (offset : PageOffset) :
    linearAddressGetDirectoryPtr (page ++ offset) = (page.extractLsb' 18 9).setWidth 64 := by
  rw [linearAddressGetDirectoryPtr_eq, ← extractLsb'_append page offset 18 9]

theorem linearAddressGetDirectory_append (page : PageNumber) (offset : PageOffset) :
    linearAddressGetDirectory (page ++ offset) = (page.extractLsb' 9 9).setWidth 64 := by
  rw [linearAddressGetDirectory_eq, ← extractLsb'_append page offset 9 9]

theorem linearAddressGetTable_append (page : PageNumber) (offset : PageOffset) :
    linearAddressGetTable (page ++ offset) = (page.extractLsb' 0 9).setWidth 64 := by
  rw [linearAddressGetTable_eq, ← extractLsb'_append page offset 0 9]

/-- The extended page tables of any machine translate pages. -/
theorem vmxEptGetHostPhysicalAddress_paged (m : Memory) (v : Vm) :
    Paged (vmxEptGetHostPhysicalAddress m v) := by
  intro page
  simp only [vmxEptGetHostPhysicalAddress, linearAddressGetPml4_append,
    linearAddressGetDirectoryPtr_append, linearAddressGetDirectory_append,
    linearAddressGetTable_append, linearAddressGetOffset]
  refine .ite _ inside_none (.ite _ inside_none (.ite _ inside_none (.ite _ ?_ ?_)))
  · exact inside_leaf _ page (by decide) (by decide)
  refine .ite _ inside_none (.ite _ ?_ ?_)
  · exact inside_leaf _ page (by decide) (by decide)
  refine .ite _ inside_none ?_
  exact inside_leaf _ page (by decide) (by decide)

/-- So do the tables of a guest. -/
theorem vmGuestPagingGetGuestPhysicalAddress_paged (m : Memory) (v : Vm) (guestCr3 : Word) :
    Paged (vmGuestPagingGetGuestPhysicalAddress m v guestCr3) := by
  intro page
  simp only [vmGuestPagingGetGuestPhysicalAddress, linearAddressGetPml4_append,
    linearAddressGetDirectoryPtr_append, linearAddressGetDirectory_append,
    linearAddressGetTable_append, linearAddressGetOffset]
  refine inside_bind _ fun pml4e => .ite _ inside_none (inside_bind _ fun pdpte =>
    .ite _ inside_none (.ite _ ?_ (inside_bind _ fun pde => .ite _ inside_none (.ite _ ?_
      (inside_bind _ fun pte => .ite _ inside_none ?_)))))
  · exact inside_leaf _ page (by decide) (by decide)
  · exact inside_leaf _ page (by decide) (by decide)
  · exact inside_leaf _ page (by decide) (by decide)

/-- The host virtual address behind a guest linear address, by both walks. -/
def guestHostva (m : Memory) (v : Vm) (guestCr3 guestLinearAddr : Word) : Option Word :=
  ((vmGuestPagingGetGuestPhysicalAddress m v guestCr3 guestLinearAddr).bind
    (vmxEptGetHostPhysicalAddress m v)).map p2vIdentityMap

/-- The identity map of the host moves whole pages. -/
theorem p2vIdentityMap_paged : Paged fun x => some (p2vIdentityMap x) := by
  have hbase : rkhvPhysicalMemoryBase = rkhvPhysicalMemoryBase.extractLsb' 12 52 ++ 0#12 := by decide
  have hadd := paged_add (rkhvPhysicalMemoryBase.extractLsb' 12 52)
  rw [← hbase] at hadd
  exact hadd

theorem guestHostva_paged (m : Memory) (v : Vm) (guestCr3 : Word) :
    Paged (guestHostva m v guestCr3) := by
  have hwalks := (vmGuestPagingGetGuestPhysicalAddress_paged m v guestCr3).bind
    (vmxEptGetHostPhysicalAddress_paged m v)
  have hall := hwalks.bind p2vIdentityMap_paged
  intro page
  obtain ⟨target, htarget⟩ := hall.exists_target page
  refine ⟨target, fun offset => ?_⟩
  rw [← htarget offset]
  exact Option.map_eq_bind

/-! ## High bits -/

/-- The lowest address bit that no walk looks at. -/
def highBit : Word := 0x1000000000000

theorem getLsbD_add_highBit (x : Word) {i : ℕ} (h : i < 48) :
    (x + highBit).getLsbD i = x.getLsbD i := by
  have hlow : (x + highBit).setWidth 48 = x.setWidth 48 := by
    rw [BitVec.setWidth_add _ _ (by decide)]
    exact BitVec.add_zero _
  have hbit := congrArg (fun w : BitVec 48 => w.getLsbD i) hlow
  simpa only [BitVec.getLsbD_setWidth, h, decide_true, Bool.true_and] using hbit

theorem extractLsb'_add_highBit (x : Word) {k n : ℕ} (h : k + n ≤ 48) :
    (x + highBit).extractLsb' k n = x.extractLsb' k n := by
  apply BitVec.eq_of_getLsbD_eq
  intro i hi
  rw [BitVec.getLsbD_extractLsb', BitVec.getLsbD_extractLsb', getLsbD_add_highBit x (by omega)]

theorem and_add_highBit (x : Word) {mask : Word} (h : ∀ i < 16, mask.getLsbD (48 + i) = false) :
    (x + highBit) &&& mask = x &&& mask := by
  apply BitVec.eq_of_getLsbD_eq
  intro i hi
  rw [BitVec.getLsbD_and, BitVec.getLsbD_and]
  by_cases hlow : i < 48
  · rw [getLsbD_add_highBit x hlow]
  · have hclear := h (i - 48) (by omega)
    rw [Nat.add_sub_cancel' (by omega)] at hclear
    rw [hclear, Bool.and_false, Bool.and_false]

/-- The tables of a guest translate 48 bits of an address. -/
theorem vmGuestPagingGetGuestPhysicalAddress_add_highBit (m : Memory) (v : Vm)
    (guestCr3 guestLinearAddr : Word) :
    vmGuestPagingGetGuestPhysicalAddress m v guestCr3 (guestLinearAddr + highBit) =
      vmGuestPagingGetGuestPhysicalAddress m v guestCr3 guestLinearAddr := by
  have hlarge := @and_add_highBit guestLinearAddr
    (linearAddressDMask ||| linearAddressTableMask ||| linearAddressOffsetMask) (by decide)
  have hmedium := @and_add_highBit guestLinearAddr
    (linearAddressTableMask ||| linearAddressOffsetMask) (by decide)
  have hsmall := @and_add_highBit guestLinearAddr linearAddressOffsetMask (by decide)
  simp only [vmGuestPagingGetGuestPhysicalAddress, linearAddressGetPml4_eq,
    linearAddressGetDirectoryPtr_eq, linearAddressGetDirectory_eq, linearAddressGetTable_eq,
    linearAddressGetOffset, extractLsb'_add_highBit _ (show 39 + 9 ≤ 48 by decide),
    extractLsb'_add_highBit _ (show 30 + 9 ≤ 48 by decide),
    extractLsb'_add_highBit _ (show 21 + 9 ≤ 48 by decide),
    extractLsb'_add_highBit _ (show 12 + 9 ≤ 48 by decide), hlarge, hmedium, hsmall]

/-! ## The helper of INS and OUTS -/

/-- What a returned pointer says: the first byte lies behind it, and the end of the
data passed the check. -/
theorem hostVirtualAddress_returned {vmState : VmxVmexitState} {gva size p : Word} {s s' : Hv}
    (h : vmGuestPagingGetHostVirtualAddressDuringVmexit vmState gva size s = .ok p s') :
    guestHostva s.memory (s.vmAt vmState.vm) vmState.cr3 gva = some p ∧
      p &&& pageMask = (p + (size - 1)) &&& pageMask := by
  have hresult : Ensures (vmGuestPagingGetHostVirtualAddressDuringVmexit vmState gva size) s
      (fun p _ => guestHostva s.memory (s.vmAt vmState.vm) vmState.cr3 gva = some p ∧
        p &&& pageMask = (p + (size - 1)) &&& pageMask) (fun _ _ => True) := by
    unfold vmGuestPagingGetHostVirtualAddressDuringVmexit
    rw [ensures_ite]
    refine ⟨fun _ => trivial, fun _ => ?_⟩
    simp only [ensures_bind, ensures_get]
    split
    · trivial
    · rename_i gpa hgpa
      split
      · trivial
      · rename_i hpa hhpa
        rw [ensures_ite]
        refine ⟨fun _ => trivial, fun hcheck => ⟨?_, not_not.mp hcheck⟩⟩
        rw [guestHostva, hgpa, Option.bind_some, hhpa, Option.map_some]
  exact hresult.of_ok h

/-- A passed check without a wrap keeps all of the data on one page. -/
theorem offset_add_size_le {p size : Word} (hsize : 1 ≤ size.toNat)
    (hcheck : p &&& pageMask = (p + (size - 1)) &&& pageMask) (hwrap : size.toNat ≤ 2 ^ 64 - 4095) :
    p.toNat % 4096 + size.toNat ≤ 4096 := by
  obtain ⟨page, offset, hp⟩ := exists_append p
  obtain ⟨page', offset', hend⟩ := exists_append (p + (size - 1))
  have hmask : pageMask = fieldMask 12 52 := by decide
  rw [hend, hp, hmask, append_and_pageMask, append_and_pageMask] at hcheck
  have hpage := append_zero_inj hcheck
  have hvalue := congrArg BitVec.toNat hend
  rw [hp, ← hpage, BitVec.toNat_add, toNat_append_eq, toNat_append_eq, BitVec.toNat_sub] at hvalue
  rw [hp, toNat_append_eq]
  have hone : (1 : Word).toNat = 1 := rfl
  have hlt := page.isLt
  have hoffset := offset.isLt
  have hoffset' := offset'.isLt
  have hsizeLt := size.isLt
  rw [hone] at hvalue
  omega

/-- A pointer is exact for no more bytes than the walks tell apart. -/
theorem size_le_of_exact {m : Memory} {v : Vm} {guestCr3 gva p : Word} {n : ℕ}
    (hfirst : guestHostva m v guestCr3 gva = some p)
    (hall : ∀ i < n, ∃ guestpa hostpa,
      vmGuestPagingGetGuestPhysicalAddress m v guestCr3 (gva + BitVec.ofNat 64 i) = some guestpa ∧
      vmxEptGetHostPhysicalAddress m v guestpa = some hostpa ∧
      p2vIdentityMap hostpa = p + BitVec.ofNat 64 i) : n ≤ 2 ^ 48 := by
  by_contra hlarge
  -- the byte 2 ^ 48 further on is reached by the same walks
  obtain ⟨guestpa, hostpa, hguest, hhost, hp⟩ := hall (2 ^ 48) (by omega)
  have hbit : BitVec.ofNat 64 (2 ^ 48) = highBit := by decide
  rw [hbit, vmGuestPagingGetGuestPhysicalAddress_add_highBit] at hguest
  rw [guestHostva, hguest, Option.bind_some, hhost, Option.map_some, Option.some.injEq, hp,
    hbit] at hfirst
  have hzero : highBit = 0 := by
    have hcancel : highBit + p - p = p - p := by rw [BitVec.add_comm, hfirst]
    rwa [BitVec.add_sub_cancel, BitVec.sub_self] at hcancel
  exact absurd hzero (by decide)

/-- The pointer for a guest's data of at least one byte is exact for every byte,
by both walks, if and only if the size of the data does not wrap around in the
check. -/
theorem hostVirtualAddress_exact_iff {vmState : VmxVmexitState} {gva size p : Word} {s s' : Hv}
    (hsize : 1 ≤ size.toNat)
    (h : vmGuestPagingGetHostVirtualAddressDuringVmexit vmState gva size s = .ok p s') :
    (∀ i < size.toNat, ∃ guestpa hostpa,
      vmGuestPagingGetGuestPhysicalAddress s.memory (s.vmAt vmState.vm) vmState.cr3
        (gva + BitVec.ofNat 64 i) = some guestpa ∧
      vmxEptGetHostPhysicalAddress s.memory (s.vmAt vmState.vm) guestpa = some hostpa ∧
      p2vIdentityMap hostpa = p + BitVec.ofNat 64 i) ↔ size.toNat ≤ 2 ^ 64 - 4095 := by
  obtain ⟨hfirst, hcheck⟩ := hostVirtualAddress_returned h
  constructor
  · intro hall
    have hsmall := size_le_of_exact hfirst hall
    omega
  · intro hwrap i hi
    have hpage := offset_add_size_le hsize hcheck hwrap
    have hbyte := (guestHostva_paged s.memory (s.vmAt vmState.vm) vmState.cr3).add hfirst
      (i := i) (by omega)
    rw [guestHostva, Option.map_eq_some_iff] at hbyte
    obtain ⟨hostpa, hwalks, hp⟩ := hbyte
    rw [Option.bind_eq_some_iff] at hwalks
    obtain ⟨guestpa, hguest, hhost⟩ := hwalks
    exact ⟨guestpa, hostpa, hguest, hhost, hp⟩

/-! ## A guest with large pages -/

/-- A machine whose tables and guest tables all lie in memory full of present
entries for large pages. -/
def largePagesHost : Hv :=
  { smallHost 1 with
    memory := fun _ => 0x87
    vmAt := fun _ => { (default : Vm) with flags := vmTFlagEptPml4Initialized } }

/-- A guest in long mode with four levels of tables. -/
def longModeState : VmxVmexitState :=
  { (default : VmxVmexitState) with
    vm := firstVm, cr0 := cr0Pg, cr4 := cr4Pae
    msrs := { (default : VmxMsrState) with ia32Efer := ia32EferLme } }

/-- The pointer to the guest's data at linear address 8. -/
def largePagesPointer : Word := 0x7888780000008

theorem longModeState_returns {size : Word}
    (h : largePagesPointer &&& pageMask = (largePagesPointer + (size - 1)) &&& pageMask) :
    vmGuestPagingGetHostVirtualAddressDuringVmexit longModeState 8 size largePagesHost =
      .ok largePagesPointer largePagesHost := by
  have hguest : vmGuestPagingGetGuestPhysicalAddress largePagesHost.memory
      (largePagesHost.vmAt firstVm) longModeState.cr3 8 = some 0x7878780000008 := by decide +kernel
  have hhost : vmxEptGetHostPhysicalAddress largePagesHost.memory (largePagesHost.vmAt firstVm)
      0x7878780000008 = some 0x7878780000008 := by decide +kernel
  have hpointer : p2vIdentityMap 0x7878780000008 = largePagesPointer := by decide
  have hvm : longModeState.vm = firstVm := rfl
  rw [vmGuestPagingGetHostVirtualAddressDuringVmexit, if_neg (by decide),
    bind_of_ok (get_eq_ok.mpr ⟨rfl, rfl⟩), hvm, hguest]
  dsimp only
  rw [hhost]
  dsimp only
  rw [hpointer, if_neg (not_not.mpr h)]
  rfl

/-- Four bytes through large pages. -/
theorem hostVirtualAddress_exact_iff_large_pages :
    (∀ i < (4 : Word).toNat, ∃ guestpa hostpa,
      vmGuestPagingGetGuestPhysicalAddress largePagesHost.memory
        (largePagesHost.vmAt longModeState.vm) longModeState.cr3 (8 + BitVec.ofNat 64 i) =
          some guestpa ∧
      vmxEptGetHostPhysicalAddress largePagesHost.memory (largePagesHost.vmAt longModeState.vm)
        guestpa = some hostpa ∧
      p2vIdentityMap hostpa = largePagesPointer + BitVec.ofNat 64 i) ↔
    (4 : Word).toNat ≤ 2 ^ 64 - 4095 :=
  hostVirtualAddress_exact_iff (by decide) (longModeState_returns (by decide))

/-- With the largest size the check passes, and the pointer is not exact. -/
theorem hostVirtualAddress_wrapped_size :
    vmGuestPagingGetHostVirtualAddressDuringVmexit longModeState 8 0xffffffffffffffff
      largePagesHost = .ok largePagesPointer largePagesHost ∧
    ¬∀ i < (0xffffffffffffffff : Word).toNat, ∃ guestpa hostpa,
      vmGuestPagingGetGuestPhysicalAddress largePagesHost.memory
        (largePagesHost.vmAt longModeState.vm) longModeState.cr3 (8 + BitVec.ofNat 64 i) =
          some guestpa ∧
      vmxEptGetHostPhysicalAddress largePagesHost.memory (largePagesHost.vmAt longModeState.vm)
        guestpa = some hostpa ∧
      p2vIdentityMap hostpa = largePagesPointer + BitVec.ofNat 64 i := by
  have hreturns := @longModeState_returns 0xffffffffffffffff (by decide)
  refine ⟨hreturns, fun hall => ?_⟩
  have hsmall := size_le_of_exact (hostVirtualAddress_returned hreturns).1 hall
  exact absurd hsmall (by decide)

end Rkhv.GuestAccess
