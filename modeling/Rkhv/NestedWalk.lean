import Rkhv.ArchitecturalWalk
import Rkhv.EptWalk
import Rkhv.VmGuestPaging

/-!
# The nested walk of a guest

A processor that runs a guest reads every table of the guest through the
extended page tables of its machine. The walker of the hypervisor does not look
at reserved bits, but wherever the architecture translates an address it gives
the same translation, and where an entry is not present or a table is not mapped
it gives none.
-/

namespace Rkhv.NestedWalk

open ByteMemory WordFields HostTypes ArchitecturalWalk Ept EptWalk VmGuestPaging

/-! ## The architecture -/

/-- What a processor leaves open about its reserved bits. -/
structure Processor where
  /-- Width of physical addresses, at most 52. -/
  maxPhyAddr : ℕ
  /-- `IA32_EFER.NXE`: bit 63 is not reserved. -/
  executeDisable : Bool

/-- Some bit from `low` up to below `high` is set. -/
def anyBit (e : Word) (low high : ℕ) : Bool := e.toNat % 2 ^ high / 2 ^ low != 0

/-- Entries of the page tables of a guest. -/
def guestFormat (p : Processor) : EntryFormat where
  present e := e.getLsbD 0
  reserved level e :=
    anyBit e p.maxPhyAddr 52 || (e.getLsbD 63 && !p.executeDisable) ||
      (level == 4 && e.getLsbD 7) || (largePage level e && anyBit e 13 (levelShift level))

/-- Memory types that an extended page-table entry cannot have. -/
def reservedMemoryType (e : Word) : Bool := [2, 3, 7].contains (e.toNat / 8 % 8)

/-- Entries of extended page tables, which must allow the read of a table. -/
def eptFormat (p : Processor) : EntryFormat where
  present e := e.getLsbD 0
  reserved level e :=
    anyBit e p.maxPhyAddr 52 ||
      if level = 1 then reservedMemoryType e
      else if largePage level e then anyBit e 12 (levelShift level) || reservedMemoryType e
      else anyBit e 3 (if level = 4 then 8 else 7)

/-- A quadword at a host physical address. -/
def hostRead (m : Memory) (a : ℕ) : Except WalkFault Word := .ok (readQword m (BitVec.ofNat 64 a))

/-- The walk of a guest physical address in the extended page tables of a machine. -/
def eptWalk (p : Processor) (m : Memory) (v : Vm) (a : ℕ) : Except WalkFault ℕ :=
  if v.flags &&& vmTFlagEptPml4Initialized = 0 then .error .notMapped
  else walk (eptFormat p) (hostRead m) 4 v.vmcsConfig.eptp.toNat a

/-- A quadword at a guest physical address below 2^48, read through the extended
page tables. -/
def guestRead (p : Processor) (m : Memory) (v : Vm) (a : ℕ) : Except WalkFault Word :=
  if 2 ^ 48 ≤ a then .error .reserved
  else
    match eptWalk p m v a with
    | .ok hpa => hostRead m hpa
    | .error .reserved => .error .reserved
    | .error _ => .error .notMapped

/-- The walk of a linear address in the tables of a guest. -/
def nestedWalk (p : Processor) (m : Memory) (v : Vm) (cr3 la : Word) : Except WalkFault ℕ :=
  walk (guestFormat p) (guestRead p m v) 4 (entryAddress cr3 12) la.toNat

/-! ## Bits of an entry -/

theorem and_present_eq_zero_iff {e : Word} : e &&& ptePresent = 0 ↔ e.getLsbD 0 = false := by
  have hbit : ptePresent = BitVec.twoPow 64 0 := rfl
  rw [hbit, BitVec.and_twoPow]
  cases e.getLsbD 0 <;> decide

theorem and_pageSize_eq_zero_iff {e : Word} : e &&& pdePageSize = 0 ↔ e.getLsbD 7 = false := by
  have hbit : pdePageSize = BitVec.twoPow 64 7 := rfl
  rw [hbit, BitVec.and_twoPow]
  cases e.getLsbD 7 <;> decide

theorem absent {e : Word} (h : e.getLsbD 0 = false) : e &&& ptePresent = 0 :=
  and_present_eq_zero_iff.mpr h

theorem present {e : Word} (h : e.getLsbD 0 = true) : ¬e &&& ptePresent = 0 := by
  rw [and_present_eq_zero_iff, h]
  decide

theorem large {e : Word} (h : e.getLsbD 7 = true) : e &&& pdePageSize ≠ 0 := by
  rw [ne_eq, and_pageSize_eq_zero_iff, h]
  decide

theorem small {e : Word} (h : e.getLsbD 7 = false) : ¬e &&& pdePageSize ≠ 0 :=
  not_not.mpr (and_pageSize_eq_zero_iff.mpr h)

/-- The entry of a table, behind the pointer of the walker and as a number. -/
theorem entry_address (table x : Word) (k : ℕ) :
    v2pIdentityMap (p2vIdentityMap table + ((x &&& fieldMask k 9) >>> k) * 8) =
      BitVec.ofNat 64 (table.toNat + 8 * (x.toNat / 2 ^ k % 512)) := by
  rw [v2p_p2v_add]
  apply BitVec.eq_of_toNat_eq
  have height : (8 : Word).toNat = 8 := rfl
  rw [BitVec.toNat_add, BitVec.toNat_mul, index_toNat, BitVec.toNat_ofNat, height]
  omega

theorem entry_pml4 (table x : Word) :
    v2pIdentityMap (p2vIdentityMap table + linearAddressGetPml4 x * 8) =
      BitVec.ofNat 64 (entryAt 4 table.toNat x.toNat) := entry_address table x 39

theorem entry_pdpt (table x : Word) :
    v2pIdentityMap (p2vIdentityMap table + linearAddressGetDirectoryPtr x * 8) =
      BitVec.ofNat 64 (entryAt 3 table.toNat x.toNat) := entry_address table x 30

theorem entry_pd (table x : Word) :
    v2pIdentityMap (p2vIdentityMap table + linearAddressGetDirectory x * 8) =
      BitVec.ofNat 64 (entryAt 2 table.toNat x.toNat) := entry_address table x 21

theorem entry_pt (table x : Word) :
    v2pIdentityMap (p2vIdentityMap table + linearAddressGetTable x * 8) =
      BitVec.ofNat 64 (entryAt 1 table.toNat x.toNat) := entry_address table x 12

/-- The table that an entry points to. -/
theorem table_toNat (e : Word) : (e &&& ptePhysicalAddressPage).toNat = entryAddress e 12 := by
  have hmask : e &&& ptePhysicalAddressPage = BitVec.ofNat 64 (entryAddress e 12) :=
    and_fieldMask_entryAddress e 12
  have hlt := entryAddress_lt e (k := 12) (by decide)
  rw [hmask, BitVec.toNat_ofNat]
  omega

theorem eptTable_toNat (e : Word) : (e &&& eptPtePhysicalAddressPage).toNat = entryAddress e 12 :=
  table_toNat e

/-- The translations of a 1 GiB page, a 2 MiB page and a 4 KiB page. -/
theorem leaf_pdpt (e x : Word) :
    (e &&& pdptePhysicalAddressPage) |||
        (x &&& (linearAddressDMask ||| linearAddressTableMask ||| linearAddressOffsetMask)) =
      BitVec.ofNat 64 (entryAddress e (levelShift 3) + x.toNat % 2 ^ levelShift 3) := leaf_word e x 30

theorem leaf_pd (e x : Word) :
    (e &&& pdePhysicalAddressPage) ||| (x &&& (linearAddressTableMask ||| linearAddressOffsetMask)) =
      BitVec.ofNat 64 (entryAddress e (levelShift 2) + x.toNat % 2 ^ levelShift 2) := leaf_word e x 21

theorem leaf_pt (e x : Word) :
    (e &&& ptePhysicalAddressPage) ||| linearAddressGetOffset x =
      BitVec.ofNat 64 (entryAddress e 12 + x.toNat % 2 ^ 12) := leaf_word e x 12

/-! ## Extended page tables -/

/-- The walker of the extended page tables agrees with the architecture. -/
theorem vmxEptGetHostPhysicalAddress_agrees (p : Processor) (m : Memory) (v : Vm) (gpa : Word) :
    Agrees (BitVec.ofNat 64) (eptWalk p m v gpa.toNat) (vmxEptGetHostPhysicalAddress m v gpa) := by
  rw [eptWalk, vmxEptGetHostPhysicalAddress]
  by_cases hflag : v.flags &&& vmTFlagEptPml4Initialized = 0
  · simp only [if_pos hflag]
    rfl
  have hread : eptPteRead = ptePresent := rfl
  have hpageSize : eptPdePageSize = pdePageSize := rfl
  simp only [if_neg hflag, entry_pml4, entry_pdpt, entry_pd, entry_pt, eptTable_toNat, hread,
    hpageSize]
  -- the PML4, which has no large pages
  refine Agrees.of_entry rfl (fun h => if_pos (absent h)) (fun _ h => by cases h) fun h4 _ => ?_
  rw [if_neg (present h4)]
  -- the page-directory-pointer table
  refine Agrees.of_entry rfl (fun h => if_pos (absent h)) (fun h3 hpage => ?_) fun h3 hpage => ?_
  · rw [if_neg (present h3), if_pos (large hpage)]
    exact congrArg some (leaf_pdpt _ gpa)
  rw [if_neg (present h3), if_neg (small hpage)]
  -- the page directory
  refine Agrees.of_entry rfl (fun h => if_pos (absent h)) (fun h2 hpage => ?_) fun h2 hpage => ?_
  · rw [if_neg (present h2), if_pos (large hpage)]
    exact congrArg some (leaf_pd _ gpa)
  rw [if_neg (present h2), if_neg (small hpage)]
  -- the page table
  refine Agrees.of_entry rfl (fun h => if_pos (absent h)) (fun _ h => by cases h) fun h1 _ => ?_
  rw [if_neg (present h1)]
  exact congrArg some (leaf_pt _ gpa)

/-! ## Tables of a guest -/

/-- An entry of a guest's table is found where the architecture reads it. -/
theorem element_agrees (p : Processor) (m : Memory) (v : Vm) {table : Word} (x : Word) (k : ℕ)
    (halign : table.toNat % 2 ^ 12 = 0) :
    Agrees id (guestRead p m v (table.toNat + 8 * (x.toNat / 2 ^ k % 512)))
      ((vmxEptGetHostPhysicalAddress m v table).map fun hostpa =>
        readQword m (v2pIdentityMap (p2vIdentityMap hostpa + ((x &&& fieldMask k 9) >>> k) * 8))) := by
  have hindex : 8 * (x.toNat / 2 ^ k % 512) < 2 ^ 12 := by
    have hlt : x.toNat / 2 ^ k % 512 < 512 := Nat.mod_lt _ (by decide)
    omega
  have hoffset : eptWalk p m v (table.toNat + 8 * (x.toNat / 2 ^ k % 512)) =
      (eptWalk p m v table.toNat).map (· + 8 * (x.toNat / 2 ^ k % 512)) := by
    rw [eptWalk, eptWalk]
    split
    · rfl
    · exact walk_add_offset _ _ halign hindex 4 _
  have hept := vmxEptGetHostPhysicalAddress_agrees p m v table
  rw [guestRead, hoffset]
  split
  · trivial
  cases hwalk : eptWalk p m v table.toNat with
  | ok hpa =>
    rw [hwalk] at hept
    have hcode : vmxEptGetHostPhysicalAddress m v table = some (BitVec.ofNat 64 hpa) := hept
    rw [hcode, Option.map_some, entry_address]
    refine congrArg (fun a => some (readQword m a)) (BitVec.eq_of_toNat_eq ?_)
    rw [BitVec.toNat_ofNat, BitVec.toNat_ofNat, BitVec.toNat_ofNat]
    dsimp only
    omega
  | error fault =>
    rw [hwalk] at hept
    cases fault with
    | reserved => trivial
    | notPresent =>
      have hcode : vmxEptGetHostPhysicalAddress m v table = none := hept
      rw [hcode]
      rfl
    | notMapped =>
      have hcode : vmxEptGetHostPhysicalAddress m v table = none := hept
      rw [hcode]
      rfl

/-- Tables start at page addresses. -/
theorem table_aligned (e : Word) : (e &&& ptePhysicalAddressPage).toNat % 2 ^ 12 = 0 := by
  rw [table_toNat, entryAddress]
  exact Nat.mul_mod_left _ _

/-- The walker of a guest's tables agrees with the architecture. -/
theorem vmGuestPagingGetGuestPhysicalAddress_agrees (p : Processor) (m : Memory) (v : Vm)
    (cr3 la : Word) (hcr3 : cr3.toNat < 2 ^ 52) :
    Agrees (BitVec.ofNat 64) (nestedWalk p m v cr3 la)
      (vmGuestPagingGetGuestPhysicalAddress m v cr3 la) := by
  have hroot : cr3 &&& pageMask = cr3 &&& ptePhysicalAddressPage := by
    have hmask : ptePhysicalAddressPage = pageMask &&& fieldMask 0 52 := by decide
    have hlow : cr3 &&& fieldMask 0 52 = cr3 := by
      rw [and_fieldMask_mod, Nat.mod_eq_of_lt hcr3, BitVec.ofNat_toNat, BitVec.setWidth_eq]
    rw [hmask, BitVec.and_comm pageMask, ← BitVec.and_assoc, hlow]
  rw [nestedWalk, vmGuestPagingGetGuestPhysicalAddress, hroot, ← table_toNat]
  dsimp only
  -- the PML4, which has no large pages
  refine Agrees.of_read (element_agrees p m v la 39 (table_aligned cr3)) fun pml4e hread =>
    Agrees.of_entry hread (fun h => if_pos (absent h)) (fun _ h => nomatch h) fun h4 _ => ?_
  rw [if_neg (present h4), ← table_toNat]
  -- the page-directory-pointer table
  refine Agrees.of_read (element_agrees p m v la 30 (table_aligned pml4e)) fun pdpte hread =>
    Agrees.of_entry hread (fun h => if_pos (absent h)) (fun h3 hpage => ?_) fun h3 hpage => ?_
  · rw [if_neg (present h3), if_pos (large hpage)]
    exact congrArg some (leaf_pdpt pdpte la)
  rw [if_neg (present h3), if_neg (small hpage), ← table_toNat]
  -- the page directory
  refine Agrees.of_read (element_agrees p m v la 21 (table_aligned pdpte)) fun pde hread =>
    Agrees.of_entry hread (fun h => if_pos (absent h)) (fun h2 hpage => ?_) fun h2 hpage => ?_
  · rw [if_neg (present h2), if_pos (large hpage)]
    exact congrArg some (leaf_pd pde la)
  rw [if_neg (present h2), if_neg (small hpage), ← table_toNat]
  -- the page table
  refine Agrees.of_read (element_agrees p m v la 12 (table_aligned pde)) fun pte hread =>
    Agrees.of_entry hread (fun h => if_pos (absent h)) (fun _ h => nomatch h) fun h1 _ => ?_
  rw [if_neg (present h1)]
  exact congrArg some (leaf_pt pte la)

/-- Where the nested walk of the architecture translates an address, the walker
of the hypervisor gives the same guest physical address; where an entry is not
present or a table is not mapped by the extended page tables, it gives none. -/
theorem vmGuestPagingGetGuestPhysicalAddress_architectural (p : Processor) (m : Memory) (v : Vm)
    (cr3 la : Word) (hcr3 : cr3.toNat < 2 ^ 52) :
    (∀ gpa, nestedWalk p m v cr3 la = .ok gpa →
      ∃ w, vmGuestPagingGetGuestPhysicalAddress m v cr3 la = some w ∧ w.toNat = gpa) ∧
    (nestedWalk p m v cr3 la = .error .notPresent ∨ nestedWalk p m v cr3 la = .error .notMapped →
      vmGuestPagingGetGuestPhysicalAddress m v cr3 la = none) := by
  have hagrees := vmGuestPagingGetGuestPhysicalAddress_agrees p m v cr3 la hcr3
  constructor
  · intro gpa hwalk
    have hlt : gpa < 2 ^ 52 := walk_lt (Nat.le_refl 4) nofun hwalk
    rw [hwalk] at hagrees
    refine ⟨BitVec.ofNat 64 gpa, hagrees, ?_⟩
    rw [BitVec.toNat_ofNat]
    omega
  · intro hfault
    cases hfault with
    | inl hwalk =>
      rw [hwalk] at hagrees
      exact hagrees
    | inr hwalk =>
      rw [hwalk] at hagrees
      exact hagrees

/-- A host memory with 1 GiB identity pages in extended page tables at 0x1000 and
in the tables of a guest at 0x3000. -/
def largePagesMemory : Memory :=
  writeQword (writeQword (writeQword (writeQword (fun _ => 0) 0x1000 0x2007) 0x2000 0x87) 0x3000
    0x4003) 0x4000 0x83

/-- A machine with extended page tables at 0x1000. -/
def largePagesVm : Vm :=
  { (default : Vm) with
    flags := vmTFlagEptPml4Initialized
    vmcsConfig := { (default : Vm).vmcsConfig with eptp := 0x1000 } }

/-- An address in the large pages, and one that no entry of the guest maps. -/
theorem vmGuestPagingGetGuestPhysicalAddress_architectural_large_pages :
    (∃ w, vmGuestPagingGetGuestPhysicalAddress largePagesMemory largePagesVm 0x3000 0x1234567 =
      some w ∧ w.toNat = 0x1234567) ∧
    vmGuestPagingGetGuestPhysicalAddress largePagesMemory largePagesVm 0x3000 0x8000000000 = none :=
  have hmapped := vmGuestPagingGetGuestPhysicalAddress_architectural ⟨46, true⟩ largePagesMemory
    largePagesVm 0x3000 0x1234567 (by decide)
  have hunmapped := vmGuestPagingGetGuestPhysicalAddress_architectural ⟨46, true⟩ largePagesMemory
    largePagesVm 0x3000 0x8000000000 (by decide)
  ⟨hmapped.1 0x1234567 (by decide +kernel), hunmapped.2 (.inl (by decide +kernel))⟩

end Rkhv.NestedWalk
