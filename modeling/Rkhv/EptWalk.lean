import Rkhv.Ept
import Rkhv.RadixWalk

/-!
# Extended page tables as a radix tree

The four levels of tables are a radix tree over nine-bit slots whose meaning
depends on the level: a PML4 entry always points to a table, an entry of the
two middle levels to a table or a large page, and a page-table entry to a page.
The walker of the hypervisor follows the path of an address in this tree.
-/

namespace Rkhv.EptWalk

open ByteMemory WordFields HostTypes RadixWalk Ept

/-- What an entry of a level means; a leaf keeps the entry. -/
def eptDecode (level : ℕ) (entry : Word) : Entry Frame Word :=
  if entry &&& eptPteRead = 0 then .absent
  else if level = 3 then .leaf entry
  else if level ≠ 0 ∧ entry &&& eptPdePageSize ≠ 0 then .leaf entry
  else .table (frameOf entry)

/-- The tables in a memory. -/
def eptTables (m : Memory) : Tables Frame Slot Word := fun level f i =>
  eptDecode level (slotWord m f i)

/-- Slots of an address, from the PML4 downwards. -/
def eptPath (gpa : Word) : List Slot :=
  [gpa.extractLsb' 39 9, gpa.extractLsb' 30 9, gpa.extractLsb' 21 9, gpa.extractLsb' 12 9]

/-- Address behind a leaf, by what is left of the path below it. -/
def leafAddress (gpa entry : Word) : List Slot → Word
  | [] => (entry &&& eptPtePhysicalAddressPage) ||| linearAddressGetOffset gpa
  | [_] => (entry &&& eptPdePhysicalAddressPage) |||
      (gpa &&& (linearAddressTableMask ||| linearAddressOffsetMask))
  | _ => (entry &&& eptPdptePhysicalAddressPage) |||
      (gpa &&& (linearAddressDMask ||| linearAddressTableMask ||| linearAddressOffsetMask))

/-- The translation that the tree gives to an address. -/
def eptTranslate (m : Memory) (root : Frame) (gpa : Word) : Option Word :=
  match follow (eptTables m) 0 root (eptPath gpa) with
  | .leaf entry rest => some (leafAddress gpa entry rest)
  | .table _ | .absent => none

/-! ## Fields -/

theorem linearAddressGetPml4_eq (x : Word) :
    linearAddressGetPml4 x = (x.extractLsb' 39 9).setWidth 64 :=
  and_fieldMask_shiftRight x 39 9

theorem linearAddressGetDirectoryPtr_eq (x : Word) :
    linearAddressGetDirectoryPtr x = (x.extractLsb' 30 9).setWidth 64 :=
  and_fieldMask_shiftRight x 30 9

theorem linearAddressGetDirectory_eq (x : Word) :
    linearAddressGetDirectory x = (x.extractLsb' 21 9).setWidth 64 :=
  and_fieldMask_shiftRight x 21 9

theorem linearAddressGetTable_eq (x : Word) :
    linearAddressGetTable x = (x.extractLsb' 12 9).setWidth 64 :=
  and_fieldMask_shiftRight x 12 9

/-- The table or page that an entry points to. -/
theorem and_eptPtePhysicalAddressPage (x : Word) :
    x &&& eptPtePhysicalAddressPage = frameAddress (frameOf x) := and_frameMask x

/-- Elements of a table behind a pointer are the slots of its frame. -/
theorem element_slot (f : Frame) (i : Slot) :
    v2pIdentityMap (p2vIdentityMap (frameAddress f) + i.setWidth 64 * 8) = slotAddress f i := by
  rw [v2p_p2v_add, frameAddress_add_slot]

/-- Reading an element of a table reads its slot. -/
theorem readQword_element (m : Memory) (f : Frame) (i : Slot) :
    readQword m (v2pIdentityMap (p2vIdentityMap (frameAddress f) + i.setWidth 64 * 8)) =
      slotWord m f i := by
  rw [element_slot, slotWord]

/-- The three access bits of a written entry. -/
def eptAccess : Word := eptPteRead ||| eptPteWrite ||| eptPteExecute

theorem eptEntry_eq (physicalAddress : Word) :
    eptEntry physicalAddress = eptAccess ||| frameAddress (frameOf physicalAddress) := by
  rw [eptEntry, and_eptPtePhysicalAddressPage]
  rfl

@[simp] theorem frameOf_eptEntry (physicalAddress : Word) :
    frameOf (eptEntry physicalAddress) = frameOf physicalAddress := by
  rw [eptEntry_eq]
  exact frameOf_or _ (by decide)

/-- A written entry is present. -/
theorem eptEntry_read (physicalAddress : Word) : eptEntry physicalAddress &&& eptPteRead ≠ 0 := by
  rw [eptEntry_eq, or_frameAddress_and _ (by decide)]
  decide

/-- A written entry is no large page. -/
theorem eptEntry_pageSize (physicalAddress : Word) :
    eptEntry physicalAddress &&& eptPdePageSize = 0 := by
  rw [eptEntry_eq, or_frameAddress_and _ (by decide)]
  decide

/-- Above the page tables a written entry points to its table. -/
theorem eptDecode_eptEntry {level : ℕ} (h : level < 3) (physicalAddress : Word) :
    eptDecode level (eptEntry physicalAddress) = .table (frameOf physicalAddress) := by
  rw [eptDecode, if_neg (eptEntry_read _), if_neg (by omega), if_neg (fun hl => hl.2 (eptEntry_pageSize _)),
    frameOf_eptEntry]

/-- In a page table a written entry is a leaf. -/
theorem eptDecode_leaf (physicalAddress : Word) :
    eptDecode 3 (eptEntry physicalAddress) = .leaf (eptEntry physicalAddress) := by
  rw [eptDecode, if_neg (eptEntry_read _), if_pos rfl]

/-- Entries of a zero frame are absent. -/
theorem eptTables_of_zero {m : Memory} {f : Frame} (h : ZeroFrame m f) (level : ℕ) (i : Slot) :
    eptTables m level f i = .absent := by
  rw [eptTables, h.slotWord, eptDecode, if_pos (by decide)]

/-- Frames with the same bytes hold the same entries. -/
theorem eptTables_congr {m m' : Memory} {f : Frame} (h : SameFrame m m' f) (level : ℕ) (i : Slot) :
    eptTables m' level f i = eptTables m level f i := by
  rw [eptTables, eptTables, h.slotWord]

/-- Storing an entry changes its own slot only. -/
theorem eptTables_store (m : Memory) (f g : Frame) (i j : Slot) (entry : Word) (level : ℕ) :
    eptTables (writeQword m (slotAddress f i) entry) level g j =
      if g = f ∧ j = i then eptDecode level entry else eptTables m level g j := by
  rw [eptTables, slotWord_writeSlot]
  split <;> rfl

/-! ## The walker -/

/-- The walker follows the path of an address in the tree. -/
theorem vmxEptGetHostPhysicalAddress_eq {m : Memory} {v : Vm} {root : Frame}
    (hflag : v.flags &&& vmTFlagEptPml4Initialized ≠ 0)
    (hroot : v.vmcsConfig.eptp = frameAddress root) (gpa : Word) :
    vmxEptGetHostPhysicalAddress m v gpa = eptTranslate m root gpa := by
  simp only [vmxEptGetHostPhysicalAddress, hroot, and_eptPtePhysicalAddressPage,
    linearAddressGetPml4_eq, linearAddressGetDirectoryPtr_eq, linearAddressGetDirectory_eq,
    linearAddressGetTable_eq, readQword_element]
  rw [if_neg hflag]
  simp only [eptTranslate, eptPath, follow, eptTables]
  generalize slotWord m root _ = pml4e
  by_cases hpml4 : pml4e &&& eptPteRead = 0
  · simp only [eptDecode, hpml4, if_true]
  rw [if_neg hpml4]
  have hd0 : eptDecode 0 pml4e = .table (frameOf pml4e) := by
    rw [eptDecode, if_neg hpml4, if_neg (by decide), if_neg (fun h => h.1 rfl)]
  simp only [hd0]
  generalize slotWord m (frameOf pml4e) _ = pdpte
  by_cases hpdpt : pdpte &&& eptPteRead = 0
  · simp only [eptDecode, hpdpt, if_true]
  rw [if_neg hpdpt]
  by_cases hlarge : pdpte &&& eptPdePageSize ≠ 0
  · have hd1 : eptDecode (0 + 1) pdpte = .leaf pdpte := by
      rw [eptDecode, if_neg hpdpt, if_neg (by decide), if_pos ⟨by decide, hlarge⟩]
    simp only [hd1, if_pos hlarge]
    rfl
  have hd1 : eptDecode (0 + 1) pdpte = .table (frameOf pdpte) := by
    rw [eptDecode, if_neg hpdpt, if_neg (by decide), if_neg (fun h => hlarge h.2)]
  simp only [hd1, if_neg hlarge]
  generalize slotWord m (frameOf pdpte) _ = pde
  by_cases hpd : pde &&& eptPteRead = 0
  · simp only [eptDecode, hpd, if_true]
  rw [if_neg hpd]
  by_cases hlarge2 : pde &&& eptPdePageSize ≠ 0
  · have hd2 : eptDecode (0 + 1 + 1) pde = .leaf pde := by
      rw [eptDecode, if_neg hpd, if_neg (by decide), if_pos ⟨by decide, hlarge2⟩]
    simp only [hd2, if_pos hlarge2]
    rfl
  have hd2 : eptDecode (0 + 1 + 1) pde = .table (frameOf pde) := by
    rw [eptDecode, if_neg hpd, if_neg (by decide), if_neg (fun h => hlarge2 h.2)]
  simp only [hd2, if_neg hlarge2]
  generalize slotWord m (frameOf pde) _ = pte
  by_cases hpt : pte &&& eptPteRead = 0
  · simp only [eptDecode, hpt, if_true]
  rw [if_neg hpt]
  have hd3 : eptDecode (0 + 1 + 1 + 1) pte = .leaf pte := by
    rw [eptDecode, if_neg hpt, if_pos (by decide)]
  simp only [hd3, leafAddress, and_eptPtePhysicalAddressPage]

end Rkhv.EptWalk
