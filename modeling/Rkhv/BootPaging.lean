import Rkhv.BootPagePool
import Rkhv.MachinePages
import Rkhv.NestedWalk
import Rkhv.RightsWalk

/-!
# Page tables of the bootloader

`paging_map_page` adds one page of 4 KiB below a PML4 and the tables that are
missing on the way. `paging_map_physical` maps the first 512 GiB to themselves
with pages of 2 MiB, at address 0 and at the window of the hypervisor; both
slots of the PML4 share one page-directory-pointer table.
-/

namespace Rkhv.BootPaging

open ByteMemory WordFields HostTypes StateOutcome BootPagePool VmGuestPaging ArchitecturalWalk
  NestedWalk RightsWalk

/-! ## The functions of the source -/

/-- `paging_permission_t` -/
inductive PagingPermission where
  | rx
  | ro
  | rw
  deriving DecidableEq

/-- `PTE_EXECUTE_DISABLE` -/
def pteExecuteDisable : Word := 0x8000000000000000

/-- `PERMISSION_MASK` -/
def permissionMask : PagingPermission → Word
  | .rx => 0
  | .ro => pteExecuteDisable
  | .rw => pteExecuteDisable ||| pteReadWrite

/-- `table[index]`; the tables are identity mapped. -/
def readEntry (table index : Word) : LoaderM Word := do
  return readQword (← get).memory (table + index * 8)

/-- `table[index] = value` -/
def writeEntry (table index value : Word) : LoaderM Unit :=
  modify fun l => { l with memory := writeQword l.memory (table + index * 8) value }

/-- The three equal parts of `paging_map_page` that go one level down. The bit
of a large page is zero for the PML4, which has none. -/
def pagingNextTable (firmware : BootServices) (pageSizeBit table index : Word) : LoaderM Word := do
  let entry ← readEntry table index
  if entry &&& ptePresent ≠ 0 then
    if entry &&& pageSizeBit ≠ 0 then throw .unsupported
    else return entry &&& ptePhysicalAddressPage
  else
    let next ← pagingAllocatePage firmware 1
    writeEntry table index (tableEntry next)
    return next

/-- `paging_map_page` -/
def pagingMapPage (firmware : BootServices) (pml4 physicalAddress virtualAddress : Word)
    (permission : PagingPermission) : LoaderM Unit := do
  let pdpt ← pagingNextTable firmware 0 pml4 (linearAddressGetPml4 virtualAddress)
  let pd ← pagingNextTable firmware pdePageSize pdpt (linearAddressGetDirectoryPtr virtualAddress)
  let pt ← pagingNextTable firmware pdePageSize pd (linearAddressGetDirectory virtualAddress)
  let entry ← readEntry pt (linearAddressGetTable virtualAddress)
  if entry &&& ptePresent ≠ 0 then throw .outOfResources
  else
    writeEntry pt (linearAddressGetTable virtualAddress)
      (ptePresent ||| (physicalAddress &&& ptePhysicalAddressPage) ||| permissionMask permission)

/-- One round of the outer loop of `paging_map_physical`, for a number of rounds
of the inner one. -/
def mapDirectory (entries : ℕ) (pdpt pds : Word) (pdptIndex : ℕ) : LoaderM Unit := do
  let pdBase := BitVec.ofNat 64 pdptIndex * BitVec.ofNat 64 pageTableEntries
  writeEntry pdpt (BitVec.ofNat 64 pdptIndex) (tableEntry (pds + pdBase * 8))
  forRange entries fun pdIndex =>
    writeEntry pds (pdBase + BitVec.ofNat 64 pdIndex) (identityPde pdptIndex pdIndex)

/-- `paging_map_physical` -/
def pagingMapPhysical (firmware : BootServices) (pml4 : Word) : LoaderM Unit := do
  let entry ← readEntry pml4 0
  if entry &&& ptePresent ≠ 0 then throw .outOfResources
  else
    let pdpt ← pagingAllocatePage firmware 1
    let pds ← pagingAllocatePage firmware (BitVec.ofNat 64 pageTableEntries)
    writeEntry pml4 (linearAddressGetPml4 0) (tableEntry pdpt)
    writeEntry pml4 (linearAddressGetPml4 rkhvPhysicalMemoryBase) (tableEntry pdpt)
    forRange pageTableEntries (mapDirectory pageTableEntries pdpt pds)

variable {l : Loader} {Q : Unit → Loader → Prop} {E : EfiStatus → Loader → Prop}

@[simp] theorem ensures_readEntry {table index : Word} {Q : Word → Loader → Prop} :
    Ensures (readEntry table index) l Q E ↔ Q (readQword l.memory (table + index * 8)) l := Iff.rfl

@[simp] theorem ensures_writeEntry {table index value : Word} :
    Ensures (writeEntry table index value) l Q E ↔
      Q () { l with memory := writeQword l.memory (table + index * 8) value } := Iff.rfl

/-! ## The walk of the processor -/

/-- The processor that the tables are for: `IA32_EFER.NXE` is set by the
chainload code, and physical addresses have up to 52 bits. -/
def bootProcessor : Processor := ⟨52, true⟩

/-- The walk of a virtual address below a PML4. -/
def bootWalk (m : Memory) (pml4 : Frame) (va : Word) : Except WalkFault Translation :=
  walkRights (guestFormat bootProcessor) (hostRead m) 4 ⟨(frameAddress pml4).toNat, true, true⟩ va.toNat

/-- A canonical address of 48 bits. -/
def Canonical (va : Word) : Prop := va.toNat < 2 ^ 47 ∨ 2 ^ 64 - 2 ^ 47 ≤ va.toNat

instance (va : Word) : Decidable (Canonical va) := inferInstanceAs (Decidable (_ ∨ _))

/-- The slot of an address in the tables of a level. -/
def slotOf (level : ℕ) (va : Word) : Slot := va.extractLsb' (levelShift level) 9

/-- The walk reads the slot of the address. -/
theorem hostRead_entryAt (m : Memory) (level : ℕ) (f : Frame) (va : Word) :
    hostRead m (entryAt level (frameAddress f).toNat va.toNat) = .ok (slotWord m f (slotOf level va)) := by
  rw [hostRead, slotWord]
  refine congrArg (fun a => Except.ok (readQword m a)) ?_
  apply BitVec.eq_of_toNat_eq
  have hf := f.isLt
  have hslot : (slotOf level va).toNat = va.toNat / 2 ^ levelShift level % 512 := by
    rw [slotOf, BitVec.extractLsb'_toNat, Nat.shiftRight_eq_div_pow]
  have hlt := (slotOf level va).isLt
  rw [BitVec.toNat_ofNat, entryAt, toNat_slotAddress, toNat_frameAddress, ← hslot]
  omega

/-! ## Entries -/

/-- Bits of an entry that points to a table. -/
theorem tableEntry_bits (pa : Word) : (tableEntry pa).getLsbD 0 = true ∧
    (tableEntry pa).getLsbD 1 = true ∧ (tableEntry pa).getLsbD 7 = false ∧
    (tableEntry pa).getLsbD 63 = false := by
  simp only [tableEntry, BitVec.getLsbD_or, BitVec.getLsbD_and,
    show ptePhysicalAddressPage.getLsbD 0 = false by decide,
    show ptePhysicalAddressPage.getLsbD 1 = false by decide,
    show ptePhysicalAddressPage.getLsbD 7 = false by decide,
    show ptePhysicalAddressPage.getLsbD 63 = false by decide, Bool.and_false, Bool.or_false]
  decide

/-- The table that it points to. -/
theorem tableEntry_and (f : Frame) :
    tableEntry (frameAddress f) &&& ptePhysicalAddressPage = frameAddress f := by
  have hmask : ptePhysicalAddressPage = fieldMask 12 40 := by decide
  have hentry : frameOf (tableEntry (frameAddress f)) = f := by
    rw [tableEntry, hmask, and_frameMask, frameOf_frameAddress]
    exact frameOf_or f (by decide)
  rw [hmask, and_frameMask, hentry]

theorem entryAddress_tableEntry (f : Frame) :
    entryAddress (tableEntry (frameAddress f)) 12 = (frameAddress f).toNat := by
  rw [← table_toNat, tableEntry_and]

/-- No bit is reserved in an entry without bit 7, up to the 52-bit limit. -/
theorem not_reserved {level : ℕ} {e : Word} (h : level = 1 ∨ e.getLsbD 7 = false) :
    (guestFormat bootProcessor).reserved level e = false := by
  have hhigh : anyBit e 52 52 = false := by
    have hdiv : e.toNat % 2 ^ 52 / 2 ^ 52 = 0 := Nat.div_eq_of_lt (Nat.mod_lt _ (by decide))
    rw [anyBit, hdiv]
    rfl
  have hlarge : largePage level e = false := by
    obtain rfl | h := h
    · rfl
    · rw [largePage, h, Bool.and_false]
  have hpml4 : (level == 4 && e.getLsbD 7) = false := by
    obtain rfl | h := h
    · rfl
    · rw [h, Bool.and_false]
  simp only [guestFormat, bootProcessor, hhigh, hlarge, hpml4, Bool.not_true, Bool.and_false,
    Bool.false_and, Bool.or_self]

section Walk

variable {m : Memory} {f g : Frame} {w x : Bool} {va : Word} {k : ℕ}

/-- The walk from a table of a level. -/
def tableWalk (m : Memory) (level : ℕ) (f : Frame) (w x : Bool) (va : Word) :
    Except WalkFault Translation :=
  walkRights (guestFormat bootProcessor) (hostRead m) level ⟨(frameAddress f).toNat, w, x⟩ va.toNat

/-- An empty slot ends the walk. -/
theorem tableWalk_absent (h : slotWord m f (slotOf (k + 1) va) &&& ptePresent = 0) :
    tableWalk m (k + 1) f w x va = .error .notPresent :=
  walkRights_absent (hostRead_entryAt m (k + 1) f va) (and_present_eq_zero_iff.mp h)

/-- The slot of a table leads to this table and keeps the rights. -/
theorem tableWalk_table (h : slotWord m f (slotOf (k + 1) va) = tableEntry (frameAddress g)) :
    tableWalk m (k + 1) f w x va = tableWalk m k g w x va := by
  obtain ⟨hpresent, hwrite, hsize, hexecute⟩ := tableEntry_bits (frameAddress g)
  have hread := hostRead_entryAt m (k + 1) f va
  rw [h] at hread
  have hlarge : largePage (k + 1) (tableEntry (frameAddress g)) = false := by
    rw [largePage, hsize, Bool.and_false]
  have hthrough : Translation.through ⟨(frameAddress f).toNat, w, x⟩ (tableEntry (frameAddress g))
      (entryAddress (tableEntry (frameAddress g)) 12) = ⟨(frameAddress g).toNat, w, x⟩ := by
    rw [Translation.through, entryAddress_tableEntry, hwrite, hexecute, Bool.and_true,
      Bool.not_false, Bool.and_true]
  have hstep : tableWalk m (k + 1) f w x va = walkRights (guestFormat bootProcessor) (hostRead m) k
      (Translation.through ⟨(frameAddress f).toNat, w, x⟩ (tableEntry (frameAddress g))
        (entryAddress (tableEntry (frameAddress g)) 12)) va.toNat :=
    walkRights_table hread hpresent (not_reserved (Or.inr hsize)) hlarge
  rw [hstep, hthrough, tableWalk]

/-- The entry of a page in a page table. -/
def pageEntry (physicalAddress : Word) (permission : PagingPermission) : Word :=
  ptePresent ||| (physicalAddress &&& ptePhysicalAddressPage) ||| permissionMask permission

/-- Bits of the entry of a page. -/
theorem pageEntry_bits (pa : Word) (permission : PagingPermission) :
    (pageEntry pa permission).getLsbD 0 = true ∧
    (pageEntry pa permission).getLsbD 1 = decide (permission = .rw) ∧
    (pageEntry pa permission).getLsbD 63 = !decide (permission = .rx) := by
  simp only [pageEntry, BitVec.getLsbD_or, BitVec.getLsbD_and,
    show ptePhysicalAddressPage.getLsbD 0 = false by decide,
    show ptePhysicalAddressPage.getLsbD 1 = false by decide,
    show ptePhysicalAddressPage.getLsbD 63 = false by decide, Bool.and_false, Bool.or_false]
  cases permission <;> decide

theorem entryAddress_pageEntry (g : Frame) (permission : PagingPermission) :
    entryAddress (pageEntry (frameAddress g) permission) 12 = (frameAddress g).toNat := by
  have hflags : ptePresent &&& ptePhysicalAddressPage = 0#64 := by decide
  have hmask : permissionMask permission &&& ptePhysicalAddressPage = 0#64 := by
    cases permission <;> decide
  have haddress : frameAddress g &&& ptePhysicalAddressPage = frameAddress g := by
    have hfield : ptePhysicalAddressPage = fieldMask 12 40 := by decide
    rw [hfield, and_frameMask, frameOf_frameAddress]
  rw [← table_toNat, pageEntry, haddress, BitVec.and_comm, BitVec.and_or_distrib_left,
    BitVec.and_or_distrib_left, BitVec.and_comm, hflags, BitVec.and_comm, haddress, BitVec.and_comm,
    hmask, BitVec.zero_or, BitVec.or_zero]

/-! ## The window on physical memory -/

/-- Bits of an entry of the identity page directories. -/
theorem identityPde_bits (j i : ℕ) : (identityPde j i).getLsbD 0 = true ∧
    (identityPde j i).getLsbD 1 = true ∧ (identityPde j i).getLsbD 7 = true ∧
    (identityPde j i).getLsbD 63 = false := by
  simp only [identityPde, BitVec.getLsbD_or, BitVec.getLsbD_and,
    show pdePhysicalAddressPage.getLsbD 0 = false by decide,
    show pdePhysicalAddressPage.getLsbD 1 = false by decide,
    show pdePhysicalAddressPage.getLsbD 7 = false by decide,
    show pdePhysicalAddressPage.getLsbD 63 = false by decide, Bool.and_false, Bool.or_false]
  decide

/-- An entry of the directories as a number: its page and its three flags. -/
theorem identityPde_toNat {j i : ℕ} (hj : j < 512) (hi : i < 512) :
    (identityPde j i).toNat = (j * 512 + i) * 2 ^ 21 + 0x83 := by
  have hindex : ((BitVec.ofNat 64 j * BitVec.ofNat 64 pageTableEntries + BitVec.ofNat 64 i) <<<
      linearAddressDShift).toNat = (j * 512 + i) * 2 ^ 21 := by
    have hentries : pageTableEntries = 512 := rfl
    have hshift : linearAddressDShift = 21 := rfl
    rw [hentries, hshift, BitVec.toNat_shiftLeft, BitVec.toNat_add, BitVec.toNat_mul,
      BitVec.toNat_ofNat, BitVec.toNat_ofNat, BitVec.toNat_ofNat, Nat.shiftLeft_eq]
    omega
  have hmasked : ((BitVec.ofNat 64 j * BitVec.ofNat 64 pageTableEntries + BitVec.ofNat 64 i) <<<
      linearAddressDShift &&& pdePhysicalAddressPage).toNat = (j * 512 + i) * 2 ^ 21 := by
    have hfield : pdePhysicalAddressPage = fieldMask 21 (52 - 21) := by decide
    rw [hfield, and_fieldMask_entryAddress, entryAddress, hindex, BitVec.toNat_ofNat]
    omega
  have hflags : (ptePresent ||| pteReadWrite ||| pdePageSize).toNat = 0x83 := by decide
  rw [identityPde, BitVec.toNat_or, hmasked, hflags, Nat.or_comm, Nat.mul_comm,
    ← Nat.two_pow_add_eq_or_of_lt (by decide)]

/-- The page of an entry, by the numbers of the entry and of its directory. -/
theorem entryAddress_identityPde {j i : ℕ} (hj : j < 512) (hi : i < 512) :
    entryAddress (identityPde j i) 21 = (j * 512 + i) * 2 ^ 21 ∧
      anyBit (identityPde j i) 13 21 = false := by
  rw [entryAddress, anyBit, identityPde_toNat hj hi]
  constructor
  · omega
  · have hzero : ((j * 512 + i) * 2 ^ 21 + 0x83) % 2 ^ 21 / 2 ^ 13 = 0 := by omega
    rw [hzero]
    rfl

/-- Directory number `j` of 512 that start at a frame. -/
def directory (pds : Frame) (j : Slot) : Frame := pds + j.setWidth 40

/-- A table whose slots lead to 512 identity page directories. -/
structure PhysicalWindow (m : Memory) (pdpt pds : Frame) : Prop where
  links : ∀ j, slotWord m pdpt j = tableEntry (frameAddress (directory pds j))
  pages : ∀ j i : Slot, slotWord m (directory pds j) i = identityPde j.toNat i.toNat

/-- The two lower slots of an address and its offset are its low 39 bits. -/
theorem directory_slots (va : Word) :
    ((slotOf 3 va).toNat * 512 + (slotOf 2 va).toNat) * 2 ^ 21 + va.toNat % 2 ^ 21 =
      va.toNat % 2 ^ 39 := by
  have hupper : (slotOf 3 va).toNat = va.toNat / 2 ^ 30 % 512 := by
    rw [slotOf, BitVec.extractLsb'_toNat, Nat.shiftRight_eq_div_pow]
    rfl
  have hlower : (slotOf 2 va).toNat = va.toNat / 2 ^ 21 % 512 := by
    rw [slotOf, BitVec.extractLsb'_toNat, Nat.shiftRight_eq_div_pow]
    rfl
  rw [hupper, hlower]
  omega

/-- Below such a table every address leads to its low 39 bits. -/
theorem PhysicalWindow.walk {pdpt pds : Frame} (h : PhysicalWindow m pdpt pds) (w x : Bool)
    (va : Word) : tableWalk m 3 pdpt w x va = .ok ⟨va.toNat % 2 ^ 39, w, x⟩ := by
  rw [tableWalk_table (h.links (slotOf 3 va))]
  have hentry := h.pages (slotOf 3 va) (slotOf 2 va)
  obtain ⟨hpresent, hwrite, hsize, hexecute⟩ :=
    identityPde_bits (slotOf 3 va).toNat (slotOf 2 va).toNat
  obtain ⟨haddress, hclear⟩ := entryAddress_identityPde (slotOf 3 va).isLt (slotOf 2 va).isLt
  have hread := hostRead_entryAt m 2 (directory pds (slotOf 3 va)) va
  rw [hentry] at hread
  have hlarge : largePage 2 (identityPde (slotOf 3 va).toNat (slotOf 2 va).toNat) = true := by
    rw [largePage, hsize]
    rfl
  have hhigh : anyBit (identityPde (slotOf 3 va).toNat (slotOf 2 va).toNat) 52 52 = false := by
    rw [anyBit, Nat.div_eq_of_lt (Nat.mod_lt _ (by decide))]
    rfl
  have hreserved : (guestFormat bootProcessor).reserved 2
      (identityPde (slotOf 3 va).toNat (slotOf 2 va).toNat) = false := by
    have hshift : levelShift 2 = 21 := rfl
    simp only [guestFormat, bootProcessor, hhigh, hexecute, hshift, hclear, Bool.and_false,
      Bool.or_self, Nat.reduceBEq, Bool.false_and]
  have hstep : BootPaging.tableWalk m 2 (directory pds (slotOf 3 va)) w x va =
      .ok (Translation.through ⟨(frameAddress (directory pds (slotOf 3 va))).toNat, w, x⟩
        (identityPde (slotOf 3 va).toNat (slotOf 2 va).toNat)
        (entryAddress (identityPde (slotOf 3 va).toNat (slotOf 2 va).toNat) 21 +
          va.toNat % 2 ^ 21)) :=
    walkRights_large hread hpresent hreserved hlarge
  rw [hstep, Translation.through, haddress, directory_slots, hwrite, hexecute, Bool.and_true,
    Bool.not_false, Bool.and_true]

end Walk

/-! ## Pages from the firmware -/

/-- The frame is one of those that the answer to the `k`-th call covers. -/
def GivenBy (firmware : BootServices) (k : ℕ) (f : Frame) : Prop :=
  ∃ n address, firmware.allocatePages k n = .ok address ∧
    address.toNat ≤ (frameAddress f).toNat ∧ (frameAddress f).toNat < address.toNat + n.toNat * 4096

/-- What the firmware promises of its answers from a call on: whole pages of
physical memory, no page twice and never the one of the PML4. -/
structure FreshPages (firmware : BootServices) (start : ℕ) (pml4 : Frame) : Prop where
  page : ∀ k n address, start ≤ k → firmware.allocatePages k n = .ok address →
    address.toNat % 4096 = 0 ∧ address.toNat + n.toNat * 4096 ≤ 2 ^ 52
  disjoint : ∀ j k f, start ≤ j → start ≤ k → GivenBy firmware j f → GivenBy firmware k f → j = k
  pml4 : ∀ k, start ≤ k → ¬GivenBy firmware k pml4

/-- The frame is one of `n` frames from a frame upwards. -/
def InBlock (b : Frame) (n : ℕ) (f : Frame) : Prop := b.toNat ≤ f.toNat ∧ f.toNat < b.toNat + n

/-- Filling whole frames with zeros. -/
theorem fill_block {m : Memory} {b f : Frame} {n : ℕ} (hb : b.toNat + n ≤ 2 ^ 40) :
    (InBlock b n f → ZeroFrame (fill m (frameAddress b) 0 (n * 4096)) f) ∧
      (¬InBlock b n f → SameFrame m (fill m (frameAddress b) 0 (n * 4096)) f) := by
  have hdiff : ∀ a : Word, InFrame f a → b.toNat ≤ f.toNat →
      (a - frameAddress b).toNat = a.toNat - b.toNat * 4096 := fun a ha hle => by
    rw [inFrame_iff] at ha
    have hlt := a.isLt
    rw [BitVec.toNat_sub, toNat_frameAddress]
    omega
  constructor
  · intro hin a ha
    refine fill_apply_of_lt ?_
    rw [hdiff a ha hin.1]
    have hfirst := hin.1
    have hlast := hin.2
    rw [inFrame_iff] at ha
    omega
  · intro hout a ha
    refine fill_apply_of_le ?_
    rw [inFrame_iff] at ha
    have hb' := b.isLt
    by_cases hle : b.toNat ≤ f.toNat
    · rw [hdiff a (inFrame_iff.mpr ha) hle]
      rw [InBlock, not_and] at hout
      have hbeyond := hout hle
      omega
    · have hlt := a.isLt
      rw [BitVec.toNat_sub, toNat_frameAddress]
      omega

/-- A block of zero frames that a call obtained, with all others as before. -/
structure NewBlock (firmware : BootServices) (l l' : Loader) (b : Frame) (n : ℕ) : Prop where
  fits : b.toNat + n ≤ 2 ^ 40
  calls : l'.allocateCalls = l.allocateCalls + 1
  given : ∀ f, InBlock b n f → GivenBy firmware l.allocateCalls f
  zero : ∀ f, InBlock b n f → ZeroFrame l'.memory f
  others : ∀ f, ¬InBlock b n f → SameFrame l.memory l'.memory f

/-- The firmware has an answer that the pool can record. -/
def Allocates (firmware : BootServices) (calls : ℕ) (pool : PagingPageTablePool) (n : Word)
    (pool' : PagingPageTablePool) : Prop :=
  ∃ address, firmware.allocatePages calls n = .ok address ∧ pool.record address n = some pool'

theorem Allocates.unique {firmware : BootServices} {calls : ℕ} {pool p q : PagingPageTablePool}
    {n : Word} (hp : Allocates firmware calls pool n p) (hq : Allocates firmware calls pool n q) :
    p = q := by
  obtain ⟨address, ha, hrecord⟩ := hp
  obtain ⟨address', ha', hrecord'⟩ := hq
  rw [ha] at ha'
  obtain rfl := Except.ok.inj ha'
  exact Option.some_inj.mp (hrecord.symm.trans hrecord')

/-- `paging_allocate_page` obtains zero frames or changes no memory. -/
theorem pagingAllocatePage_spec {firmware : BootServices} {start : ℕ} {pml4 : Frame} {l : Loader}
    (hfresh : FreshPages firmware start pml4) (hstart : start ≤ l.allocateCalls) {n : Word}
    (hpos : 0 < n.toNat) (hn : n.toNat ≤ 512) :
    Ensures (pagingAllocatePage firmware n) l
      (fun address l' => ∃ b, address = frameAddress b ∧ NewBlock firmware l l' b n.toNat ∧
        Allocates firmware l.allocateCalls l.pageTablePool n l'.pageTablePool)
      (fun _ l' => l'.memory = l.memory ∧ l'.allocateCalls = l.allocateCalls + 1 ∧
        ∀ pool, ¬Allocates firmware l.allocateCalls l.pageTablePool n pool) := by
  rw [ensures_pagingAllocatePage]
  cases ha : firmware.allocatePages l.allocateCalls n with
  | error e =>
    refine And.intro rfl (And.intro rfl fun pool hpool => ?_)
    obtain ⟨address, haddress, _⟩ := hpool
    rw [ha] at haddress
    cases haddress
  | ok address =>
    dsimp only
    cases hr : l.pageTablePool.record address n with
    | none =>
      refine And.intro rfl (And.intro rfl fun pool hpool => ?_)
      obtain ⟨address', haddress, hrecord⟩ := hpool
      rw [ha] at haddress
      obtain rfl := Except.ok.inj haddress
      rw [hr] at hrecord
      cases hrecord
    | some pool =>
      obtain ⟨halign, hlimit⟩ := hfresh.page _ _ _ hstart ha
      have haddress : frameAddress (frameOf address) = address :=
        MachinePages.frameAddress_frameOf ⟨halign, by omega⟩
      have hstartFrame := toNat_frameAddress (frameOf address)
      rw [haddress] at hstartFrame
      have hsize : (pageSize * n).toNat = n.toNat * 4096 := by
        have hpage : pageSize.toNat = 4096 := rfl
        rw [BitVec.toNat_mul, hpage]
        omega
      have hfits : (frameOf address).toNat + n.toNat ≤ 2 ^ 40 := by omega
      dsimp only
      refine ⟨frameOf address, haddress.symm, ⟨hfits, rfl, fun f hf => ?_, fun f hf => ?_,
        fun f hf => ?_⟩, address, ha, hr⟩
      · have hfrom := hf.1
        have hto := hf.2
        refine ⟨n, address, ha, ?_, ?_⟩
        · rw [toNat_frameAddress]
          omega
        · rw [toNat_frameAddress]
          omega
      · have hzero := (fill_block (m := l.memory) hfits).1 hf
        rw [haddress, ← hsize] at hzero
        exact hzero
      · have hsame := (fill_block (m := l.memory) hfits).2 hf
        rw [haddress, ← hsize] at hsame
        exact hsame

end Rkhv.BootPaging
