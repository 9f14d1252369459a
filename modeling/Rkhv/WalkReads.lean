import Rkhv.TableReads
import Rkhv.GuestAccess

/-!
# The tables behind a guest address

Translating a guest linear address reads tables of the guest, each found through
the extended page tables, and then the extended page tables once more. Writing
outside of these tables keeps the translation.
-/

namespace Rkhv.WalkReads

open ByteMemory HostTypes TableReads Ept EptWalk VmGuestPaging GuestAccess

/-- The walk of the extended page tables with the tables that it reads. -/
def eptReads (v : Vm) (gpa : Word) : TableReader Word :=
  if v.flags &&& vmTFlagEptPml4Initialized = 0 then fail
  else andThen (readEntry v.vmcsConfig.eptp (gpa.extractLsb' 39 9)) fun pml4e =>
    if pml4e &&& eptPteRead = 0 then fail
    else andThen (readEntry (pml4e &&& eptPtePhysicalAddressPage) (gpa.extractLsb' 30 9))
      fun pdpte =>
      if pdpte &&& eptPteRead = 0 then fail
      else if pdpte &&& eptPdePageSize ≠ 0 then
        done ((pdpte &&& eptPdptePhysicalAddressPage) ||| (gpa &&&
          (linearAddressDMask ||| linearAddressTableMask ||| linearAddressOffsetMask)))
      else andThen (readEntry (pdpte &&& eptPtePhysicalAddressPage) (gpa.extractLsb' 21 9))
        fun pde =>
        if pde &&& eptPteRead = 0 then fail
        else if pde &&& eptPdePageSize ≠ 0 then
          done ((pde &&& eptPdePhysicalAddressPage) ||| (gpa &&&
            (linearAddressTableMask ||| linearAddressOffsetMask)))
        else andThen (readEntry (pde &&& eptPtePhysicalAddressPage) (gpa.extractLsb' 12 9))
          fun pte =>
          if pte &&& eptPteRead = 0 then fail
          else done ((pte &&& eptPtePhysicalAddressPage) ||| linearAddressGetOffset gpa)

/-- An entry of a table of the guest with the tables that are read for it. -/
def guestEntryReads (v : Vm) (guestpa : Word) (i : Slot) : TableReader Word :=
  andThen (eptReads v guestpa) fun hostpa => readEntry hostpa i

/-- The walk of a guest's tables with the tables that it reads. -/
def guestReads (v : Vm) (guestCr3 la : Word) : TableReader Word :=
  andThen (guestEntryReads v (guestCr3 &&& pageMask) (la.extractLsb' 39 9)) fun pml4e =>
    if pml4e &&& ptePresent = 0 then fail
    else andThen (guestEntryReads v (pml4e &&& ptePhysicalAddressPage) (la.extractLsb' 30 9))
      fun pdpte =>
      if pdpte &&& ptePresent = 0 then fail
      else if pdpte &&& pdePageSize ≠ 0 then
        done ((pdpte &&& pdptePhysicalAddressPage) ||| (la &&&
          (linearAddressDMask ||| linearAddressTableMask ||| linearAddressOffsetMask)))
      else andThen (guestEntryReads v (pdpte &&& ptePhysicalAddressPage) (la.extractLsb' 21 9))
        fun pde =>
        if pde &&& ptePresent = 0 then fail
        else if pde &&& pdePageSize ≠ 0 then
          done ((pde &&& pdePhysicalAddressPage) ||| (la &&&
            (linearAddressTableMask ||| linearAddressOffsetMask)))
        else andThen (guestEntryReads v (pde &&& ptePhysicalAddressPage) (la.extractLsb' 12 9))
          fun pte =>
          if pte &&& ptePresent = 0 then fail
          else done ((pte &&& ptePhysicalAddressPage) ||| linearAddressGetOffset la)

/-- Both walks for a guest address. -/
def hostReads (v : Vm) (guestCr3 la : Word) : TableReader Word :=
  andThen (guestReads v guestCr3 la) fun gpa =>
    andThen (eptReads v gpa) fun hostpa => done (p2vIdentityMap hostpa)

/-- The page-table pages that are used to translate a guest address. -/
def tablesUsed (m : Memory) (v : Vm) (guestCr3 la : Word) : List Word := (hostReads v guestCr3 la m).2

theorem eptReads_settled (v : Vm) (gpa : Word) : Settled (eptReads v gpa) :=
  .ite settled_fail ((settled_readEntry _ _).andThen fun _ =>
    .ite settled_fail ((settled_readEntry _ _).andThen fun _ =>
      .ite settled_fail (.ite (settled_done _) ((settled_readEntry _ _).andThen fun _ =>
        .ite settled_fail (.ite (settled_done _) ((settled_readEntry _ _).andThen fun _ =>
          .ite settled_fail (settled_done _)))))))

theorem guestEntryReads_settled (v : Vm) (guestpa : Word) (i : Slot) :
    Settled (guestEntryReads v guestpa i) :=
  (eptReads_settled v guestpa).andThen fun hostpa => settled_readEntry hostpa i

theorem guestReads_settled (v : Vm) (guestCr3 la : Word) : Settled (guestReads v guestCr3 la) :=
  (guestEntryReads_settled v _ _).andThen fun _ =>
    .ite settled_fail ((guestEntryReads_settled v _ _).andThen fun _ =>
      .ite settled_fail (.ite (settled_done _) ((guestEntryReads_settled v _ _).andThen fun _ =>
        .ite settled_fail (.ite (settled_done _) ((guestEntryReads_settled v _ _).andThen fun _ =>
          .ite settled_fail (settled_done _))))))

theorem hostReads_settled (v : Vm) (guestCr3 la : Word) : Settled (hostReads v guestCr3 la) :=
  (guestReads_settled v guestCr3 la).andThen fun gpa =>
    (eptReads_settled v gpa).andThen fun _ => settled_done _

/-- Without the tables, what is left is the walk of the code. -/
theorem eptReads_fst (v : Vm) (gpa : Word) (m : Memory) :
    (eptReads v gpa m).1 = vmxEptGetHostPhysicalAddress m v gpa := by
  simp only [vmxEptGetHostPhysicalAddress, linearAddressGetPml4_eq, linearAddressGetDirectoryPtr_eq,
    linearAddressGetDirectory_eq, linearAddressGetTable_eq, v2p_p2v_add, eptReads]
  split
  · rfl
  rw [andThen_fst]
  simp only [readEntry, Option.bind_some]
  split
  · rfl
  rw [andThen_fst]
  simp only [readEntry, Option.bind_some]
  split
  · rfl
  split
  · rfl
  rw [andThen_fst]
  simp only [readEntry, Option.bind_some]
  split
  · rfl
  split
  · rfl
  rw [andThen_fst]
  simp only [readEntry, Option.bind_some]
  split <;> rfl

theorem guestEntryReads_fst (v : Vm) (guestpa : Word) (i : Slot) (m : Memory) :
    (guestEntryReads v guestpa i m).1 = (vmxEptGetHostPhysicalAddress m v guestpa).map fun hostpa =>
      readQword m (hostpa + i.setWidth 64 * 8) := by
  rw [guestEntryReads, andThen_fst, eptReads_fst]
  exact Option.map_eq_bind.symm

theorem guestReads_fst (v : Vm) (guestCr3 la : Word) (m : Memory) :
    (guestReads v guestCr3 la m).1 = vmGuestPagingGetGuestPhysicalAddress m v guestCr3 la := by
  simp only [vmGuestPagingGetGuestPhysicalAddress, linearAddressGetPml4_eq,
    linearAddressGetDirectoryPtr_eq, linearAddressGetDirectory_eq, linearAddressGetTable_eq,
    v2p_p2v_add]
  rw [guestReads, andThen_fst, guestEntryReads_fst]
  refine congrArg (Option.bind _) (funext fun pml4e => ?_)
  split
  · rfl
  rw [andThen_fst, guestEntryReads_fst]
  refine congrArg (Option.bind _) (funext fun pdpte => ?_)
  split
  · rfl
  split
  · rfl
  rw [andThen_fst, guestEntryReads_fst]
  refine congrArg (Option.bind _) (funext fun pde => ?_)
  split
  · rfl
  split
  · rfl
  rw [andThen_fst, guestEntryReads_fst]
  refine congrArg (Option.bind _) (funext fun pte => ?_)
  split <;> rfl

theorem hostReads_fst (v : Vm) (guestCr3 la : Word) (m : Memory) :
    (hostReads v guestCr3 la m).1 = guestHostva m v guestCr3 la := by
  rw [hostReads, andThen_fst, guestReads_fst, guestHostva]
  cases vmGuestPagingGetGuestPhysicalAddress m v guestCr3 la with
  | none => rfl
  | some gpa =>
    rw [Option.bind_some, Option.bind_some, andThen_fst, eptReads_fst]
    exact Option.map_eq_bind.symm

/-- Memories with the same bytes in the tables of an address translate it to the
same pointer, through the same tables. -/
theorem guestHostva_congr {m m' : Memory} {v : Vm} {guestCr3 la : Word}
    (h : ∀ table ∈ tablesUsed m v guestCr3 la, SameTable m m' table) :
    guestHostva m' v guestCr3 la = guestHostva m v guestCr3 la ∧
      tablesUsed m' v guestCr3 la = tablesUsed m v guestCr3 la := by
  have hsame := hostReads_settled v guestCr3 la m m' h
  rw [← hostReads_fst, ← hostReads_fst, tablesUsed, tablesUsed, hsame]
  exact ⟨rfl, rfl⟩

end Rkhv.WalkReads
