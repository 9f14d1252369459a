import Rkhv.BootPaging

/-!
# The window on physical memory

`paging_map_physical` carves 512 page directories out of one allocation and
links the table over them into two slots of the PML4. Every address below 2^39
and every address of the window then leads to its low 39 bits. Other walks stay
as they are unless they come back to the PML4, as in a PML4 that maps itself.
-/

namespace Rkhv.BootWindow

open ByteMemory WordFields HostTypes StateOutcome BootPagePool VmGuestPaging ArchitecturalWalk
  NestedWalk RightsWalk BootPaging

variable {firmware : BootServices} {pml4 pdpt pds : Frame} {l l' : Loader} {start : ℕ}

/-! ## Directories -/

theorem toNat_directory (hfits : pds.toNat + 512 ≤ 2 ^ 40) (j : Slot) :
    (directory pds j).toNat = pds.toNat + j.toNat := by
  have hj := j.isLt
  rw [directory, BitVec.toNat_add, BitVec.toNat_setWidth]
  omega

theorem directory_inj (hfits : pds.toNat + 512 ≤ 2 ^ 40) {i j : Slot}
    (h : directory pds i = directory pds j) : i = j := by
  have hn := congrArg BitVec.toNat h
  rw [toNat_directory hfits, toNat_directory hfits] at hn
  exact BitVec.eq_of_toNat_eq (by omega)

theorem inBlock_directory (hfits : pds.toNat + 512 ≤ 2 ^ 40) (j : Slot) :
    InBlock pds 512 (directory pds j) := by
  have hj := j.isLt
  rw [InBlock, toNat_directory hfits]
  omega

/-- The pointer to a directory. -/
theorem directory_address (hfits : pds.toNat + 512 ≤ 2 ^ 40) {j : ℕ} (hj : j < 512) :
    frameAddress pds + BitVec.ofNat 64 j * BitVec.ofNat 64 pageTableEntries * 8 =
      frameAddress (directory pds (BitVec.ofNat 9 j)) := by
  have hentries : pageTableEntries = 512 := rfl
  have height : (8 : Word).toNat = 8 := rfl
  apply BitVec.eq_of_toNat_eq
  rw [toNat_frameAddress, toNat_directory hfits, BitVec.toNat_add, BitVec.toNat_mul,
    BitVec.toNat_mul, toNat_frameAddress, hentries, height, BitVec.toNat_ofNat, BitVec.toNat_ofNat,
    BitVec.toNat_ofNat]
  omega

/-- The elements of a directory are its slots. -/
theorem directory_element (hfits : pds.toNat + 512 ≤ 2 ^ 40) {i j : ℕ} (hi : i < 512) (hj : j < 512) :
    frameAddress pds + (BitVec.ofNat 64 j * BitVec.ofNat 64 pageTableEntries + BitVec.ofNat 64 i) * 8 =
      slotAddress (directory pds (BitVec.ofNat 9 j)) (BitVec.ofNat 9 i) := by
  have hentries : pageTableEntries = 512 := rfl
  have height : (8 : Word).toNat = 8 := rfl
  apply BitVec.eq_of_toNat_eq
  rw [toNat_slotAddress, toNat_directory hfits, BitVec.toNat_add, BitVec.toNat_mul, BitVec.toNat_add,
    BitVec.toNat_mul, toNat_frameAddress, hentries, height, BitVec.toNat_ofNat, BitVec.toNat_ofNat,
    BitVec.toNat_ofNat, BitVec.toNat_ofNat, BitVec.toNat_ofNat]
  omega

/-! ## The loops -/

/-- The inner loop fills one directory. -/
theorem fillDirectory_spec (l : Loader) (hfits : pds.toNat + 512 ≤ 2 ^ 40) {j n : ℕ} (hj : j < 512)
    (hn : n ≤ 512) :
    Ensures (forRange n fun pdIndex => writeEntry (frameAddress pds)
        (BitVec.ofNat 64 j * BitVec.ofNat 64 pageTableEntries + BitVec.ofNat 64 pdIndex)
        (identityPde j pdIndex)) l
      (fun _ l' => ∃ m, l' = { l with memory := m } ∧
        SlotsFilled l.memory m (directory pds (BitVec.ofNat 9 j)) (identityPde j) n)
      (fun _ _ => False) := by
  refine ensures_forRange (fun k t => ∃ m, t = { l with memory := m } ∧
    SlotsFilled l.memory m (directory pds (BitVec.ofNat 9 j)) (identityPde j) k)
    ⟨l.memory, rfl, SlotsFilled.start _ _ _⟩ ?_
  intro k t hk ht
  obtain ⟨m, rfl, hfilled⟩ := ht
  have hk' : k < 512 := Nat.lt_of_lt_of_le hk hn
  rw [ensures_writeEntry, directory_element hfits hk' hj]
  exact ⟨_, rfl, hfilled.store hk'⟩

/-- The first rounds of the outer loop: so many links and directories are done. -/
structure WindowFilled (m m' : Memory) (pdpt pds : Frame) (n : ℕ) : Prop where
  others : ∀ g, g ≠ pdpt → (∀ j, g ≠ directory pds j) → SameFrame m m' g
  links : ∀ j : Slot, j.toNat < n → slotWord m' pdpt j = tableEntry (frameAddress (directory pds j))
  pages : ∀ j i : Slot, j.toNat < n → slotWord m' (directory pds j) i = identityPde j.toNat i.toNat

/-- The memory after so many rounds of the outer loop, with the rest as before. -/
def WindowRounds (l : Loader) (pdpt pds : Frame) (n : ℕ) (l' : Loader) : Prop :=
  ∃ m, l' = { l with memory := m } ∧ WindowFilled l.memory m pdpt pds n

/-- One round of the outer loop. -/
theorem mapDirectory_spec {t : Loader} (hfits : pds.toNat + 512 ≤ 2 ^ 40)
    (houtside : ∀ j, pdpt ≠ directory pds j) {entries k : ℕ} (hentries : entries ≤ 512)
    (hall : ∀ i : Slot, i.toNat < entries) (hk : k < 512) (h : WindowRounds l pdpt pds k t) :
    Ensures (mapDirectory entries (frameAddress pdpt) (frameAddress pds) k) t
      (fun _ t' => WindowRounds l pdpt pds (k + 1) t') (fun _ _ => False) := by
  have hslot : (BitVec.ofNat 9 k).toNat = k := by
    rw [BitVec.toNat_ofNat]
    exact Nat.mod_eq_of_lt hk
  have hnext : ∀ {j : Slot}, j.toNat < k + 1 → j ≠ BitVec.ofNat 9 k → j.toNat < k := fun hj hne =>
    Nat.lt_of_le_of_ne (Nat.le_of_lt_succ hj) fun he => hne (BitVec.eq_of_toNat_eq (he.trans hslot.symm))
  obtain ⟨m, rfl, h⟩ := h
  simp only [mapDirectory, ensures_bind, ensures_writeEntry]
  rw [directory_address hfits hk, frameAddress_add_ofNat pdpt hk]
  refine (fillDirectory_spec _ hfits hk hentries).mono (fun _ l' hl => ?_) fun _ _ he => he
  obtain ⟨m', rfl, hfilled⟩ := hl
  refine ⟨m', rfl, ⟨fun g hg hgs => ?_, fun j hj => ?_, fun j i hj => ?_⟩⟩
  · exact ((h.others g hg hgs).trans (sameFrame_writeSlot hg)).trans
      (hfilled.others g (hgs _))
  · rw [(hfilled.others pdpt (houtside _)).slotWord, slotWord_writeSlot]
    by_cases he : j = BitVec.ofNat 9 k
    · rw [if_pos ⟨rfl, he⟩, he]
    · rw [if_neg fun hc => he hc.2, h.links j (hnext hj he)]
  · by_cases he : j = BitVec.ofNat 9 k
    · rw [he, hfilled.filled i (hall i), hslot]
    · have hdirectory : directory pds j ≠ directory pds (BitVec.ofNat 9 k) := fun hd =>
        he (directory_inj hfits hd)
      rw [(hfilled.others _ hdirectory).slotWord,
        (sameFrame_writeSlot fun hd => houtside j hd.symm).slotWord, h.pages j i (hnext hj he)]

/-- The outer loop leaves a window. -/
theorem mapDirectories_spec (l : Loader) (hfits : pds.toNat + 512 ≤ 2 ^ 40)
    (houtside : ∀ j, pdpt ≠ directory pds j) {entries n : ℕ} (hentries : entries ≤ 512)
    (hall : ∀ i : Slot, i.toNat < entries) (hn : n ≤ 512) :
    Ensures (forRange n (mapDirectory entries (frameAddress pdpt) (frameAddress pds))) l
      (fun _ l' => WindowRounds l pdpt pds n l') (fun _ _ => False) := by
  have hnone : WindowFilled l.memory l.memory pdpt pds 0 :=
    ⟨fun g _ _ => SameFrame.refl _ g, fun _ hj => absurd hj (Nat.not_lt_zero _),
      fun _ _ hj => absurd hj (Nat.not_lt_zero _)⟩
  refine ensures_forRange (WindowRounds l pdpt pds) ⟨l.memory, rfl, hnone⟩ fun k t hk ht => ?_
  exact mapDirectory_spec hfits houtside hentries hall (Nat.lt_of_lt_of_le hk hn) ht

/-! ## The whole call -/

/-- The two slots of the PML4 that `paging_map_physical` links. -/
theorem windowSlots : linearAddressGetPml4 0 = (0 : Slot).setWidth 64 ∧
    linearAddressGetPml4 rkhvPhysicalMemoryBase = (2 : Slot).setWidth 64 := by decide

/-- A window below two slots of the PML4, with the rest as before. -/
structure WindowMapped (firmware : BootServices) (pml4 : Frame) (l l' : Loader) (pdpt pds : Frame) :
    Prop where
  pdptGiven : GivenBy firmware l.allocateCalls pdpt
  pdsGiven : ∀ j, GivenBy firmware (l.allocateCalls + 1) (directory pds j)
  window : PhysicalWindow l'.memory pdpt pds
  low : slotWord l'.memory pml4 0 = tableEntry (frameAddress pdpt)
  high : slotWord l'.memory pml4 2 = tableEntry (frameAddress pdpt)
  root : ∀ i, i ≠ 0 → i ≠ 2 → slotWord l'.memory pml4 i = slotWord l.memory pml4 i
  others : ∀ g, g ≠ pml4 → ¬GivenBy firmware l.allocateCalls g →
    ¬GivenBy firmware (l.allocateCalls + 1) g → SameFrame l.memory l'.memory g
  calls : l'.allocateCalls = l.allocateCalls + 2

/-- A failed call changes new pages only. -/
structure WindowFailed (firmware : BootServices) (l l' : Loader) : Prop where
  others : ∀ g, ¬GivenBy firmware l.allocateCalls g → ¬GivenBy firmware (l.allocateCalls + 1) g →
    SameFrame l.memory l'.memory g
  calls : l.allocateCalls ≤ l'.allocateCalls ∧ l'.allocateCalls ≤ l.allocateCalls + 2

/-- Linking the slots and filling the tables, after both allocations. -/
theorem windowMapped_fill {l₁ l₂ : Loader} (hfresh : FreshPages firmware start pml4)
    (hstart : start ≤ l.allocateCalls) (hpdpt : NewBlock firmware l l₁ pdpt 1)
    (hpds : NewBlock firmware l₁ l₂ pds 512) {entries : ℕ} (hentries : entries = 512) :
    Ensures (forRange entries (mapDirectory entries (frameAddress pdpt) (frameAddress pds)))
      { l₂ with memory := writeQword (writeQword l₂.memory (slotAddress pml4 0)
          (tableEntry (frameAddress pdpt))) (slotAddress pml4 2) (tableEntry (frameAddress pdpt)) }
      (fun _ l' => WindowMapped firmware pml4 l l' pdpt pds) (fun _ _ => False) := by
  have hcalls := hpdpt.calls
  have hgiven₁ : GivenBy firmware l.allocateCalls pdpt :=
    hpdpt.given pdpt ⟨Nat.le_refl _, Nat.lt_succ_self _⟩
  have hgiven₂ : ∀ j, GivenBy firmware (l.allocateCalls + 1) (directory pds j) := fun j => by
    rw [← hcalls]
    exact hpds.given _ (inBlock_directory hpds.fits j)
  have houtside : ∀ j, pdpt ≠ directory pds j := fun j he => by
    have hsame := hfresh.disjoint _ _ _ hstart (Nat.le_succ_of_le hstart) hgiven₁ (he ▸ hgiven₂ j)
    omega
  have hroot₁ : pml4 ≠ pdpt := fun he => hfresh.pml4 _ hstart (he ▸ hgiven₁)
  have hroot₂ : ∀ j, pml4 ≠ directory pds j := fun j he =>
    hfresh.pml4 _ (Nat.le_succ_of_le hstart) (he ▸ hgiven₂ j)
  -- a frame that neither call gave lies in neither block
  have hblocks : ∀ g, ¬GivenBy firmware l.allocateCalls g →
      ¬GivenBy firmware (l.allocateCalls + 1) g → SameFrame l.memory l₂.memory g := fun g h₁ h₂ =>
    (hpdpt.others g fun hin => h₁ (hpdpt.given g hin)).trans
      (hpds.others g fun hin => h₂ (hcalls ▸ hpds.given g hin))
  have hroot : SameFrame l.memory l₂.memory pml4 :=
    hblocks pml4 (hfresh.pml4 _ hstart) (hfresh.pml4 _ (Nat.le_succ_of_le hstart))
  refine (mapDirectories_spec _ hpds.fits houtside hentries.le
    (fun i => hentries ▸ i.isLt) hentries.le).mono (fun _ l' hl => ?_) fun _ _ he => he
  obtain ⟨m, rfl, hfilled⟩ := hl
  have hkept := hfilled.others pml4 hroot₁ hroot₂
  refine ⟨hgiven₁, hgiven₂, ⟨fun j => hfilled.links j (hentries ▸ j.isLt),
    fun j i => hfilled.pages j i (hentries ▸ j.isLt)⟩, ?_, ?_, fun i h0 h2 => ?_,
    fun g hg h₁ h₂ => ?_, ?_⟩
  · rw [hkept.slotWord, slotWord_writeSlot, if_neg fun hc => absurd hc.2 (by decide),
      slotWord_writeSlot, if_pos ⟨rfl, rfl⟩]
  · rw [hkept.slotWord, slotWord_writeSlot, if_pos ⟨rfl, rfl⟩]
  · rw [hkept.slotWord, slotWord_writeSlot, if_neg fun hc => h2 hc.2, slotWord_writeSlot,
      if_neg fun hc => h0 hc.2, hroot.slotWord]
  · have hg₁ : g ≠ pdpt := fun he => h₁ (he ▸ hgiven₁)
    have hg₂ : ∀ j, g ≠ directory pds j := fun j he => h₂ (he ▸ hgiven₂ j)
    exact (((hblocks g h₁ h₂).trans (sameFrame_writeSlot hg)).trans (sameFrame_writeSlot hg)).trans
      (hfilled.others g hg₁ hg₂)
  · exact hpds.calls.trans (congrArg (· + 1) hcalls)

/-- Both allocations of `paging_map_physical` succeed. -/
def WindowAllocated (firmware : BootServices) (l : Loader) : Prop :=
  ∃ pool pool', Allocates firmware l.allocateCalls l.pageTablePool 1 pool ∧
    Allocates firmware (l.allocateCalls + 1) pool (BitVec.ofNat 64 pageTableEntries) pool'

/-- `paging_map_physical` maps the window when slot 0 is empty and both
allocations succeed; otherwise it changes new pages only. -/
theorem pagingMapPhysical_spec (hfresh : FreshPages firmware start pml4)
    (hstart : start ≤ l.allocateCalls) :
    Ensures (pagingMapPhysical firmware (frameAddress pml4)) l
      (fun _ l' => (slotWord l.memory pml4 0 &&& ptePresent = 0 ∧ WindowAllocated firmware l) ∧
        ∃ pdpt pds, WindowMapped firmware pml4 l l' pdpt pds)
      (fun _ l' => ¬(slotWord l.memory pml4 0 &&& ptePresent = 0 ∧ WindowAllocated firmware l) ∧
        WindowFailed firmware l l') := by
  have hlow := frameAddress_add_slot pml4 0
  have hhigh := frameAddress_add_slot pml4 2
  have hcount : (BitVec.ofNat 64 pageTableEntries).toNat = 512 := rfl
  have hentries : pageTableEntries = 512 := rfl
  simp only [pagingMapPhysical, ensures_bind, ensures_readEntry, ensures_ite, ensures_throw,
    ensures_writeEntry, windowSlots.1, windowSlots.2, hlow, hhigh, WindowAllocated]
  have hzero : (0 : Word) * 8 = (0 : Slot).setWidth 64 * 8 := rfl
  rw [hzero, hlow]
  generalize pageTableEntries = entries at hcount hentries ⊢
  refine ⟨fun hpresent => ⟨fun hc => hpresent hc.1, fun g _ _ => SameFrame.refl _ g, Nat.le_refl _,
    Nat.le_add_right _ _⟩, fun hempty => ?_⟩
  refine (pagingAllocatePage_spec hfresh hstart (by decide) (by decide)).mono
    (fun _ l₁ hpdpt => ?_) fun _ l₁ he => ?_
  · obtain ⟨pdpt, rfl, hpdpt, hfirst⟩ := hpdpt
    have hstart₁ : start ≤ l₁.allocateCalls := by
      rw [hpdpt.calls]
      exact Nat.le_succ_of_le hstart
    refine (pagingAllocatePage_spec hfresh hstart₁ (by omega) (by omega)).mono
      (fun _ l₂ hpds => ?_) fun _ l₂ he => ?_
    · obtain ⟨pds, rfl, hpds, hsecond⟩ := hpds
      rw [hcount] at hpds
      rw [hpdpt.calls] at hsecond
      exact (windowMapped_fill hfresh hstart hpdpt hpds hentries).mono
        (fun _ _ hmapped => ⟨⟨not_not.mp hempty, _, _, hfirst, hsecond⟩, pdpt, pds, hmapped⟩)
        fun _ _ he => he.elim
    · obtain ⟨hmemory, hcalls, hnone⟩ := he
      refine ⟨fun hc => ?_, fun g h₁ _ => ?_, ?_⟩
      · obtain ⟨_, pool, pool', hp, hq⟩ := hc
        obtain rfl := hp.unique hfirst
        rw [← hpdpt.calls] at hq
        exact hnone _ hq
      · rw [hmemory]
        exact hpdpt.others g fun hin => h₁ (hpdpt.given g hin)
      · rw [hcalls, hpdpt.calls]
        omega
  · obtain ⟨hmemory, hcalls, hnone⟩ := he
    refine ⟨fun hc => ?_, fun g _ _ => ?_, ?_⟩
    · obtain ⟨_, pool, _, hp, _⟩ := hc
      exact hnone _ hp
    · rw [hmemory]
      exact SameFrame.refl _ g
    · rw [hcalls]
      omega

/-- It returns when slot 0 is empty and the allocations succeed. -/
theorem pagingMapPhysical_returns (hfresh : FreshPages firmware start pml4)
    (hstart : start ≤ l.allocateCalls) (hempty : slotWord l.memory pml4 0 &&& ptePresent = 0)
    (hallocated : WindowAllocated firmware l) :
    ∃ l', pagingMapPhysical firmware (frameAddress pml4) l = .ok () l' := by
  have hspec := pagingMapPhysical_spec hfresh hstart
  cases hcall : pagingMapPhysical firmware (frameAddress pml4) l with
  | ok _ l' => exact ⟨l', rfl⟩
  | error e l' => exact absurd ⟨hempty, hallocated⟩ (hspec.of_error hcall).1

/-- A call that returned has mapped the window. -/
theorem windowMapped_of_ok (hfresh : FreshPages firmware start pml4) (hstart : start ≤ l.allocateCalls)
    (hok : pagingMapPhysical firmware (frameAddress pml4) l = .ok () l') :
    ∃ pdpt pds, WindowMapped firmware pml4 l l' pdpt pds :=
  ((pagingMapPhysical_spec hfresh hstart).of_ok hok).2

/-! ## Walks that stay as they are -/

/-- The walk of an address visits the frame as a table below the PML4. -/
def Visits (m : Memory) (pml4 : Frame) (va : Word) (f : Frame) : Prop :=
  ∃ level, (level, (frameAddress f).toNat) ∈ (visited (guestFormat bootProcessor) (hostRead m) 4
    (frameAddress pml4).toNat va.toNat).tail

/-- Tables that a walk visits are frames. -/
theorem visited_frame {m : Memory} {x level : ℕ} {g : Frame} {visit : ℕ × ℕ}
    (h : visit ∈ visited (guestFormat bootProcessor) (hostRead m) level (frameAddress g).toNat x) :
    ∃ f, visit.2 = (frameAddress f).toNat := by
  induction level generalizing g with
  | zero => cases h
  | succ level ih =>
    rw [visited, List.mem_cons] at h
    obtain rfl | h := h
    · exact ⟨g, rfl⟩
    · rw [hostRead] at h
      dsimp only at h
      split at h
      · cases h
      · rw [← table_toNat] at h
        have hmask : ptePhysicalAddressPage = fieldMask 12 40 := by decide
        rw [hmask, and_frameMask] at h
        exact ih h

/-- A walk only depends on its slot of the PML4 and on the tables below. -/
theorem bootWalk_congr {m m' : Memory} {va : Word}
    (hroot : slotWord m' pml4 (slotOf 4 va) = slotWord m pml4 (slotOf 4 va))
    (hlower : ∀ f, Visits m pml4 va f → SameFrame m m' f) :
    bootWalk m' pml4 va = bootWalk m pml4 va := by
  refine walkRights_congr fun level table hvisit => ?_
  obtain ⟨f, hf⟩ := visited_frame hvisit
  dsimp only at hf
  subst hf
  rw [hostRead_entryAt, hostRead_entryAt]
  rw [visited, List.mem_cons] at hvisit
  obtain htop | hvisit := hvisit
  · rw [Prod.mk.injEq] at htop
    obtain ⟨rfl, hframe⟩ := htop
    have hf : f = pml4 := frameAddress_injective (BitVec.eq_of_toNat_eq hframe)
    rw [hf, hroot]
  · rw [(hlower f ⟨level, hvisit⟩).slotWord]

/-- The addresses below 2^39 and the window of the hypervisor. -/
def InWindow (va : Word) : Prop :=
  va.toNat < 2 ^ 39 ∨ rkhvPhysicalMemoryBase.toNat ≤ va.toNat ∧
    va.toNat < rkhvPhysicalMemoryBase.toNat + 2 ^ 39

/-- The window lies behind the two slots. -/
theorem inWindow_iff {va : Word} (h : Canonical va) :
    InWindow va ↔ slotOf 4 va = 0 ∨ slotOf 4 va = 2 := by
  have hslot : (slotOf 4 va).toNat = va.toNat / 2 ^ 39 % 512 := by
    rw [slotOf, BitVec.extractLsb'_toNat, Nat.shiftRight_eq_div_pow]
    rfl
  have hbase : rkhvPhysicalMemoryBase.toNat = 2 ^ 40 := rfl
  have hzero : (0 : Slot).toNat = 0 := rfl
  have htwo : (2 : Slot).toNat = 2 := rfl
  rw [InWindow, ← BitVec.toNat_inj, ← BitVec.toNat_inj, hslot, hbase, hzero, htwo]
  rw [Canonical] at h
  have hlt := va.isLt
  omega

/-- A physical address and its place in the window. -/
theorem window_addresses {p : Word} (hp : p.toNat < 2 ^ 39) :
    (slotOf 4 p = 0 ∨ slotOf 4 p = 2) ∧
      (slotOf 4 (rkhvPhysicalMemoryBase + p) = 0 ∨ slotOf 4 (rkhvPhysicalMemoryBase + p) = 2) ∧
      (rkhvPhysicalMemoryBase + p).toNat % 2 ^ 39 = p.toNat := by
  have hbase : rkhvPhysicalMemoryBase.toNat = 2 ^ 40 := rfl
  have hsum : (rkhvPhysicalMemoryBase + p).toNat = 2 ^ 40 + p.toNat := by
    rw [BitVec.toNat_add, hbase]
    omega
  have hcanonical : Canonical p := Or.inl (hp.trans (by decide))
  have hcanonical' : Canonical (rkhvPhysicalMemoryBase + p) := Or.inl (by rw [hsum]; omega)
  refine ⟨(inWindow_iff hcanonical).mp (Or.inl hp), (inWindow_iff hcanonical').mp (Or.inr ?_), ?_⟩
  · rw [hbase, hsum]
    omega
  · rw [hsum]
    omega

/-- In a window every address leads to its low 39 bits. -/
theorem WindowMapped.walk (h : WindowMapped firmware pml4 l l' pdpt pds) {va : Word}
    (hva : slotOf 4 va = 0 ∨ slotOf 4 va = 2) :
    bootWalk l'.memory pml4 va = .ok ⟨va.toNat % 2 ^ 39, true, true⟩ := by
  have hlink : slotWord l'.memory pml4 (slotOf 4 va) = tableEntry (frameAddress pdpt) := by
    obtain hva | hva := hva
    · rw [hva]
      exact h.low
    · rw [hva]
      exact h.high
  exact (tableWalk_table hlink).trans (h.window.walk true true va)

/-- What the firmware promises about the tables that exist: their pages are in
use, and it gives none of them away. -/
def TablesInUse (firmware : BootServices) (l : Loader) (pml4 : Frame) : Prop :=
  ∀ va f k, Canonical va → Visits l.memory pml4 va f → l.allocateCalls ≤ k → ¬GivenBy firmware k f

/-- When `paging_map_physical` succeeds, the addresses below 2^39 and the
window lead to physical memory, writable, and any other address leads where it
did, unless its walk comes back to the PML4. When it fails no walk changes. -/
theorem pagingMapPhysical_identity (hfresh : FreshPages firmware l.allocateCalls pml4)
    (htables : TablesInUse firmware l pml4) :
    (∀ l', pagingMapPhysical firmware (frameAddress pml4) l = .ok () l' →
      (∀ p : Word, p.toNat < 2 ^ 39 →
        bootWalk l'.memory pml4 p = .ok ⟨p.toNat, true, true⟩ ∧
          bootWalk l'.memory pml4 (rkhvPhysicalMemoryBase + p) = .ok ⟨p.toNat, true, true⟩) ∧
      ∀ va, Canonical va → ¬InWindow va → ¬Visits l.memory pml4 va pml4 →
        bootWalk l'.memory pml4 va = bootWalk l.memory pml4 va) ∧
    ∀ e l', pagingMapPhysical firmware (frameAddress pml4) l = .error e l' →
      ∀ va, Canonical va → bootWalk l'.memory pml4 va = bootWalk l.memory pml4 va := by
  have hspec := pagingMapPhysical_spec hfresh (Nat.le_refl _)
  refine ⟨fun l' hok => ?_, fun e l' herror va hva => ?_⟩
  · obtain ⟨_, pdpt, pds, hmapped⟩ := hspec.of_ok hok
    refine ⟨fun p hp => ?_, fun va hva hout hroot => ?_⟩
    · obtain ⟨hlow, hhigh, hsame⟩ := window_addresses hp
      rw [hmapped.walk hlow, hmapped.walk hhigh, hsame, Nat.mod_eq_of_lt hp]
      exact ⟨rfl, rfl⟩
    · rw [inWindow_iff hva, not_or] at hout
      refine bootWalk_congr (hmapped.root _ hout.1 hout.2) fun f hf => ?_
      have hne : f ≠ pml4 := by
        intro he
        rw [he] at hf
        exact hroot hf
      exact hmapped.others f hne (htables va f _ hva hf (Nat.le_refl _))
        (htables va f _ hva hf (Nat.le_succ _))
  · obtain ⟨_, hfailed⟩ := hspec.of_error herror
    refine bootWalk_congr ?_ fun f hf => ?_
    · rw [(hfailed.others pml4 (hfresh.pml4 _ (Nat.le_refl _)) (hfresh.pml4 _ (Nat.le_succ _))).slotWord]
    · exact hfailed.others f (htables va f _ hva hf (Nat.le_refl _))
        (htables va f _ hva hf (Nat.le_succ _))

/-! ## A PML4 that maps itself -/

/-- Firmware with two answers: one page for the first call and 512 for the second. -/
def twoAnswers : BootServices where
  allocatePages k n :=
    if k = 0 ∧ n = 1 then .ok 0x2000
    else if k = 1 ∧ n = 512 then .ok 0x100000
    else .error .outOfResources

theorem twoAnswers_cases {k : ℕ} {n address : Word} (h : twoAnswers.allocatePages k n = .ok address) :
    k = 0 ∧ n = 1 ∧ address = 0x2000 ∨ k = 1 ∧ n = 512 ∧ address = 0x100000 := by
  rw [twoAnswers] at h
  dsimp only at h
  split at h
  · rename_i hk
    exact Or.inl ⟨hk.1, hk.2, (Except.ok.inj h).symm⟩
  split at h
  · rename_i hk
    exact Or.inr ⟨hk.1, hk.2, (Except.ok.inj h).symm⟩
  · cases h

/-- Frames that it gives. -/
theorem givenBy_twoAnswers {k : ℕ} {f : Frame} (h : GivenBy twoAnswers k f) :
    k = 0 ∧ f.toNat = 2 ∨ k = 1 ∧ 256 ≤ f.toNat := by
  obtain ⟨n, address, hanswer, hfrom, hto⟩ := h
  rw [toNat_frameAddress] at hfrom hto
  obtain ⟨hk, rfl, rfl⟩ | ⟨hk, rfl, rfl⟩ := twoAnswers_cases hanswer
  · have haddress : (0x2000 : Word).toNat = 0x2000 := rfl
    have hpages : (1 : Word).toNat = 1 := rfl
    rw [haddress] at hfrom hto
    rw [hpages] at hto
    exact Or.inl ⟨hk, by omega⟩
  · have haddress : (0x100000 : Word).toNat = 0x100000 := rfl
    rw [haddress] at hfrom
    exact Or.inr ⟨hk, by omega⟩

theorem freshPages_twoAnswers : FreshPages twoAnswers 0 1 where
  page k n address _ h := by
    obtain ⟨_, rfl, rfl⟩ | ⟨_, rfl, rfl⟩ := twoAnswers_cases h
    · decide
    · decide
  disjoint j k f _ _ hj hk := by
    obtain ⟨rfl, hf⟩ | ⟨rfl, hf⟩ := givenBy_twoAnswers hj
    · obtain ⟨rfl, _⟩ | ⟨rfl, hf'⟩ := givenBy_twoAnswers hk
      · rfl
      · omega
    · obtain ⟨rfl, hf'⟩ | ⟨rfl, _⟩ := givenBy_twoAnswers hk
      · omega
      · rfl
  pml4 k _ h := by
    have hone : (1 : Frame).toNat = 1 := rfl
    obtain ⟨_, hf⟩ | ⟨_, hf⟩ := givenBy_twoAnswers h
    · rw [hone] at hf
      omega
    · rw [hone] at hf
      omega

/-- A PML4 whose last slot leads to itself, all others empty. -/
def selfMapped : Loader where
  memory := writeQword (fun _ => 0) (slotAddress 1 511) (tableEntry (frameAddress 1))
  pageTablePool := ⟨2, [], Nat.zero_le 2⟩
  allocateCalls := 0

theorem slotWord_selfMapped (i : Slot) : slotWord selfMapped.memory 1 i =
    if i = 511 then tableEntry (frameAddress 1) else 0 := by
  have hzero : ZeroFrame (fun _ => 0) 1 := fun _ _ => rfl
  rw [selfMapped, slotWord_writeSlot, hzero.slotWord]
  simp only [true_and]

/-- Its walks visit no other table. -/
theorem visited_selfMapped {x level : ℕ} {visit : ℕ × ℕ} {va : Word} (hx : x = va.toNat)
    (h : visit ∈ visited (guestFormat bootProcessor) (hostRead selfMapped.memory) level
      (frameAddress 1).toNat x) : visit.2 = (frameAddress 1).toNat := by
  induction level with
  | zero => cases h
  | succ level ih =>
    rw [visited, List.mem_cons, hx, hostRead_entryAt, slotWord_selfMapped] at h
    obtain rfl | h := h
    · rfl
    · by_cases hslot : slotOf (level + 1) va = 511
      · rw [if_pos hslot] at h
        dsimp only at h
        split at h
        · cases h
        · rw [entryAddress_tableEntry, ← hx] at h
          exact ih h
      · rw [if_neg hslot] at h
        cases h

theorem tablesInUse_selfMapped : TablesInUse twoAnswers selfMapped 1 := by
  intro va f k _ hvisits _ hgiven
  obtain ⟨level, hvisit⟩ := hvisits
  have hframe := visited_selfMapped rfl (List.mem_of_mem_tail hvisit)
  have hf : f = 1 := frameAddress_injective (BitVec.eq_of_toNat_eq hframe)
  rw [hf] at hgiven
  exact freshPages_twoAnswers.pml4 k (Nat.zero_le k) hgiven

/-- The call succeeds there. -/
theorem pagingMapPhysical_returns_selfMapped :
    ∃ l', pagingMapPhysical twoAnswers (frameAddress 1) selfMapped = .ok () l' := by
  have hempty : slotWord selfMapped.memory 1 0 &&& ptePresent = 0 := by
    rw [slotWord_selfMapped, if_neg (by decide)]
    exact BitVec.zero_and
  exact pagingMapPhysical_returns freshPages_twoAnswers (Nat.le_refl 0) hempty
    ⟨_, _, ⟨_, rfl, rfl⟩, ⟨_, rfl, rfl⟩⟩

/-- The window of this PML4. -/
theorem pagingMapPhysical_identity_selfMapped : ∃ l', pagingMapPhysical twoAnswers (frameAddress 1)
    selfMapped = .ok () l' ∧ bootWalk l'.memory 1 0x10012345678 = .ok ⟨0x12345678, true, true⟩ := by
  obtain ⟨l', hok⟩ := pagingMapPhysical_returns_selfMapped
  have hwindow := (pagingMapPhysical_identity (l := selfMapped) freshPages_twoAnswers
    tablesInUse_selfMapped).1 l' hok
  exact ⟨l', hok, (hwindow.1 0x12345678 (by decide)).2⟩

/-- Its last slot gives the new table in slot 0 a second meaning: an address
outside the window that led nowhere leads to a page. -/
theorem pagingMapPhysical_changes_selfMapped : FreshPages twoAnswers 0 1 ∧
    TablesInUse twoAnswers selfMapped 1 ∧
    slotWord selfMapped.memory 1 0 &&& ptePresent = 0 ∧
    slotWord selfMapped.memory 1 2 &&& ptePresent = 0 ∧
    ∃ l', pagingMapPhysical twoAnswers (frameAddress 1) selfMapped = .ok () l' ∧
      Canonical 0xffffff8000000000 ∧ ¬InWindow 0xffffff8000000000 ∧
      bootWalk l'.memory 1 0xffffff8000000000 ≠ bootWalk selfMapped.memory 1 0xffffff8000000000 := by
  have hslot : ∀ i : Slot, i ≠ 511 → slotWord selfMapped.memory 1 i &&& ptePresent = 0 := fun i hi => by
    rw [slotWord_selfMapped, if_neg hi]
    exact BitVec.zero_and
  obtain ⟨l', hok⟩ := pagingMapPhysical_returns_selfMapped
  refine ⟨freshPages_twoAnswers, tablesInUse_selfMapped, hslot 0 (by decide), hslot 2 (by decide), l',
    hok, by decide, ?_, fun hsame => ?_⟩
  · rw [inWindow_iff (by decide)]
    decide
  · obtain ⟨pdpt, pds, hmapped⟩ := windowMapped_of_ok freshPages_twoAnswers (Nat.le_refl 0) hok
    generalize hva : (0xffffff8000000000 : Word) = va at hsame
    have htop : slotOf 4 va = 511 := by rw [← hva]; decide
    have hlower : slotOf 3 va = 0 ∧ slotOf 2 va = 0 ∧ slotOf 1 va = 0 := by rw [← hva]; decide
    have hself := slotWord_selfMapped 511
    rw [if_pos rfl] at hself
    have hbefore : bootWalk selfMapped.memory 1 va = .error .notPresent := by
      refine (tableWalk_table (g := 1) ?_).trans (tableWalk_absent ?_)
      · rw [htop, hself]
      · rw [hlower.1]
        exact hslot 0 (by decide)
    have hafter : bootWalk l'.memory 1 va =
        tableWalk l'.memory 1 (directory pds 0) true true va := by
      refine (tableWalk_table (g := 1) ?_).trans ((tableWalk_table (g := pdpt) ?_).trans
        (tableWalk_table ?_))
      · rw [htop, hmapped.root 511 (by decide) (by decide), hself]
      · rw [hlower.1]
        exact hmapped.low
      · rw [hlower.2.1]
        exact hmapped.window.links 0
    have hentry := hmapped.window.pages 0 0
    have hread := hostRead_entryAt l'.memory 1 (directory pds 0) va
    rw [hlower.2.2, hentry] at hread
    have hpage : tableWalk l'.memory 1 (directory pds 0) true true va = walkRights
        (guestFormat bootProcessor) (hostRead l'.memory) 0 _ va.toNat :=
      walkRights_table hread (identityPde_bits (0 : Slot).toNat (0 : Slot).toNat).1 (not_reserved (Or.inl rfl)) rfl
    rw [hsame, hbefore] at hafter
    rw [hpage] at hafter
    cases hafter

end Rkhv.BootWindow
