import Rkhv.GuestRam

/-!
# The reservation of table pages

`vm_manager_allocate_guest_physical_memory` reserves as many table pages as the
mappings that follow need, by a formula of nested ceilings. A second version of
the mapping functions asserts what the reservation is for: it stops where the
allocator would be asked for a table, and where a table is installed that is not
zero. On a fresh machine it runs like the first one and uses up the reserve.
-/

namespace Rkhv.EptReservation

open ByteMemory WordFields HostTypes HostState StateOutcome PageRuns PageTracker PageTrackerRuns
  VmxPages RadixWalk Ept EptWalk VmManager EptAgreement MachinePages MachineSteps EptMapping
  GuestMemory HostPages HostOperations HostRuns GuestIsolation GuestRam

variable {vm : Word} {s s' : Hv}

/-! ## Mapping with assertions -/

/-- `eptTablePage` without the allocator. -/
def reservedTablePage (vm : Word) : HvM Word := do
  match ← vmManagerUntrackEptPageFromReservedPool vm with
  | some eptPage => return eptPage
  | none => panicWith "an EPT page is allocated on demand"

/-- Stop unless a table is zero. -/
def assertZeroTable (table : Word) : HvM Unit := do
  let s ← get
  if (List.range 4096).all fun k => s.memory (v2pIdentityMap table + BitVec.ofNat 64 k) == 0 then
    pure ()
  else panicWith "an EPT page is not zero when it is installed"

/-- `eptPml4` with the assertions. -/
def eptPml4Reserved (vm : Word) : HvM Word := do
  let s ← get
  if (s.vmAt vm).flags &&& vmTFlagEptPml4Initialized ≠ 0 then
    return p2vIdentityMap (s.vmAt vm).vmcsConfig.eptp
  else
    let pml4 ← reservedTablePage vm
    assertZeroTable pml4
    modifyVm vm fun v => { v with
      vmcsConfig := { v.vmcsConfig with eptp := v2pIdentityMap pml4 }
      flags := v.flags ||| vmTFlagEptPml4Initialized }
    vmManagerTrackEptPage vm pml4
    return pml4

/-- `eptNextTable` with the assertions. -/
def eptNextTableReserved (vm pageSizeBit table index : Word) : HvM Word := do
  let entry ← readElement table index
  if entry &&& eptPteRead ≠ 0 then
    if entry &&& pageSizeBit ≠ 0 then panicWith alreadyMappedPanicStr
    else return p2vIdentityMap (entry &&& eptPtePhysicalAddressPage)
  else
    let next ← reservedTablePage vm
    vmManagerTrackEptPage vm next
    assertZeroTable next
    writeElement table index (eptEntry (v2pIdentityMap next))
    return next

/-- `vmxEptMapPage` with the assertions. -/
def vmxEptMapPageReserved (vm guestPhysicalPage hostPhysicalPage : Word) : HvM Unit := do
  let pml4 ← eptPml4Reserved vm
  let pdpt ← eptNextTableReserved vm 0 pml4 (linearAddressGetPml4 guestPhysicalPage)
  let pd ← eptNextTableReserved vm eptPdePageSize pdpt
    (linearAddressGetDirectoryPtr guestPhysicalPage)
  let pt ← eptNextTableReserved vm eptPdePageSize pd (linearAddressGetDirectory guestPhysicalPage)
  let entry ← readElement pt (linearAddressGetTable guestPhysicalPage)
  if entry &&& eptPteRead ≠ 0 then panicWith alreadyMappedPanicStr
  else writeElement pt (linearAddressGetTable guestPhysicalPage) (eptEntry hostPhysicalPage)

/-- `addGuestPage` with the assertions. -/
def addGuestPageReserved (vm guestPhysicalPage : Word) : HvM Unit := do
  let pagePa ← vmManagerGetFreeGuestPhysicalPage
  vmManagerTrackPage vm pagePa .guestPhysical false
  vmxEptMapPageReserved vm guestPhysicalPage pagePa

/-! ## Counting tables -/

/-- Tracked EPT pages, of the reserved pool or in use. -/
def eptPagesTracked (pool : Bool) (s : Hv) (vm : Word) : ℕ :=
  (contents (trackedOf s vm)).countP fun t => t.2 = (.ept, pool)

/-- Some tables went from the reserved pool into use. -/
structure Took (vm : Word) (s s' : Hv) (tables : ℕ) : Prop where
  reserved : eptPagesTracked true s' vm + tables = eptPagesTracked true s vm
  used : eptPagesTracked false s' vm = eptPagesTracked false s vm + tables

theorem Took.refl (vm : Word) (s : Hv) : Took vm s s 0 := ⟨rfl, rfl⟩

theorem Took.trans {s'' : Hv} {k l : ℕ} (h : Took vm s s' k) (h' : Took vm s' s'' l) :
    Took vm s s'' (k + l) := by
  have hreserved := h.reserved
  have hreserved' := h'.reserved
  have hused := h.used
  have hused' := h'.used
  exact ⟨by omega, by omega⟩

/-- Counts depend on the tracked pages only. -/
theorem Took.of_tracked {s₁ s₁' : Hv} {k : ℕ} (h : Took vm s s' k)
    (hs : trackedOf s₁ vm = trackedOf s vm) (hs' : trackedOf s₁' vm = trackedOf s' vm) :
    Took vm s₁ s₁' k := by
  obtain ⟨hreserved, hused⟩ := h
  simp only [eptPagesTracked] at hreserved hused
  constructor
  · simpa only [eptPagesTracked, hs, hs'] using hreserved
  · simpa only [eptPagesTracked, hs, hs'] using hused

/-- Storing changes no list. -/
theorem trackedOf_memory (s : Hv) (vm : Word) (m : Memory) :
    trackedOf { s with memory := m } vm = trackedOf s vm := rfl

/-- A page more or less in the list of a machine. -/
theorem eptPagesTracked_of_perm {page : Word} {kind : VmPageType × Bool} {tracked tracked' : List VmPageList}
    (hperm : (contents tracked').Perm ((page, kind) :: contents tracked)) (pool : Bool) :
    (contents tracked').countP (fun t => t.2 = (.ept, pool)) =
      (contents tracked).countP (fun t => t.2 = (.ept, pool)) +
        if kind = (.ept, pool) then 1 else 0 := by
  rw [hperm.countP_eq, List.countP_cons]
  simp only [decide_eq_true_eq]

/-- What tracking a new page adds. -/
theorem track_counts {page : Word} {pageType : VmPageType} {reservedPool : Bool}
    (hpage : PageOk page) (hok : ∀ e ∈ trackedOf s vm, EntryOk e)
    (hnew : ∀ t ∈ contents (trackedOf s vm), t.1 ≠ page)
    (hcall : vmManagerTrackPage vm page pageType reservedPool s = .ok () s') (pool : Bool) :
    s'.memory = s.memory ∧ eptPagesTracked pool s' vm = eptPagesTracked pool s vm +
      if (pageType, reservedPool) = (.ept, pool) then 1 else 0 := by
  obtain ⟨tracked, arenaAt, rfl, _, _, hperm⟩ := (vmManagerTrackPage_spec hpage hok
    fun hmem => hnew _ hmem rfl).of_ok hcall
  refine ⟨rfl, ?_⟩
  have htracked : trackedOf { withTracked s vm tracked with arenaAt := arenaAt } vm = tracked :=
    trackedOf_withTracked s vm tracked
  rw [eptPagesTracked, htracked]
  exact eptPagesTracked_of_perm hperm pool

/-- A loose zero frame that left the reserved pool. -/
structure LeftPool (vm : Word) (s s' : Hv) (f : Frame) : Prop where
  loose : LooseTable vm s s' f
  reserved : eptPagesTracked true s' vm + 1 = eptPagesTracked true s vm
  used : eptPagesTracked false s' vm = eptPagesTracked false s vm

/-- While the pool has pages a table comes from it. -/
theorem reservedTablePage_of_ok {table : Word} (h : MachineOk s vm)
    (hpool : 0 < eptPagesTracked true s vm) (hcall : eptTablePage vm s = .ok table s') :
    reservedTablePage vm s = .ok table s' ∧
      ∃ f, table = p2vIdentityMap (frameAddress f) ∧ LeftPool vm s s' f := by
  simp only [eptTablePage, vmManagerUntrackEptPageFromReservedPool, bind_eq_ok] at hcall
  obtain ⟨_, t, ⟨r, t', huntrack, hmap⟩, hcall⟩ := hcall
  obtain ⟨rfl, rfl⟩ := pure_eq_ok.mp hmap
  have hspec := (vmManagerUntrackPage_spec h.entries (E := fun _ _ => True)).of_ok huntrack
  cases r with
  | none =>
    obtain ⟨⟨page, kind⟩, hpage, hkind⟩ := List.countP_pos_iff.mp hpool
    obtain rfl : kind = (.ept, true) := of_decide_eq_true hkind
    exact absurd hpage (hspec.2 page)
  | some page =>
    obtain ⟨rfl, rfl⟩ := pure_eq_ok.mp hcall
    obtain ⟨tracked, rfl, hok, hperm⟩ := hspec
    obtain ⟨hpage, hloose⟩ := looseTable_untrack h hok hperm
    refine ⟨?_, frameOf page, by rw [frameAddress_frameOf hpage], hloose, ?_, ?_⟩
    · simp only [reservedTablePage, vmManagerUntrackEptPageFromReservedPool, bind_eq_ok]
      exact ⟨_, _, ⟨_, _, huntrack, rfl⟩, rfl⟩
    · have hcount := eptPagesTracked_of_perm hperm true
      rw [if_pos rfl] at hcount
      rw [eptPagesTracked, eptPagesTracked, trackedOf_withTracked]
      exact hcount.symm
    · have hcount := eptPagesTracked_of_perm hperm false
      rw [if_neg (by decide)] at hcount
      rw [eptPagesTracked, eptPagesTracked, trackedOf_withTracked]
      exact hcount.symm

/-- A zero frame passes the assertion. -/
theorem assertZeroTable_of_zero {f : Frame} (h : ZeroFrame s.memory f) :
    assertZeroTable (p2vIdentityMap (frameAddress f)) s = .ok () s := by
  have hzero : ((List.range 4096).all fun k => s.memory (v2pIdentityMap
      (p2vIdentityMap (frameAddress f)) + BitVec.ofNat 64 k) == 0) = true := by
    refine List.all_eq_true.mpr fun k hk => beq_iff_eq.mpr ?_
    rw [v2p_p2v]
    refine h _ (inFrame_offset ?_)
    rw [List.mem_range] at hk
    rw [BitVec.toNat_ofNat]
    omega
  simp only [assertZeroTable, bind, EStateM.bind, get, getThe, MonadStateOf.get, EStateM.get]
  rw [if_pos hzero]
  rfl

/-! ## One table -/

/-- Counts one for a path that leads nowhere. -/
def absentCount : End Frame Slot Word → ℕ
  | .absent => 1
  | _ => 0

/-- A table from the pool, taken for a path that led nowhere and tracked. -/
theorem took_one {s₁ s₂ : Hv} {f : Frame} (hleft : LeftPool vm s s₁ f)
    (hcounts : ∀ pool, eptPagesTracked pool s₂ vm = eptPagesTracked pool s₁ vm +
      if (VmPageType.ept, false) = (.ept, pool) then 1 else 0) : Took vm s s₂ 1 := by
  have hreserved := hcounts true
  have hused := hcounts false
  rw [if_neg (by decide)] at hreserved
  rw [if_pos rfl] at hused
  refine ⟨?_, ?_⟩
  · rw [hreserved]
    exact hleft.reserved
  · rw [hused, hleft.used]

/-- Reading an element of a table returns its slot. -/
theorem readElement_slot (s : Hv) (f : Frame) (i : Slot) :
    readElement (p2vIdentityMap (frameAddress f)) (i.setWidth 64) s =
      .ok (slotWord s.memory f i) s := by
  rw [← readQword_element]
  rfl

/-- Going one level down takes a table from the pool exactly when the path led
nowhere. -/
theorem eptNextTable_reserved {path : List Slot} {i : Slot} {x : Frame} {bit next : Word}
    (h : MachineOk s vm) (hept : hasEpt (s.vmAt vm)) (hp : path.length < 3)
    (hx : eptFollow s vm path = .table x)
    (hpool : absentCount (eptFollow s vm (path ++ [i])) ≤ eptPagesTracked true s vm)
    (hcall : eptNextTable vm bit (p2vIdentityMap (frameAddress x)) (i.setWidth 64) s = .ok next s') :
    eptNextTableReserved vm bit (p2vIdentityMap (frameAddress x)) (i.setWidth 64) s = .ok next s' ∧
      Took vm s s' (absentCount (eptFollow s vm (path ++ [i]))) := by
  have hnext := eptFollow_snoc (i := i) hept hx
  rw [eptTables] at hnext
  have hslot := readElement_slot s x i
  by_cases hread : slotWord s.memory x i &&& eptPteRead = 0
  · have hd : eptDecode path.length (slotWord s.memory x i) = .absent := by
      rw [eptDecode, if_pos hread]
    rw [hd] at hnext
    rw [hnext] at hpool ⊢
    have hentry : eptNextTable vm bit (p2vIdentityMap (frameAddress x)) (i.setWidth 64) s =
        (do
          let next ← eptTablePage vm
          vmManagerTrackEptPage vm next
          writeElement (p2vIdentityMap (frameAddress x)) (i.setWidth 64)
            (eptEntry (v2pIdentityMap next))
          return next : HvM Word) s := by
      rw [eptNextTable, bind_of_ok hslot, if_neg (not_not.mpr hread)]
    have hentry' : eptNextTableReserved vm bit (p2vIdentityMap (frameAddress x)) (i.setWidth 64) s =
        (do
          let next ← reservedTablePage vm
          vmManagerTrackEptPage vm next
          assertZeroTable next
          writeElement (p2vIdentityMap (frameAddress x)) (i.setWidth 64)
            (eptEntry (v2pIdentityMap next))
          return next : HvM Word) s := by
      rw [eptNextTableReserved, bind_of_ok hslot, if_neg (not_not.mpr hread)]
    rw [hentry, bind_eq_ok] at hcall
    obtain ⟨table, s₁, htable, hcall⟩ := hcall
    rw [bind_eq_ok] at hcall
    obtain ⟨_, s₂, htrack, hcall⟩ := hcall
    obtain ⟨hreserved, f, rfl, hleft⟩ := reservedTablePage_of_ok h hpool htable
    obtain ⟨taken, hgrown⟩ := hleft.loose.grown
    have hnew := loose_new hgrown h.distinct
    have htrack' := htrack
    rw [vmManagerTrackEptPage, v2p_p2v] at htrack'
    have hcounts := track_counts (pageOk_frameAddress f) hleft.loose.ok.entries
      (fun t ht he => hnew (he ▸ List.mem_map_of_mem ht)) htrack'
    have hzero : ZeroFrame s₂.memory f := by
      rw [(hcounts true).1]
      exact hleft.loose.zero
    have htook := took_one hleft fun pool => (hcounts pool).2
    have hmemory : Took vm s s' 1 := by
      rw [bind_eq_ok] at hcall
      obtain ⟨_, s₃, hwrite, hcall⟩ := hcall
      obtain ⟨_, rfl⟩ := pure_eq_ok.mp hcall
      have hs := modify_eq_ok.mp hwrite
      refine htook.of_tracked rfl ?_
      rw [← hs]
      exact trackedOf_memory s₂ vm _
    refine ⟨?_, hmemory⟩
    rw [hentry', bind_of_ok hreserved, bind_of_ok htrack, bind_of_ok (assertZeroTable_of_zero hzero)]
    exact hcall
  · have hsame : eptNextTable vm bit (p2vIdentityMap (frameAddress x)) (i.setWidth 64) s =
        eptNextTableReserved vm bit (p2vIdentityMap (frameAddress x)) (i.setWidth 64) s := by
      rw [eptNextTable, eptNextTableReserved, bind_of_ok hslot, bind_of_ok hslot, if_pos hread,
        if_pos hread]
    have hpresent : absentCount (eptFollow s vm (path ++ [i])) = 0 := by
      rw [hnext]
      rcases eptDecode_cases hp (slotWord s.memory x i) with ⟨hz, _⟩ | ⟨_, _, hd⟩ | ⟨_, _, hd⟩
      · exact absurd hz hread
      · rw [hd]
        rfl
      · rw [hd]
        rfl
    refine ⟨hsame ▸ hcall, ?_⟩
    rw [hpresent]
    have hentry : eptNextTable vm bit (p2vIdentityMap (frameAddress x)) (i.setWidth 64) s =
        (if slotWord s.memory x i &&& bit ≠ 0 then panicWith alreadyMappedPanicStr
        else return p2vIdentityMap (slotWord s.memory x i &&& eptPtePhysicalAddressPage) :
          HvM Word) s := by
      rw [eptNextTable, bind_of_ok hslot, if_pos hread]
    rw [hentry] at hcall
    split at hcall
    · exact absurd hcall throw_ne_ok
    · obtain ⟨_, rfl⟩ := pure_eq_ok.mp hcall
      exact Took.refl vm s

/-- The root comes from the pool exactly when the machine has none. -/
theorem eptPml4_reserved {pml4 : Word} (h : MachineOk s vm)
    (hpool : absentCount (eptFollow s vm []) ≤ eptPagesTracked true s vm)
    (hcall : eptPml4 vm s = .ok pml4 s') :
    eptPml4Reserved vm s = .ok pml4 s' ∧ Took vm s s' (absentCount (eptFollow s vm [])) := by
  have hget : (get : HvM Hv) s = .ok s s := rfl
  by_cases hept : hasEpt (s.vmAt vm)
  · have hflag : (s.vmAt vm).flags &&& vmTFlagEptPml4Initialized ≠ 0 := hept
    have hroot : absentCount (eptFollow s vm []) = 0 := by
      rw [eptFollow_eq hept, follow_nil]
      rfl
    have hentry : eptPml4 vm s =
        (pure (p2vIdentityMap (s.vmAt vm).vmcsConfig.eptp) : HvM Word) s := by
      rw [eptPml4, bind_of_ok hget, if_pos hflag]
    have hentry' : eptPml4Reserved vm s =
        (pure (p2vIdentityMap (s.vmAt vm).vmcsConfig.eptp) : HvM Word) s := by
      rw [eptPml4Reserved, bind_of_ok hget, if_pos hflag]
    rw [hroot]
    refine ⟨hentry' ▸ hentry ▸ hcall, ?_⟩
    rw [hentry] at hcall
    obtain ⟨_, rfl⟩ := pure_eq_ok.mp hcall
    exact Took.refl vm s
  · have hflag : ¬(s.vmAt vm).flags &&& vmTFlagEptPml4Initialized ≠ 0 := hept
    have habs : eptFollow s vm [] = .absent := if_neg hept
    rw [habs] at hpool ⊢
    have hentry : eptPml4 vm s = (do
        let pml4 ← eptTablePage vm
        modifyVm vm fun v => { v with
          vmcsConfig := { v.vmcsConfig with eptp := v2pIdentityMap pml4 }
          flags := v.flags ||| vmTFlagEptPml4Initialized }
        vmManagerTrackEptPage vm pml4
        return pml4 : HvM Word) s := by
      rw [eptPml4, bind_of_ok hget, if_neg hflag]
    have hentry' : eptPml4Reserved vm s = (do
        let pml4 ← reservedTablePage vm
        assertZeroTable pml4
        modifyVm vm fun v => { v with
          vmcsConfig := { v.vmcsConfig with eptp := v2pIdentityMap pml4 }
          flags := v.flags ||| vmTFlagEptPml4Initialized }
        vmManagerTrackEptPage vm pml4
        return pml4 : HvM Word) s := by
      rw [eptPml4Reserved, bind_of_ok hget, if_neg hflag]
    rw [hentry, bind_eq_ok] at hcall
    obtain ⟨table, s₁, htable, hcall⟩ := hcall
    obtain ⟨hreserved, f, rfl, hleft⟩ := reservedTablePage_of_ok h hpool htable
    refine ⟨?_, ?_⟩
    · rw [hentry', bind_of_ok hreserved, bind_of_ok (assertZeroTable_of_zero hleft.loose.zero)]
      exact hcall
    · rw [bind_eq_ok] at hcall
      obtain ⟨_, s₂, hroot, hcall⟩ := hcall
      rw [bind_eq_ok] at hcall
      obtain ⟨_, s₃, htrack, hcall⟩ := hcall
      obtain ⟨_, rfl⟩ := pure_eq_ok.mp hcall
      obtain rfl := modify_eq_ok.mp hroot
      rw [vmManagerTrackEptPage, v2p_p2v] at htrack
      change vmManagerTrackPage vm (frameAddress f) .ept false (rooting s₁ vm f) = _ at htrack
      have htracked : trackedOf (rooting s₁ vm f) vm = trackedOf s₁ vm := by
        rw [trackedOf, rooting_vmAt]
        rfl
      obtain ⟨taken, hgrown⟩ := hleft.loose.grown
      have hnew := loose_new hgrown h.distinct
      have hcounts := track_counts (pageOk_frameAddress f) (htracked ▸ hleft.loose.ok.entries)
        (fun t ht he => hnew (he ▸ List.mem_map_of_mem (htracked ▸ ht))) htrack
      refine took_one hleft fun pool => ?_
      have hbefore : eptPagesTracked pool (rooting s₁ vm f) vm = eptPagesTracked pool s₁ vm := by
        rw [eptPagesTracked, htracked, eptPagesTracked]
      rw [← hbefore]
      exact (hcounts pool).2

/-! ## One mapping -/

/-- Tables that the path of an address still lacks. -/
def tablesMissing (s : Hv) (vm gpa : Word) : ℕ :=
  ∑ l ∈ Finset.range 4, absentCount (eptFollow s vm ((eptPath gpa).take l))

/-- The tables that a path lacks, up to its last slot and for it. -/
theorem missing_snoc (s : Hv) (vm : Word) (path : List Slot) (i : Slot) :
    ∑ l ∈ Finset.range (path.length + 2), absentCount (eptFollow s vm ((path ++ [i]).take l)) =
      (∑ l ∈ Finset.range (path.length + 1), absentCount (eptFollow s vm (path.take l))) +
        absentCount (eptFollow s vm (path ++ [i])) := by
  have htake : ∀ l ∈ Finset.range (path.length + 1), (path ++ [i]).take l = path.take l :=
    fun l hl => List.take_append_of_le_length (by rw [Finset.mem_range] at hl; omega)
  have hwhole : (path ++ [i]).take (path.length + 1) = path ++ [i] :=
    List.take_of_length_le (by rw [List.length_append, List.length_singleton])
  rw [Finset.sum_range_succ, hwhole]
  congr 1
  exact Finset.sum_congr rfl fun l hl => by rw [htake l hl]

/-- Only the slots above the last one lead to tables. -/
theorem tablesMissing_eq (s : Hv) (vm gpa : Word) :
    tablesMissing s vm gpa = ∑ l ∈ Finset.range 4, absentCount (eptFollow s vm
      (([gpa.extractLsb' 39 9] ++ [gpa.extractLsb' 30 9] ++ [gpa.extractLsb' 21 9]).take l)) := by
  rw [tablesMissing]
  refine Finset.sum_congr rfl fun l hl => ?_
  rw [Finset.mem_range] at hl
  interval_cases l <;> rfl

/-- A walk down so far: it has taken the tables that the prefixes of the path
lacked. -/
structure Reserving (vm : Word) (s s₁ : Hv) (path : List Slot) (x : Frame) : Prop where
  descent : Descent vm s s₁ path x
  took : Took vm s s₁
    (∑ l ∈ Finset.range (path.length + 1), absentCount (eptFollow s vm (path.take l)))

/-- One level further. -/
theorem Reserving.next {s₁ s₂ : Hv} {path : List Slot} {i : Slot} {x : Frame} {next : Word}
    (h : Reserving vm s s₁ path x) (hp : path.length < 3)
    (hpool : ∑ l ∈ Finset.range (path.length + 2),
      absentCount (eptFollow s vm ((path ++ [i]).take l)) ≤ eptPagesTracked true s vm)
    (hcall : eptNextTable vm (pageSizeBit path.length) (p2vIdentityMap (frameAddress x))
      (i.setWidth 64) s₁ = .ok next s₂) :
    eptNextTableReserved vm (pageSizeBit path.length) (p2vIdentityMap (frameAddress x))
      (i.setWidth 64) s₁ = .ok next s₂ ∧
      ∃ y, next = p2vIdentityMap (frameAddress y) ∧ Reserving vm s s₂ (path ++ [i]) y := by
  have hbelow := h.descent.below (i := i) (by omega)
  have hsum := missing_snoc s vm path i
  have hreserved := h.took.reserved
  have hleft : absentCount (eptFollow s₁ vm (path ++ [i])) ≤ eptPagesTracked true s₁ vm := by
    rw [hbelow]
    omega
  obtain ⟨hrun, htook⟩ := eptNextTable_reserved h.descent.ok h.descent.ept hp h.descent.reached
    hleft hcall
  obtain ⟨y, hy, hstep⟩ := (eptNextTable_spec h.descent.ok h.descent.ept hp h.descent.reached).of_ok hcall
  refine ⟨hrun, y, hy, h.descent.snoc hstep (by omega), ?_⟩
  rw [hbelow] at htook
  rw [List.length_append, List.length_singleton, hsum]
  exact h.took.trans htook

/-- What a mapping does to the tables: it takes the missing ones from the pool,
and afterwards exactly the prefixes of the path lead somewhere in addition. -/
structure MappedFromPool (vm : Word) (s s' : Hv) (gpa hpa : Word) : Prop where
  run : vmxEptMapPageReserved vm gpa hpa s = .ok () s'
  mapped : Mapped vm s s' gpa hpa
  took : Took vm s s' (tablesMissing s vm gpa)
  prefixes : ∀ q, q.length < 4 →
    (eptFollow s' vm q ≠ .absent ↔ eptFollow s vm q ≠ .absent ∨ q <+: eptPath gpa)

/-- The prefixes that lead somewhere after a mapping. -/
theorem Descent.prefixes {s₁ : Hv} {p : List Slot} {i : Slot} {x : Frame} {gpa hpa : Word}
    (h : Descent vm s s₁ p x) (hp : p.length = 3) (hgpa : eptPath gpa = p ++ [i])
    (hmapped : Mapped vm s (storing s₁ x i (eptEntry hpa)) gpa hpa) (q : List Slot) (hq : q.length < 4) :
    eptFollow (storing s₁ x i (eptEntry hpa)) vm q ≠ .absent ↔
      eptFollow s vm q ≠ .absent ∨ q <+: eptPath gpa := by
  have hleaf := hmapped.follow (eptPath gpa) rfl
  rw [if_pos rfl] at hleaf
  by_cases hprefix : q <+: eptPath gpa
  · refine iff_of_true (fun habs => ?_) (Or.inr hprefix)
    obtain ⟨r, hr⟩ := hprefix
    have hall := eptFollow_append_absent habs r
    rw [hr, hleaf] at hall
    cases hall
  · have hother : ¬q <+: p := fun hpre => hprefix (hgpa ▸ hpre.trans (List.prefix_append p [i]))
    have hne : q ≠ p ++ [i] := fun he => hprefix (by rw [hgpa, he])
    obtain ⟨_, hfollow⟩ := machineOk_leaf (i := i) h.ok h.ept hp h.reached hpa
    rw [hfollow q (by omega), if_neg hne, h.same q (by omega) hother, or_iff_left hprefix]

theorem vmxEptMapPage_reserved {gpa hpa : Word} (h : MachineOk s vm)
    (hpool : tablesMissing s vm gpa ≤ eptPagesTracked true s vm)
    (hcall : vmxEptMapPage vm gpa hpa s = .ok () s') : MappedFromPool vm s s' gpa hpa := by
  have hmapped := (vmxEptMapPage_spec h gpa hpa).of_ok hcall
  rw [tablesMissing] at hpool
  have hsplit : ∀ k, k ≤ 4 → ∑ l ∈ Finset.range k,
      absentCount (eptFollow s vm ((eptPath gpa).take l)) ≤ eptPagesTracked true s vm := fun k hk =>
    (Finset.sum_le_sum_of_subset (Finset.range_subset_range.mpr hk)).trans hpool
  simp only [vmxEptMapPage, linearAddressGetPml4_eq, linearAddressGetDirectoryPtr_eq,
    linearAddressGetDirectory_eq, linearAddressGetTable_eq] at hcall
  rw [bind_eq_ok] at hcall
  obtain ⟨pml4, s₁, h₁, hcall⟩ := hcall
  obtain ⟨root, rfl, hroot⟩ := (eptPml4_spec h).of_ok h₁
  obtain ⟨hrun₁, htook₁⟩ := eptPml4_reserved h (by simpa using hsplit 1 (by decide)) h₁
  have hreserving₁ : Reserving vm s s₁ [] root := ⟨Descent.of_root hroot, by simpa using htook₁⟩
  rw [bind_eq_ok] at hcall
  obtain ⟨pdpt, s₂, h₂, hcall⟩ := hcall
  obtain ⟨hrun₂, f₂, rfl, hreserving₂⟩ := hreserving₁.next (by decide) (hsplit 2 (by decide)) h₂
  rw [bind_eq_ok] at hcall
  obtain ⟨pd, s₃, h₃, hcall⟩ := hcall
  obtain ⟨hrun₃, f₃, rfl, hreserving₃⟩ := hreserving₂.next (by simp) (hsplit 3 (by decide)) h₃
  rw [bind_eq_ok] at hcall
  obtain ⟨pt, s₄, h₄, hcall⟩ := hcall
  obtain ⟨hrun₄, f₄, rfl, hreserving₄⟩ := hreserving₃.next (by simp) (hsplit 4 (by decide)) h₄
  refine ⟨?_, hmapped, ?_, ?_⟩
  · simp only [vmxEptMapPageReserved, linearAddressGetPml4_eq, linearAddressGetDirectoryPtr_eq,
      linearAddressGetDirectory_eq, linearAddressGetTable_eq]
    change eptNextTableReserved vm 0 _ _ s₁ = _ at hrun₂
    change eptNextTableReserved vm eptPdePageSize _ _ s₂ = _ at hrun₃
    change eptNextTableReserved vm eptPdePageSize _ _ s₃ = _ at hrun₄
    rw [bind_of_ok hrun₁, bind_of_ok hrun₂, bind_of_ok hrun₃, bind_of_ok hrun₄]
    exact hcall
  all_goals
    rw [bind_of_ok (readElement_slot s₄ f₄ (gpa.extractLsb' 12 9))] at hcall
    split at hcall
    · exact absurd hcall throw_ne_ok
    have hs := modify_eq_ok.mp hcall
    rw [element_slot] at hs
    subst hs
  · rw [tablesMissing_eq]
    exact hreserving₄.took.of_tracked rfl (trackedOf_memory s₄ vm _)
  · exact Descent.prefixes hreserving₄.descent rfl rfl hmapped

/-! ## The formula -/

/-- Tables below which the first `i` pages lie: at each level as many as there
are blocks of the level's size. -/
def tablesFor (i : ℕ) : ℕ := ∑ l ∈ Finset.range 4, (i + (512 ^ (4 - l) - 1)) / 512 ^ (4 - l)

theorem tablesFor_zero : tablesFor 0 = 0 := by decide

/-- A block more is needed when the next page starts one. -/
theorem ceil_succ (i m : ℕ) (hm : 0 < m) :
    (i + 1 + (m - 1)) / m = (i + (m - 1)) / m + if m ∣ i then 1 else 0 := by
  have hnext : (i + 1 + (m - 1)) / m = i / m + 1 := by
    rw [show i + 1 + (m - 1) = i + m by omega, Nat.add_div_right i hm]
  rw [hnext]
  split
  · rename_i hdvd
    obtain ⟨q, rfl⟩ := hdvd
    rw [Nat.mul_div_cancel_left q hm, Nat.mul_add_div hm, Nat.div_eq_of_lt (by omega)]
  · rename_i hdvd
    have hr : 0 < i % m := Nat.pos_of_ne_zero fun hz => hdvd (Nat.dvd_of_mod_eq_zero hz)
    have hlt : i % m < m := Nat.mod_lt i hm
    have hsplit := Nat.div_add_mod i m
    have hblock : (i / m + 1) * m = m * (i / m) + m := by ring
    have hblock' : (i / m + 1 + 1) * m = m * (i / m) + m + m := by ring
    exact (Nat.div_eq_of_lt_le (by omega) (by omega)).symm

theorem tablesFor_succ (i : ℕ) :
    tablesFor (i + 1) = tablesFor i + ∑ l ∈ Finset.range 4, if 512 ^ (4 - l) ∣ i then 1 else 0 := by
  rw [tablesFor, tablesFor, ← Finset.sum_add_distrib]
  exact Finset.sum_congr rfl fun l _ => ceil_succ i _ (by positivity)

theorem tablesFor_mono {i j : ℕ} (h : i ≤ j) : tablesFor i ≤ tablesFor j :=
  Finset.sum_le_sum fun _ _ => Nat.div_le_div_right (by omega)

theorem toNat_ceilDiv (a : Word) : (ceilDiv a (BitVec.ofNat 64 pageTableEntries)).toNat =
    (a.toNat + 511) / 512 := by
  have hentries : (BitVec.ofNat 64 pageTableEntries).toNat = 512 := rfl
  have ha := a.isLt
  have hzero : a % BitVec.ofNat 64 pageTableEntries = 0 ↔ a.toNat % 512 = 0 := by
    rw [← BitVec.toNat_inj, BitVec.toNat_umod, hentries]
    rfl
  have hdiv : (a / BitVec.ofNat 64 pageTableEntries).toNat = a.toNat / 512 := by
    rw [BitVec.toNat_udiv, hentries]
  rw [ceilDiv, BitVec.toNat_add, hdiv]
  by_cases hmod : a.toNat % 512 = 0
  · rw [if_pos (hzero.mpr hmod)]
    have h0 : (0 : Word).toNat = 0 := rfl
    omega
  · rw [if_neg (fun hz => hmod (hzero.mp hz))]
    have h1 : (1 : Word).toNat = 1 := rfl
    omega

/-- The formula of the source counts the tables below the guest memory. -/
theorem toNat_eptPages {n : Word} (hn : n.toNat ≤ 512 ^ 4) : (eptPages n).toNat = tablesFor n.toNat := by
  have hall : ∀ k : ℕ, k ≤ 512 ^ 4 → tablesFor k = (k + 511) / 512 + ((k + 511) / 512 + 511) / 512 +
      (((k + 511) / 512 + 511) / 512 + 511) / 512 +
      ((((k + 511) / 512 + 511) / 512 + 511) / 512 + 511) / 512 := fun k hk => by
    simp only [tablesFor, Finset.sum_range_succ, Finset.sum_range_zero]
    omega
  rw [hall _ hn]
  simp only [eptPages, BitVec.toNat_add, toNat_ceilDiv]
  omega

/-! ## Prefixes of guest pages -/

/-- A slot of the path of a guest page. -/
theorem slot_guestPage {i : ℕ} (hi : i < 2 ^ 36) (k : ℕ) :
    ((guestPage i).extractLsb' (k + 12) 9).toNat = i / 2 ^ k % 512 := by
  rw [BitVec.extractLsb'_toNat, toNat_guestPage hi, Nat.shiftRight_eq_div_pow, Nat.pow_add,
    Nat.mul_comm (2 ^ k), ← Nat.div_div_eq_div_mul, Nat.mul_div_cancel _ (by decide)]

/-- The path of a page starts with the first slots of another one when both lie
in one block of that level. -/
theorem take_prefix_iff {i j : ℕ} (hi : i < 2 ^ 36) (hj : j < 2 ^ 36) {l : ℕ} (hl : l < 4) :
    (eptPath (guestPage i)).take l <+: eptPath (guestPage j) ↔
      i / 512 ^ (4 - l) = j / 512 ^ (4 - l) := by
  have hslot : ∀ k, (guestPage i).extractLsb' (k + 12) 9 = (guestPage j).extractLsb' (k + 12) 9 ↔
      i / 2 ^ k % 512 = j / 2 ^ k % 512 := fun k => by
    rw [← BitVec.toNat_inj, slot_guestPage hi, slot_guestPage hj]
  have h39 := hslot 27
  have h30 := hslot 18
  have h21 := hslot 9
  simp only [Nat.reduceAdd] at h39 h30 h21
  interval_cases l
  · simp only [List.take_zero, List.nil_prefix, true_iff]
    omega
  · simp only [eptPath, List.take_succ_cons, List.take_zero, List.cons_prefix_cons,
      List.nil_prefix, and_true, h39]
    omega
  · simp only [eptPath, List.take_succ_cons, List.take_zero, List.cons_prefix_cons,
      List.nil_prefix, and_true, h39, h30]
    omega
  · simp only [eptPath, List.take_succ_cons, List.take_zero, List.cons_prefix_cons,
      List.nil_prefix, and_true, h39, h30, h21]
    omega

/-- An earlier page lies in the block of a page unless that page starts it. -/
theorem exists_earlier_iff {i m : ℕ} (hm : 0 < m) : (∃ j < i, i / m = j / m) ↔ ¬m ∣ i := by
  constructor
  · rintro ⟨j, hj, he⟩ ⟨q, rfl⟩
    rw [Nat.mul_div_cancel_left q hm] at he
    have hlt : j / m < q := (Nat.div_lt_iff_lt_mul hm).mpr (by rwa [Nat.mul_comm] at hj)
    omega
  · intro hdvd
    have hr : 0 < i % m := Nat.pos_of_ne_zero fun hz => hdvd (Nat.dvd_of_mod_eq_zero hz)
    have hsplit := Nat.div_add_mod i m
    exact ⟨m * (i / m), by omega, by rw [Nat.mul_div_cancel_left _ hm]⟩

/-! ## The loops -/

/-- Between the mappings: the prefixes that lead somewhere are those of the
pages mapped so far, and the pool holds what the other pages will need. -/
structure PoolFits (vm : Word) (n i : ℕ) (t : Hv) : Prop where
  ok : MachineOk t vm
  prefixes : ∀ q, q.length < 4 →
    (eptFollow t vm q ≠ .absent ↔ ∃ j < i, q <+: eptPath (guestPage j))
  reserved : eptPagesTracked true t vm + tablesFor i = tablesFor n
  used : eptPagesTracked false t vm = tablesFor i

/-- The next page lacks a table at each level of which it starts a block. -/
theorem PoolFits.missing {n i : ℕ} (h : PoolFits vm n i s) (hi : i < 2 ^ 36) :
    tablesFor i + tablesMissing s vm (guestPage i) = tablesFor (i + 1) := by
  rw [tablesFor_succ, tablesMissing]
  congr 1
  refine Finset.sum_congr rfl fun l hl => ?_
  rw [Finset.mem_range] at hl
  have hlen : ((eptPath (guestPage i)).take l).length < 4 :=
    Nat.lt_of_le_of_lt (List.length_take_le l _) hl
  have hearlier : (∃ j < i, (eptPath (guestPage i)).take l <+: eptPath (guestPage j)) ↔
      ¬512 ^ (4 - l) ∣ i := by
    rw [← exists_earlier_iff (by positivity)]
    exact exists_congr fun j => and_congr_right fun hj => take_prefix_iff hi (hj.trans hi) hl
  have hlevel := (h.prefixes _ hlen).trans hearlier
  by_cases hdvd : 512 ^ (4 - l) ∣ i
  · have habs : eptFollow s vm ((eptPath (guestPage i)).take l) = .absent :=
      not_not.mp fun hne => hlevel.mp hne hdvd
    rw [if_pos hdvd, habs]
    rfl
  · have hne := hlevel.mpr hdvd
    rw [if_neg hdvd]
    cases he : eptFollow s vm ((eptPath (guestPage i)).take l) with
    | absent => exact absurd he hne
    | table _ => rfl
    | leaf _ _ => rfl

/-- The allocator tracks nothing. -/
theorem mmGetFreePage_tracked {page : Word} (h : MachineOk s vm)
    (hcall : FreePages.mmGetFreePage s = .ok page s') : trackedOf s' vm = trackedOf s vm := by
  obtain ⟨pos, _, rfl, _⟩ := (mmGetFreePage_spec h).of_ok hcall
  rfl

/-- Taking a zero page and tracking it. -/
theorem zeroPage_counts {page result : Word} {pageType : VmPageType} {pool : Bool} {f : Frame}
    {s₁ s₂ : Hv} (h : MachineOk s vm) (hloose : LooseTable vm s s₁ f) {g : Word → Word}
    (hfree : (do
        let page ← FreePages.mmGetFreePage
        memset (p2vIdentityMap page) 0 4096
        return g page : HvM Word) s = .ok result s₁) (hpage : page = frameAddress f)
    (htrack : vmManagerTrackPage vm page pageType pool s₁ = .ok () s₂) (b : Bool) :
    eptPagesTracked b s₂ vm = eptPagesTracked b s vm +
      if (pageType, pool) = (.ept, b) then 1 else 0 := by
  rw [bind_eq_ok] at hfree
  obtain ⟨p, t, hget, hfree⟩ := hfree
  rw [bind_eq_ok] at hfree
  obtain ⟨_, t', hset, hfree⟩ := hfree
  obtain ⟨_, rfl⟩ := pure_eq_ok.mp hfree
  have hs := modify_eq_ok.mp hset
  have htracked : trackedOf t' vm = trackedOf s vm := by
    rw [← hs, trackedOf_memory]
    exact mmGetFreePage_tracked h hget
  obtain ⟨taken, hgrown⟩ := hloose.grown
  have hnew := loose_new hgrown h.distinct
  subst hpage
  have hcounts := (track_counts (pageOk_frameAddress f) hloose.ok.entries
    (fun t ht he => hnew (he ▸ List.mem_map_of_mem ht)) htrack b).2
  rw [hcounts, eptPagesTracked, htracked, eptPagesTracked]

/-- A round of the mapping loop. -/
theorem PoolFits.add {n i : ℕ} (h : PoolFits vm n i s) (hi : i < n) (hn : n ≤ 2 ^ 36)
    (hcall : addGuestPage vm (guestPage i) s = .ok () s') :
    addGuestPageReserved vm (guestPage i) s = .ok () s' ∧ PoolFits vm n (i + 1) s' := by
  rw [addGuestPage, bind_eq_ok] at hcall
  obtain ⟨page, s₁, hfree, hcall⟩ := hcall
  rw [bind_eq_ok] at hcall
  obtain ⟨_, s₂, htrack, hmap⟩ := hcall
  obtain ⟨f, rfl, hloose, _⟩ := (zeroPage_spec h.ok id).of_ok hfree
  have htracked := (hloose.track h.ok .guestPhysical false).of_ok htrack
  have hcounts := zeroPage_counts h.ok hloose hfree rfl htrack
  have hreserved₂ := hcounts true
  have hused₂ := hcounts false
  rw [if_neg (by decide), Nat.add_zero] at hreserved₂ hused₂
  -- the page itself changes no path
  have hmissing₂ : tablesMissing s₂ vm (guestPage i) = tablesMissing s vm (guestPage i) :=
    Finset.sum_congr rfl fun l _ => by
      have hlen : ((eptPath (guestPage i)).take l).length ≤ 4 := List.length_take_le' l _
      rw [htracked.follow _ hlen]
  have hmissing := h.missing (hi.trans_le hn)
  have hmono : tablesFor (i + 1) ≤ tablesFor n := tablesFor_mono hi
  have hreserved := h.reserved
  have hpool : tablesMissing s₂ vm (guestPage i) ≤ eptPagesTracked true s₂ vm := by omega
  have hmapped := vmxEptMapPage_reserved htracked.ok hpool hmap
  have htook := hmapped.took
  have htookReserved := htook.reserved
  have htookUsed := htook.used
  refine ⟨bind_eq_ok.mpr ⟨_, _, hfree, bind_eq_ok.mpr ⟨_, _, htrack, hmapped.run⟩⟩,
    hmapped.mapped.ok, fun q hq => ?_, by omega, ?_⟩
  · rw [hmapped.prefixes q hq, htracked.follow q hq.le, h.prefixes q hq]
    constructor
    · rintro (⟨j, hj, hpre⟩ | hpre)
      · exact ⟨j, by omega, hpre⟩
      · exact ⟨i, by omega, hpre⟩
    · rintro ⟨j, hj, hpre⟩
      by_cases hji : j = i
      · exact Or.inr (hji ▸ hpre)
      · exact Or.inl ⟨j, by omega, hpre⟩
  · rw [htookUsed, hused₂, h.used, hmissing₂, hmissing]

/-- A round of the reservation loop. -/
theorem reserveEptPage_counts (h : MachineOk s vm) (hcall : reserveEptPage vm s = .ok () s') :
    eptPagesTracked true s' vm = eptPagesTracked true s vm + 1 ∧
      eptPagesTracked false s' vm = eptPagesTracked false s vm := by
  rw [reserveEptPage, bind_eq_ok] at hcall
  obtain ⟨page, s₁, hfree, htrack⟩ := hcall
  obtain ⟨f, rfl, hloose⟩ := (vmxGetFreeEptPage_spec h).of_ok hfree
  rw [v2p_p2v] at htrack
  have hcounts := zeroPage_counts h hloose hfree rfl htrack
  refine ⟨?_, ?_⟩
  · rw [hcounts true, if_pos rfl]
  · rw [hcounts false, if_neg (by decide), Nat.add_zero]

/-- Between the reservations nothing is mapped. -/
structure PoolGrows (vm : Word) (i : ℕ) (t : Hv) : Prop where
  ok : MachineOk t vm
  absent : ∀ q, q.length ≤ 4 → eptFollow t vm q = .absent
  reserved : eptPagesTracked true t vm = i
  used : eptPagesTracked false t vm = 0

theorem PoolGrows.reserve {i : ℕ} (h : PoolGrows vm i s) (hcall : reserveEptPage vm s = .ok () s') :
    PoolGrows vm (i + 1) s' := by
  obtain ⟨hok, _, hfollow⟩ := (reserveEptPage_spec h.ok).of_ok hcall
  obtain ⟨hreserved, hused⟩ := reserveEptPage_counts h.ok hcall
  exact ⟨hok, fun q hq => (hfollow q hq).trans (h.absent q hq), by rw [hreserved, h.reserved],
    by rw [hused, h.used]⟩

/-! ## The allocation -/

variable {hw : Hardware} {n : Word}

/-- Setting the size of a fresh machine. -/
theorem poolGrows_sized (h : ReachedFresh hw s vm) : PoolGrows vm 0 (sized s vm n) := by
  have hok := h.hostOk.machines vm h.fresh.1
  obtain ⟨hvm, name, hrecord⟩ := h.fresh
  have hnone : ¬hasEpt (s.vmAt vm) := by
    rw [hrecord, hasEpt, newVm_flags]
    decide
  have htracked : trackedOf (sized s vm n) vm = [] := by
    rw [trackedOf_sized, trackedOf, hrecord]
    rfl
  refine ⟨machineOk_sized hok n, fun q _ => ?_, ?_, ?_⟩
  · rw [eptFollow_sized]
    exact if_neg hnone
  all_goals
    rw [eptPagesTracked, htracked]
    rfl

/-- The reservation of a fresh machine fills the pool with exactly the tables
that its mappings need: with the allocator out of reach and every installed
table asserted to be zero they run the same, and leave the pool empty. -/
theorem allocate_reservation_exact (h : ReachedFresh hw s vm) (hn : n.toNat ≤ 512 ^ 4)
    (hcall : vmManagerAllocateGuestPhysicalMemory vm n s = .ok () s') :
    ∃ s₁, forRange (eptPages n).toNat (fun _ => reserveEptPage vm) (sized s vm n) = .ok () s₁ ∧
      eptPagesTracked true s₁ vm = (eptPages n).toNat ∧ eptPagesTracked false s₁ vm = 0 ∧
      forRange n.toNat (fun i => addGuestPageReserved vm (guestPage i)) s₁ = .ok () s' ∧
      eptPagesTracked true s' vm = 0 ∧ eptPagesTracked false s' vm = (eptPages n).toNat := by
  have hget : (get : HvM Hv) s = .ok s s := rfl
  rw [vmManagerAllocateGuestPhysicalMemory, bind_of_ok hget] at hcall
  split at hcall
  · exact absurd hcall throw_ne_ok
  rw [bind_eq_ok] at hcall
  obtain ⟨_, s₀, hsize, hcall⟩ := hcall
  obtain rfl := modify_eq_ok.mp hsize
  rw [bind_eq_ok] at hcall
  obtain ⟨_, s₁, hreserve, hmap⟩ := hcall
  obtain ⟨_, hpool⟩ := forRange_of_ok (PoolGrows vm) (poolGrows_sized (n := n) h)
    (fun _ _ _ _ ht hround => ⟨hround, ht.reserve hround⟩) hreserve
  have hstart : PoolFits vm n.toNat 0 s₁ := by
    refine ⟨hpool.ok, fun q hq => ?_, ?_, hpool.used⟩
    · rw [hpool.absent q hq.le]
      refine iff_of_false (fun hne => hne rfl) ?_
      rintro ⟨_, hj, _⟩
      exact absurd hj (Nat.not_lt_zero _)
    · rw [hpool.reserved, tablesFor_zero, toNat_eptPages hn, Nat.add_zero]
  obtain ⟨hrun, hend⟩ := forRange_of_ok (PoolFits vm n.toNat) hstart
    (fun _ _ _ hi ht hround => ht.add hi hn hround) hmap
  have hreserved := hend.reserved
  exact ⟨s₁, hreserve, hpool.reserved, hpool.used, hrun, by omega, by
    rw [hend.used, toNat_eptPages hn]⟩

/-- Two pages need one table of each level. -/
theorem allocate_reservation_two : ∃ s : Hv, eptPagesTracked true s firstOfSixteen = 0 ∧
    eptPagesTracked false s firstOfSixteen = 4 := by
  obtain ⟨s', s, hreached, hcall⟩ := exists_allocated_two
  obtain ⟨_, _, _, _, _, hreserved, hused⟩ := allocate_reservation_exact hreached (by decide) hcall
  exact ⟨s', hreserved, hused.trans (by decide)⟩

end Rkhv.EptReservation
