import Rkhv.PageRuns
import Rkhv.FreePages

/-!
# Boot page tables and the regions handed to the hypervisor

Every page table of the bootloader comes from `paging_allocate_page`, which
records the allocated range in the chainload page: next to an adjacent region
it grows that region, otherwise it takes a new entry. The recorded regions
list exactly the allocated pages, so the hypervisor never takes one of its own
page tables for free memory.
-/

namespace Rkhv.BootPagePool

open ByteMemory HostTypes StateOutcome PageRuns FreePages

/-- Failures that the firmware documents for `AllocatePages`. -/
inductive AllocatePagesError where
  | outOfResources
  | invalidParameter
  | notFound
  deriving DecidableEq

/-- `EFI_STATUS` values other than `EFI_SUCCESS` that the bootloader's paging
functions return. -/
inductive EfiStatus where
  | bufferTooSmall
  | outOfResources
  | unsupported
  /-- A failure of the firmware, passed on by `RETURN_EFI`. -/
  | allocatePages (e : AllocatePagesError)
  deriving DecidableEq

/-- The firmware, as far as page allocation goes: its answer to the `k`-th
call of `AllocatePages`, for a number of pages. -/
structure BootServices where
  allocatePages : ℕ → Word → Except AllocatePagesError Word

/-- `paging_page_table_pool_t`: the first `size` entries of the pool, oldest
first, and the capacity that they never exceed. -/
structure PagingPageTablePool where
  capacity : ℕ
  pool : List ChainloadRegion
  fits : pool.length ≤ capacity

/-- State of the bootloader while it builds page tables. Memory is identity
mapped. -/
structure Loader where
  memory : Memory
  pageTablePool : PagingPageTablePool
  /-- Calls of `AllocatePages` so far. -/
  allocateCalls : ℕ

/-- A bootloader function that returns a status. -/
abbrev LoaderM := EStateM EfiStatus Loader

/-- `EFI_ST->BootServices->AllocatePages` under `RETURN_EFI`. -/
def allocatePages (firmware : BootServices) (pagesCount : Word) : LoaderM Word := do
  let l ← get
  set { l with allocateCalls := l.allocateCalls + 1 }
  match firmware.allocatePages l.allocateCalls pagesCount with
  | .error e => throw (.allocatePages e)
  | .ok pagesPhysicalAddress => return pagesPhysicalAddress

/-- The region collapser: the first region that ends where the new range
starts, or starts where it ends, grows by the range. -/
def collapseRegion (address pagesCount : Word) : List ChainloadRegion → Option (List ChainloadRegion)
  | [] => none
  | iter :: rest =>
    if address + pageSize * pagesCount = iter.physicalAddress then
      some (⟨address, iter.pages + pagesCount⟩ :: rest)
    else if address = iter.physicalAddress + pageSize * iter.pages then
      some (⟨iter.physicalAddress, iter.pages + pagesCount⟩ :: rest)
    else (collapseRegion address pagesCount rest).map (iter :: ·)

theorem length_collapseRegion {address pagesCount : Word} {regions regions' : List ChainloadRegion}
    (h : collapseRegion address pagesCount regions = some regions') :
    regions'.length = regions.length := by
  induction regions generalizing regions' with
  | nil => cases h
  | cons iter rest ih =>
    rw [collapseRegion] at h
    split at h
    · cases h
      rfl
    · split at h
      · cases h
        rfl
      · rw [Option.map_eq_some_iff] at h
        obtain ⟨rest', hr, rfl⟩ := h
        rw [List.length_cons, List.length_cons, ih hr]

/-- The pool after the range was recorded; `none` when there is no entry for it. -/
def PagingPageTablePool.record (p : PagingPageTablePool) (address pagesCount : Word) :
    Option PagingPageTablePool :=
  match h : collapseRegion address pagesCount p.pool with
  | some regions => some ⟨p.capacity, regions, length_collapseRegion h ▸ p.fits⟩
  | none =>
    if hfull : p.capacity ≤ p.pool.length then none
    else some ⟨p.capacity, p.pool ++ [⟨address, pagesCount⟩], by
      rw [List.length_append, List.length_singleton]
      omega⟩

/-- `paging_allocate_page`; the result is the address stored in `pages_out`. -/
def pagingAllocatePage (firmware : BootServices) (pagesCount : Word) : LoaderM Word := do
  let pagesPhysicalAddress ← allocatePages firmware pagesCount
  let l ← get
  match l.pageTablePool.record pagesPhysicalAddress pagesCount with
  | none => throw .bufferTooSmall
  | some pool =>
    set { l with
      pageTablePool := pool
      memory := fill l.memory pagesPhysicalAddress 0 (pageSize * pagesCount).toNat }
    return pagesPhysicalAddress

/-! ## Recorded pages -/

/-- Pages of one region. -/
def regionPages (r : ChainloadRegion) : List Word := runPages r.physicalAddress r.pages.toNat

/-- Pages of all regions. -/
def regionsPages (regions : List ChainloadRegion) : List Word := regions.flatMap regionPages

/-- A page-aligned range whose end address does not wrap at 64 bits. -/
def RangeFits (r : ChainloadRegion) : Prop :=
  r.physicalAddress.toNat % 4096 = 0 ∧ r.physicalAddress.toNat + r.pages.toNat * 4096 < 2 ^ 64

theorem RangeFits.runFits {r : ChainloadRegion} (h : RangeFits r) :
    RunFits r.physicalAddress r.pages.toNat := ⟨h.1, h.2.le⟩

/-- The end address of a range that fits. -/
theorem RangeFits.toNat_end {r : ChainloadRegion} (h : RangeFits r) :
    (r.physicalAddress + pageSize * r.pages).toNat =
      r.physicalAddress.toNat + r.pages.toNat * 4096 := by
  have hfit := h.2
  have hsize : pageSize.toNat = 4096 := rfl
  rw [BitVec.toNat_add, BitVec.toNat_mul, hsize]
  omega

/-- Pages of a range and of the range that starts at its end, as one range. -/
theorem regionPages_append {r q : ChainloadRegion} (hr : RangeFits r) (hq : RangeFits q)
    (h : r.physicalAddress + pageSize * r.pages = q.physicalAddress) :
    RangeFits ⟨r.physicalAddress, r.pages + q.pages⟩ ∧
      regionPages ⟨r.physicalAddress, r.pages + q.pages⟩ = regionPages r ++ regionPages q := by
  have hend := hr.toNat_end
  rw [h] at hend
  have hqfit := hq.2
  have hsum : (r.pages + q.pages).toNat = r.pages.toNat + q.pages.toNat := by
    rw [BitVec.toNat_add]
    omega
  refine ⟨⟨hr.1, ?_⟩, ?_⟩
  · simp only [hsum]
    omega
  · rw [regionPages, hsum]
    exact runPages_append hend.symm

/-- Collapsing a range into the regions adds exactly its pages. -/
theorem collapseRegion_pages {address pagesCount : Word} {regions regions' : List ChainloadRegion}
    (h : collapseRegion address pagesCount regions = some regions')
    (hnew : RangeFits ⟨address, pagesCount⟩) (hold : ∀ r ∈ regions, RangeFits r) :
    (∀ r ∈ regions', RangeFits r) ∧
      (regionsPages regions').Perm (regionPages ⟨address, pagesCount⟩ ++ regionsPages regions) := by
  induction regions generalizing regions' with
  | nil => cases h
  | cons iter rest ih =>
    have hiter := hold iter List.mem_cons_self
    have hrest : ∀ r ∈ rest, RangeFits r := fun r hr => hold r (List.mem_cons_of_mem iter hr)
    rw [collapseRegion] at h
    split at h
    · rename_i hbefore
      cases h
      obtain ⟨hfit, hpages⟩ := regionPages_append hnew hiter hbefore
      rw [BitVec.add_comm pagesCount] at hfit hpages
      refine ⟨List.forall_mem_cons.mpr ⟨hfit, hrest⟩, List.Perm.of_eq ?_⟩
      simp only [regionsPages, List.flatMap_cons, hpages, List.append_assoc]
    · split at h
      · rename_i hafter
        cases h
        obtain ⟨hfit, hpages⟩ := regionPages_append hiter hnew hafter.symm
        refine ⟨List.forall_mem_cons.mpr ⟨hfit, hrest⟩, ?_⟩
        simp only [regionsPages, List.flatMap_cons, hpages, List.append_assoc]
        rw [← List.append_assoc, ← List.append_assoc]
        exact List.perm_append_comm.append_right _
      · rw [Option.map_eq_some_iff] at h
        obtain ⟨rest', hr, rfl⟩ := h
        obtain ⟨hfit, hperm⟩ := ih hr hrest
        refine ⟨List.forall_mem_cons.mpr ⟨hiter, hfit⟩, ?_⟩
        simp only [regionsPages, List.flatMap_cons] at hperm ⊢
        refine (hperm.append_left _).trans ?_
        rw [← List.append_assoc, ← List.append_assoc]
        exact List.perm_append_comm.append_right _

/-- A range touches a region when one ends where the other starts. -/
def Touches (address pagesCount : Word) (r : ChainloadRegion) : Prop :=
  address + pageSize * pagesCount = r.physicalAddress ∨
    address = r.physicalAddress + pageSize * r.pages

/-- The collapser gives up exactly when the range touches no region. -/
theorem collapseRegion_eq_none {address pagesCount : Word} {regions : List ChainloadRegion} :
    collapseRegion address pagesCount regions = none ↔
      ∀ r ∈ regions, ¬Touches address pagesCount r := by
  induction regions with
  | nil => simp [collapseRegion]
  | cons iter rest ih =>
    rw [collapseRegion, List.forall_mem_cons, Touches, not_or]
    split
    · rename_i hb
      simp [hb]
    · split
      · rename_i hb ha
        simp [← ha]
      · rename_i hb ha
        simp only [Option.map_eq_none_iff, ih, hb, ha, not_false_eq_true, true_and]

/-- The record operation adds the pages of its range. -/
theorem PagingPageTablePool.record_pages {p p' : PagingPageTablePool} {address pagesCount : Word}
    (h : p.record address pagesCount = some p') (hnew : RangeFits ⟨address, pagesCount⟩)
    (hold : ∀ r ∈ p.pool, RangeFits r) :
    p'.capacity = p.capacity ∧ (∀ r ∈ p'.pool, RangeFits r) ∧
      (regionsPages p'.pool).Perm (regionPages ⟨address, pagesCount⟩ ++ regionsPages p.pool) := by
  rw [record] at h
  split at h
  · rename_i regions hc
    cases h
    exact ⟨rfl, collapseRegion_pages hc hnew hold⟩
  · split at h
    · cases h
    · cases h
      refine ⟨rfl, ?_, ?_⟩
      · rintro r hr
        rw [List.mem_append, List.mem_singleton] at hr
        rcases hr with hr | rfl
        · exact hold r hr
        · exact hnew
      · simp only [regionsPages, List.flatMap_append, List.flatMap_cons, List.flatMap_nil,
          List.append_nil]
        exact List.perm_append_comm

/-- The record operation fails exactly on a full pool whose regions the range
does not touch. -/
theorem PagingPageTablePool.record_eq_none {p : PagingPageTablePool} {address pagesCount : Word} :
    p.record address pagesCount = none ↔
      p.capacity ≤ p.pool.length ∧ ∀ r ∈ p.pool, ¬Touches address pagesCount r := by
  rw [record, ← collapseRegion_eq_none]
  split
  · rename_i hc
    simp [hc]
  · rename_i hc
    split
    · rename_i hfull
      simp [hc, hfull]
    · rename_i hfull
      simp [hfull]

/-! ## Runs -/

/-- One call, by the firmware's answer and the room in the pool. -/
theorem ensures_pagingAllocatePage {firmware : BootServices} {pagesCount : Word} {l : Loader}
    {Q : Word → Loader → Prop} {E : EfiStatus → Loader → Prop} :
    Ensures (pagingAllocatePage firmware pagesCount) l Q E ↔
      match firmware.allocatePages l.allocateCalls pagesCount with
      | .error e => E (.allocatePages e) { l with allocateCalls := l.allocateCalls + 1 }
      | .ok address =>
        match l.pageTablePool.record address pagesCount with
        | none => E .bufferTooSmall { l with allocateCalls := l.allocateCalls + 1 }
        | some pool => Q address { l with
            allocateCalls := l.allocateCalls + 1
            pageTablePool := pool
            memory := fill l.memory address 0 (pageSize * pagesCount).toNat } := by
  rw [pagingAllocatePage, allocatePages, ensures_bind, ensures_bind, ensures_get, ensures_bind]
  change Ensures (match firmware.allocatePages l.allocateCalls pagesCount with
    | .error e => throw (.allocatePages e)
    | .ok address => pure address : LoaderM Word) { l with allocateCalls := l.allocateCalls + 1 } _ E ↔ _
  cases firmware.allocatePages l.allocateCalls pagesCount with
  | error e => exact Iff.rfl
  | ok address =>
    simp only [ensures_pure, ensures_bind, ensures_get]
    cases l.pageTablePool.record address pagesCount <;> exact Iff.rfl

/-- Loader states after calls that all returned, with the ranges these calls
obtained, newest first. Between the calls the tables in memory are written. -/
inductive AllocatedBy (firmware : BootServices) : Loader → List ChainloadRegion → Prop where
  | start {l : Loader} (hempty : l.pageTablePool.pool = []) : AllocatedBy firmware l []
  | write {l : Loader} {ranges : List ChainloadRegion} (h : AllocatedBy firmware l ranges)
      (memory : Memory) : AllocatedBy firmware { l with memory := memory } ranges
  | call {l l' : Loader} {ranges : List ChainloadRegion} {address pagesCount : Word}
      (h : AllocatedBy firmware l ranges)
      (hcall : pagingAllocatePage firmware pagesCount l = .ok address l') :
      AllocatedBy firmware l' (⟨address, pagesCount⟩ :: ranges)

/-- What the firmware promises of the ranges it hands out: they are page
aligned, their end addresses do not wrap and they are disjoint. -/
structure FirmwareRanges (ranges : List ChainloadRegion) : Prop where
  fit : ∀ r ∈ ranges, RangeFits r
  disjoint : ranges.Pairwise fun r q => (regionPages r).Disjoint (regionPages q)

/-- In every run the recorded regions list the pages of the ranges. -/
theorem AllocatedBy.pages {firmware : BootServices} {l : Loader} {ranges : List ChainloadRegion}
    (h : AllocatedBy firmware l ranges) (hfit : ∀ r ∈ ranges, RangeFits r) :
    (∀ r ∈ l.pageTablePool.pool, RangeFits r) ∧
      (regionsPages l.pageTablePool.pool).Perm (regionsPages ranges) := by
  induction h with
  | start hempty =>
    rw [hempty]
    exact ⟨fun r hr => absurd hr List.not_mem_nil, List.Perm.refl _⟩
  | write h memory ih => exact ih hfit
  | @call l l' ranges address pagesCount h hcall ih =>
    rw [List.forall_mem_cons] at hfit
    obtain ⟨hold, hperm⟩ := ih hfit.2
    have hspec : Ensures (pagingAllocatePage firmware pagesCount) l
        (fun a l' => l.pageTablePool.record a pagesCount = some l'.pageTablePool)
        (fun _ _ => True) := by
      rw [ensures_pagingAllocatePage]
      split
      · trivial
      · split
        · trivial
        · assumption
    obtain ⟨_, hnew, hrecord⟩ := PagingPageTablePool.record_pages (hspec.of_ok hcall) hfit.1 hold
    refine ⟨hnew, hrecord.trans ?_⟩
    simp only [regionsPages, List.flatMap_cons]
    exact hperm.append_left _

/-- `page_table_regions` of the zeroed chainload page that the pool lies in. -/
def PagingPageTablePool.pageTableRegions (p : PagingPageTablePool) :
    Vector ChainloadRegion rkhvMaxPageTableRegions := Vector.ofFn fun i => p.pool.getD i ⟨0, 0⟩

/-- Recorded regions are entries of the chainload page. -/
theorem PagingPageTablePool.mem_pageTableRegions {p : PagingPageTablePool} {r : ChainloadRegion}
    (hcapacity : p.capacity = rkhvMaxPageTableRegions) (hr : r ∈ p.pool) :
    r ∈ p.pageTableRegions.toList := by
  obtain ⟨i, hi, rfl⟩ := List.getElem_of_mem hr
  have hfits := p.fits
  rw [Vector.mem_toList_iff, pageTableRegions, Vector.mem_ofFn]
  exact ⟨⟨i, by omega⟩, by simp only [List.getD_eq_getElem?_getD, List.getElem?_eq_getElem hi, Option.getD_some]⟩

/-- The hypervisor's range test accepts the pages of a region that fits. -/
theorem regionUses_of_mem {r : ChainloadRegion} {page : Word} (hr : RangeFits r)
    (hp : page ∈ regionPages r) : regionUses page r.physicalAddress r.pages = true := by
  have hne : r.pages ≠ 0 := fun h => by
    rw [regionPages, h] at hp
    cases hp
  have halign := ((mem_runPages hr.runFits).mp hp).1
  have hbetween := (between_iff_mem hne hr.runFits halign).mpr hp
  have hpos : 0 < r.pages := by
    rw [BitVec.lt_def]
    exact Nat.pos_of_ne_zero fun h => hne (BitVec.eq_of_toNat_eq h)
  simp only [regionUses, hpos, decide_true, Bool.true_and, Bool.and_eq_true, decide_eq_true_eq]
  exact hbetween

/-- The hand-over of the page tables: the recorded regions are disjoint, stay
within the capacity and cover exactly the allocated pages; all of these count
as used by the chainload page; and the next call fails for lack of room exactly
on a full pool none of whose regions it touches, leaving the regions alone. -/
structure HandOver (firmware : BootServices) (l : Loader) (ranges : List ChainloadRegion) : Prop where
  disjoint : l.pageTablePool.pool.Pairwise fun r q => (regionPages r).Disjoint (regionPages q)
  withinCapacity : l.pageTablePool.pool.length ≤ l.pageTablePool.capacity
  exact : ∀ page, (∃ r ∈ l.pageTablePool.pool, page ∈ regionPages r) ↔
    ∃ r ∈ ranges, page ∈ regionPages r
  used : l.pageTablePool.capacity = rkhvMaxPageTableRegions →
    ∀ c : ChainloadPage, c.pageTableRegions = l.pageTablePool.pageTableRegions →
      ∀ r ∈ ranges, ∀ page ∈ regionPages r, mmPageUsedByChainload c page = true
  full : ∀ pagesCount, (∃ l', pagingAllocatePage firmware pagesCount l = .error .bufferTooSmall l') ↔
    ∃ address, firmware.allocatePages l.allocateCalls pagesCount = .ok address ∧
      l.pageTablePool.pool.length = l.pageTablePool.capacity ∧
      ∀ r ∈ l.pageTablePool.pool, ¬Touches address pagesCount r
  unchanged : ∀ pagesCount e l', pagingAllocatePage firmware pagesCount l = .error e l' →
    l'.pageTablePool = l.pageTablePool

/-- The page-table hand-over is exact after every run of allocations, whatever
their page counts, as long as the firmware keeps its promise. -/
theorem pagingAllocatePage_handOver {firmware : BootServices} {l : Loader}
    {ranges : List ChainloadRegion} (hrun : AllocatedBy firmware l ranges)
    (hranges : FirmwareRanges ranges) : HandOver firmware l ranges := by
  obtain ⟨hfit, hperm⟩ := hrun.pages hranges.fit
  have hnodup : (regionsPages l.pageTablePool.pool).Nodup :=
    hperm.nodup_iff.mpr (List.nodup_flatMap.mpr
      ⟨fun r hr => nodup_runPages (hranges.fit r hr).runFits, hranges.disjoint⟩)
  have hmem : ∀ page, page ∈ regionsPages l.pageTablePool.pool ↔ page ∈ regionsPages ranges :=
    fun page => hperm.mem_iff
  simp only [regionsPages, List.mem_flatMap] at hmem
  refine ⟨(List.nodup_flatMap.mp hnodup).2, l.pageTablePool.fits, hmem, ?_, ?_, ?_⟩
  · intro hcapacity c hc r hr page hp
    obtain ⟨q, hq, hpq⟩ := (hmem page).mpr ⟨r, hr, hp⟩
    have halign := ((mem_runPages (hfit q hq).runFits).mp hpq).1
    have hany : c.pageTableRegions.toList.any
        (fun iter => regionUses page iter.physicalAddress iter.pages) = true := by
      rw [List.any_eq_true, hc]
      exact ⟨q, PagingPageTablePool.mem_pageTableRegions hcapacity hq, regionUses_of_mem (hfit q hq) hpq⟩
    simp only [mmPageUsedByChainload, and_pageMask halign, hany, Bool.or_true]
  · intro pagesCount
    have hfull : ∀ a, l.pageTablePool.record a pagesCount = none ↔
        l.pageTablePool.pool.length = l.pageTablePool.capacity ∧
          ∀ r ∈ l.pageTablePool.pool, ¬Touches a pagesCount r := fun a => by
      have hfits := l.pageTablePool.fits
      rw [PagingPageTablePool.record_eq_none]
      exact and_congr_left fun _ => ⟨fun h => by omega, fun h => by omega⟩
    have hspec : Ensures (pagingAllocatePage firmware pagesCount) l
        (fun _ _ => ∀ a, firmware.allocatePages l.allocateCalls pagesCount = .ok a →
          l.pageTablePool.record a pagesCount ≠ none)
        (fun e _ => e = .bufferTooSmall ↔ ∃ a, firmware.allocatePages l.allocateCalls pagesCount =
          .ok a ∧ l.pageTablePool.record a pagesCount = none) := by
      rw [ensures_pagingAllocatePage]
      cases ha : firmware.allocatePages l.allocateCalls pagesCount with
      | error e => simp
      | ok a => cases hr : l.pageTablePool.record a pagesCount <;> simp [hr]
    constructor
    · rintro ⟨l', he⟩
      obtain ⟨a, ha, hr⟩ := (hspec.of_error he).mp rfl
      exact ⟨a, ha, (hfull a).mp hr⟩
    · rintro ⟨a, ha, hr⟩
      unfold Ensures at hspec
      split at hspec
      · exact absurd ((hfull a).mpr hr) (hspec a ha)
      · rename_i e l' he
        obtain rfl := hspec.mpr ⟨a, ha, (hfull a).mpr hr⟩
        exact ⟨l', he⟩
  · intro pagesCount e l' he
    have hspec : Ensures (pagingAllocatePage firmware pagesCount) l (fun _ _ => True)
        (fun _ l' => l'.pageTablePool = l.pageTablePool) := by
      rw [ensures_pagingAllocatePage]
      split
      · rfl
      · split
        · rfl
        · trivial
    exact hspec.of_error he

/-- A firmware that hands out single pages downwards from one MiB. -/
def descendingFirmware : BootServices := ⟨fun k _ => .ok (0x100000 - BitVec.ofNat 64 k * 0x1000)⟩

/-- A loader with an empty pool in the chainload page. -/
def emptyLoader : Loader := ⟨fun _ => 0, ⟨rkhvMaxPageTableRegions, [], Nat.zero_le _⟩, 0⟩

/-- Two neighbouring tables end up in one recorded region. -/
theorem pagingAllocatePage_handOver_two : ∃ l, l.pageTablePool.pool = [⟨0xff000, 2⟩] ∧
    HandOver descendingFirmware l [⟨0xff000, 1⟩, ⟨0x100000, 1⟩] :=
  ⟨_, rfl, pagingAllocatePage_handOver
    (.call (.call (.start (l := emptyLoader) rfl) rfl) rfl)
    ⟨by simp [RangeFits], by simp [regionPages]⟩⟩

end Rkhv.BootPagePool
