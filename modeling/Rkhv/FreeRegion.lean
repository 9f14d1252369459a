import Rkhv.DescendingPages
import Rkhv.Retracking

/-!
# One free region

Inside a usable region none of whose lower pages is used the allocator yields
consecutive descending pages: the page that it returned last is in use, and the
next one down is free. So a host with one large region gives a machine a guest
memory of any size that fits, and its list ends with three entries.
-/

namespace Rkhv.FreeRegion

open ByteMemory WordFields HostTypes HostState StateOutcome PageRuns FreePages FreePageSearch
  FreePageContract Arenas PageTracker PageTrackerRuns VmxPages RadixWalk Ept EptWalk VmManager
  EptAgreement MachinePages MachineSteps EptMapping GuestMemory HostPages HostOperations HostRuns
  GuestIsolation GuestRam EptReservation DescendingPages

variable {s t t' : Hv} {vm arena p size : Word} {hw : Hardware} {taken : List Word}

/-! ## Inside one region -/

variable {desc : ChainloadMmapDesc} {region index : Word}

/-- Page `index` of a region is in use and the page below it is free. -/
theorem mmGetFreePage_next (hdesc : (efiMmap t)[region.toNat]? = some desc)
    (husable : descUsable desc = true) (hindex : index.toNat < desc.pages.toNat)
    (hpos : 0 < index.toNat) (hcursor : savedCursor t = (region, index))
    (hused : mmPageIsFree t (descPage desc index) = false)
    (hfree : mmPageIsFree t (descPage desc (index - 1)) = true) :
    ∃ t', mmGetFreePage t = .ok (descPage desc (index - 1)) t' ∧
      savedCursor t' = (region, index - 1) := by
  have hone : (1 : Word).toNat = 1 := rfl
  have hprev : (index - 1).toNat = index.toNat - 1 := by
    rw [BitVec.toNat_sub, hone]
    omega
  have hv : ValidPosition (efiMmap t) (region, index) := ⟨desc, hdesc, husable, hindex⟩
  have hv' : ValidPosition (efiMmap t) (region, index - 1) :=
    ⟨desc, hdesc, husable, by rw [hprev]; omega⟩
  have hpage : ∀ j, positionPage (efiMmap t) (region, j) = descPage desc j := fun j => by
    simp only [positionPage, hdesc]
  have hrank : rank (efiMmap t) (region, index - 1) + 1 = rank (efiMmap t) (region, index) := by
    have hstep : index.toNat - 1 + 1 = index.toNat := by omega
    rw [rank, rank, hprev, Nat.add_assoc, hstep]
  have hne : (region, index) ≠ ((-1 : Word), (-1 : Word)) := fun he =>
    hv.ne_mark (Or.inl (congrArg Prod.fst he))
  have htotal := hv.rank_lt_total
  obtain ⟨fuel, hfuel⟩ := Nat.exists_eq_add_of_lt htotal
  have hfuel : scanFuel (efiMmap t) = rank (efiMmap t) (region, index) + fuel + 1 + 1 :=
    congrArg (· + 1) hfuel
  have hmark : loopMark (region, index) ((-1 : Word), (-1 : Word)) = (region, index) :=
    if_pos (Or.inl rfl)
  generalize rank (efiMmap t) (region, index) + fuel = rounds at hfuel
  have hnext : scanLoop (efiMmap t) (mmPageIsFree t) (rounds + 1 + 1) (region, index) (-1, -1) =
      .ok (descPage desc (index - 1), (region, index - 1)) := by
    have hcurrent : mmPageIsFree t (positionPage (efiMmap t) (region, index)) = false :=
      (congrArg (mmPageIsFree t) (hpage index)).trans hused
    have hbelow : mmPageIsFree t (positionPage (efiMmap t) (region, index - 1)) = true :=
      (congrArg (mmPageIsFree t) (hpage (index - 1))).trans hfree
    have hround := @scanLoop_used (efiMmap t) (mmPageIsFree t) (rounds + 1) _ _ hv hne hcurrent
    rcases hround with ⟨next, hnv, hnr, hs⟩ | ⟨hz, _⟩ | ⟨hz, _⟩
    · obtain rfl : next = (region, index - 1) := hnv.eq_of_rank hv' (Nat.succ_injective
        (hnr.trans hrank.symm))
      have hmoved : (region, index - 1) ≠ (region, index) := fun he => by
        have hvalue := congrArg (fun pos : Word × Word => pos.2.toNat) he
        simp only [hprev] at hvalue
        omega
      rw [hs, hmark, scanLoop_free hv' hmoved hbelow, hpage]
    · exact absurd (hrank.trans hz) (Nat.succ_ne_zero _)
    · exact absurd (hrank.trans hz) (Nat.succ_ne_zero _)
  have hsearch : freePageSearch (efiMmap t) (mmPageIsFree t) t.lastReturnedRegionIndex
      t.lastReturnedPageIndex = .ok (descPage desc (index - 1), (region, index - 1)) := by
    have hfirst : t.lastReturnedRegionIndex = region := congrArg Prod.fst hcursor
    have hsecond : t.lastReturnedPageIndex = index := congrArg Prod.snd hcursor
    rw [freePageSearch, scanStart, hfirst, hsecond, if_neg hv.ne_mark]
    simp only [if_neg hv.ne_mark]
    rw [hfuel, hnext]
  exact ⟨taking t (descPage desc (index - 1)) (region, index - 1), mmGetFreePage_of_ok hsearch, rfl⟩

/-- A page that nobody uses is free. -/
theorem mmPageIsFree_of_unused {page : Word} (hpage : PageOk page)
    (hentries : ∀ e ∈ trackedOf t vm, EntryOk e) (hothers : usedByOthers t vm page = false)
    (hnew : page ∉ machinePages t vm) (hdrained : ∀ e ∈ trackedOf t vm, e.pages = 0 →
      e.physicalAddress ≠ 0) : mmPageIsFree t page = true := by
  have hruns : (t.vmAt vm).trackedPages.any (pageListUses page) = false := by
    refine List.any_eq_false.mpr fun e he huses => ?_
    rcases (Retracking.pageListUses_iff (hentries e he) hpage.1 (by have := hpage.2; omega)).mp huses
      with hmem | ⟨hempty, hzero⟩
    · have hcontents : (page, e.pageType, e.reservedPool) ∈ entryContents e :=
        List.mem_map_of_mem hmem
      exact hnew (List.mem_map_of_mem (List.mem_flatMap_of_mem he hcontents))
    · exact hdrained e he hempty hzero
  simp only [usedByOthers, Bool.or_eq_false_iff, List.any_eq_false] at hothers
  obtain ⟨⟨⟨hchainload, harena⟩, hvmx⟩, hmachines⟩ := hothers
  simp only [mmPageIsFree, mmPageUsedByVmManager, hchainload, harena, hvmx, Bool.or_self,
    Bool.false_or, Bool.not_eq_true', List.any_eq_false]
  intro iter hiter
  have hother := hmachines iter hiter
  by_cases hvm : iter = vm
  · rw [hvm] at hother ⊢
    simpa [hruns] using hother
  · simpa [hvm] using hother

/-- Pages below a page of a region. -/
theorem pageBelow_descPage (desc : ChainloadMmapDesc) (index : Word) (i : ℕ) :
    pageBelow (descPage desc index) i = descPage desc (index - BitVec.ofNat 64 i) := by
  rw [pageBelow, descPage, descPage, sub_mul, add_sub_assoc]

/-- Page `i` below page `index` of a region, counted from zero. -/
def pageUnder (desc : ChainloadMmapDesc) (index : Word) (i : ℕ) : Word :=
  descPage desc (index - BitVec.ofNat 64 (i + 1))

theorem pageUnder_eq (desc : ChainloadMmapDesc) (index : Word) (i : ℕ) :
    pageUnder desc index i = pageBelow (pageUnder desc index 0) i := by
  rw [pageUnder, pageUnder, pageBelow_descPage, Nat.zero_add, Nat.add_comm, BitVec.ofNat_add,
    sub_add_eq_sub_sub]

/-- A region whose page `index` is in use by others, and the `count` pages below
it by nobody. -/
structure FreeBelow (s : Hv) (vm : Word) (desc : ChainloadMmapDesc) (region index : Word)
    (count : ℕ) : Prop where
  listed : (efiMmap s)[region.toNat]? = some desc
  usable : descUsable desc = true
  ends : desc.physicalAddress.toNat + desc.pages.toNat * 4096 ≤ 2 ^ 64
  inside : index.toNat < desc.pages.toNat
  cursor : savedCursor s = (region, index)
  used : usedByOthers s vm (descPage desc index) = true
  room : count ≤ index.toNat
  free : ∀ i < count, usedByOthers s vm (pageUnder desc index i) = false ∧
    pageUnder desc index i ∉ machinePages s vm

variable {count : ℕ}

theorem toNat_indexUnder {i : ℕ} (hi : i ≤ index.toNat) :
    (index - BitVec.ofNat 64 i).toNat = index.toNat - i := by
  have hlt := index.isLt
  rw [BitVec.toNat_sub, BitVec.toNat_ofNat]
  omega

theorem toNat_pageUnder (hends : desc.physicalAddress.toNat + desc.pages.toNat * 4096 ≤ 2 ^ 64)
    (hinside : index.toNat < desc.pages.toNat) {i : ℕ} (hi : i < index.toNat) :
    (pageUnder desc index i).toNat =
      desc.physicalAddress.toNat + (index.toNat - (i + 1)) * 4096 := by
  have hsize : pageSize.toNat = 4096 := rfl
  rw [pageUnder, descPage, BitVec.toNat_add, BitVec.toNat_mul, toNat_indexUnder (by omega), hsize]
  omega

/-- A state after calls that returned the pages below, in order. -/
structure Reached (s : Hv) (vm : Word) (desc : ChainloadMmapDesc) (region index : Word)
    (taken : List Word) (t : Hv) : Prop where
  map : efiMmap t = efiMmap s
  others : ∀ page, usedByOthers t vm page = usedByOthers s vm page
  cursor : savedCursor t = (region, index - BitVec.ofNat 64 taken.length)
  pages : ∀ page ∈ taken, ∃ i < taken.length, page = pageUnder desc index i
  last : ∀ i, taken.length = i + 1 → pageUnder desc index i ∈ taken

/-- The next call returns the next page. -/
theorem Reached.next (h : Reached s vm desc region index taken t)
    (hs : FreeBelow s vm desc region index count) (hready : Ready vm s taken t)
    (hlen : taken.length < count) :
    ∃ t', mmGetFreePage t = .ok (pageUnder desc index taken.length) t' ∧
      savedCursor t' = (region, index - BitVec.ofNat 64 (taken.length + 1)) := by
  have hroom := hs.room
  have hinside := hs.inside
  have hlisted : (efiMmap t)[region.toNat]? = some desc := h.map ▸ hs.listed
  have hindex := @toNat_indexUnder index taken.length (by omega)
  have hprev : index - BitVec.ofNat 64 taken.length - 1 =
      index - BitVec.ofNat 64 (taken.length + 1) := by
    rw [BitVec.ofNat_add, sub_add_eq_sub_sub]
    rfl
  have hused : mmPageIsFree t (descPage desc (index - BitVec.ofNat 64 taken.length)) = false := by
    refine Bool.eq_false_iff.mpr fun hfree => ?_
    obtain ⟨hothers, hnew⟩ := free_of_machine hready.ok.listed hready.ok.entries hfree
    cases hcount : taken.length with
    | zero =>
      have hzero : index - BitVec.ofNat 64 0 = index := BitVec.sub_zero index
      rw [hcount, hzero, h.others, hs.used] at hothers
      cases hothers
    | succ i =>
      rw [hcount] at hnew
      exact hnew (hready.pages.mem_iff.mpr (List.mem_append_left _ (h.last i hcount)))
  have hfree : mmPageIsFree t (descPage desc (index - BitVec.ofNat 64 taken.length - 1)) = true := by
    rw [hprev]
    have hindex' := @toNat_indexUnder index (taken.length + 1) (by omega)
    have hv : ValidPosition (efiMmap t) (region, index - BitVec.ofNat 64 (taken.length + 1)) :=
      ⟨desc, hlisted, hs.usable, by rw [hindex']; omega⟩
    have hpage : PageOk (pageUnder desc index taken.length) := by
      refine hready.ok.map _ (usablePage_iff.mpr ⟨_, hv, ?_⟩)
      simp only [positionPage, hlisted]
      rfl
    obtain ⟨hothers, hnew⟩ := hs.free taken.length hlen
    refine mmPageIsFree_of_unused hpage hready.ok.entries ((h.others _).trans hothers)
      (fun hmem => ?_) hready.drained
    rcases List.mem_append.mp (hready.pages.mem_iff.mp hmem) with htaken | hbefore
    · obtain ⟨i, hi, he⟩ := h.pages _ htaken
      have hsame : pageUnder desc index taken.length = pageUnder desc index i := he
      have hvalue := congrArg BitVec.toNat hsame
      rw [toNat_pageUnder hs.ends hinside (by omega), toNat_pageUnder hs.ends hinside (by omega)]
        at hvalue
      omega
    · exact hnew hbefore
  have hnext := mmGetFreePage_next hlisted hs.usable (by rw [hindex]; omega) (by rw [hindex]; omega)
    h.cursor hused hfree
  rwa [hprev] at hnext

/-- The calls return the pages below, one after the other. -/
theorem reached_of_calls (hs : FreeBelow s vm desc region index count) (h : Calls vm s taken t)
    (hlen : taken.length ≤ count) : Reached s vm desc region index taken t := by
  induction h with
  | start =>
    refine ⟨rfl, fun _ => rfl, ?_, fun _ hmem => absurd hmem List.not_mem_nil,
      fun _ hcount => absurd hcount (Nat.succ_ne_zero _).symm⟩
    have hzero : index - BitVec.ofNat 64 0 = index := BitVec.sub_zero index
    rw [List.length_nil, hzero]
    exact hs.cursor
  | work _ hkept ih =>
    have hreached := ih hlen
    refine ⟨?_, fun page => ?_, hkept.cursor.trans hreached.cursor, hreached.pages, hreached.last⟩
    · exact (congrArg ChainloadPage.efiMmapUsable
        (field_of_fixed hkept.fixed Hv.mmChainloadPage)).trans hreached.map
    · exact (usedByOthers_congr hkept.fixed hkept.others hkept.flag hkept.region page).trans
        (hreached.others page)
  | @call taken page t t' _ hready hcall ih =>
    rw [List.length_cons] at hlen
    have hreached := ih (by omega)
    obtain ⟨t₁, hnext, hcursor⟩ := hreached.next hs hready (by omega)
    rw [hcall] at hnext
    obtain ⟨rfl, rfl⟩ : page = pageUnder desc index taken.length ∧ t' = t₁ := by
      injection hnext with hpage hstate
      exact ⟨hpage, hstate⟩
    obtain ⟨cursorRegion, cursorIndex, rfl⟩ := mmGetFreePage_returned hcall
    refine ⟨hreached.map, fun q => ?_, hcursor, fun q hq => ?_, fun i hi => ?_⟩
    · exact (usedByOthers_congr rfl (fun _ _ => rfl) rfl rfl q).trans (hreached.others q)
    · rcases List.mem_cons.mp hq with rfl | hq
      · exact ⟨taken.length, Nat.lt_succ_self _, rfl⟩
      · obtain ⟨i, hi, he⟩ := hreached.pages q hq
        exact ⟨i, Nat.lt_succ_of_lt hi, he⟩
    · rw [List.length_cons, Nat.succ_inj] at hi
      rw [← hi]
      exact List.mem_cons_self

/-- Inside a free region the allocator yields consecutive descending pages. -/
theorem yieldsDescending_of_freeBelow (hs : FreeBelow s vm desc region index count) :
    YieldsDescending s vm (pageUnder desc index 0) count := by
  intro taken t hcalls hready hlen
  obtain ⟨t', hnext, _⟩ := (reached_of_calls hs hcalls hlen.le).next hs hready hlen
  rw [pageUnder_eq] at hnext
  exact ⟨t', hnext⟩

/-! ## A host with one large region -/

/-- The machine that a host with 8192 usable pages creates first. -/
def firstOfMany : Word := 0x1000200f020

/-- The page of its arena, the highest one. -/
def arenaOfMany : Word := 0x200f000

/-- What is left after creating the machine. -/
structure ManyLeft (s : Hv) : Prop where
  reached : ReachedFresh obedientHardware s firstOfMany
  arena : s.vmManagerArena = some arenaOfMany
  room : ¬arenaRoom s arenaOfMany < 3 * sizeofVmPageList
  free : FreeBelow s firstOfMany ⟨0x10000, 8192, true⟩ 0 8191 8191

/-- The chainload page of a small host uses the page at address zero only. -/
theorem mmPageUsedByChainload_smallHost (pages : BitVec 63) (page : Word) :
    mmPageUsedByChainload (smallHost pages).mmChainloadPage page = ((page &&& pageMask) == 0) := by
  have hregion : regionUses (page &&& pageMask) 0 0 = false := rfl
  have hsections : ((smallHost pages).mmChainloadPage.rkhvSections.toList.any fun section_ =>
      regionUses (page &&& pageMask) section_.physicalAddress section_.pages) = false := by
    change (List.replicate 4 (default : ChainloadRegion)).any _ = false
    rw [List.any_replicate]
    exact hregion
  have htables : ((smallHost pages).mmChainloadPage.pageTableRegions.toList.any fun iter =>
      regionUses (page &&& pageMask) iter.physicalAddress iter.pages) = false := by
    change (List.replicate 16 (default : ChainloadRegion)).any _ = false
    rw [List.any_replicate]
    exact hregion
  have hattachments : attachmentsUse (page &&& pageMask)
      (smallHost pages).mmChainloadPage.attachments.toList = false := rfl
  simp only [mmPageUsedByChainload, hsections, htables, hattachments, Bool.or_false]
  rfl

theorem exists_manyLeft : ∃ s, ManyLeft s := by
  have hbuild : returnsWith (hostOp obedientHardware (.createVmxMachine "guest") (smallHost 8192))
      (fun s => (s.vmManagerVmList == [firstOfMany] && s.vmAt firstOfMany == newVm "guest") &&
        (s.vmManagerArena == some arenaOfMany && s.arenaAt arenaOfMany == ⟨sizeofVm⟩) &&
        (s.arenaList == [arenaOfMany] && savedCursor s == (0, 8191)) &&
        (s.vmxonRegionValid == false && s.msrBitmapsPageValid == false)) = true := by
    decide +kernel
  obtain ⟨s, hcall, htest⟩ := exists_of_returnsWith hbuild
  simp only [Bool.and_eq_true, beq_iff_eq] at htest
  obtain ⟨⟨⟨⟨hlist, hrecord⟩, harena, hused⟩, harenas, hcursor⟩, hon, hbitmaps⟩ := htest
  have hmap : PhysicalMap (smallMap 8192) := physicalMap_smallMap fun page hp => by
    rw [mem_runPages ⟨by decide, by decide⟩] at hp
    have hstart : (0x10000 : Word).toNat = 0x10000 := rfl
    have hpages : (8192 : BitVec 63).toNat = 8192 := rfl
    rw [hstart, hpages] at hp
    exact ⟨hp.1, by omega⟩
  have hchainload : s.mmChainloadPage = (smallHost 8192).mmChainloadPage := by
    have hstart : HostOk (smallHost 8192) := hostOk_boot hmap _ _
    have hadmitted : Protected (smallHost 8192) (.createVmxMachine "guest") := ⟨trivial, trivial⟩
    exact hostOp_chainload hstart hadmitted hcall
  have hlisted : firstOfMany ∈ s.vmManagerVmList := by
    rw [hlist]
    exact List.mem_singleton_self _
  refine ⟨s, ⟨⟨_, _, _, hmap, .step .start (by exact trivial) hcall⟩, hlisted, "guest", hrecord⟩,
    harena, ?_, ?_⟩
  · rw [arenaRoom, hused]
    decide
  · have hothers : ∀ page, usedByOthers s firstOfMany page =
        (((page &&& pageMask) == 0) || ((page &&& pageMask) == arenaOfMany)) := fun page => by
      have hflags : (s.vmAt firstOfMany).flags &&& vmTFlagVmcsInitialized = 0 := by
        rw [hrecord]
        rfl
      simp only [usedByOthers, hchainload, mmPageUsedByChainload_smallHost, mmPageUsedByArena,
        harenas, mmPageUsedByVmx, hon, hbitmaps, hlist, List.any_cons, List.any_nil, hflags, bne_self_eq_false,
        Bool.false_and, Bool.or_false, ne_eq, not_true_eq_false, decide_false]
    have hpages : machinePages s firstOfMany = [] := by
      rw [machinePages, trackedOf, hrecord]
      rfl
    have hefi : efiMmap s = smallMap 8192 := congrArg ChainloadPage.efiMmapUsable hchainload
    refine ⟨by rw [hefi]; rfl, by decide, by decide, by decide, hcursor, ?_, by decide,
      fun i hi => ⟨?_, ?_⟩⟩
    · rw [hothers]
      decide
    · have hvalue := @toNat_pageUnder ⟨0x10000, 8192, true⟩ 8191 (by decide) (by decide) i hi
      have hstart : (0x10000 : Word).toNat = 0x10000 := rfl
      have hlast : (8191 : Word).toNat = 8191 := rfl
      have hzero : (0 : Word).toNat = 0 := rfl
      have harenaPage : arenaOfMany.toNat = 0x200f000 := rfl
      rw [hstart, hlast] at hvalue
      rw [hothers, and_pageMask (by omega), Bool.or_eq_false_iff, beq_eq_false_iff_ne,
        beq_eq_false_iff_ne]
      refine ⟨fun he => ?_, fun he => ?_⟩
      · rw [he, hzero] at hvalue
        omega
      · rw [he, harenaPage] at hvalue
        omega
    · rw [hpages]
      exact List.not_mem_nil

/-- The page below the arena of that host. -/
theorem toNat_pageUnder_many :
    (pageUnder ⟨0x10000, 8192, true⟩ 8191 0).toNat = 0x10000 + 8190 * 4096 := by
  decide

/-- A guest memory of any size that fits, in three list entries. -/
theorem exists_threeRuns {size : Word} (hpos : 1 ≤ size.toNat)
    (hfits : (eptPages size).toNat + size.toNat ≤ 8191) :
    ∃ s s', Allocated obedientHardware s' firstOfMany size ∧
      ThreeRuns s firstOfMany arenaOfMany (pageUnder ⟨0x10000, 8192, true⟩ 8191 0) size s' := by
  obtain ⟨s, hs⟩ := exists_manyLeft
  have hsub : FreeBelow s firstOfMany ⟨0x10000, 8192, true⟩ 0 8191
      ((eptPages size).toNat + size.toNat) :=
    { hs.free with room := hfits, free := fun i hi => hs.free.free i (hi.trans_le hfits) }
  have hspec := allocate_threeRuns hs.reached hpos (by omega) hs.arena
    (yieldsDescending_of_freeBelow hsub) (by rw [toNat_pageUnder_many]; omega)
  cases hrun : vmManagerAllocateGuestPhysicalMemory firstOfMany size s with
  | ok _ s' => exact ⟨s, s', ⟨s, hs.reached, hrun⟩, hspec.of_ok hrun⟩
  | error e s' => exact absurd (hspec.of_error hrun).2 hs.room

theorem exists_allocated {size : Word} (hpos : 1 ≤ size.toNat)
    (hfits : (eptPages size).toNat + size.toNat ≤ 8191) :
    ∃ s, Allocated obedientHardware s firstOfMany size := by
  obtain ⟨_, s, hs, _⟩ := exists_threeRuns hpos hfits
  exact ⟨s, hs⟩

/-! ## Three entries -/

/-- When `mm_get_free_page` yields consecutive descending pages, a fresh machine
ends with three list entries, and the allocation returns when the arena has room
for three. -/
theorem allocate_tracks_three_runs (h : ReachedFresh hw s vm) (hpos : 1 ≤ size.toNat)
    (hsize : size.toNat ≤ 512 ^ 4)
    (hyields : YieldsDescending s vm p ((eptPages size).toNat + size.toNat))
    (hwrap : ((eptPages size).toNat + size.toNat - 1) * 4096 ≤ p.toNat) :
    ∃ arena, s.vmManagerArena = some arena ∧
      (∀ s', vmManagerAllocateGuestPhysicalMemory vm size s = .ok () s' →
        ThreeRuns s vm arena p size s') ∧
      (¬arenaRoom s arena < 3 * sizeofVmPageList →
        ∃ s', vmManagerAllocateGuestPhysicalMemory vm size s = .ok () s') := by
  obtain ⟨arena, harena, _⟩ := h.hostOk.pointers vm h.fresh.1
  have hspec := allocate_threeRuns h hpos hsize harena hyields hwrap
  refine ⟨arena, harena, fun s' hrun => hspec.of_ok hrun, fun hroom => ?_⟩
  cases hrun : vmManagerAllocateGuestPhysicalMemory vm size s with
  | ok _ s' => exact ⟨s', rfl⟩
  | error e s' => exact absurd (hspec.of_error hrun).2 hroom

/-- A thousand guest pages take three list entries as well. -/
theorem allocate_tracks_three_runs_thousand : ∃ s s' p,
    vmManagerAllocateGuestPhysicalMemory firstOfMany 1000 s = .ok () s' ∧
      ThreeRuns s firstOfMany arenaOfMany p 1000 s' := by
  obtain ⟨s, hs⟩ := exists_manyLeft
  have hsize : (eptPages 1000).toNat + (1000 : Word).toNat = 1005 := by decide
  have hsub : FreeBelow s firstOfMany ⟨0x10000, 8192, true⟩ 0 8191
      ((eptPages 1000).toNat + (1000 : Word).toNat) :=
    { hs.free with
      room := by rw [hsize]; decide
      free := fun i hi => hs.free.free i (by omega) }
  obtain ⟨arena, harena, hruns, hreturns⟩ := allocate_tracks_three_runs hs.reached (by decide)
    (by decide) (yieldsDescending_of_freeBelow hsub) (by rw [toNat_pageUnder_many, hsize]; decide)
  obtain rfl : arena = arenaOfMany := Option.some_inj.mp (harena.symm.trans hs.arena)
  obtain ⟨s', hrun⟩ := hreturns hs.room
  exact ⟨s, s', _, hrun, hruns s' hrun⟩

end Rkhv.FreeRegion
