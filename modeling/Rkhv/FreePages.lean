import Rkhv.HostState

/-!
# The host page allocator

`mm_get_free_page` walks the usable descriptors of the firmware memory map
downwards from the page it returned last and takes the first page that none
of the four owners claims: the chainload page's ranges, the arenas, the VMX
pages and the machines. Its region search counts a `size_t` down under the
always true condition `i >= 0`, so a search that meets no usable descriptor
indexes the map outside its bounds.
-/

namespace Rkhv.FreePages

open ByteMemory HostTypes HostState StateOutcome

/-! ## Used pages -/

/-- One of the `pages > 0` range tests of `mm_page_used_by_chainload`. -/
def regionUses (page first pages : Word) : Bool :=
  0 < pages && (first ≤ page && page ≤ first + (pages - 1) * pageSize)

/-- Pages that an attachment of `size` bytes occupies. -/
def attachmentPages (size : Word) : Word :=
  size / pageSize + if size % pageSize = 0 then 0 else 1

/-- The attachment loop of `mm_page_used_by_chainload`, which stops at the
first end mark. -/
def attachmentsUse (page : Word) : List ChainloadAttachment → Bool
  | [] => false
  | iter :: rest =>
    if iter.attachmentType = chainloadAttachmentEnd then false
    else if 0 < iter.size ∧
        regionUses page iter.physicalAddress (attachmentPages (iter.size.setWidth 64)) then true
    else attachmentsUse page rest

/-- `mm_page_used_by_chainload` -/
def mmPageUsedByChainload (c : ChainloadPage) (pagePhysicalAddress : Word) : Bool :=
  let page := pagePhysicalAddress &&& pageMask
  page == c.chainloadPage ||
    c.rkhvSections.toList.any (fun section_ => regionUses page section_.physicalAddress section_.pages) ||
    attachmentsUse page c.attachments.toList ||
    c.pageTableRegions.toList.any (fun iter => regionUses page iter.physicalAddress iter.pages)

/-- `mm_page_used_by_arena`. Arenas never get a sub-arena, so the inner list
of the source is empty. -/
def mmPageUsedByArena (s : Hv) (pagePhysicalAddress : Word) : Bool :=
  s.arenaList.any fun arena => (pagePhysicalAddress &&& pageMask) == arena

/-- `mm_page_used_by_vmx` -/
def mmPageUsedByVmx (s : Hv) (pagePhysicalAddress : Word) : Bool :=
  (s.vmxonRegionValid && pagePhysicalAddress == s.vmxonRegion) ||
    (s.msrBitmapsPageValid && pagePhysicalAddress == s.msrBitmapsPage)

/-- The range test of `mm_page_used_by_vm_manager`. A run without pages is not
skipped: its last page is the one before its first page. -/
def pageListUses (page : Word) (plIter : VmPageList) : Bool :=
  plIter.physicalAddress ≤ page &&
    page ≤ plIter.physicalAddress + (plIter.pages.setWidth 64 - 1) * pageSize

/-- `mm_page_used_by_vm_manager` -/
def mmPageUsedByVmManager (s : Hv) (pagePhysicalAddress : Word) : Bool :=
  s.vmManagerVmList.any fun iter =>
    ((s.vmAt iter).flags &&& vmTFlagVmcsInitialized != 0 &&
      (s.vmAt iter).vmcsRegion == pagePhysicalAddress) ||
    (s.vmAt iter).trackedPages.any (pageListUses pagePhysicalAddress)

/-- `mm_page_is_free` -/
def mmPageIsFree (s : Hv) (pagePhysicalAddress : Word) : Bool :=
  !(mmPageUsedByChainload s.mmChainloadPage pagePhysicalAddress ||
    mmPageUsedByArena s pagePhysicalAddress ||
    mmPageUsedByVmx s pagePhysicalAddress ||
    mmPageUsedByVmManager s pagePhysicalAddress)

/-! ## The search -/

/-- A descriptor the allocator takes pages from. -/
def descUsable (desc : ChainloadMmapDesc) : Bool := desc.usable && desc.pages != 0

/-- The downward loop over regions with `i` starting one below the argument.
It yields the region found and its last page index. Below index zero `i` wraps
to the largest `size_t` and the next access is outside the array. -/
def regionSearch (mmap : EfiMmap) : ℕ → Except Fault (Word × Word)
  | 0 => .error (.outOfBounds (-1))
  | i + 1 =>
    match mmap[i]? with
    | none => .error (.outOfBounds (BitVec.ofNat 64 i))
    | some desc =>
      if descUsable desc then .ok (BitVec.ofNat 64 i, desc.pages.setWidth 64 - 1)
      else regionSearch mmap i

/-- Address of page `pageIndex` of a descriptor. -/
def descPage (desc : ChainloadMmapDesc) (pageIndex : Word) : Word :=
  desc.physicalAddress + pageIndex * pageSize

/-- The `while` loop of `mm_get_free_page`, with the current and the complete
loop position as (region index, page index) pairs. It yields the page and its
position. The inner `do` loop runs once: the search either returns a page index
or leaves the array. The fuel bounds the rounds. -/
def scanLoop (mmap : EfiMmap) (isFree : Word → Bool) :
    ℕ → Word × Word → Word × Word → Except Fault (Word × Word × Word)
  | 0, _, _ => .error .hang
  | fuel + 1, current, complete =>
    if current = complete then .error (.panic "OOM :(")
    else
      let complete := if complete.1 = -1 ∨ complete.2 = -1 then current else complete
      match mmap[current.1.toNat]? with
      | none => .error (.outOfBounds current.1)
      | some desc =>
        if isFree (descPage desc current.2) then .ok (descPage desc current.2, current)
        else
          let pageIndex := current.2 - 1
          if desc.pages.setWidth 64 ≤ pageIndex then
            let start : Word :=
              if current.1 ≤ 0 ∨ BitVec.ofNat 64 rkhvMaxEfiMmapDescriptors < current.1 then
                BitVec.ofNat 64 rkhvMaxEfiMmapDescriptors
              else current.1
            match regionSearch mmap start.toNat with
            | .error e => .error e
            | .ok next => scanLoop mmap isFree fuel next complete
          else scanLoop mmap isFree fuel (current.1, pageIndex) complete

/-- Usable pages of a descriptor. -/
def descWeight (desc : ChainloadMmapDesc) : ℕ := if descUsable desc then desc.pages.toNat else 0

/-- Usable pages of the first `r` descriptors. -/
def pagesBelow (mmap : EfiMmap) (r : ℕ) : ℕ := ((mmap.toList.take r).map descWeight).sum

/-- Rounds that the scan can take: every usable page once and the final test. -/
def scanFuel (mmap : EfiMmap) : ℕ := pagesBelow mmap rkhvMaxEfiMmapDescriptors + 1

/-- Where `mm_get_free_page` starts: at the saved position, or at the top of
the highest usable region when there is none. -/
def scanStart (mmap : EfiMmap) (lastRegion lastPage : Word) : Except Fault (Word × Word) :=
  if lastRegion = -1 ∨ lastPage = -1 then regionSearch mmap rkhvMaxEfiMmapDescriptors
  else .ok (lastRegion, lastPage)

/-- The whole search of `mm_get_free_page` as a function of what it reads. -/
def freePageSearch (mmap : EfiMmap) (isFree : Word → Bool) (lastRegion lastPage : Word) :
    Except Fault (Word × Word × Word) :=
  match scanStart mmap lastRegion lastPage with
  | .error e => .error e
  | .ok current =>
    if current.1 = -1 ∨ current.2 = -1 then
      .error (.panic "Unable to find usable memory region")
    else scanLoop mmap isFree (scanFuel mmap) current (-1, -1)

/-- `mm_get_free_page` -/
def mmGetFreePage : HvM Word := do
  let s ← get
  match freePageSearch s.mmChainloadPage.efiMmapUsable (mmPageIsFree s)
      s.lastReturnedRegionIndex s.lastReturnedPageIndex with
  | .error e => throw e
  | .ok (page, region, index) =>
    set { s with
      lastReturnedRegionIndex := region
      lastReturnedPageIndex := index
      mmReturned := page :: s.mmReturned }
    return page

theorem mmGetFreePage_of_ok {s : Hv} {page region index : Word}
    (h : freePageSearch s.mmChainloadPage.efiMmapUsable (mmPageIsFree s)
      s.lastReturnedRegionIndex s.lastReturnedPageIndex = .ok (page, region, index)) :
    mmGetFreePage s = .ok page { s with
      lastReturnedRegionIndex := region
      lastReturnedPageIndex := index
      mmReturned := page :: s.mmReturned } := by
  rw [mmGetFreePage, bind_of_ok (get_eq_ok.mpr ⟨rfl, rfl⟩), h]
  rfl

theorem mmGetFreePage_of_error {s : Hv} {e : Fault}
    (h : freePageSearch s.mmChainloadPage.efiMmapUsable (mmPageIsFree s)
      s.lastReturnedRegionIndex s.lastReturnedPageIndex = .error e) :
    mmGetFreePage s = .error e s := by
  rw [mmGetFreePage, bind_of_ok (get_eq_ok.mpr ⟨rfl, rfl⟩), h]
  rfl

/-- A call that returned has moved the cursor and nothing else. -/
theorem mmGetFreePage_returned {s s' : Hv} {page : Word} (h : mmGetFreePage s = .ok page s') :
    ∃ region index, s' = { s with
      lastReturnedRegionIndex := region
      lastReturnedPageIndex := index
      mmReturned := page :: s.mmReturned } := by
  cases hsearch : freePageSearch s.mmChainloadPage.efiMmapUsable (mmPageIsFree s)
      s.lastReturnedRegionIndex s.lastReturnedPageIndex with
  | error e =>
    rw [mmGetFreePage_of_error hsearch] at h
    cases h
  | ok found =>
    rw [mmGetFreePage_of_ok hsearch] at h
    cases h
    exact ⟨_, _, rfl⟩

end Rkhv.FreePages
