import Rkhv.BootRuns

/-!
# What page tables take from the firmware

Mapping a page changes only the PML4 and pages that the firmware gave for
tables. All tables lie in regions that the pool has recorded, a page takes at
most three of them, and none when its page table is already there: so the pool
of the bootloader runs over only when more regions are asked for than it has.
-/

namespace Rkhv.BootTablePages

open ByteMemory WordFields HostTypes StateOutcome PageRuns BootPagePool VmGuestPaging NestedWalk
  RadixWalk BootPaging BootWindow BootTables BootMapping

variable {firmware : BootServices} {start : ℕ} {pml4 : Frame} {l l' l'' : Loader}

/-! ## Recorded pages -/

/-- The regions of the pool fit. -/
def PoolFits (l : Loader) : Prop := ∀ r ∈ l.pageTablePool.pool, RangeFits r

/-- Pages of the pool. -/
def poolPages (l : Loader) : List Word := regionsPages l.pageTablePool.pool

/-- At most `n` calls have added at most `n` regions to the pool, and some pages. -/
structure Recorded (n : ℕ) (l l' : Loader) (pages : List Word) : Prop where
  fits : PoolFits l'
  calls : l'.allocateCalls ≤ l.allocateCalls + n
  capacity : l'.pageTablePool.capacity = l.pageTablePool.capacity
  regions : l'.pageTablePool.pool.length ≤ l.pageTablePool.pool.length + n
  pages : ∀ page, page ∈ poolPages l' ↔ page ∈ pages ∨ page ∈ poolPages l

theorem recorded_refl (h : PoolFits l) : Recorded 0 l l [] :=
  ⟨h, Nat.le_refl _, rfl, Nat.le_refl _, fun _ => (or_iff_right List.not_mem_nil).symm⟩

theorem Recorded.trans {n n' : ℕ} {pages pages' : List Word} (h : Recorded n l l' pages)
    (h' : Recorded n' l' l'' pages') : Recorded (n + n') l l'' (pages' ++ pages) where
  fits := h'.fits
  calls := by
    have hfirst := h.calls
    have hsecond := h'.calls
    omega
  capacity := h'.capacity.trans h.capacity
  regions := by
    have hfirst := h.regions
    have hsecond := h'.regions
    omega
  pages := fun page => by rw [h'.pages, h.pages, List.mem_append, or_assoc]

/-- A loader with the same pool after the same calls. -/
theorem Recorded.of_pool {n : ℕ} {pages : List Word} (h : Recorded n l l' pages)
    (hpool : l''.pageTablePool = l'.pageTablePool) (hcalls : l''.allocateCalls = l'.allocateCalls) :
    Recorded n l l'' pages where
  fits := by
    rw [PoolFits, hpool]
    exact h.fits
  calls := hcalls ▸ h.calls
  capacity := by rw [hpool, h.capacity]
  regions := by
    rw [hpool]
    exact h.regions
  pages := fun page => by
    rw [poolPages, hpool]
    exact h.pages page

theorem length_record {p p' : PagingPageTablePool} {address pagesCount : Word}
    (h : p.record address pagesCount = some p') : p'.pool.length ≤ p.pool.length + 1 := by
  rw [PagingPageTablePool.record] at h
  split at h
  · rename_i regions hc
    cases h
    exact (length_collapseRegion hc).le.trans (Nat.le_succ _)
  · split at h
    · cases h
    · cases h
      rw [List.length_append, List.length_singleton]

/-- The status of one of the first calls of `AllocatePages`, that failed for a
number of pages of a kind. -/
def Refused (firmware : BootServices) (Asked : Word → Prop) (calls : ℕ) (e : EfiStatus) : Prop :=
  ∃ k < calls, ∃ pages a, Asked pages ∧ firmware.allocatePages k pages = .error a ∧
    e = .allocatePages a

/-- Tables are obtained one by one, or 512 at once. -/
def TablePages (pages : Word) : Prop := pages = 1 ∨ pages = BitVec.ofNat 64 pageTableEntries

/-- How a function fails that makes at most `n` more calls: the firmware
refuses one, or the pool does not have so many entries left. -/
def OutOfPages (firmware : BootServices) (n : ℕ) (l : Loader) (e : EfiStatus) : Prop :=
  Refused firmware TablePages (l.allocateCalls + n) e ∨
    e = .bufferTooSmall ∧ l.pageTablePool.capacity < l.pageTablePool.pool.length + n

theorem Refused.mono {Asked Asked' : Word → Prop} {calls calls' : ℕ} {e : EfiStatus}
    (h : Refused firmware Asked calls e) (hcalls : calls ≤ calls')
    (hasked : ∀ pages, Asked pages → Asked' pages) : Refused firmware Asked' calls' e := by
  obtain ⟨k, hk, pages, a, hpages, ha, he⟩ := h
  exact ⟨k, hk.trans_le hcalls, pages, a, hasked pages hpages, ha, he⟩

theorem OutOfPages.after {n k : ℕ} {pages : List Word} {e : EfiStatus} (h : Recorded n l l' pages)
    (he : OutOfPages firmware k l' e) : OutOfPages firmware (n + k) l e := by
  have hcalls := h.calls
  refine he.imp (fun hrefused => hrefused.mono (by omega) fun _ => id) fun hfull => ⟨hfull.1, ?_⟩
  have hregions := h.regions
  have hlt := hfull.2
  rw [h.capacity] at hlt
  omega

theorem OutOfPages.mono {n k : ℕ} {e : EfiStatus} (h : OutOfPages firmware n l e) (hn : n ≤ k) :
    OutOfPages firmware k l e :=
  h.imp (fun hrefused => hrefused.mono (by omega) fun _ => id) fun hfull => ⟨hfull.1, by omega⟩

/-- `paging_allocate_page` records its pages. -/
theorem pagingAllocatePage_recorded (hfresh : FreshPages firmware start pml4)
    (hstart : start ≤ l.allocateCalls) (hfits : PoolFits l) {n : Word} (hn : TablePages n) :
    Ensures (pagingAllocatePage firmware n) l
      (fun address l' => Recorded 1 l l' (regionPages ⟨address, n⟩))
      (fun e _ => OutOfPages firmware 1 l e) := by
  rw [ensures_pagingAllocatePage]
  cases ha : firmware.allocatePages l.allocateCalls n with
  | error e => exact Or.inl ⟨_, Nat.lt_succ_self _, n, e, hn, ha, rfl⟩
  | ok address =>
    obtain ⟨halign, hlimit⟩ := hfresh.page _ _ _ hstart ha
    have hrange : RangeFits ⟨address, n⟩ := ⟨halign, hlimit.trans_lt (by decide)⟩
    dsimp only
    cases hr : l.pageTablePool.record address n with
    | none =>
      have hfull := (PagingPageTablePool.record_eq_none.mp hr).1
      exact Or.inr ⟨rfl, Nat.lt_succ_of_le hfull⟩
    | some pool =>
      obtain ⟨hcapacity, hnew, hperm⟩ := PagingPageTablePool.record_pages hr hrange hfits
      exact ⟨hnew, Nat.le_refl _, hcapacity, length_record hr, fun page => by
        rw [← List.mem_append]
        exact hperm.mem_iff⟩

/-! ## Frames that stay -/

/-- Only the PML4 and frames given by calls from `start` on have changed. -/
def OnlyTables (firmware : BootServices) (start : ℕ) (pml4 : Frame) (m m' : Memory) : Prop :=
  ∀ f, f ≠ pml4 → (∀ k, start ≤ k → ¬GivenBy firmware k f) → SameFrame m m' f

theorem OnlyTables.refl (m : Memory) : OnlyTables firmware start pml4 m m :=
  fun f _ _ => SameFrame.refl m f

theorem OnlyTables.trans {m m' m'' : Memory} (h : OnlyTables firmware start pml4 m m')
    (h' : OnlyTables firmware start pml4 m' m'') : OnlyTables firmware start pml4 m m'' :=
  fun f hf hgiven => (h f hf hgiven).trans (h' f hf hgiven)

/-- A store in a table changes tables only. -/
theorem onlyTables_store {x : Frame} (hx : Used firmware start pml4 l x) (m : Memory) (i : Slot)
    (entry : Word) :
    OnlyTables firmware start pml4 m (writeQword m (slotAddress x i) entry) := by
  intro f hf hgiven
  refine sameFrame_writeSlot ?_
  rintro rfl
  obtain rfl | ⟨k, hk, _, hx⟩ := hx
  · exact hf rfl
  · exact hgiven k hk hx

theorem NewBlock.onlyTables {b : Frame} {n : ℕ} (h : NewBlock firmware l l' b n)
    (hstart : start ≤ l.allocateCalls) : OnlyTables firmware start pml4 l.memory l'.memory :=
  fun f _ hgiven => h.others f fun hin => hgiven _ hstart (h.given f hin)

/-! ## Tables in recorded regions -/

/-- The tables are in order and lie in the regions of the pool. -/
structure TablesHeld (firmware : BootServices) (start : ℕ) (pml4 : Frame) (l : Loader) : Prop where
  ok : TablesOk firmware start pml4 none l
  fits : PoolFits l
  held : ∀ p t, p.length < 4 → bootFollow none l.memory pml4 p = .table t →
    frameAddress t ∈ poolPages l

/-- What a step on the tables takes: at most `n` regions and frames for tables. -/
structure TablesTaken (firmware : BootServices) (start : ℕ) (pml4 : Frame) (n : ℕ) (l l' : Loader) :
    Prop where
  memory : OnlyTables firmware start pml4 l.memory l'.memory
  calls : l.allocateCalls ≤ l'.allocateCalls
  recorded : ∃ pages, Recorded n l l' pages

theorem tablesTaken_refl (h : PoolFits l) : TablesTaken firmware start pml4 0 l l :=
  ⟨OnlyTables.refl _, Nat.le_refl _, [], recorded_refl h⟩

theorem TablesTaken.trans {n n' : ℕ} (h : TablesTaken firmware start pml4 n l l')
    (h' : TablesTaken firmware start pml4 n' l' l'') :
    TablesTaken firmware start pml4 (n + n') l l'' := by
  obtain ⟨pages, hrecorded⟩ := h.recorded
  obtain ⟨pages', hrecorded'⟩ := h'.recorded
  exact ⟨h.memory.trans h'.memory, h.calls.trans h'.calls, _, hrecorded.trans hrecorded'⟩

theorem TablesTaken.mono {n k : ℕ} (h : TablesTaken firmware start pml4 n l l') (hn : n ≤ k) :
    TablesTaken firmware start pml4 k l l' := by
  obtain ⟨pages, hfits, hcalls, hcapacity, hregions, hpages⟩ := h.recorded
  exact ⟨h.memory, h.calls, pages, hfits, hcalls.trans (by omega), hcapacity,
    hregions.trans (by omega), hpages⟩

/-- Pages of the pool stay in it. -/
theorem TablesTaken.kept {n : ℕ} (h : TablesTaken firmware start pml4 n l l') {page : Word}
    (hpage : page ∈ poolPages l) : page ∈ poolPages l' := by
  obtain ⟨pages, hrecorded⟩ := h.recorded
  exact (hrecorded.pages page).mpr (Or.inr hpage)

/-- The page of a new table. -/
theorem regionPages_one (address : Word) : regionPages ⟨address, 1⟩ = [address] := runPages_one address

/-- One level down in the memory: nothing changes, or a new table is recorded
and linked. -/
theorem pagingNextTable_recorded {bit : Word} {i : Slot} {x : Frame}
    (hfresh : FreshPages firmware start pml4) (hstart : start ≤ l.allocateCalls) (hfits : PoolFits l)
    (hx : Used firmware start pml4 l x) :
    Ensures (pagingNextTable firmware bit (frameAddress x) (i.setWidth 64)) l
      (fun next l' => l' = l ∨ TablesTaken firmware start pml4 1 l l' ∧ next ∈ poolPages l')
      (fun e _ => slotWord l.memory x i &&& ptePresent ≠ 0 ∨ OutOfPages firmware 1 l e) := by
  simp only [pagingNextTable, ensures_bind, ensures_readEntry, frameAddress_add_slot, ensures_ite,
    ensures_throw, ensures_pure, ensures_writeEntry, ← slotWord.eq_def]
  refine ⟨fun hpresent => ⟨fun _ => Or.inl hpresent, fun _ => Or.inl trivial⟩, fun _ => ?_⟩
  refine ((pagingAllocatePage_recorded hfresh hstart hfits (Or.inl rfl)).and
    (pagingAllocatePage_spec hfresh hstart (by decide) (by decide))).mono (fun next l₁ h => ?_)
    fun e l₁ h => Or.inr h.1
  obtain ⟨hrecorded, y, rfl, hnew, _⟩ := h
  have hpool : Recorded 1 l (storing l₁ x i (tableEntry (frameAddress y))) _ :=
    hrecorded.of_pool rfl rfl
  refine Or.inr ⟨⟨(NewBlock.onlyTables hnew hstart).trans (onlyTables_store hx _ i _), ?_, _, hpool⟩,
    (hpool.pages _).mpr (Or.inl ?_)⟩
  · change l.allocateCalls ≤ l₁.allocateCalls
    rw [hnew.calls]
    exact Nat.le_succ _
  · rw [regionPages_one]
    exact List.mem_singleton_self _

/-- A walk down with all that it takes. -/
structure HeldDescent (firmware : BootServices) (start : ℕ) (pml4 : Frame) (n : ℕ) (l l' : Loader)
    (path : List Slot) (y : Frame) : Prop where
  descent : Descent firmware start pml4 none l l' path y
  held : TablesHeld firmware start pml4 l'
  taken : TablesTaken firmware start pml4 n l l'

/-- One level further down. -/
theorem HeldDescent.next {bit : Word} {n : ℕ} {path : List Slot} {i : Slot} {x : Frame}
    (h : HeldDescent firmware start pml4 n l l' path x) (hfresh : FreshPages firmware start pml4)
    (hbit : bit = 0 ∨ bit = pdePageSize) (hp : path.length < 3) :
    Ensures (pagingNextTable firmware bit (frameAddress x) (i.setWidth 64)) l'
      (fun next l₂ => ∃ y, next = frameAddress y ∧
        HeldDescent firmware start pml4 (n + 1) l l₂ (path ++ [i]) y)
      (fun e _ => bootFollow none l.memory pml4 (path ++ [i]) = .absent ∧
        OutOfPages firmware (n + 1) l e) := by
  have hp4 : path.length < 4 := by omega
  have hx := h.descent.ok.used path x hp4 h.descent.reached
  have hwindow : ∀ {m : Memory} g, slotWord m x i = tableEntry (frameAddress g) →
      path.length = 0 → (none : Option Frame) ≠ some g := fun _ _ _ hc => by cases hc
  refine (((h.descent.next hfresh hbit hp hwindow).and
    (pagingNextTable_spec hfresh hbit h.descent.ok hp h.descent.reached hwindow)).and
    (pagingNextTable_recorded hfresh h.descent.ok.calls h.held.fits hx)).mono
    (fun next l₂ hn => ?_) fun e l₂ he => ?_
  · obtain ⟨⟨⟨y, rfl, hdescent⟩, z, hz, hstep⟩, hrecorded⟩ := hn
    obtain rfl := frameAddress_injective hz
    refine ⟨y, rfl, hdescent, ?_, ?_⟩
    · obtain rfl | ⟨htaken, hy⟩ := hrecorded
      · exact h.held
      · obtain ⟨pages, hpool⟩ := htaken.recorded
        refine ⟨hstep.ok, hpool.fits, fun q t hq ht => ?_⟩
        by_cases hpath : q = path ++ [i]
        · rw [hpath, hstep.reached] at ht
          rw [← End.table.inj ht]
          exact hy
        · rw [hstep.same q hq.le hpath] at ht
          exact htaken.kept (h.held.held q t hq ht)
    · obtain rfl | ⟨htaken, _⟩ := hrecorded
      · exact h.taken.mono (Nat.le_succ n)
      · exact h.taken.trans htaken
  · obtain ⟨⟨⟨habs, _⟩, hempty, _⟩, hstatus⟩ := he
    refine ⟨habs, ?_⟩
    obtain hpresent | hout := hstatus
    · exact absurd (slot_empty h.descent.reached hempty).2 hpresent
    · obtain ⟨pages, hrecorded⟩ := h.taken.recorded
      exact hout.after hrecorded

/-! ## A page -/

/-- The slots that lead to the page table of an address. -/
def tablePath (va : Word) : List Slot := [slotOf 4 va, slotOf 3 va, slotOf 2 va]

/-- The page table of an address exists. -/
def HasPageTable (pml4 : Frame) (l : Loader) (va : Word) : Prop :=
  ∃ t, bootFollow none l.memory pml4 (tablePath va) = .table t

/-- A page was mapped, with at most `n` new regions. -/
structure PageTaken (firmware : BootServices) (start : ℕ) (pml4 : Frame) (n : ℕ) (l l' : Loader)
    (va entry : Word) : Prop where
  held : TablesHeld firmware start pml4 l'
  taken : TablesTaken firmware start pml4 n l l'
  added : PageAdded firmware start pml4 none l l' va entry
  same : ∀ q, q.length ≤ 4 → ¬q <+: bootPath va →
    bootFollow none l'.memory pml4 q = bootFollow none l.memory pml4 q
  table : HasPageTable pml4 l' va

/-- The last level. -/
theorem HeldDescent.leaf {n : ℕ} {x : Frame} {va : Word}
    (h : HeldDescent firmware start pml4 n l l' (tablePath va) x)
    (hempty : slotWord l'.memory x (slotOf 1 va) &&& ptePresent = 0) (pa : Word)
    (permission : PagingPermission) :
    PageTaken firmware start pml4 n l (storing l' x (slotOf 1 va) (pageEntry pa permission)) va
      (pageEntry pa permission) := by
  have hlast : bootPath va = tablePath va ++ [slotOf 1 va] := rfl
  have hp : (tablePath va).length = 3 := rfl
  have hp4 : (tablePath va).length < 4 := hp ▸ by decide
  have habsent : bootFollow none l'.memory pml4 (tablePath va ++ [slotOf 1 va]) = .absent := by
    rw [bootFollow_snoc h.descent.reached, bootTables, bootDecode, if_pos hempty]
  obtain ⟨hok, hpaths⟩ := h.descent.ok.leaf h.descent.reached habsent hp pa permission
  have hx := h.descent.ok.used _ x hp4 h.descent.reached
  obtain ⟨pages, hrecorded⟩ := h.taken.recorded
  have hpool : Recorded _ l (storing l' x (slotOf 1 va) (pageEntry pa permission)) pages :=
    hrecorded.of_pool rfl rfl
  refine ⟨⟨hok, hpool.fits, fun q t hq ht => ?_⟩,
    ⟨h.taken.memory.trans (onlyTables_store hx _ _ _), h.taken.calls, pages, hpool⟩,
    (mapLast_spec h.descent hp hlast pa permission).2 hempty, fun q hq hne => ?_, x, ?_⟩
  · have hne : q ≠ tablePath va ++ [slotOf 1 va] := fun he => by
      have hlen := congrArg List.length he
      rw [List.length_append, hp, List.length_singleton] at hlen
      omega
    rw [hpaths q hq.le, if_neg hne] at ht
    exact h.held.held q t hq ht
  · have hne' : q ≠ tablePath va ++ [slotOf 1 va] := fun he => hne (he ▸ hlast ▸ List.prefix_rfl)
    have hup : ¬q <+: tablePath va := fun hpre =>
      hne (hlast ▸ hpre.trans (List.prefix_append (tablePath va) [slotOf 1 va]))
    rw [hpaths q hq, if_neg hne', h.descent.same q hq hup]
  · have hne : tablePath va ≠ tablePath va ++ [slotOf 1 va] := fun he => by
      have hlen := congrArg List.length he
      rw [List.length_append, List.length_singleton] at hlen
      omega
    rw [hpaths _ hp4.le, if_neg hne, h.descent.reached]

/-- Why a page is not mapped: no page or region for a table, or a page that is
there. -/
def PageRefused (firmware : BootServices) (pml4 : Frame) (n : ℕ) (l : Loader) (va : Word)
    (e : EfiStatus) : Prop :=
  OutOfPages firmware n l e ∨
    ∃ entry, bootFollow none l.memory pml4 (bootPath va) = .leaf entry []

/-- `paging_map_page` takes at most three regions, and none where the page
table exists. -/
theorem pagingMapPage_taken (hfresh : FreshPages firmware start pml4)
    (h : TablesHeld firmware start pml4 l) (pa va : Word) (permission : PagingPermission) {n : ℕ}
    (hn : n = 3 ∨ HasPageTable pml4 l va) :
    Ensures (pagingMapPage firmware (frameAddress pml4) pa va permission) l
      (fun _ l' => PageTaken firmware start pml4 n l l' va (pageEntry pa permission))
      (fun e _ => PageRefused firmware pml4 n l va e) := by
  simp only [pagingMapPage, ensures_bind, linearAddressGetPml4_slot,
    linearAddressGetDirectoryPtr_slot, linearAddressGetDirectory_slot, linearAddressGetTable_slot]
  -- a walk that stops early found no page table
  have hstop : ∀ (p q : List Slot) (k : ℕ) (e : EfiStatus), tablePath va = p ++ q → k ≤ 3 →
      bootFollow none l.memory pml4 p = .absent ∧ OutOfPages firmware k l e →
      PageRefused firmware pml4 n l va e := by
    intro p q k e hpath hk hstopped
    obtain rfl | ⟨t, ht⟩ := hn
    · exact Or.inl (hstopped.2.mono hk)
    · have habs : bootFollow none l.memory pml4 (tablePath va) = .absent := by
        rw [hpath]
        exact follow_append_absent hstopped.1 q
      rw [habs] at ht
      cases ht
  have hstart : HeldDescent firmware start pml4 0 l l [] pml4 :=
    ⟨Descent.refl h.ok, h, tablesTaken_refl h.fits⟩
  refine (hstart.next hfresh (Or.inl rfl) (by decide)).mono (fun _ l₁ hnext => ?_)
    fun e _ he => hstop _ [slotOf 3 va, slotOf 2 va] _ e rfl (by decide) he
  obtain ⟨pdpt, rfl, hpdpt⟩ := hnext
  refine (hpdpt.next hfresh (Or.inr rfl) (by simp)).mono (fun _ l₂ hnext => ?_)
    fun e _ he => hstop _ [slotOf 2 va] 2 e rfl (by decide) he
  obtain ⟨pd, rfl, hpd⟩ := hnext
  refine (hpd.next hfresh (Or.inr rfl) (by simp)).mono (fun _ l₃ hnext => ?_)
    fun e _ he => hstop _ [] 3 e rfl (by decide) he
  obtain ⟨pt, rfl, hpt⟩ := hnext
  have hdescent : HeldDescent firmware start pml4 n l l₃ (tablePath va) pt := by
    obtain rfl | ⟨t, ht⟩ := hn
    · exact hpt
    · have hsame : l₃ = l := hpt.descent.kept fun habs => by
        change bootFollow none l.memory pml4 (tablePath va) = .absent at habs
        rw [habs] at ht
        cases ht
      subst hsame
      exact ⟨hpt.descent, hpt.held, (tablesTaken_refl h.fits).mono (Nat.zero_le n)⟩
  simp only [ensures_readEntry, frameAddress_add_slot, ensures_ite, ensures_throw,
    ensures_writeEntry, ← slotWord.eq_def]
  refine ⟨fun hpresent => Or.inr ⟨slotWord l₃.memory pt (slotOf 1 va), ?_⟩, fun hempty =>
    hdescent.leaf (not_not.mp hempty) pa permission⟩
  have hbelow := hdescent.descent.below (i := slotOf 1 va) (Nat.lt_succ_self 3)
  have hlast : bootPath va = tablePath va ++ [slotOf 1 va] := rfl
  have hp : (tablePath va).length = 3 := rfl
  rw [hlast, ← hbelow, bootFollow_snoc hdescent.descent.reached, bootTables, bootDecode,
    if_neg hpresent, if_pos hp]

/-! ## The window -/

/-- The window was mapped with at most two new regions, and its tables lie in
the regions of the pool. -/
structure WindowTaken (firmware : BootServices) (start : ℕ) (pml4 : Frame) (l l' : Loader)
    (pdpt pds : Frame) : Prop where
  mapped : WindowMapped firmware pml4 l l' pdpt pds
  taken : TablesTaken firmware start pml4 2 l l'
  pdpt : frameAddress pdpt ∈ poolPages l'
  pds : ∀ j, frameAddress (directory pds j) ∈ poolPages l'

/-- Filling the window leaves the pool alone. -/
theorem mapDirectories_pool (l : Loader) (entries n : ℕ) (pdpt pds : Word) :
    Ensures (forRange n (mapDirectory entries pdpt pds)) l
      (fun _ l' => l'.pageTablePool = l.pageTablePool) (fun _ _ => True) := by
  refine ensures_forRange (fun _ (t : Loader) => t.pageTablePool = l.pageTablePool) rfl fun k t _ ht => ?_
  simp only [mapDirectory, ensures_bind, ensures_writeEntry]
  exact ensures_forRange (fun _ (t' : Loader) => t'.pageTablePool = l.pageTablePool) ht
    fun j t' _ ht' => ensures_writeEntry.mpr ht'

/-- The frames of a block are pages of its region. -/
theorem mem_regionPages_block {b f : Frame} {n : Word} (hfits : b.toNat + n.toNat ≤ 2 ^ 40)
    (h : InBlock b n.toNat f) : frameAddress f ∈ regionPages ⟨frameAddress b, n⟩ := by
  have hb := toNat_frameAddress b
  have hf := toNat_frameAddress f
  obtain ⟨hfrom, hto⟩ := h
  refine (mem_runPages (n := n.toNat) ⟨?_, ?_⟩).mpr ⟨?_, ?_, ?_⟩
  · change (frameAddress b).toNat % 4096 = 0
    omega
  · change (frameAddress b).toNat + n.toNat * 4096 ≤ 2 ^ 64
    omega
  · omega
  · change (frameAddress b).toNat ≤ (frameAddress f).toNat
    omega
  · change (frameAddress f).toNat < (frameAddress b).toNat + n.toNat * 4096
    omega

/-- The tables of a window are in the regions recorded for it. -/
theorem windowTaken_of {l₁ l₂ : Loader} {pdpt pds : Frame} {entries : Word}
    (hstart : start ≤ l.allocateCalls) (hentries : entries.toNat = 512)
    (hpdpt : l₁.allocateCalls = l.allocateCalls + 1) (hpds : NewBlock firmware l₁ l₂ pds 512)
    (hfirst : Recorded 1 l l₁ (regionPages ⟨frameAddress pdpt, 1⟩))
    (hsecond : Recorded 1 l₁ l₂ (regionPages ⟨frameAddress pds, entries⟩))
    (hmapped : WindowMapped firmware pml4 l l' pdpt pds)
    (hpool : l'.pageTablePool = l₂.pageTablePool) : WindowTaken firmware start pml4 l l' pdpt pds := by
  have hcalls := hmapped.calls
  have hrecorded := (hfirst.trans hsecond).of_pool hpool (by rw [hcalls, hpds.calls, hpdpt])
  refine ⟨hmapped, ⟨fun f hf hgiven => hmapped.others f hf (hgiven _ hstart)
    (hgiven _ (Nat.le_succ_of_le hstart)), by omega, _, hrecorded⟩, ?_, fun j => ?_⟩
  · refine (hrecorded.pages _).mpr (Or.inl (List.mem_append_right _ ?_))
    rw [regionPages_one]
    exact List.mem_singleton_self _
  · have hin := inBlock_directory hpds.fits j
    have hfits := hpds.fits
    rw [← hentries] at hin hfits
    exact (hrecorded.pages _).mpr (Or.inl (List.mem_append_left _ (mem_regionPages_block hfits hin)))

/-- `paging_map_physical` takes two regions. -/
theorem pagingMapPhysical_taken (hfresh : FreshPages firmware start pml4)
    (hstart : start ≤ l.allocateCalls) (hfits : PoolFits l)
    (hempty : slotWord l.memory pml4 0 &&& ptePresent = 0) :
    Ensures (pagingMapPhysical firmware (frameAddress pml4)) l
      (fun _ l' => ∃ pdpt pds, WindowTaken firmware start pml4 l l' pdpt pds)
      (fun e _ => OutOfPages firmware 2 l e) := by
  have hlow := frameAddress_add_slot pml4 0
  have hhigh := frameAddress_add_slot pml4 2
  have hcount : (BitVec.ofNat 64 pageTableEntries).toNat = 512 := rfl
  have hentries : pageTableEntries = 512 := rfl
  simp only [pagingMapPhysical, ensures_bind, ensures_readEntry, ensures_ite, ensures_throw,
    ensures_writeEntry, windowSlots.1, windowSlots.2, hlow, hhigh]
  have hzero : (0 : Word) * 8 = (0 : Slot).setWidth 64 * 8 := rfl
  rw [hzero, hlow]
  have hasked : TablePages (BitVec.ofNat 64 pageTableEntries) := Or.inr rfl
  generalize pageTableEntries = entries at hcount hentries hasked ⊢
  refine ⟨fun hpresent => absurd hempty hpresent, fun _ => ?_⟩
  refine ((pagingAllocatePage_recorded hfresh hstart hfits (Or.inl rfl)).and
    (pagingAllocatePage_spec hfresh hstart (by decide) (by decide))).mono (fun _ l₁ h₁ => ?_)
    fun e _ he => he.1.mono (by decide)
  obtain ⟨hfirst, pdpt, rfl, hpdpt, _⟩ := h₁
  have hstart₁ : start ≤ l₁.allocateCalls := by
    rw [hpdpt.calls]
    exact Nat.le_succ_of_le hstart
  refine ((pagingAllocatePage_recorded hfresh hstart₁ hfirst.fits hasked).and
    (pagingAllocatePage_spec hfresh hstart₁ (by omega) (by omega))).mono (fun _ l₂ h₂ => ?_)
    fun e _ he => he.1.after hfirst
  obtain ⟨hsecond, pds, rfl, hpds, _⟩ := h₂
  rw [hcount] at hpds
  refine ((windowMapped_fill hfresh hstart hpdpt hpds hentries).and
    (mapDirectories_pool _ entries entries _ _)).mono (fun _ l' hl => ?_) fun _ _ he => he.1.elim
  exact ⟨pdpt, pds, windowTaken_of hstart hcount hpdpt.calls hpds hfirst hsecond hl.1 hl.2⟩

end Rkhv.BootTablePages
