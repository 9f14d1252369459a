import Rkhv.FreePageContract
import Rkhv.PageTrackerRuns
import Rkhv.EptWalk

/-!
# Pages of one machine

The operations that build the extended page tables of a machine change its
tracked pages, its tables and the pages that they take from the allocator, and
nothing else. This is stated once for all of them: what they leave alone, which
pages they take, and that a page taken is used by nobody else. A page between
the allocator and the tracker is listed as loose.
-/

namespace Rkhv.MachinePages

open ByteMemory WordFields HostTypes HostState StateOutcome PageRuns FreePages FreePageSearch
  FreePageContract Arenas PageTracker PageTrackerRuns VmxPages RadixWalk Ept EptWalk

/-! ## Pages in use -/

/-- Tracked pages of a machine. -/
def machinePages (s : Hv) (vm : Word) : List Word := (contents (trackedOf s vm)).map Prod.fst

/-- The page is used by anything but the tracked pages of a machine. -/
def usedByOthers (s : Hv) (vm page : Word) : Bool :=
  mmPageUsedByChainload s.mmChainloadPage page || mmPageUsedByArena s page ||
    mmPageUsedByVmx s page || s.vmManagerVmList.any fun iter =>
      ((s.vmAt iter).flags &&& vmTFlagVmcsInitialized != 0 && (s.vmAt iter).vmcsRegion == page) ||
        (decide (iter ≠ vm) && (s.vmAt iter).trackedPages.any (pageListUses page))

/-- A page below the 52-bit limit is the address of its frame. -/
theorem frameAddress_frameOf {page : Word} (h : PageOk page) :
    frameAddress (frameOf page) = page := by
  obtain ⟨halign, hlimit⟩ := h
  apply BitVec.eq_of_toNat_eq
  rw [toNat_frameAddress, frameOf, BitVec.extractLsb'_toNat, Nat.shiftRight_eq_div_pow]
  omega

/-- Frame addresses are pages. -/
theorem pageOk_frameAddress (f : Frame) : PageOk (frameAddress f) := by
  have hf := f.isLt
  rw [PageOk, toNat_frameAddress]
  omega

/-- Pages of a run that fits are pages below the limit. -/
theorem pageOk_of_mem_entryPages {e : VmPageList} (h : EntryOk e) {page : Word} (hp : page ∈ entryPages e) :
    PageOk page := by
  have hfit := h.2
  have halign := h.1
  rw [entryPages, mem_runPages h.runFits] at hp
  rw [PageOk]
  omega

/-- Contents of runs that fit are pages below the limit. -/
theorem pageOk_of_mem_contents {tracked : List VmPageList} (h : ∀ e ∈ tracked, EntryOk e)
    {t : TrackedPage} (ht : t ∈ contents tracked) : PageOk t.1 := by
  simp only [contents, List.mem_flatMap, entryContents, List.mem_map] at ht
  obtain ⟨e, he, page, hp, rfl⟩ := ht
  exact pageOk_of_mem_entryPages (h e he) hp

/-- The tracker's range tests cover the pages of its runs. -/
theorem pageListUses_of_mem {tracked : List VmPageList} (h : ∀ e ∈ tracked, EntryOk e)
    {page : Word} (hp : page ∈ (contents tracked).map Prod.fst) :
    tracked.any (pageListUses page) = true := by
  obtain ⟨t, ht, rfl⟩ := List.mem_map.mp hp
  have hpage := pageOk_of_mem_contents h ht
  simp only [contents, List.mem_flatMap, entryContents, List.mem_map] at ht
  obtain ⟨e, he, page, hmem, rfl⟩ := ht
  have hne : e.pages ≠ 0 := fun hz => by
    rw [entryPages, hz] at hmem
    cases hmem
  have hbetween := ((h e he).mem_iff hne hpage.1).mp hmem
  rw [List.any_eq_true]
  refine ⟨e, he, ?_⟩
  simp only [pageListUses, Bool.and_eq_true, decide_eq_true_eq]
  exact hbetween

/-- A free page is used by no machine and by nobody else. -/
theorem free_of_machine {s : Hv} {vm page : Word} (hlisted : vm ∈ s.vmManagerVmList)
    (hentries : ∀ e ∈ trackedOf s vm, EntryOk e) (hfree : mmPageIsFree s page = true) :
    usedByOthers s vm page = false ∧ page ∉ machinePages s vm := by
  simp only [mmPageIsFree, mmPageUsedByVmManager, Bool.not_eq_true', Bool.or_eq_false_iff,
    List.any_eq_false, Bool.not_eq_true] at hfree
  obtain ⟨⟨⟨hchainload, harena⟩, hvmx⟩, hmachines⟩ := hfree
  constructor
  · simp only [usedByOthers, hchainload, harena, hvmx, Bool.or_self, Bool.false_or,
      List.any_eq_false]
    intro iter hiter
    have hused := hmachines iter hiter
    have hruns : (s.vmAt iter).trackedPages.any (pageListUses page) = false :=
      List.any_eq_false.mpr fun e he => by rw [hused.2 e he]; exact Bool.false_ne_true
    simp only [hused.1, hruns, Bool.and_false, Bool.or_self, Bool.false_eq_true, not_false_eq_true]
  · intro hmem
    have hany := pageListUses_of_mem hentries hmem
    rw [List.any_eq_true] at hany
    obtain ⟨e, he, hu⟩ := hany
    have hunused := (hmachines vm hlisted).2 e he
    rw [hu] at hunused
    cases hunused

/-! ## What a machine operation leaves alone -/

/-- The part of the state that no machine operation changes. -/
def fixedPart (s : Hv) : Hv :=
  { s with
    lastReturnedRegionIndex := 0
    lastReturnedPageIndex := 0
    mmReturned := []
    arenaAt := fun _ => default
    vmAt := fun _ => default
    memory := fun _ => 0 }

/-- A fixed field keeps its value. -/
theorem field_of_fixed {α : Type} {s s' : Hv} (h : fixedPart s' = fixedPart s) (get : Hv → α) :
    get (fixedPart s') = get (fixedPart s) := congrArg get h

/-- Use by others depends on the fixed part, on the records of the other machines
and on the control structure of the machine itself. -/
theorem usedByOthers_congr {vm : Word} {s s' : Hv} (hfixed : fixedPart s' = fixedPart s)
    (hothers : ∀ w, w ≠ vm → s'.vmAt w = s.vmAt w)
    (hflag : (s'.vmAt vm).flags &&& vmTFlagVmcsInitialized =
      (s.vmAt vm).flags &&& vmTFlagVmcsInitialized)
    (hregion : (s'.vmAt vm).vmcsRegion = (s.vmAt vm).vmcsRegion) (page : Word) :
    usedByOthers s' vm page = usedByOthers s vm page := by
  have hchainload : s'.mmChainloadPage = s.mmChainloadPage := field_of_fixed hfixed Hv.mmChainloadPage
  have hlist : s'.arenaList = s.arenaList := field_of_fixed hfixed Hv.arenaList
  have hvms : s'.vmManagerVmList = s.vmManagerVmList := field_of_fixed hfixed Hv.vmManagerVmList
  have hvmx : mmPageUsedByVmx s' page = mmPageUsedByVmx s page := by
    have hon : s'.vmxonRegionValid = s.vmxonRegionValid := field_of_fixed hfixed Hv.vmxonRegionValid
    have hvmxon : s'.vmxonRegion = s.vmxonRegion := field_of_fixed hfixed Hv.vmxonRegion
    have hvalid : s'.msrBitmapsPageValid = s.msrBitmapsPageValid :=
      field_of_fixed hfixed Hv.msrBitmapsPageValid
    have hbitmaps : s'.msrBitmapsPage = s.msrBitmapsPage := field_of_fixed hfixed Hv.msrBitmapsPage
    rw [mmPageUsedByVmx, mmPageUsedByVmx, hon, hvmxon, hvalid, hbitmaps]
  have hmachines : ∀ iter, (((s'.vmAt iter).flags &&& vmTFlagVmcsInitialized != 0 &&
        (s'.vmAt iter).vmcsRegion == page) ||
      (decide (iter ≠ vm) && (s'.vmAt iter).trackedPages.any (pageListUses page))) =
      (((s.vmAt iter).flags &&& vmTFlagVmcsInitialized != 0 && (s.vmAt iter).vmcsRegion == page) ||
      (decide (iter ≠ vm) && (s.vmAt iter).trackedPages.any (pageListUses page))) := by
    intro iter
    by_cases hiter : iter = vm
    · rw [hiter, hflag, hregion]
      simp only [ne_eq, not_true_eq_false, decide_false, Bool.false_and]
    · rw [hothers iter hiter]
  rw [usedByOthers, usedByOthers, hchainload, mmPageUsedByArena, mmPageUsedByArena, hlist, hvmx, hvms]
  simp only [hmachines]

/-- A machine operation changes the tracked pages, the root of the tables and
the flags of its machine, the arena of the machines and what is not fixed. -/
structure MachineFrame (vm : Word) (s s' : Hv) : Prop where
  fixed : fixedPart s' = fixedPart s
  others : ∀ w, w ≠ vm → s'.vmAt w = s.vmAt w
  machine : ∃ tracked eptp flags, s'.vmAt vm = { s.vmAt vm with
      trackedPages := tracked
      vmcsConfig := { (s.vmAt vm).vmcsConfig with eptp := eptp }
      flags := flags } ∧
    flags &&& vmTFlagVmcsInitialized = (s.vmAt vm).flags &&& vmTFlagVmcsInitialized
  otherArenas : ∀ page, s.vmManagerArena ≠ some page → s'.arenaAt page = s.arenaAt page
  arena : ∀ page, s.vmManagerArena = some page → (s.arenaAt page).usedSize.toNat ≤ 4064 →
    (s.arenaAt page).usedSize.toNat ≤ (s'.arenaAt page).usedSize.toNat ∧
      (s'.arenaAt page).usedSize.toNat ≤ 4064

namespace MachineFrame

variable {vm : Word} {s s' s'' : Hv}

theorem refl (vm : Word) (s : Hv) : MachineFrame vm s s where
  fixed := rfl
  others := fun _ _ => rfl
  machine := ⟨_, _, _, rfl, rfl⟩
  otherArenas := fun _ _ => rfl
  arena := fun _ _ h => ⟨Nat.le_refl _, h⟩

theorem field {α : Type} (h : MachineFrame vm s s') (get : Hv → α) :
    get (fixedPart s') = get (fixedPart s) := field_of_fixed h.fixed get

theorem chainload (h : MachineFrame vm s s') : s'.mmChainloadPage = s.mmChainloadPage :=
  h.field Hv.mmChainloadPage

theorem vmList (h : MachineFrame vm s s') : s'.vmManagerVmList = s.vmManagerVmList :=
  h.field Hv.vmManagerVmList

theorem managerArena (h : MachineFrame vm s s') : s'.vmManagerArena = s.vmManagerArena :=
  h.field Hv.vmManagerArena

theorem map (h : MachineFrame vm s s') : efiMmap s' = efiMmap s :=
  congrArg ChainloadPage.efiMmapUsable h.chainload

theorem trans (h : MachineFrame vm s s') (h' : MachineFrame vm s' s'') :
    MachineFrame vm s s'' where
  fixed := h'.fixed.trans h.fixed
  others := fun w hw => (h'.others w hw).trans (h.others w hw)
  machine := by
    obtain ⟨_, _, _, hv, hf⟩ := h.machine
    obtain ⟨_, _, _, hv', hf'⟩ := h'.machine
    rw [hv] at hv' hf'
    exact ⟨_, _, _, hv', hf'.trans hf⟩
  otherArenas := fun page hp =>
    (h'.otherArenas page (h.managerArena ▸ hp)).trans (h.otherArenas page hp)
  arena := fun page hp hle => by
    have hfirst := h.arena page hp hle
    have hsecond := h'.arena page (h.managerArena ▸ hp) hfirst.2
    exact ⟨hfirst.1.trans hsecond.1, hsecond.2⟩

/-- Nobody else's use of a page changes. -/
theorem usedByOthers_eq (h : MachineFrame vm s s') (page : Word) :
    usedByOthers s' vm page = usedByOthers s vm page := by
  obtain ⟨tracked, eptp, flags, hv, hflags⟩ := h.machine
  refine usedByOthers_congr h.fixed h.others ?_ ?_ page
  · rw [hv]
    exact hflags
  · rw [hv]

end MachineFrame

/-! ## Taken pages -/

/-- The pages an operation took from the allocator, newest first: they are
different, below the limit, and were used by nobody. -/
structure Taken (vm : Word) (s s' : Hv) (taken : List Word) : Prop where
  returned : s'.mmReturned = taken ++ s.mmReturned
  nodup : taken.Nodup
  fresh : ∀ page ∈ taken, PageOk page ∧ usedByOthers s vm page = false ∧ page ∉ machinePages s vm

/-- A machine operation that leaves some pages loose: the tracked and the loose
pages are the tracked pages of before and those taken, only pages of the
reserved pool change their kind, and only tracked and loose frames were written. -/
structure Grown (vm : Word) (s s' : Hv) (loose taken : List Word) : Prop where
  frame : MachineFrame vm s s'
  takes : Taken vm s s' taken
  pages : (loose ++ machinePages s' vm).Perm (taken ++ machinePages s vm)
  kinds : ∀ t ∈ contents (trackedOf s vm), t.2 ≠ (.ept, true) → t ∈ contents (trackedOf s' vm)
  memory : ∀ f, frameAddress f ∉ loose ++ machinePages s' vm → SameFrame s.memory s'.memory f

theorem Grown.refl (vm : Word) (s : Hv) : Grown vm s s [] [] where
  frame := MachineFrame.refl vm s
  takes := ⟨rfl, List.nodup_nil, fun _ h => absurd h List.not_mem_nil⟩
  pages := List.Perm.refl _
  kinds := fun _ ht _ => ht
  memory := fun f _ => SameFrame.refl _ f

/-- Operations follow each other once no page is loose. -/
theorem Grown.trans {vm : Word} {s s' s'' : Hv} {loose taken taken' : List Word}
    (h : Grown vm s s' [] taken) (h' : Grown vm s' s'' loose taken') :
    Grown vm s s'' loose (taken' ++ taken) where
  frame := h.frame.trans h'.frame
  takes := by
    refine ⟨?_, ?_, ?_⟩
    · rw [h'.takes.returned, h.takes.returned, List.append_assoc]
    · refine List.nodup_append.mpr ⟨h'.takes.nodup, h.takes.nodup, fun a ha b hb hab => ?_⟩
      subst hab
      refine (h'.takes.fresh a ha).2.2 (h.pages.mem_iff.mpr ?_)
      exact List.mem_append_left _ hb
    · intro page hp
      rw [List.mem_append] at hp
      rcases hp with hp | hp
      · obtain ⟨hok, hothers, hnot⟩ := h'.takes.fresh page hp
        rw [h.frame.usedByOthers_eq] at hothers
        refine ⟨hok, hothers, fun hmem => hnot (h.pages.mem_iff.mpr ?_)⟩
        exact List.mem_append_right _ hmem
      · exact h.takes.fresh page hp
  pages := by
    rw [List.append_assoc]
    exact h'.pages.trans (h.pages.append_left taken')
  kinds := fun t ht hne => h'.kinds t (h.kinds t ht hne) hne
  memory := fun f hf => by
    refine (h.memory f fun hmem => hf (h'.pages.mem_iff.mpr ?_)).trans (h'.memory f hf)
    exact List.mem_append_right _ hmem

/-! ## The state of one machine -/

/-- The tables of a machine: the root is a frame, no table is reached by two
paths and every table that is reached is a tracked EPT page in use. -/
structure EptOk (m : Memory) (v : Vm) : Prop where
  root : frameAddress (frameOf v.vmcsConfig.eptp) = v.vmcsConfig.eptp
  separate : Separate (eptTables m) (frameOf v.vmcsConfig.eptp) 4
  tables : ∀ p t, p.length < 4 → follow (eptTables m) 0 (frameOf v.vmcsConfig.eptp) p = .table t →
    (frameAddress t, .ept, false) ∈ contents v.trackedPages

/-- Whether a machine has extended page tables. -/
def hasEpt (v : Vm) : Prop := v.flags &&& vmTFlagEptPml4Initialized ≠ 0

instance (v : Vm) : Decidable (hasEpt v) := inferInstanceAs (Decidable (_ ≠ _))

/-- A listed machine whose runs fit and do not overlap, whose reserved EPT
pages are zero and whose tables are in order, next to an allocator that works. -/
structure MachineOk (s : Hv) (vm : Word) : Prop where
  listed : vm ∈ s.vmManagerVmList
  map : ∀ page, UsablePage (efiMmap s) page → PageOk page
  cursor : CursorOk (efiMmap s) (savedCursor s)
  entries : ∀ e ∈ trackedOf s vm, EntryOk e
  distinct : (machinePages s vm).Nodup
  zeroed : ∀ f, (frameAddress f, .ept, true) ∈ contents (trackedOf s vm) → ZeroFrame s.memory f
  tree : hasEpt (s.vmAt vm) → EptOk s.memory (s.vmAt vm)

/-- Where the path of a slot list ends in the tables of a machine; without
tables it ends at once. -/
def eptFollow (s : Hv) (vm : Word) (path : List Slot) : End Frame Slot Word :=
  if hasEpt (s.vmAt vm) then
    follow (eptTables s.memory) 0 (frameOf (s.vmAt vm).vmcsConfig.eptp) path
  else .absent

/-- A tracked page has one kind. -/
theorem MachineOk.kind_unique {s : Hv} {vm : Word} (h : MachineOk s vm) {t u : TrackedPage}
    (ht : t ∈ contents (trackedOf s vm)) (hu : u ∈ contents (trackedOf s vm)) (he : t.1 = u.1) :
    t = u :=
  List.inj_on_of_nodup_map h.distinct ht hu he

/-- Tables that are reached are not among the zero pages of the reserved pool,
and their frames are tracked. -/
theorem MachineOk.mem_machinePages {s : Hv} {vm : Word} {f : Frame} {pageType : VmPageType}
    {pool : Bool} (h : (frameAddress f, pageType, pool) ∈ contents (trackedOf s vm)) :
    frameAddress f ∈ machinePages s vm := List.mem_map_of_mem h

/-- A step that keeps the root and the tables of a machine keeps it in order and
changes no path. -/
theorem MachineOk.of_same {s s' : Hv} {vm : Word} (h : MachineOk s vm)
    (hlisted : vm ∈ s'.vmManagerVmList) (hmap : efiMmap s' = efiMmap s)
    (hcursor : CursorOk (efiMmap s) (savedCursor s'))
    (hhas : hasEpt (s'.vmAt vm) ↔ hasEpt (s.vmAt vm))
    (heptp : (s'.vmAt vm).vmcsConfig.eptp = (s.vmAt vm).vmcsConfig.eptp)
    (hentries : ∀ e ∈ trackedOf s' vm, EntryOk e) (hdistinct : (machinePages s' vm).Nodup)
    (hinUse : ∀ f, (frameAddress f, .ept, false) ∈ contents (trackedOf s vm) →
      (frameAddress f, .ept, false) ∈ contents (trackedOf s' vm) ∧ SameFrame s.memory s'.memory f)
    (hzeroed : ∀ f, (frameAddress f, .ept, true) ∈ contents (trackedOf s' vm) →
      ZeroFrame s'.memory f) :
    MachineOk s' vm ∧ ∀ q, q.length ≤ 4 → eptFollow s' vm q = eptFollow s vm q := by
  have hsame : ∀ hs : hasEpt (s.vmAt vm), ∀ p t, p.length < 4 →
      follow (eptTables s.memory) 0 (frameOf (s.vmAt vm).vmcsConfig.eptp) p = .table t →
      ∀ d i, eptTables s'.memory d t i = eptTables s.memory d t i := fun hs p t hp ht d i =>
    eptTables_congr (hinUse t ((h.tree hs).tables p t hp ht)).2 d i
  constructor
  · refine ⟨hlisted, hmap ▸ h.map, hmap ▸ hcursor, hentries, hdistinct, hzeroed, ?_⟩
    intro hs
    have hs' := hhas.mp hs
    obtain ⟨hroot, hsep, htables⟩ := h.tree hs'
    refine ⟨by rw [heptp, hroot], ?_, ?_⟩
    · rw [heptp]
      exact hsep.congr (hsame hs')
    · intro p t hp ht
      rw [heptp, follow_congr_of_tables (hsame hs') hp.le] at ht
      exact (hinUse t (htables p t hp ht)).1
  · intro q hq
    by_cases hs : hasEpt (s.vmAt vm)
    · rw [eptFollow, eptFollow, if_pos hs, if_pos (hhas.mpr hs), heptp]
      exact follow_congr_of_tables (hsame hs) hq
    · rw [eptFollow, eptFollow, if_neg hs, if_neg (mt hhas.mp hs)]

end Rkhv.MachinePages
