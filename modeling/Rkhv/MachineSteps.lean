import Rkhv.MachinePages

/-!
# Steps of a machine operation

The single steps out of which the table and guest-memory operations are made:
taking a page from the allocator or the reserved pool, tracking a loose page,
linking a zero table into the tree and storing a leaf. Each keeps the machine in
order and says what it does to the pages and to the paths of the tree.
-/

namespace Rkhv.MachineSteps

open ByteMemory WordFields HostTypes HostState StateOutcome PageRuns FreePages FreePageSearch
  FreePageContract Arenas PageTracker PageTrackerRuns VmxPages RadixWalk Ept EptWalk MachinePages

variable {vm : Word} {s : Hv}

/-! ## Taking a page -/

/-- The state after the allocator returned a page. -/
def taking (s : Hv) (page : Word) (pos : Word × Word) : Hv :=
  { s with
    lastReturnedRegionIndex := pos.1
    lastReturnedPageIndex := pos.2
    mmReturned := page :: s.mmReturned }

/-- For a machine in order a returned page is below the limit and used by
nobody; a call that fails changes nothing. -/
theorem mmGetFreePage_spec (h : MachineOk s vm) :
    Ensures mmGetFreePage s
      (fun page s' => ∃ pos, ValidPosition (efiMmap s) pos ∧ s' = taking s page pos ∧
        PageOk page ∧ usedByOthers s vm page = false ∧ page ∉ machinePages s vm)
      (fun e s' => s' = s ∧ mmGetFreePage s' = .error e s') := by
  have hspec := ensures_mmGetFreePage h.cursor
    (Q := fun page s' => ∃ pos, ValidPosition (efiMmap s) pos ∧ s' = taking s page pos ∧
      PageOk page ∧ usedByOthers s vm page = false ∧ page ∉ machinePages s vm)
    (E := fun _ s' => s' = s)
    (fun pos hv hf _ => ⟨pos, hv, rfl, h.map _ (usablePage_iff.mpr ⟨pos, hv, rfl⟩),
      free_of_machine h.listed h.entries hf⟩)
    (fun _ _ _ => rfl) (fun _ _ _ => rfl)
  refine Ensures.intro (fun page s' hs => hspec.of_ok hs) fun e s' hs => ?_
  have he := hspec.of_error hs
  rw [he] at hs
  exact ⟨he, by rw [he]; exact hs⟩

/-- Taking a page changes nothing that a machine depends on. -/
theorem frame_taking (vm : Word) (s : Hv) (page : Word) (pos : Word × Word) (m : Memory) :
    MachineFrame vm s { taking s page pos with memory := m } where
  fixed := rfl
  others := fun _ _ => rfl
  machine := ⟨_, _, _, rfl, rfl⟩
  otherArenas := fun _ _ => rfl
  arena := fun _ _ h => ⟨Nat.le_refl _, h⟩

/-- A taken page is loose; until it is tracked only its frame may be written. -/
theorem grown_taking {page : Word} {pos : Word × Word} {m : Memory} (hpage : PageOk page)
    (hothers : usedByOthers s vm page = false) (hnew : page ∉ machinePages s vm)
    (hmemory : ∀ f, frameAddress f ≠ page → SameFrame s.memory m f) :
    Grown vm s { taking s page pos with memory := m } [page] [page] where
  frame := frame_taking vm s page pos m
  takes := by
    refine ⟨rfl, List.nodup_singleton page, fun p hp => ?_⟩
    rw [List.mem_singleton.mp hp]
    exact ⟨hpage, hothers, hnew⟩
  pages := List.Perm.refl _
  kinds := fun _ ht _ => ht
  memory := fun f hf => hmemory f fun he => hf (he ▸ List.mem_cons_self)

/-- A taken page keeps the machine in order, whatever its frame receives. -/
theorem machineOk_taking {page : Word} {pos : Word × Word} {m : Memory} (h : MachineOk s vm)
    (hpos : ValidPosition (efiMmap s) pos) (hnew : page ∉ machinePages s vm)
    (hmemory : ∀ f, frameAddress f ≠ page → SameFrame s.memory m f) :
    MachineOk { taking s page pos with memory := m } vm ∧
      ∀ q, q.length ≤ 4 → eptFollow { taking s page pos with memory := m } vm q = eptFollow s vm q := by
  have hother : ∀ f pageType pool, (frameAddress f, pageType, pool) ∈ contents (trackedOf s vm) →
      SameFrame s.memory m f := fun f _ _ hf =>
    hmemory f fun he => hnew (he ▸ MachineOk.mem_machinePages hf)
  exact h.of_same h.listed rfl (Or.inr hpos) Iff.rfl rfl h.entries h.distinct
    (fun f hf => ⟨hf, hother f _ _ hf⟩) (fun f hf => (h.zeroed f hf).of_same (hother f _ _ hf))

/-! ## Tracking a loose page -/

/-- The state after a page was tracked. -/
def tracking (s : Hv) (vm : Word) (tracked : List VmPageList) (arenaAt : Word → ArenaHeader) : Hv :=
  { withTracked s vm tracked with arenaAt := arenaAt }

@[simp] theorem trackedOf_tracking (s : Hv) (vm : Word) (tracked : List VmPageList)
    (arenaAt : Word → ArenaHeader) : trackedOf (tracking s vm tracked arenaAt) vm = tracked :=
  trackedOf_withTracked s vm tracked

theorem machinePages_tracking (s : Hv) (vm : Word) (tracked : List VmPageList)
    (arenaAt : Word → ArenaHeader) :
    machinePages (tracking s vm tracked arenaAt) vm = (contents tracked).map Prod.fst := by
  rw [machinePages, trackedOf_tracking]

/-- Room for one list entry. -/
theorem entryAllocated_used_le {s : Hv} {page : Word} (hroom : ¬arenaRoom s page < sizeofVmPageList)
    (hle : (s.arenaAt page).usedSize.toNat ≤ 4064) :
    ((s.arenaAt page).usedSize + sizeofVmPageList).toNat =
      (s.arenaAt page).usedSize.toNat + 24 ∧ (s.arenaAt page).usedSize.toNat + 24 ≤ 4064 := by
  have hheader : sizeofArenaHeader.toNat = 32 := rfl
  have hentry : sizeofVmPageList.toNat = 24 := rfl
  have hsize : pageSize.toNat = 4096 := rfl
  rw [arenaRoom, BitVec.lt_def, BitVec.toNat_sub, BitVec.toNat_add, hheader, hentry, hsize] at hroom
  rw [BitVec.toNat_add, hentry]
  omega

/-- Tracking changes the machine's list and the arena of the machines. -/
theorem frame_tracking {tracked : List VmPageList} {arenaAt : Word → ArenaHeader}
    (ha : EntryAllocated s arenaAt) : MachineFrame vm s (tracking s vm tracked arenaAt) where
  fixed := rfl
  others := fun w hw => Function.update_of_ne hw _ _
  machine := by
    refine ⟨tracked, (s.vmAt vm).vmcsConfig.eptp, (s.vmAt vm).flags, ?_, rfl⟩
    simp only [tracking, withTracked, Function.update_self]
  otherArenas := by
    intro page hpage
    rcases ha with rfl | ⟨arena, harena, _, rfl⟩
    · rfl
    · exact Function.update_of_ne (fun he => hpage (by rw [harena, he])) _ _
  arena := by
    intro page hpage hle
    rcases ha with rfl | ⟨arena, harena, hroom, rfl⟩
    · exact ⟨Nat.le_refl _, hle⟩
    · obtain rfl : page = arena := Option.some_inj.mp (hpage.symm.trans harena)
      obtain ⟨hused, hmax⟩ := entryAllocated_used_le hroom hle
      simp only [tracking, Function.update_self, hused]
      omega

/-- Tracking the loose page of an operation ends the operation. -/
theorem grown_tracked {s' s'' : Hv} {page : Word} {pageType : VmPageType} {pool : Bool}
    {taken : List Word} (h : Grown vm s s' [page] taken) (hframe : MachineFrame vm s' s'')
    (hreturned : s''.mmReturned = s'.mmReturned) (hmemory : s''.memory = s'.memory)
    (hperm : (contents (trackedOf s'' vm)).Perm
      ((page, pageType, pool) :: contents (trackedOf s' vm))) : Grown vm s s'' [] taken := by
  have hpages : (machinePages s'' vm).Perm (page :: machinePages s' vm) := hperm.map Prod.fst
  refine ⟨h.frame.trans hframe, ⟨hreturned.trans h.takes.returned, h.takes.nodup, h.takes.fresh⟩,
    hpages.trans h.pages, fun t ht hne => ?_, fun f hf => ?_⟩
  · exact hperm.mem_iff.mpr (List.mem_cons_of_mem _ (h.kinds t ht hne))
  · rw [hmemory]
    exact h.memory f fun hmem => hf (hpages.mem_iff.mpr hmem)

/-- A loose page is not tracked. -/
theorem loose_new {s' : Hv} {page : Word} {taken : List Word}
    (h : Grown vm s s' [page] taken) (hdistinct : (machinePages s vm).Nodup) :
    page ∉ machinePages s' vm := by
  have hnodup : (taken ++ machinePages s vm).Nodup :=
    List.nodup_append.mpr ⟨h.takes.nodup, hdistinct, fun a ha b hb hab =>
      (h.takes.fresh a ha).2.2 (hab ▸ hb)⟩
  have hperm := h.pages.nodup_iff.mpr hnodup
  rw [List.singleton_append, List.nodup_cons] at hperm
  exact hperm.1

/-- Tracking a new page of the given kind keeps the machine in order; a page of
the reserved pool has to be zero. -/
theorem machineOk_tracking {page : Word} {pageType : VmPageType} {pool : Bool}
    {tracked : List VmPageList} {arenaAt : Word → ArenaHeader} (h : MachineOk s vm)
    (hnew : page ∉ machinePages s vm) (hok : ∀ e ∈ tracked, EntryOk e)
    (hperm : (contents tracked).Perm ((page, pageType, pool) :: contents (trackedOf s vm)))
    (hzero : ∀ f, frameAddress f = page → pageType = .ept → pool = true → ZeroFrame s.memory f) :
    MachineOk (tracking s vm tracked arenaAt) vm ∧
      ∀ q, q.length ≤ 4 → eptFollow (tracking s vm tracked arenaAt) vm q = eptFollow s vm q := by
  have hvm : (tracking s vm tracked arenaAt).vmAt vm =
      { s.vmAt vm with trackedPages := tracked } := by
    simp only [tracking, withTracked, Function.update_self]
  have hdistinct : (machinePages (tracking s vm tracked arenaAt) vm).Nodup := by
    rw [machinePages_tracking, (hperm.map Prod.fst).nodup_iff, List.map_cons, List.nodup_cons]
    exact ⟨hnew, h.distinct⟩
  refine h.of_same h.listed rfl h.cursor (by rw [hvm]; exact Iff.rfl) (by rw [hvm])
    (by rw [trackedOf_tracking]; exact hok) hdistinct (fun f hf => ?_) (fun f hf => ?_)
  · rw [trackedOf_tracking]
    exact ⟨hperm.mem_iff.mpr (List.mem_cons_of_mem _ hf), SameFrame.refl _ f⟩
  · rw [trackedOf_tracking, hperm.mem_iff, List.mem_cons] at hf
    rcases hf with hf | hf
    · rw [Prod.mk.injEq, Prod.mk.injEq] at hf
      exact hzero f hf.1 hf.2.1.symm hf.2.2.symm
    · exact h.zeroed f hf

/-- Tracking a loose page of an operation; it fails only for lack of a list
entry and then changes nothing. -/
theorem track_loose {page : Word} {pageType : VmPageType} {pool : Bool} (h : MachineOk s vm)
    (hpage : PageOk page) (hnew : page ∉ machinePages s vm)
    (hzero : ∀ f, frameAddress f = page → pageType = .ept → pool = true → ZeroFrame s.memory f) :
    Ensures (vmManagerTrackPage vm page pageType pool) s
      (fun _ s' => ∃ tracked arenaAt, s' = tracking s vm tracked arenaAt ∧
        EntryAllocated s arenaAt ∧ MachineOk s' vm ∧
        (contents tracked).Perm ((page, pageType, pool) :: contents (trackedOf s vm)) ∧
        ∀ q, q.length ≤ 4 → eptFollow s' vm q = eptFollow s vm q)
      (fun e s' => s' = s ∧ EntryRefused s e) := by
  refine (vmManagerTrackPage_spec hpage h.entries
    fun hmem => hnew (List.mem_map_of_mem hmem)).mono ?_ fun e s' he => ⟨he.1, he.2.1⟩
  rintro _ _ ⟨tracked, arenaAt, rfl, ha, hok, hperm⟩
  obtain ⟨hmachine, hfollow⟩ := machineOk_tracking h hnew hok hperm hzero
  exact ⟨tracked, arenaAt, rfl, ha, hmachine, hperm, hfollow⟩

/-! ## A page for a table -/

/-- How an operation of a machine fails: the allocator does not return, or a
list entry is refused. What was taken up to there is accounted for. -/
def Refused (vm : Word) (s : Hv) (e : Fault) (s' : Hv) : Prop :=
  (∃ loose taken, Grown vm s s' loose taken) ∧
    (mmGetFreePage s' = .error e s' ∨ EntryRefused s' e)

/-- A failure after a finished part of an operation. -/
theorem Refused.after {s' s'' : Hv} {taken : List Word} {e : Fault} (h : Grown vm s s' [] taken)
    (h' : Refused vm s' e s'') : Refused vm s e s'' := by
  obtain ⟨⟨loose, taken', hgrown⟩, hcause⟩ := h'
  exact ⟨⟨loose, taken' ++ taken, h.trans hgrown⟩, hcause⟩

/-- A zero frame between its source and the tracker. -/
structure LooseTable (vm : Word) (s s' : Hv) (f : Frame) : Prop where
  ok : MachineOk s' vm
  grown : ∃ taken, Grown vm s s' [frameAddress f] taken
  zero : ZeroFrame s'.memory f
  same : (s'.vmAt vm).flags = (s.vmAt vm).flags ∧ (s'.vmAt vm).vmcsConfig = (s.vmAt vm).vmcsConfig
  follow : ∀ q, q.length ≤ 4 → eptFollow s' vm q = eptFollow s vm q

/-- Only the frame of a filled page changes. -/
theorem fill_other {m : Memory} {page : Word} (hpage : PageOk page) :
    (∀ f, frameAddress f ≠ page → SameFrame m (fill m page 0 4096) f) ∧
      ZeroFrame (fill m page 0 4096) (frameOf page) := by
  have hframe := frameAddress_frameOf hpage
  refine ⟨fun f hf => ?_, ?_⟩
  · rw [← hframe]
    exact sameFrame_fill fun he => hf (he ▸ hframe)
  · have hzero := zeroFrame_fill m (frameOf page)
    rwa [hframe] at hzero

/-- A free page filled with zeros is a loose zero frame, and a new one. -/
theorem zeroPage_spec (h : MachineOk s vm) (result : Word → Word) :
    Ensures (do
        let page ← mmGetFreePage
        memset (p2vIdentityMap page) 0 4096
        return result page) s
      (fun r s' => ∃ f, r = result (frameAddress f) ∧ LooseTable vm s s' f ∧
        frameAddress f ∉ machinePages s vm)
      (fun e s' => s' = s ∧ mmGetFreePage s' = .error e s') := by
  simp only [ensures_bind, ensures_memset, ensures_pure, v2p_p2v]
  refine (mmGetFreePage_spec h).mono ?_ fun _ _ he => he
  rintro page _ ⟨pos, hpos, rfl, hpage, hothers, hnew⟩
  obtain ⟨hother, hzero⟩ := fill_other (m := s.memory) hpage
  obtain ⟨hok, hfollow⟩ := machineOk_taking h hpos hnew hother
  have hframe := frameAddress_frameOf hpage
  refine ⟨frameOf page, by rw [hframe], ⟨hok, ⟨[page], ?_⟩, hzero, ⟨rfl, rfl⟩, hfollow⟩,
    by rw [hframe]; exact hnew⟩
  rw [hframe]
  exact grown_taking hpage hothers hnew hother

/-- `vmx_get_free_ept_page` yields a loose zero frame. -/
theorem vmxGetFreeEptPage_spec (h : MachineOk s vm) :
    Ensures vmxGetFreeEptPage s
      (fun eptPage s' => ∃ f, eptPage = p2vIdentityMap (frameAddress f) ∧ LooseTable vm s s' f)
      (fun e s' => s' = s ∧ mmGetFreePage s' = .error e s') :=
  (zeroPage_spec h p2vIdentityMap).mono (fun _ _ ⟨f, hr, hloose, _⟩ => ⟨f, hr, hloose⟩)
    fun _ _ he => he

/-- Untracking a reserved page makes it loose. -/
theorem looseTable_untrack {page : Word} {tracked : List VmPageList} (h : MachineOk s vm)
    (hok : ∀ e ∈ tracked, EntryOk e)
    (hperm : (contents (trackedOf s vm)).Perm ((page, .ept, true) :: contents tracked)) :
    PageOk page ∧ LooseTable vm s (tracking s vm tracked s.arenaAt) (frameOf page) := by
  have hmem : (page, VmPageType.ept, true) ∈ contents (trackedOf s vm) :=
    hperm.mem_iff.mpr List.mem_cons_self
  have hpage : PageOk page := pageOk_of_mem_contents h.entries hmem
  have hframe := frameAddress_frameOf hpage
  have hvm : (tracking s vm tracked s.arenaAt).vmAt vm = { s.vmAt vm with trackedPages := tracked } := by
    simp only [tracking, withTracked, Function.update_self]
  have hpages : (machinePages s vm).Perm
      (page :: machinePages (tracking s vm tracked s.arenaAt) vm) := by
    rw [machinePages_tracking]
    exact hperm.map Prod.fst
  have hdistinct := hpages.nodup_iff.mp h.distinct
  rw [List.nodup_cons] at hdistinct
  have hframes : MachineFrame vm s (tracking s vm tracked s.arenaAt) := frame_tracking (Or.inl rfl)
  have hkept : MachineOk (tracking s vm tracked s.arenaAt) vm ∧
      ∀ q, q.length ≤ 4 → eptFollow (tracking s vm tracked s.arenaAt) vm q = eptFollow s vm q := by
    refine h.of_same h.listed rfl h.cursor (by rw [hvm]; exact Iff.rfl) (by rw [hvm])
      (by rw [trackedOf_tracking]; exact hok) hdistinct.2 (fun f hf => ?_) (fun f hf => ?_)
    · rw [hperm.mem_iff, List.mem_cons] at hf
      rw [trackedOf_tracking]
      exact ⟨hf.resolve_left (by simp), SameFrame.refl _ f⟩
    · rw [trackedOf_tracking] at hf
      exact h.zeroed f (hperm.mem_iff.mpr (List.mem_cons_of_mem _ hf))
  obtain ⟨hmachine, hfollow⟩ := hkept
  refine ⟨hpage, hmachine, ⟨[], ?_⟩, h.zeroed _ (hframe.symm ▸ hmem), by rw [hvm]; exact ⟨rfl, rfl⟩,
    hfollow⟩
  refine ⟨hframes, ⟨rfl, List.nodup_nil, fun _ hp => absurd hp List.not_mem_nil⟩, ?_,
    fun t ht hne => ?_, fun f _ => SameFrame.refl _ f⟩
  · rw [hframe]
    exact hpages.symm
  · rw [hperm.mem_iff, List.mem_cons] at ht
    rw [trackedOf_tracking]
    exact ht.resolve_left fun he => hne (he ▸ rfl)

/-- A page for a table is a loose zero frame, of the reserved pool or free. -/
theorem eptTablePage_spec (h : MachineOk s vm) :
    Ensures (eptTablePage vm) s
      (fun eptPage s' => ∃ f, eptPage = p2vIdentityMap (frameAddress f) ∧ LooseTable vm s s' f)
      (fun e s' => s' = s ∧ mmGetFreePage s' = .error e s') := by
  simp only [eptTablePage, vmManagerUntrackEptPageFromReservedPool, ensures_bind, ensures_pure]
  refine (vmManagerUntrackPage_spec h.entries).mono ?_ fun _ _ he => he
  intro r s' hr
  cases r with
  | none =>
    obtain ⟨rfl, _⟩ := hr
    exact vmxGetFreeEptPage_spec h
  | some page =>
    obtain ⟨tracked, rfl, hok, hperm⟩ := hr
    obtain ⟨hpage, hloose⟩ := looseTable_untrack h hok hperm
    exact ⟨frameOf page, by rw [frameAddress_frameOf hpage], hloose⟩

/-! ## Writing an entry -/

/-- The state after an entry was stored in a slot of a table. -/
def storing (s : Hv) (f : Frame) (i : Slot) (entry : Word) : Hv :=
  { s with memory := writeQword s.memory (slotAddress f i) entry }

/-- Other frames keep their bytes. -/
theorem sameFrame_storing {f g : Frame} {i : Slot} {entry : Word} (h : g ≠ f) :
    SameFrame s.memory (storing s f i entry).memory g := sameFrame_writeSlot h

/-- Storing in a tracked frame is an operation of the machine. -/
theorem grown_storing {f : Frame} {i : Slot} {entry : Word}
    (hf : frameAddress f ∈ machinePages s vm) : Grown vm s (storing s f i entry) [] [] where
  frame := ⟨rfl, fun _ _ => rfl, ⟨_, _, _, rfl, rfl⟩, fun _ _ => rfl, fun _ _ h => ⟨Nat.le_refl _, h⟩⟩
  takes := ⟨rfl, List.nodup_nil, fun _ h => absurd h List.not_mem_nil⟩
  pages := List.Perm.refl _
  kinds := fun _ ht _ => ht
  memory := fun _ hg => sameFrame_storing fun he => hg (he ▸ hf)

section Tree

variable {p : List Slot} {i : Slot} {x : Frame} (h : MachineOk s vm) (hept : hasEpt (s.vmAt vm))

include hept

theorem eptFollow_eq (q : List Slot) : eptFollow s vm q =
    follow (eptTables s.memory) 0 (frameOf (s.vmAt vm).vmcsConfig.eptp) q := if_pos hept

/-- The entry behind one more slot of a path to a table. -/
theorem eptFollow_snoc (hx : eptFollow s vm p = .table x) : eptFollow s vm (p ++ [i]) =
    match eptTables s.memory p.length x i with
    | .absent => .absent
    | .table t => .table t
    | .leaf entry => .leaf entry [] := by
  rw [eptFollow_eq hept] at hx ⊢
  rw [follow_append hx, Nat.zero_add, follow]
  cases eptTables s.memory p.length x i <;> rfl

include h

/-- The tables in use are tracked. -/
theorem reached_tracked (hp : p.length < 4) (hx : eptFollow s vm p = .table x) :
    (frameAddress x, .ept, false) ∈ contents (trackedOf s vm) := by
  rw [eptFollow_eq hept] at hx
  exact (h.tree hept).tables p x hp hx

/-- A store into a table in use keeps the machine in order as soon as the tree
stays separate and reaches tracked pages only. -/
theorem machineOk_storing {entry : Word} (hp : p.length < 4) (hx : eptFollow s vm p = .table x)
    (hsep : Separate (eptTables (storing s x i entry).memory)
      (frameOf (s.vmAt vm).vmcsConfig.eptp) 4)
    (htables : ∀ q t, q.length < 4 → eptFollow (storing s x i entry) vm q = .table t →
      (frameAddress t, .ept, false) ∈ contents (trackedOf s vm)) :
    MachineOk (storing s x i entry) vm := by
  have hxt := reached_tracked h hept hp hx
  refine ⟨h.listed, h.map, h.cursor, h.entries, h.distinct, fun f hf => ?_, fun _ => ?_⟩
  · refine (h.zeroed f hf).of_same (sameFrame_storing fun he => ?_)
    have hkind := h.kind_unique hf hxt (he ▸ rfl)
    simp at hkind
  · refine ⟨(h.tree hept).root, hsep, fun q t hq ht => htables q t hq ?_⟩
    rw [eptFollow_eq (s := storing s x i entry) hept]
    exact ht

/-- Linking a zero frame that is tracked but not reached adds one table. -/
theorem machineOk_link {f : Frame} (hp : p.length < 3) (hx : eptFollow s vm p = .table x)
    (habs : eptFollow s vm (p ++ [i]) = .absent) (hzero : ZeroFrame s.memory f)
    (htracked : (frameAddress f, .ept, false) ∈ contents (trackedOf s vm))
    (hfresh : ∀ q, q.length < 4 → eptFollow s vm q ≠ .table f) :
    MachineOk (storing s x i (eptEntry (frameAddress f))) vm ∧
      ∀ q, q.length ≤ 4 → eptFollow (storing s x i (eptEntry (frameAddress f))) vm q =
        if q = p ++ [i] then .table f else eptFollow s vm q := by
  have hentry : eptTables s.memory p.length x i = .absent := by
    rw [eptFollow_snoc hept hx] at habs
    split at habs
    · assumption
    · cases habs
    · cases habs
  have hfollow := hx
  rw [eptFollow_eq hept] at hfollow
  have hother : ∀ d y j, ¬(y = x ∧ j = i) →
      eptTables (storing s x i (eptEntry (frameAddress f))).memory d y j =
        eptTables s.memory d y j := fun d y j hne => by
    rw [storing, eptTables_store, if_neg hne]
  have hnew : eptTables (storing s x i (eptEntry (frameAddress f))).memory p.length x i = .table f := by
    rw [storing, eptTables_store, if_pos ⟨rfl, rfl⟩, eptDecode_eptEntry hp, frameOf_frameAddress]
  have hempty : ∀ d j, eptTables s.memory d f j = .absent := eptTables_of_zero hzero
  have hfresh' : ∀ q, q.length < 4 → follow (eptTables s.memory) 0
      (frameOf (s.vmAt vm).vmcsConfig.eptp) q ≠ .table f := fun q hq => by
    rw [← eptFollow_eq hept]
    exact hfresh q hq
  have hp4 : p.length < 4 := by omega
  have hpaths : ∀ q, q.length ≤ 4 → eptFollow (storing s x i (eptEntry (frameAddress f))) vm q =
      if q = p ++ [i] then .table f else eptFollow s vm q := fun q hq => by
    rw [eptFollow_eq hept, eptFollow_eq (s := storing s x i (eptEntry (frameAddress f))) hept]
    exact follow_link (h.tree hept).separate hp4 hfollow hentry hnew hother hfresh' hempty hq
  refine ⟨machineOk_storing h hept hp4 hx ?_ fun q t hq ht => ?_, hpaths⟩
  · exact Separate.link (h.tree hept).separate hp4 hfollow hentry hnew hother hfresh' hempty
  · rw [hpaths q hq.le] at ht
    split at ht
    · cases ht
      exact htracked
    · exact reached_tracked h hept hq ht

/-- Storing a leaf in an empty slot of a page table adds one translation. -/
theorem machineOk_leaf (hp : p.length = 3) (hx : eptFollow s vm p = .table x) (page : Word) :
    MachineOk (storing s x i (eptEntry page)) vm ∧
      ∀ q, q.length ≤ 4 → eptFollow (storing s x i (eptEntry page)) vm q =
        if q = p ++ [i] then .leaf (eptEntry page) [] else eptFollow s vm q := by
  have hfollow := hx
  rw [eptFollow_eq hept] at hfollow
  have hother : ∀ d y j, ¬(y = x ∧ j = i) →
      eptTables (storing s x i (eptEntry page)).memory d y j = eptTables s.memory d y j :=
    fun d y j hne => by rw [storing, eptTables_store, if_neg hne]
  have hnew : eptTables (storing s x i (eptEntry page)).memory p.length x i =
      .leaf (eptEntry page) := by
    rw [storing, eptTables_store, if_pos ⟨rfl, rfl⟩, hp, eptDecode_leaf]
  have hp4 : p.length < 4 := by omega
  have hpaths : ∀ q, q.length ≤ 4 → eptFollow (storing s x i (eptEntry page)) vm q =
      if q = p ++ [i] then .leaf (eptEntry page) [] else eptFollow s vm q := fun q hq => by
    rw [eptFollow_eq hept, eptFollow_eq (s := storing s x i (eptEntry page)) hept]
    split
    · rename_i he
      rw [he]
      exact follow_store_self (h.tree hept).separate hp4 hfollow hnew hother []
    · rename_i hne
      refine follow_update (h.tree hept).separate hp4 hfollow hother hq fun r hr => hne ?_
      have hlen := congrArg List.length hr
      rw [List.length_append, List.length_cons] at hlen
      have hnil : r = [] := List.length_eq_zero_iff.mp (by omega)
      rw [hr, hnil]
  refine ⟨machineOk_storing h hept hp4 hx ?_ fun q t hq ht => ?_, hpaths⟩
  · exact Separate.store (h.tree hept).separate hp4 hfollow hnew hother
  · rw [hpaths q hq.le] at ht
    split at ht
    · cases ht
    · exact reached_tracked h hept hq ht

end Tree

/-! ## Tracking a loose frame -/

/-- A loose frame that became tracked, of the given kind. -/
structure Tracked (vm : Word) (s s' : Hv) (f : Frame) (pageType : VmPageType) (pool : Bool) :
    Prop where
  ok : MachineOk s' vm
  grown : ∃ taken, Grown vm s s' [] taken
  zero : ZeroFrame s'.memory f
  same : (s'.vmAt vm).flags = (s.vmAt vm).flags ∧ (s'.vmAt vm).vmcsConfig = (s.vmAt vm).vmcsConfig
  tracked : (frameAddress f, pageType, pool) ∈ contents (trackedOf s' vm)
  unreached : ∀ q, q.length < 4 → eptFollow s' vm q ≠ .table f
  follow : ∀ q, q.length ≤ 4 → eptFollow s' vm q = eptFollow s vm q

/-- Tracking a loose zero frame; a table that is reached was tracked before. -/
theorem LooseTable.track {s₁ : Hv} {f : Frame} (h : MachineOk s vm) (hloose : LooseTable vm s s₁ f)
    (pageType : VmPageType) (pool : Bool) :
    Ensures (vmManagerTrackPage vm (frameAddress f) pageType pool) s₁
      (fun _ s₂ => Tracked vm s s₂ f pageType pool) (fun e s₂ => Refused vm s e s₂) := by
  obtain ⟨hok, ⟨taken, hgrown⟩, hzero, hsame, hfollow⟩ := hloose
  have hnew := loose_new hgrown h.distinct
  have hframe : ∀ g, frameAddress g = frameAddress f → pageType = .ept → pool = true →
      ZeroFrame s₁.memory g := fun g hg _ _ => frameAddress_injective hg ▸ hzero
  refine (track_loose hok (pageOk_frameAddress f) hnew hframe).mono ?_ ?_
  · rintro _ _ ⟨tracked, arenaAt, rfl, ha, hok₂, hperm, hfollow₂⟩
    have hvm : (tracking s₁ vm tracked arenaAt).vmAt vm =
        { s₁.vmAt vm with trackedPages := tracked } := by
      simp only [tracking, withTracked, Function.update_self]
    have hgrown₂ : Grown vm s (tracking s₁ vm tracked arenaAt) [] taken :=
      grown_tracked hgrown (frame_tracking ha) rfl rfl (by rw [trackedOf_tracking]; exact hperm)
    refine ⟨hok₂, ⟨taken, hgrown₂⟩, hzero, by rw [hvm]; exact hsame, ?_, fun q hq ht => ?_,
      fun q hq => (hfollow₂ q hq).trans (hfollow q hq)⟩
    · rw [trackedOf_tracking]
      exact hperm.mem_iff.mpr List.mem_cons_self
    · rw [hfollow₂ q hq.le] at ht
      by_cases hept : hasEpt (s₁.vmAt vm)
      · exact hnew (MachineOk.mem_machinePages (reached_tracked hok hept hq ht))
      · rw [eptFollow, if_neg hept] at ht
        cases ht
  · rintro e s₂ ⟨rfl, hrefused⟩
    exact ⟨⟨_, taken, hgrown⟩, Or.inr hrefused⟩

end Rkhv.MachineSteps
