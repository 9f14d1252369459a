import Rkhv.PageTracker

/-!
# The page tracker as a set of pages

Over any run of track and untrack calls the list of runs represents a set of
pages with their kinds: tracking inserts a page, untracking erases one of the
reserved pool, and the runs that are not empty never overlap.
-/

namespace Rkhv.PageTrackerRuns

open ByteMemory HostTypes HostState StateOutcome PageRuns Arenas PageTracker

/-- The state with other tracked pages of a machine. -/
def withTracked (s : Hv) (vm : Word) (tracked : List VmPageList) : Hv :=
  { s with vmAt := Function.update s.vmAt vm { s.vmAt vm with trackedPages := tracked } }

/-- Tracked pages of a machine. -/
def trackedOf (s : Hv) (vm : Word) : List VmPageList := (s.vmAt vm).trackedPages

@[simp] theorem trackedOf_withTracked (s : Hv) (vm : Word) (tracked : List VmPageList) :
    trackedOf (withTracked s vm tracked) vm = tracked := by
  simp only [trackedOf, withTracked, Function.update_self]

/-- Arena headers after a list entry may have been allocated. -/
def EntryAllocated (s : Hv) (arenaAt : Word → ArenaHeader) : Prop :=
  arenaAt = s.arenaAt ∨ ∃ page, s.vmManagerArena = some page ∧
    ¬arenaRoom s page < sizeofVmPageList ∧
    arenaAt = Function.update s.arenaAt page ⟨(s.arenaAt page).usedSize + sizeofVmPageList⟩

/-- The only ways in which tracking fails: there is no room, or no arena, for a
new list entry. -/
def EntryRefused (s : Hv) (e : Fault) : Prop :=
  (s.vmManagerArena = none ∧ e = .nullPointer) ∨ ∃ page, s.vmManagerArena = some page ∧
    arenaRoom s page < sizeofVmPageList ∧ e = .panic "subarenas not supported right now"

/-- Tracking, by the room in the list and in the arena. -/
theorem ensures_vmManagerTrackPage {vm page : Word} {pageType : VmPageType} {reservedPool : Bool}
    {s : Hv} {Q : Unit → Hv → Prop} {E : Fault → Hv → Prop} :
    Ensures (vmManagerTrackPage vm page pageType reservedPool) s Q E ↔
      match trackInPlace page pageType reservedPool (trackedOf s vm) with
      | some tracked => Q () (withTracked s vm tracked)
      | none =>
        match s.vmManagerArena with
        | none => E .nullPointer s
        | some arena =>
          (arenaRoom s arena < sizeofVmPageList →
            E (.panic "subarenas not supported right now") s) ∧
          (¬arenaRoom s arena < sizeofVmPageList →
            Q () { withTracked s vm (⟨page, 1, pageType, reservedPool⟩ :: trackedOf s vm) with
              arenaAt := Function.update s.arenaAt arena
                ⟨(s.arenaAt arena).usedSize + sizeofVmPageList⟩ }) := by
  simp only [vmManagerTrackPage, ensures_bind, ensures_get]
  change Ensures (match trackInPlace page pageType reservedPool (trackedOf s vm) with
    | some tracked => _ | none => _) s _ _ ↔ _
  cases trackInPlace page pageType reservedPool (trackedOf s vm) with
  | some tracked => exact Iff.rfl
  | none =>
    simp only [ensures_bind, ensures_arenaAllocate, ensures_modifyVm]
    exact Iff.rfl

/-- Tracking a page that is not tracked adds it to the contents of the machine
and changes nothing else, or fails for lack of a list entry. -/
theorem vmManagerTrackPage_spec {vm page : Word} {pageType : VmPageType} {reservedPool : Bool}
    {s : Hv} (hpage : PageOk page) (hok : ∀ e ∈ trackedOf s vm, EntryOk e)
    (hnew : (page, pageType, reservedPool) ∉ contents (trackedOf s vm)) :
    Ensures (vmManagerTrackPage vm page pageType reservedPool) s
      (fun _ s' => ∃ tracked arenaAt,
        s' = { withTracked s vm tracked with arenaAt := arenaAt } ∧ EntryAllocated s arenaAt ∧
        (∀ e ∈ tracked, EntryOk e) ∧
        (contents tracked).Perm ((page, pageType, reservedPool) :: contents (trackedOf s vm)))
      (fun e s' => s' = s ∧ EntryRefused s e ∧
        trackInPlace page pageType reservedPool (trackedOf s vm) = none) := by
  obtain ⟨hsingle, hpages⟩ := entry_single hpage pageType reservedPool
  rw [ensures_vmManagerTrackPage]
  split
  · rename_i tracked hplace
    obtain ⟨hall, hperm⟩ := trackInPlace_contents hpage hok hnew hplace
    exact ⟨tracked, s.arenaAt, rfl, Or.inl rfl, hall, hperm⟩
  · rename_i hplace
    split
    · rename_i harena
      exact ⟨rfl, Or.inl ⟨harena, rfl⟩, hplace⟩
    · rename_i arena harena
      refine ⟨fun hroom => ⟨rfl, Or.inr ⟨arena, harena, hroom, rfl⟩, hplace⟩, fun hroom => ?_⟩
      refine ⟨_, _, rfl, Or.inr ⟨arena, harena, hroom, rfl⟩,
        List.forall_mem_cons.mpr ⟨hsingle, hok⟩, ?_⟩
      rw [contents_cons, hpages]
      exact List.Perm.refl _

/-- The list after the reserved pool was asked for a page. -/
theorem ensures_untrack {vm : Word} {pageType : VmPageType} {s : Hv} {Q : Option Word → Hv → Prop}
    {E : Fault → Hv → Prop} :
    Ensures (vmManagerUntrackPageFromReservedPool vm pageType) s Q E ↔
      match untrackLoop pageType (trackedOf s vm) with
      | none => Q none s
      | some (page, tracked) => Q (some page) (withTracked s vm tracked) := by
  simp only [vmManagerUntrackPageFromReservedPool, ensures_bind, ensures_get]
  change Ensures (match untrackLoop pageType (trackedOf s vm) with
    | none => _ | some (page, tracked) => _) s _ _ ↔ _
  cases untrackLoop pageType (trackedOf s vm) with
  | none => exact Iff.rfl
  | some taken =>
    simp only [ensures_bind, ensures_modifyVm, ensures_pure]
    exact Iff.rfl

/-- Untracking never fails: it takes one page of the reserved pool off the
contents, or finds none and changes nothing. -/
theorem vmManagerUntrackPage_spec {vm : Word} {pageType : VmPageType} {s : Hv}
    (hok : ∀ e ∈ trackedOf s vm, EntryOk e) {E : Fault → Hv → Prop} :
    Ensures (vmManagerUntrackPageFromReservedPool vm pageType) s
      (fun r s' => match r with
        | none => s' = s ∧ ∀ page, (page, pageType, true) ∉ contents (trackedOf s vm)
        | some page => ∃ tracked, s' = withTracked s vm tracked ∧ (∀ e ∈ tracked, EntryOk e) ∧
            (contents (trackedOf s vm)).Perm ((page, pageType, true) :: contents tracked)) E := by
  rw [ensures_untrack]
  split
  · rename_i hloop
    exact ⟨rfl, untrackLoop_eq_none.mp hloop⟩
  · rename_i page tracked hloop
    obtain ⟨hall, hperm⟩ := untrackLoop_contents hok hloop
    exact ⟨tracked, rfl, hall, hperm⟩

/-! ## Runs -/

/-- States after a run of track and untrack calls on a machine whose list was
empty, with the pages tracked and not yet untracked. A page is only tracked
while it is not tracked under any kind; between the calls everything but the
list may change. -/
inductive TrackerRun (vm : Word) : Hv → Finset TrackedPage → Prop where
  | start {s : Hv} (hempty : trackedOf s vm = []) : TrackerRun vm s ∅
  | other {s s' : Hv} {pages : Finset TrackedPage} (h : TrackerRun vm s pages)
      (hsame : trackedOf s' vm = trackedOf s vm) : TrackerRun vm s' pages
  | track {s s' : Hv} {pages : Finset TrackedPage} {page : Word} {pageType : VmPageType}
      {reservedPool : Bool} (h : TrackerRun vm s pages) (halign : page.toNat % 4096 = 0)
      (hlimit : page.toNat < 2 ^ 52) (hnew : ∀ t ∈ pages, t.1 ≠ page)
      (hcall : vmManagerTrackPage vm page pageType reservedPool s = .ok () s') :
      TrackerRun vm s' (insert (page, pageType, reservedPool) pages)
  | untrack {s s' : Hv} {pages : Finset TrackedPage} {page : Word} {pageType : VmPageType}
      (h : TrackerRun vm s pages)
      (hcall : vmManagerUntrackPageFromReservedPool vm pageType s = .ok (some page) s') :
      TrackerRun vm s' (pages.erase (page, pageType, true))
  | untrackNone {s s' : Hv} {pages : Finset TrackedPage} {pageType : VmPageType}
      (h : TrackerRun vm s pages)
      (hcall : vmManagerUntrackPageFromReservedPool vm pageType s = .ok none s') :
      TrackerRun vm s' pages

/-- The list represents a set of pages: its runs fit, no page is in it twice
and its contents are the set. -/
structure Represents (tracked : List VmPageList) (pages : Finset TrackedPage) : Prop where
  ok : ∀ e ∈ tracked, EntryOk e
  nodup : ((contents tracked).map Prod.fst).Nodup
  exact : ∀ t, t ∈ contents tracked ↔ t ∈ pages

/-- Tracking a new page inserts it. -/
theorem Represents.track {tracked tracked' : List VmPageList} {pages : Finset TrackedPage}
    {t : TrackedPage} (h : Represents tracked pages) (hnew : ∀ u ∈ pages, u.1 ≠ t.1)
    (hok : ∀ e ∈ tracked', EntryOk e) (hperm : (contents tracked').Perm (t :: contents tracked)) :
    Represents tracked' (insert t pages) := by
  refine ⟨hok, ?_, fun u => ?_⟩
  · rw [(hperm.map Prod.fst).nodup_iff, List.map_cons, List.nodup_cons]
    refine ⟨fun hmem => ?_, h.nodup⟩
    obtain ⟨u, hu, he⟩ := List.mem_map.mp hmem
    exact hnew u ((h.exact u).mp hu) he
  · rw [hperm.mem_iff, List.mem_cons, h.exact, Finset.mem_insert]

/-- Untracking a page erases it. -/
theorem Represents.untrack {tracked tracked' : List VmPageList} {pages : Finset TrackedPage}
    {t : TrackedPage} (h : Represents tracked pages) (hok : ∀ e ∈ tracked', EntryOk e)
    (hperm : (contents tracked).Perm (t :: contents tracked')) :
    t ∈ pages ∧ Represents tracked' (pages.erase t) := by
  have hnodup := h.nodup
  rw [(hperm.map Prod.fst).nodup_iff, List.map_cons, List.nodup_cons] at hnodup
  refine ⟨(h.exact t).mp (hperm.mem_iff.mpr List.mem_cons_self), hok, hnodup.2, fun u => ?_⟩
  rw [Finset.mem_erase, ← h.exact, hperm.mem_iff, List.mem_cons]
  constructor
  · intro hu
    exact ⟨fun he => hnodup.1 (he ▸ List.mem_map_of_mem hu), Or.inr hu⟩
  · rintro ⟨hne, hu⟩
    exact hu.resolve_left hne

/-- Every run keeps the list and the set in step. -/
theorem TrackerRun.represents {vm : Word} {s : Hv} {pages : Finset TrackedPage}
    (h : TrackerRun vm s pages) : Represents (trackedOf s vm) pages := by
  induction h with
  | start hempty =>
    rw [hempty]
    exact ⟨by simp, by simp [contents], by simp [contents]⟩
  | other h hsame ih => rwa [hsame]
  | @track s s' pages page pageType reservedPool h halign hlimit hnew hcall ih =>
    have hpage : PageOk page := ⟨halign, by omega⟩
    obtain ⟨tracked, arenaAt, rfl, _, hok, hperm⟩ := (vmManagerTrackPage_spec hpage ih.ok
      fun hmem => hnew _ ((ih.exact _).mp hmem) rfl).of_ok hcall
    have htracked : trackedOf { withTracked s vm tracked with arenaAt := arenaAt } vm = tracked :=
      trackedOf_withTracked s vm tracked
    rw [htracked]
    exact ih.track hnew hok hperm
  | untrack h hcall ih =>
    obtain ⟨tracked, rfl, hok, hperm⟩ :=
      (vmManagerUntrackPage_spec ih.ok (E := fun _ _ => True)).of_ok hcall
    rw [trackedOf_withTracked]
    exact (ih.untrack hok hperm).2
  | untrackNone h hcall ih =>
    obtain ⟨rfl, _⟩ := (vmManagerUntrackPage_spec ih.ok (E := fun _ _ => True)).of_ok hcall
    exact ih

/-- Different runs of a list that represents a set have no page in common. -/
theorem Represents.disjoint {tracked : List VmPageList} {pages : Finset TrackedPage}
    (h : Represents tracked pages) :
    tracked.Pairwise fun e e' => (entryPages e).Disjoint (entryPages e') := by
  have hpages : (contents tracked).map Prod.fst = tracked.flatMap entryPages := by
    simp only [contents, List.map_flatMap, entryContents, List.map_map, Function.comp_def,
      List.map_id']
  have hnodup := h.nodup
  rw [hpages] at hnodup
  exact (List.nodup_flatMap.mp hnodup).2

/-- A run that is not empty covers the page under its kind. -/
def RunCovers (tracked : List VmPageList) (t : TrackedPage) : Prop :=
  ∃ e ∈ tracked, e.pages ≠ 0 ∧ e.pageType = t.2.1 ∧ e.reservedPool = t.2.2 ∧ t.1 ∈ entryPages e

/-- The runs that are not empty cover the contents. -/
theorem runCovers_iff {tracked : List VmPageList} {t : TrackedPage} :
    RunCovers tracked t ↔ t ∈ contents tracked := by
  obtain ⟨page, pageType, reservedPool⟩ := t
  simp only [RunCovers, contents, List.mem_flatMap, entryContents, List.mem_map, Prod.mk.injEq]
  constructor
  · rintro ⟨e, he, _, htype, hpool, hp⟩
    exact ⟨e, he, page, hp, rfl, htype, hpool⟩
  · rintro ⟨e, he, p, hp, rfl, htype, hpool⟩
    refine ⟨e, he, fun hz => ?_, htype, hpool, hp⟩
    rw [entryPages, hz] at hp
    cases hp

/-- The tracker refines a set over every run: the runs that are not empty are
disjoint and cover exactly the tracked pages under their kinds; untracking
always returns, with a page of the requested reserved pool, which is removed and
nothing else, or, exactly when that pool is empty, with nothing changed. -/
theorem pageTracker_refines {vm : Word} {s : Hv} {pages : Finset TrackedPage}
    (h : TrackerRun vm s pages) :
    ((trackedOf s vm).filter (·.pages ≠ 0)).Pairwise
      (fun e e' => (entryPages e).Disjoint (entryPages e')) ∧
    (∀ t, RunCovers (trackedOf s vm) t ↔ t ∈ pages) ∧
    ∀ pageType, ∃ r s', vmManagerUntrackPageFromReservedPool vm pageType s = .ok r s' ∧
      (r = none ↔ ∀ page, (page, pageType, true) ∉ pages) ∧ (r = none → s' = s) ∧
      ∀ page, r = some page → (page, pageType, true) ∈ pages ∧
        ∀ t, RunCovers (trackedOf s' vm) t ↔ t ∈ pages ∧ t ≠ (page, pageType, true) := by
  have hrep := h.represents
  refine ⟨hrep.disjoint.filter _, fun t => runCovers_iff.trans (hrep.exact t), fun pageType => ?_⟩
  have hspec := @vmManagerUntrackPage_spec vm pageType s hrep.ok fun _ _ => False
  unfold Ensures at hspec
  split at hspec
  · rename_i r s' hcall
    refine ⟨r, s', hcall, ?_⟩
    cases r with
    | none =>
      obtain ⟨rfl, hnone⟩ := hspec
      exact ⟨⟨fun _ page hp => hnone page ((hrep.exact _).mpr hp), fun _ => rfl⟩,
        fun _ => rfl, fun page hp => nomatch hp⟩
    | some page =>
      obtain ⟨tracked, rfl, hok, hperm⟩ := hspec
      obtain ⟨hmem, hless⟩ := hrep.untrack hok hperm
      refine ⟨⟨fun hr => (nomatch hr), fun hnone => absurd hmem (hnone page)⟩,
        fun hr => (nomatch hr), fun p hp => ?_⟩
      cases hp
      refine ⟨hmem, fun t => ?_⟩
      rw [trackedOf_withTracked, runCovers_iff, hless.exact, Finset.mem_erase, and_comm]
  · exact hspec.elim

/-- A machine list right after boot, with an empty arena for its entries. -/
def trackerStart : Hv :=
  { bootState default (fun _ => 0) ⟨0, fun _ _ => 0, fun _ => 0⟩ with vmManagerArena := some 0x1000 }

/-- One reserved page, tracked after boot. -/
theorem pageTracker_refines_one : ∃ s, ∀ t, RunCovers (trackedOf s 0) t ↔
    t ∈ ({(0x5000, .ept, true)} : Finset TrackedPage) :=
  have hstart : TrackerRun 0 trackerStart ∅ := .start rfl
  have hrun : TrackerRun 0 _ (insert (0x5000, .ept, true) ∅) :=
    hstart.track (by decide) (by decide) (by simp) rfl
  ⟨_, (pageTracker_refines hrun).2.1⟩

end Rkhv.PageTrackerRuns
