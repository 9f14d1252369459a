import Rkhv.PageTrackerRuns
import Rkhv.FreePages

/-!
# Tracker calls in any order

The track loop stops at the first run of the page's kind that holds the page or
ends next to it. Runs that have grown together are not merged, so that a page
that is tracked already is found again only when no run next to it is listed
earlier. A run that was drained keeps its start, and a drained run that starts
at address zero looks like a run of all pages to the allocator.
-/

namespace Rkhv.Retracking

open ByteMemory HostTypes HostState StateOutcome PageRuns FreePages Arenas PageTracker PageTrackerRuns

variable {vm : Word} {s s' : Hv}

/-! ## Where the track loop stops -/

/-- `last_page` of a run. -/
def lastPage (e : VmPageList) : Word := e.physicalAddress + (e.pages.setWidth 64 - 1) * pageSize

/-- A run with pages of the kind of a tracked page. -/
def OfKind (t : TrackedPage) (e : VmPageList) : Prop :=
  e.pages ≠ 0 ∧ e.pageType = t.2.1 ∧ e.reservedPool = t.2.2

instance (t : TrackedPage) (e : VmPageList) : Decidable (OfKind t e) :=
  inferInstanceAs (Decidable (_ ∧ _ ∧ _))

/-- The page lies in the run. -/
def HoldsPage (page : Word) (e : VmPageList) : Prop := e.physicalAddress ≤ page ∧ page ≤ lastPage e

instance (page : Word) (e : VmPageList) : Decidable (HoldsPage page e) :=
  inferInstanceAs (Decidable (_ ∧ _))

/-- The page lies in the run, right before it or right behind it. -/
def TouchesPage (page : Word) (e : VmPageList) : Prop :=
  HoldsPage page e ∨ page + pageSize = e.physicalAddress ∨ page - pageSize = lastPage e

instance (page : Word) (e : VmPageList) : Decidable (TouchesPage page e) :=
  inferInstanceAs (Decidable (_ ∨ _ ∨ _))

/-- The first run of its kind that the page touches holds the page. -/
def HeldFirst (t : TrackedPage) (tracked : List VmPageList) : Prop :=
  ∃ e, tracked.find? (fun e => decide (OfKind t e ∧ TouchesPage t.1 e)) = some e ∧ HoldsPage t.1 e

theorem heldFirst_cons_of_not {t : TrackedPage} {iter : VmPageList} {rest : List VmPageList}
    (h : ¬(OfKind t iter ∧ TouchesPage t.1 iter)) : HeldFirst t (iter :: rest) ↔ HeldFirst t rest := by
  rw [HeldFirst, HeldFirst, List.find?_cons_of_neg (by rwa [decide_eq_true_eq])]

theorem heldFirst_cons_of_touches {t : TrackedPage} {iter : VmPageList} {rest : List VmPageList}
    (h : OfKind t iter ∧ TouchesPage t.1 iter) :
    HeldFirst t (iter :: rest) ↔ HoldsPage t.1 iter := by
  rw [HeldFirst, List.find?_cons_of_pos (by rwa [decide_eq_true_eq])]
  constructor
  · rintro ⟨e, he, hholds⟩
    cases he
    exact hholds
  · exact fun hholds => ⟨iter, rfl, hholds⟩

/-- The loop leaves the list alone when it stops at a run that holds the page. -/
theorem trackLoop_eq_self_iff (t : TrackedPage) (tracked : List VmPageList) :
    trackLoop t.1 t.2.1 t.2.2 tracked = some tracked ↔ HeldFirst t tracked := by
  induction tracked with
  | nil => exact iff_of_false nofun fun ⟨_, he, _⟩ => nomatch he
  | cons iter rest ih =>
    have hskip : ¬(OfKind t iter ∧ TouchesPage t.1 iter) →
        ((trackLoop t.1 t.2.1 t.2.2 rest).map (iter :: ·) = some (iter :: rest) ↔
          HeldFirst t (iter :: rest)) := by
      intro hnot
      rw [heldFirst_cons_of_not hnot, ← ih, Option.map_eq_some_iff]
      constructor
      · rintro ⟨rest', hrest, he⟩
        cases he
        exact hrest
      · exact fun hrest => ⟨rest, hrest, rfl⟩
    have hgrown : ∀ e : VmPageList, e.pages = iter.pages + 1 →
        (some (e :: rest) = some (iter :: rest) ↔ False) := by
      intro e hpages
      refine iff_of_false (fun he => ?_) id
      cases he
      have hone : (1 : BitVec 56) = 0 := by
        have hzero := congrArg (· - iter.pages) hpages
        rwa [BitVec.sub_self, BitVec.add_comm, BitVec.add_sub_cancel, eq_comm] at hzero
      exact absurd hone (by decide)
    rw [trackLoop]
    by_cases hempty : iter.pages = 0
    · rw [if_pos hempty]
      exact hskip fun h => h.1.1 hempty
    rw [if_neg hempty]
    by_cases hkind : iter.pageType ≠ t.2.1 ∨ iter.reservedPool ≠ t.2.2
    · rw [if_pos hkind]
      exact hskip fun h => hkind.elim (fun hne => hne h.1.2.1) fun hne => hne h.1.2.2
    rw [if_neg hkind]
    rw [not_or, not_not, not_not] at hkind
    have hofKind : OfKind t iter := ⟨hempty, hkind⟩
    dsimp only
    have hholdsIff : (iter.physicalAddress ≤ t.1 ∧
        t.1 ≤ iter.physicalAddress + (iter.pages.setWidth 64 - 1) * pageSize) ↔
          HoldsPage t.1 iter := Iff.rfl
    by_cases hholds : HoldsPage t.1 iter
    · rw [if_pos (hholdsIff.mpr hholds), heldFirst_cons_of_touches ⟨hofKind, .inl hholds⟩]
      exact iff_of_true rfl hholds
    rw [if_neg (hholdsIff.not.mpr hholds)]
    by_cases hbefore : t.1 + pageSize = iter.physicalAddress
    · rw [if_pos hbefore, heldFirst_cons_of_touches ⟨hofKind, .inr (.inl hbefore)⟩,
        hgrown _ rfl]
      exact iff_of_false id hholds
    rw [if_neg hbefore]
    have hafterIff : (t.1 - pageSize =
        iter.physicalAddress + (iter.pages.setWidth 64 - 1) * pageSize) ↔
          t.1 - pageSize = lastPage iter := Iff.rfl
    by_cases hafter : t.1 - pageSize = lastPage iter
    · rw [if_pos (hafterIff.mpr hafter),
        heldFirst_cons_of_touches ⟨hofKind, .inr (.inr hafter)⟩, hgrown _ rfl]
      exact iff_of_false id hholds
    rw [if_neg (hafterIff.not.mpr hafter)]
    exact hskip fun h => h.2.elim hholds fun hor => hor.elim hbefore hafter

/-- Reusing a run changes the list. -/
theorem reuseEmpty_ne_self {entry : VmPageList} (hentry : entry.pages ≠ 0)
    (tracked : List VmPageList) : reuseEmpty entry tracked ≠ some tracked := by
  induction tracked with
  | nil => exact nofun
  | cons iter rest ih =>
    rw [reuseEmpty]
    by_cases hempty : iter.pages = 0
    · rw [if_pos hempty]
      intro he
      cases he
      exact hentry hempty
    · rw [if_neg hempty]
      intro he
      rw [Option.map_eq_some_iff] at he
      obtain ⟨rest', hrest, he⟩ := he
      cases he
      exact ih hrest

/-- Tracking changes nothing exactly when the first run that the page touches
holds the page. -/
theorem vmManagerTrackPage_unchanged_iff (t : TrackedPage) :
    vmManagerTrackPage vm t.1 t.2.1 t.2.2 s = .ok () s ↔ HeldFirst t (trackedOf s vm) := by
  constructor
  · intro hcall
    have hsame : Ensures (vmManagerTrackPage vm t.1 t.2.1 t.2.2) s
        (fun _ s' => s' = s → HeldFirst t (trackedOf s vm)) (fun _ _ => True) := by
      rw [ensures_vmManagerTrackPage]
      split
      · rename_i tracked hplace
        intro he
        have htracked : tracked = trackedOf s vm := by
          rw [← trackedOf_withTracked s vm tracked, he]
        rw [htracked, trackInPlace, Option.or_eq_some_iff] at hplace
        cases hplace with
        | inl hloop => exact (trackLoop_eq_self_iff t _).mp hloop
        | inr hreuse =>
          have hone : (1 : BitVec 56) ≠ 0 := by decide
          exact absurd hreuse.2 (reuseEmpty_ne_self hone _)
      · split
        · trivial
        · refine ⟨fun _ => trivial, fun _ he => ?_⟩
          have hlength := congrArg (fun u => (trackedOf u vm).length) he
          have htracked : ∀ l arenaAt, trackedOf { withTracked s vm l with arenaAt := arenaAt } vm =
              l := fun l _ => trackedOf_withTracked s vm l
          dsimp only at hlength
          rw [htracked, List.length_cons] at hlength
          omega
    exact hsame.of_ok hcall rfl
  · intro hheld
    have hplace : trackInPlace t.1 t.2.1 t.2.2 (s.vmAt vm).trackedPages =
        some (s.vmAt vm).trackedPages := by
      rw [trackInPlace, (trackLoop_eq_self_iff t (s.vmAt vm).trackedPages).mpr hheld]
      rfl
    have hupdate : modifyVm vm (fun v => { v with trackedPages := (s.vmAt vm).trackedPages }) s =
        .ok () s := by
      have hself : Function.update s.vmAt vm { s.vmAt vm with
          trackedPages := (s.vmAt vm).trackedPages } = s.vmAt := Function.update_eq_self vm s.vmAt
      exact congrArg (fun vmAt => EStateM.Result.ok () { s with vmAt := vmAt }) hself
    rw [vmManagerTrackPage, bind_of_ok (get_eq_ok.mpr ⟨rfl, rfl⟩), hplace]
    exact hupdate

/-! ## What a call leaves behind -/

/-- The list after a page was tracked. -/
theorem track_outcome {t : TrackedPage} (hcall : vmManagerTrackPage vm t.1 t.2.1 t.2.2 s = .ok () s') :
    trackInPlace t.1 t.2.1 t.2.2 (trackedOf s vm) = some (trackedOf s' vm) ∨
      trackedOf s' vm = ⟨t.1, 1, t.2.1, t.2.2⟩ :: trackedOf s vm := by
  have hout : Ensures (vmManagerTrackPage vm t.1 t.2.1 t.2.2) s
      (fun _ s' => trackInPlace t.1 t.2.1 t.2.2 (trackedOf s vm) = some (trackedOf s' vm) ∨
        trackedOf s' vm = ⟨t.1, 1, t.2.1, t.2.2⟩ :: trackedOf s vm) (fun _ _ => True) := by
    rw [ensures_vmManagerTrackPage]
    split
    · rename_i tracked hplace
      rw [trackedOf_withTracked]
      exact .inl hplace
    · split
      · trivial
      · refine ⟨fun _ => trivial, fun _ => .inr ?_⟩
        exact trackedOf_withTracked s vm (⟨t.1, 1, t.2.1, t.2.2⟩ :: trackedOf s vm)
  exact hout.of_ok hcall

/-- A page that the pool hands out is the last one of a run. -/
theorem untrack_some {pageType : VmPageType} {page : Word}
    (hcall : vmManagerUntrackPageFromReservedPool vm pageType s = .ok (some page) s') :
    untrackLoop pageType (trackedOf s vm) = some (page, trackedOf s' vm) := by
  have hout : Ensures (vmManagerUntrackPageFromReservedPool vm pageType) s
      (fun r s' => r = some page →
        untrackLoop pageType (trackedOf s vm) = some (page, trackedOf s' vm))
      (fun _ _ => True) := by
    rw [ensures_untrack]
    split
    · exact nofun
    · rename_i taken tracked hloop
      intro hpage
      rw [hloop, trackedOf_withTracked, Option.some.inj hpage]
  exact hout.of_ok hcall rfl

/-- An empty pool changes nothing. -/
theorem untrack_none {pageType : VmPageType}
    (hcall : vmManagerUntrackPageFromReservedPool vm pageType s = .ok none s') : s' = s := by
  have hout : Ensures (vmManagerUntrackPageFromReservedPool vm pageType) s
      (fun r s' => r = none → s' = s) (fun _ _ => True) := by
    rw [ensures_untrack]
    split
    · exact fun _ => rfl
    · exact nofun
  exact hout.of_ok hcall rfl

/-- A run whose pages are distinct is short. -/
theorem pages_le_of_nodup {e : VmPageList} (h : (entryContents e).Nodup) :
    e.pages.toNat ≤ 2 ^ 52 := by
  by_contra hlong
  have hpages : (entryPages e).Nodup := h.of_map _
  have hzero : 0 ∈ List.range e.pages.toNat := List.mem_range.mpr (by omega)
  have hround : 2 ^ 52 ∈ List.range e.pages.toNat := List.mem_range.mpr (by omega)
  have hsame := List.inj_on_of_nodup_map hpages hzero hround rfl
  exact absurd hsame (by decide)

/-- Tracking adds the page to the contents, or leaves the list alone because a
run holds the page. -/
theorem track_contents {t : TrackedPage} (hnodup : (contents (trackedOf s vm)).Nodup)
    (hcall : vmManagerTrackPage vm t.1 t.2.1 t.2.2 s = .ok () s') :
    trackedOf s' vm = trackedOf s vm ∨
      (contents (trackedOf s' vm)).Perm (t :: contents (trackedOf s vm)) := by
  have hsingle : entryContents ⟨t.1, 1, t.2.1, t.2.2⟩ = [t] := by
    have hone : ((1 : BitVec 56)).toNat = 1 := rfl
    rw [entryContents, entryPages, hone, runPages_one, List.map_singleton]
  cases track_outcome hcall with
  | inr hfront =>
    right
    rw [hfront, contents_cons, hsingle, List.singleton_append]
  | inl hplace =>
    rw [trackInPlace, Option.or_eq_some_iff] at hplace
    cases hplace with
    | inr hreuse =>
      have hadded := reuseEmpty_contents hreuse.2
      rw [hsingle, List.singleton_append] at hadded
      exact .inr hadded
    | inl hloop =>
      obtain ⟨before, e, e', after, htracked, htracked', hne, htype, hpool, hstop⟩ :=
        trackLoop_cases hloop
      rw [htracked] at hnodup
      have hshort : e.pages.toNat + 1 < 2 ^ 56 := by
        have hrun := (List.nodup_flatMap.mp hnodup).1 e (List.mem_append_right _ List.mem_cons_self)
        have hle := pages_le_of_nodup hrun
        omega
      have ht : t = (t.1, e.pageType, e.reservedPool) := by rw [htype, hpool]
      rw [htracked, htracked', ht]
      rcases hstop with ⟨-, rfl⟩ | ⟨hbefore, rfl⟩ | ⟨hafter, rfl⟩
      · exact .inl rfl
      · exact .inr (contents_grow (List.Perm.of_eq (entryContents_growFirst hshort hbefore)))
      · exact .inr (contents_grow (entryContents_growLast hne hshort hafter))

/-! ## Runs of calls -/

/-- States after any calls that track a page or ask the reserved pool for one, on
a machine whose list was empty, with the pages that the pool has handed out and
that were not tracked again. Each page that is tracked is admitted; between the
calls everything but the list may change. -/
inductive CallRun (vm : Word) (Admitted : Hv → TrackedPage → Prop) :
    Hv → Set TrackedPage → Prop where
  | start {s : Hv} (hempty : trackedOf s vm = []) : CallRun vm Admitted s ∅
  | other {s s' : Hv} {handed : Set TrackedPage} (h : CallRun vm Admitted s handed)
      (hsame : trackedOf s' vm = trackedOf s vm) : CallRun vm Admitted s' handed
  | track {s s' : Hv} {handed : Set TrackedPage} {t : TrackedPage}
      (h : CallRun vm Admitted s handed) (hadmitted : Admitted s t)
      (hcall : vmManagerTrackPage vm t.1 t.2.1 t.2.2 s = .ok () s') :
      CallRun vm Admitted s' (handed \ {t})
  | untrack {s s' : Hv} {handed : Set TrackedPage} {page : Word} {pageType : VmPageType}
      (h : CallRun vm Admitted s handed)
      (hcall : vmManagerUntrackPageFromReservedPool vm pageType s = .ok (some page) s') :
      CallRun vm Admitted s' (insert (page, pageType, true) handed)
  | untrackNone {s s' : Hv} {handed : Set TrackedPage} {pageType : VmPageType}
      (h : CallRun vm Admitted s handed)
      (hcall : vmManagerUntrackPageFromReservedPool vm pageType s = .ok none s') :
      CallRun vm Admitted s' handed

/-- A page that is tracked already is held by the first run that it touches. -/
def TrackedOnce (vm : Word) (s : Hv) (t : TrackedPage) : Prop :=
  t ∈ contents (trackedOf s vm) → HeldFirst t (trackedOf s vm)

/-- Tracking keeps the pages distinct when a tracked page is held by the first
run that it touches. -/
theorem track_nodup {t : TrackedPage} (hnodup : (contents (trackedOf s vm)).Nodup)
    (honce : TrackedOnce vm s t) (hcall : vmManagerTrackPage vm t.1 t.2.1 t.2.2 s = .ok () s') :
    (contents (trackedOf s' vm)).Nodup ∧
      ∀ u ∈ contents (trackedOf s' vm), u = t ∨ u ∈ contents (trackedOf s vm) := by
  by_cases hmem : t ∈ contents (trackedOf s vm)
  · have hsame := (vmManagerTrackPage_unchanged_iff t).mpr (honce hmem)
    rw [hcall] at hsame
    cases hsame
    exact ⟨hnodup, fun u hu => .inr hu⟩
  · cases track_contents hnodup hcall with
    | inl hsame =>
      rw [hsame]
      exact ⟨hnodup, fun u hu => .inr hu⟩
    | inr hperm =>
      refine ⟨hperm.nodup_iff.mpr (List.nodup_cons.mpr ⟨hmem, hnodup⟩), fun u hu => ?_⟩
      exact List.mem_cons.mp (hperm.mem_iff.mp hu)

/-- Over a run in which tracked pages are held by the first run they touch, no
page is listed twice and no page that was handed out is listed. -/
theorem CallRun.distinct {handed : Set TrackedPage} (h : CallRun vm (TrackedOnce vm) s handed) :
    (contents (trackedOf s vm)).Nodup ∧ ∀ t ∈ handed, t ∉ contents (trackedOf s vm) := by
  induction h with
  | start hempty =>
    rw [hempty]
    exact ⟨List.nodup_nil, fun t ht => ht.elim⟩
  | other h hsame ih =>
    rw [hsame]
    exact ih
  | track h hadmitted hcall ih =>
    obtain ⟨hnodup, hcame⟩ := track_nodup ih.1 hadmitted hcall
    refine ⟨hnodup, fun u hu hmem => ?_⟩
    cases hcame u hmem with
    | inl heq => exact hu.2 heq
    | inr hold => exact ih.2 u hu.1 hold
  | untrack h hcall ih =>
    have hperm := untrackLoop_perm (untrack_some hcall)
    obtain ⟨hgone, hnodup⟩ := List.nodup_cons.mp (hperm.nodup_iff.mp ih.1)
    refine ⟨hnodup, fun u hu hmem => ?_⟩
    cases hu with
    | inl heq => exact hgone (heq ▸ hmem)
    | inr hold => exact ih.2 u hold (hperm.mem_iff.mpr (List.mem_cons_of_mem _ hmem))
  | untrackNone h hcall ih =>
    rw [untrack_none hcall]
    exact ih

/-- Tracking a page again leaves the list alone exactly when the first run that
the page touches holds it. Over a run of calls that track pages again only then,
no page is listed twice and the reserved pool never hands out a page that it has
handed out and that was not tracked since. -/
theorem retracking_harmless_iff (vm : Word) :
    (∀ (s : Hv) (handed : Set TrackedPage) (t : TrackedPage),
      CallRun vm (fun _ _ => True) s handed → t ∈ contents (trackedOf s vm) →
        (vmManagerTrackPage vm t.1 t.2.1 t.2.2 s = .ok () s ↔ HeldFirst t (trackedOf s vm))) ∧
    ∀ (s : Hv) (handed : Set TrackedPage), CallRun vm (TrackedOnce vm) s handed →
      (∀ t ∈ contents (trackedOf s vm), TrackedOnce vm s t →
        vmManagerTrackPage vm t.1 t.2.1 t.2.2 s = .ok () s) ∧
      (contents (trackedOf s vm)).Nodup ∧
      ∀ (pageType : VmPageType) (page : Word) (s' : Hv),
        vmManagerUntrackPageFromReservedPool vm pageType s = .ok (some page) s' →
          (page, pageType, true) ∉ handed := by
  refine ⟨fun s _ t _ _ => vmManagerTrackPage_unchanged_iff t, fun s handed hrun => ?_⟩
  obtain ⟨hnodup, hgone⟩ := hrun.distinct
  refine ⟨fun t hmem honce => (vmManagerTrackPage_unchanged_iff t).mpr (honce hmem), hnodup, ?_⟩
  intro pageType page s' hcall hhanded
  have hperm := untrackLoop_perm (untrack_some hcall)
  exact hgone _ hhanded (hperm.mem_iff.mpr List.mem_cons_self)

/-- A page tracked twice into the reserved pool: the second call changes nothing
and the list holds the page once. -/
theorem retracking_harmless_one : ∃ s, vmManagerTrackPage 0 0x1000 .ept true s = .ok () s ∧
    (contents (trackedOf s 0)).Nodup :=
  have hfirst : CallRun 0 (TrackedOnce 0) _ _ :=
    (CallRun.start (s := trackerStart) rfl).track (t := (0x1000, .ept, true)) nofun rfl
  have hheld : HeldFirst (0x1000, .ept, true) [⟨0x1000, 1, .ept, true⟩] := ⟨_, rfl, by decide⟩
  have hrun := (retracking_harmless_iff 0).2 _ _ hfirst
  ⟨_, hrun.1 (0x1000, .ept, true) List.mem_cons_self fun _ => hheld, hrun.2.1⟩

/-- Three pages of one kind, the middle one tracked last: it joins the run in
front, which the first page touches before its own run is reached. -/
theorem retracking_grows_next_run :
    (¬∀ (s : Hv) (handed : Set TrackedPage) (t : TrackedPage),
      CallRun 0 (fun _ _ => True) s handed → t ∈ contents (trackedOf s 0) →
        vmManagerTrackPage 0 t.1 t.2.1 t.2.2 s = .ok () s) ∧
    ∃ (s s' : Hv) (handed : Set TrackedPage), CallRun 0 (fun _ _ => True) s handed ∧
      vmManagerUntrackPageFromReservedPool 0 .ept s = .ok (some 0x1000) s' ∧
      (0x1000, .ept, true) ∈ handed := by
  have hrun : CallRun 0 (fun _ _ => True) _ _ :=
    (((CallRun.start (s := trackerStart) rfl).track (t := (0x1000, .ept, true)) trivial rfl).track
      (t := (0x3000, .ept, true)) trivial rfl).track (t := (0x2000, .ept, true)) trivial rfl
  constructor
  · intro hall
    have hsame := hall _ _ (0x1000, .ept, true) hrun (by decide)
    have hheld := (vmManagerTrackPage_unchanged_iff _).mp hsame
    have hloop := (trackLoop_eq_self_iff _ [⟨0x2000, 2, .ept, true⟩, ⟨0x1000, 1, .ept, true⟩]).mpr hheld
    exact absurd hloop (by decide)
  · have hagain := hrun.track (t := (0x1000, .ept, true)) trivial rfl
    have hlast := @CallRun.untrack _ _ _ _ _ 0x3000 .ept hagain rfl
    have hmiddle := @CallRun.untrack _ _ _ _ _ 0x2000 .ept hlast rfl
    have hfirst := @CallRun.untrack _ _ _ _ _ 0x1000 .ept hmiddle rfl
    exact ⟨_, _, _, hfirst, rfl, .inl rfl⟩

/-! ## Runs drained to no pages -/

/-- The runs of a machine whose tracked pages are page aligned and below the
52-bit limit, whatever was tracked and untracked. -/
theorem CallRun.entries {handed : Set TrackedPage}
    (h : CallRun vm (fun _ t => PageOk t.1) s handed) : ∀ e ∈ trackedOf s vm, EntryOk e := by
  induction h with
  | start hempty =>
    rw [hempty]
    exact nofun
  | other h hsame ih =>
    rw [hsame]
    exact ih
  | track h hpage hcall ih =>
    cases track_outcome hcall with
    | inl hplace => exact trackInPlace_ok hpage ih hplace
    | inr hfront =>
      rw [hfront]
      exact List.forall_mem_cons.mpr ⟨(entry_single hpage _ _).1, ih⟩
  | untrack h hcall ih => exact untrackLoop_ok ih (untrack_some hcall)
  | untrackNone h hcall ih =>
    rw [untrack_none hcall]
    exact ih

/-- The range test of the allocator holds for the pages of a run, and for every
page when the run was drained and starts at address zero. -/
theorem pageListUses_iff {e : VmPageList} {a : Word} (he : EntryOk e) (halign : a.toNat % 4096 = 0)
    (hlimit : a.toNat < 2 ^ 52) :
    pageListUses a e = true ↔ a ∈ entryPages e ∨ (e.pages = 0 ∧ e.physicalAddress = 0) := by
  rw [pageListUses, Bool.and_eq_true, decide_eq_true_eq, decide_eq_true_eq]
  by_cases hdrained : e.pages = 0
  · have hnone : entryPages e = [] := by
      rw [entryPages, hdrained]
      rfl
    have hbefore : (e.physicalAddress + ((0 : BitVec 56).setWidth 64 - 1) * pageSize).toNat =
        (e.physicalAddress.toNat + (2 ^ 64 - 4096)) % 2 ^ 64 := BitVec.toNat_add _ _
    have hstart := he.1
    have hzero : (0 : Word).toNat = 0 := rfl
    rw [hnone, hdrained, BitVec.le_def, BitVec.le_def, hbefore]
    constructor
    · intro hrange
      refine .inr ⟨rfl, BitVec.eq_of_toNat_eq ?_⟩
      rw [hzero]
      omega
    · intro hused
      cases hused with
      | inl hmem => cases hmem
      | inr hdrained =>
        rw [hdrained.2, hzero]
        omega
  · rw [he.mem_iff hdrained halign]
    exact (or_iff_left fun h => hdrained h.1).symm

/-- The pages in use by the machines: the initialised control structures and the
pages of the runs. -/
def UsedByMachine (s : Hv) (a : Word) : Prop :=
  ∃ vm ∈ s.vmManagerVmList,
    ((s.vmAt vm).flags &&& vmTFlagVmcsInitialized ≠ 0 ∧ (s.vmAt vm).vmcsRegion = a) ∨
      ∃ e ∈ trackedOf s vm, a ∈ entryPages e

/-- A machine keeps a run without pages that starts at address zero. -/
def DrainedAtZero (s : Hv) : Prop :=
  ∃ vm ∈ s.vmManagerVmList, ∃ e ∈ trackedOf s vm, e.pages = 0 ∧ e.physicalAddress = 0

/-- What `mm_page_used_by_vm_manager` tells. -/
theorem mmPageUsedByVmManager_iff {a : Word}
    (hok : ∀ vm ∈ s.vmManagerVmList, ∀ e ∈ trackedOf s vm, EntryOk e)
    (halign : a.toNat % 4096 = 0) (hlimit : a.toNat < 2 ^ 52) :
    mmPageUsedByVmManager s a = true ↔ UsedByMachine s a ∨ DrainedAtZero s := by
  have hmachine : ∀ vm ∈ s.vmManagerVmList, ((((s.vmAt vm).flags &&& vmTFlagVmcsInitialized != 0 &&
      (s.vmAt vm).vmcsRegion == a) || (s.vmAt vm).trackedPages.any (pageListUses a)) = true ↔
      (((s.vmAt vm).flags &&& vmTFlagVmcsInitialized ≠ 0 ∧ (s.vmAt vm).vmcsRegion = a) ∨
        ∃ e ∈ trackedOf s vm, a ∈ entryPages e) ∨
        ∃ e ∈ trackedOf s vm, e.pages = 0 ∧ e.physicalAddress = 0) := by
    intro vm hvm
    rw [Bool.or_eq_true, Bool.and_eq_true, bne_iff_ne, beq_iff_eq, List.any_eq_true, or_assoc]
    refine or_congr Iff.rfl ?_
    rw [← exists_or]
    refine exists_congr fun e => ?_
    rw [← and_or_left]
    exact and_congr_right fun he => pageListUses_iff (hok vm hvm e he) halign hlimit
  rw [mmPageUsedByVmManager, List.any_eq_true, UsedByMachine, DrainedAtZero, ← exists_or]
  refine exists_congr fun vm => ?_
  rw [← and_or_left]
  exact and_congr_right fun hvm => hmachine vm hvm

/-- The allocator's test is exact for an address unless the address is in use by
no machine and a drained run starts at address zero. -/
theorem mmPageUsedByVmManager_exact_iff {a : Word}
    (hruns : ∀ vm ∈ s.vmManagerVmList, ∃ handed, CallRun vm (fun _ t => PageOk t.1) s handed)
    (halign : a.toNat % 4096 = 0) (hlimit : a.toNat < 2 ^ 52) :
    (mmPageUsedByVmManager s a = true ↔ UsedByMachine s a) ↔
      UsedByMachine s a ∨ ¬DrainedAtZero s := by
  have hok : ∀ vm ∈ s.vmManagerVmList, ∀ e ∈ trackedOf s vm, EntryOk e := by
    intro vm hvm
    obtain ⟨handed, hrun⟩ := hruns vm hvm
    exact hrun.entries
  rw [mmPageUsedByVmManager_iff hok halign hlimit, or_iff_left_iff_imp]
  exact ⟨fun h => or_iff_not_imp_right.mpr fun hdrained => h (not_not.mp hdrained),
    fun h hdrained => h.resolve_right (not_not.mpr hdrained)⟩

/-- The boot-time tracker with its machine in the list. -/
def listedTracker : Hv := { trackerStart with vmManagerVmList := [0] }

/-- The page at address zero, while it is tracked. -/
theorem mmPageUsedByVmManager_exact_zero : ∃ s, (mmPageUsedByVmManager s 0 = true ↔
    UsedByMachine s 0) ↔ UsedByMachine s 0 ∨ ¬DrainedAtZero s := by
  obtain ⟨s, hlist, handed, hrun⟩ : ∃ s, s.vmManagerVmList = [0] ∧
      ∃ handed, CallRun 0 (fun _ t => PageOk t.1) s handed :=
    ⟨_, rfl, _, (CallRun.start (s := listedTracker) rfl).track
      (t := (0, .ept, true)) ⟨rfl, by decide⟩ rfl⟩
  refine ⟨s, mmPageUsedByVmManager_exact_iff (fun vm hvm => ?_) rfl (by decide)⟩
  rw [hlist, List.mem_singleton] at hvm
  rw [hvm]
  exact ⟨handed, hrun⟩

/-- After the page at address zero was tracked and handed out, every page counts
as used. -/
theorem drained_zero_uses_everything :
    ¬∀ (s : Hv) (a : Word),
      (∀ vm ∈ s.vmManagerVmList, ∃ handed, CallRun vm (fun _ t => PageOk t.1) s handed) →
      a.toNat % 4096 = 0 → a.toNat < 2 ^ 52 →
        (mmPageUsedByVmManager s a = true ↔ UsedByMachine s a) := by
  intro hall
  obtain ⟨s, hlist, hdrained, hflag, handed, hrun⟩ : ∃ s, s.vmManagerVmList = [0] ∧
      trackedOf s 0 = [⟨0, 0, .ept, true⟩] ∧ (s.vmAt 0).flags &&& vmTFlagVmcsInitialized = 0 ∧
      ∃ handed, CallRun 0 (fun _ t => PageOk t.1) s handed :=
    ⟨_, rfl, rfl, rfl, _, @CallRun.untrack _ _ _ _ _ 0 .ept ((CallRun.start
      (s := listedTracker) rfl).track (t := (0, .ept, true)) ⟨rfl, by decide⟩ rfl) rfl⟩
  have hmachine : ∀ vm ∈ s.vmManagerVmList, vm = 0 := by
    rw [hlist]
    exact fun vm hvm => List.mem_singleton.mp hvm
  have hok : ∀ vm ∈ s.vmManagerVmList, ∀ e ∈ trackedOf s vm, EntryOk e := by
    intro vm hvm
    rw [hmachine vm hvm]
    exact hrun.entries
  have hat : DrainedAtZero s := by
    refine ⟨0, ?_, ⟨0, 0, .ept, true⟩, ?_, rfl, rfl⟩
    · rw [hlist]
      exact List.mem_cons_self
    · rw [hdrained]
      exact List.mem_cons_self
  have hpage : (0x5000 : Word).toNat % 4096 = 0 ∧ (0x5000 : Word).toNat < 2 ^ 52 := by decide
  have hused := (mmPageUsedByVmManager_iff hok hpage.1 hpage.2).mpr (.inr hat)
  have hexact := hall s 0x5000 (fun vm hvm => hmachine vm hvm ▸ ⟨handed, hrun⟩) hpage.1 hpage.2
  obtain ⟨vm, hvm, huse⟩ := hexact.mp hused
  rw [hmachine vm hvm, hdrained, hflag] at huse
  cases huse with
  | inl hvmcs => exact hvmcs.1 rfl
  | inr hrunPage =>
    obtain ⟨e, he, hmem⟩ := hrunPage
    rw [List.mem_singleton.mp he] at hmem
    cases hmem

end Rkhv.Retracking
