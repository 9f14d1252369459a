import Rkhv.EptReservation

/-!
# Tracking descending pages

When the allocator hands out consecutive pages downwards, the list of a machine
stays short however large its guest memory is: the reserved tables form one run
that is drained from its top, the tables in use grow below each other in the same
order, and the guest pages extend a third run. Only the first page of each run
takes a list entry from the arena.
-/

namespace Rkhv.DescendingPages

open ByteMemory WordFields HostTypes HostState StateOutcome PageRuns FreePages FreePageSearch
  FreePageContract Arenas PageTracker PageTrackerRuns VmxPages RadixWalk Ept EptWalk VmManager
  EptAgreement MachinePages MachineSteps EptMapping GuestMemory HostPages HostOperations HostRuns
  GuestIsolation GuestRam EptReservation

variable {s t t' : Hv} {vm arena p : Word} {k g tb r i n : ℕ}

/-! ## Runs of descending pages -/

/-- The page that lies `i` pages below a page. -/
def pageBelow (p : Word) (i : ℕ) : Word := p - BitVec.ofNat 64 i * pageSize

theorem toNat_pageBelow (h : i ≤ p.toNat / 4096) : (pageBelow p i).toNat = p.toNat - i * 4096 := by
  have hsize : pageSize.toNat = 4096 := rfl
  have hlt := p.isLt
  rw [pageBelow, BitVec.toNat_sub, BitVec.toNat_mul, BitVec.toNat_ofNat, hsize]
  omega

theorem pageBelow_succ (p : Word) (i : ℕ) : pageBelow p (i + 1) + pageSize = pageBelow p i := by
  have hone : BitVec.ofNat 64 1 * pageSize = pageSize := BitVec.one_mul pageSize
  rw [pageBelow, pageBelow, BitVec.ofNat_add, BitVec.add_mul, hone, ← sub_sub]
  exact sub_add_cancel _ _

/-- Pages `first` to `first + count - 1` below a page, as a run unless there is none. -/
def runBelow (p : Word) (first count : ℕ) (pageType : VmPageType) (reservedPool : Bool) :
    List VmPageList :=
  if count = 0 then []
  else [⟨pageBelow p (first + count - 1), BitVec.ofNat 56 count, pageType, reservedPool⟩]

/-- The list of a machine that took `k` pages for its pool, of which `r` are left,
and then `g` guest pages, and that has `tb` tables in use. -/
def threeRuns (p : Word) (k g tb r : ℕ) : List VmPageList :=
  runBelow p 0 tb .ept false ++ runBelow p k g .guestPhysical false ++
    if k = 0 then [] else [⟨pageBelow p (k - 1), BitVec.ofNat 56 r, .ept, true⟩]

/-- A full pool is a run itself. -/
theorem threeRuns_pool (p : Word) (k : ℕ) : threeRuns p k 0 0 k = runBelow p 0 k .ept true := by
  rw [threeRuns, runBelow, if_pos rfl, runBelow, if_pos rfl, runBelow, Nat.zero_add]
  rfl

theorem ofNat_pages_ne_zero (hpos : 0 < n) (hn : n < 2 ^ 56) : BitVec.ofNat 56 n ≠ 0 := by
  intro h
  have hvalue := congrArg BitVec.toNat h
  have hzero : (0 : BitVec 56).toNat = 0 := rfl
  rw [BitVec.toNat_ofNat, hzero] at hvalue
  omega

section Tracking

variable {page : Word} {pageType : VmPageType} {reservedPool : Bool}

/-- Runs of another kind are passed by. -/
theorem trackLoop_skip {e : VmPageList} (rest : List VmPageList)
    (h : e.pageType ≠ pageType ∨ e.reservedPool ≠ reservedPool) :
    trackLoop page pageType reservedPool (e :: rest) =
      (trackLoop page pageType reservedPool rest).map (e :: ·) := by
  rw [trackLoop]
  by_cases hempty : e.pages = 0
  · rw [if_pos hempty]
  · rw [if_neg hempty, if_pos h]

theorem trackLoop_runBelow_skip (p : Word) (first count : ℕ) {kind : VmPageType} {pool : Bool}
    (rest : List VmPageList) (h : kind ≠ pageType ∨ pool ≠ reservedPool) :
    trackLoop page pageType reservedPool (runBelow p first count kind pool ++ rest) =
      (trackLoop page pageType reservedPool rest).map (runBelow p first count kind pool ++ ·) := by
  by_cases hcount : count = 0
  · rw [runBelow, if_pos hcount, List.nil_append]
    exact (congrFun Option.map_id _).symm
  · rw [runBelow, if_neg hcount]
    exact trackLoop_skip rest h

/-- The next page extends a run of its kind downwards. -/
theorem trackLoop_runBelow {first count : ℕ} (rest : List VmPageList) (hpos : 0 < count)
    (hcount : count < 2 ^ 56) (hp : first + count ≤ p.toNat / 4096) :
    trackLoop (pageBelow p (first + count)) pageType reservedPool
        (runBelow p first count pageType reservedPool ++ rest) =
      some (runBelow p first (count + 1) pageType reservedPool ++ rest) := by
  have hne : ¬count = 0 := by omega
  have hnext : first + (count + 1) - 1 = first + count := by omega
  have hsucc : BitVec.ofNat 56 (count + 1) = BitVec.ofNat 56 count + BitVec.ofNat 56 1 :=
    BitVec.ofNat_add count 1
  have hbefore : pageBelow p (first + count) + pageSize = pageBelow p (first + count - 1) := by
    have hlast := pageBelow_succ p (first + count - 1)
    rwa [Nat.sub_add_cancel (by omega)] at hlast
  have hbelow : ¬(pageBelow p (first + count - 1) ≤ pageBelow p (first + count) ∧
      pageBelow p (first + count) ≤ pageBelow p (first + count - 1) +
        ((BitVec.ofNat 56 count).setWidth 64 - 1) * pageSize) := by
    rintro ⟨hle, -⟩
    have hlast : first + count - 1 ≤ p.toNat / 4096 := by omega
    rw [BitVec.le_def, toNat_pageBelow hlast, toNat_pageBelow hp] at hle
    omega
  rw [runBelow, if_neg hne, runBelow, if_neg (Nat.succ_ne_zero count), hnext, hsucc,
    List.singleton_append, trackLoop, if_neg (ofNat_pages_ne_zero hpos hcount),
    if_neg (by simp), if_neg hbelow, if_pos hbefore]
  rfl

/-- A page of a new kind needs a new entry when no run is drained. -/
theorem trackInPlace_eq_none {tracked : List VmPageList}
    (h : ∀ e ∈ tracked, e.pages ≠ 0 ∧ (e.pageType ≠ pageType ∨ e.reservedPool ≠ reservedPool)) :
    trackInPlace page pageType reservedPool tracked = none := by
  induction tracked with
  | nil => rfl
  | cons e rest ih =>
    obtain ⟨⟨hpages, hkind⟩, hrest⟩ := List.forall_mem_cons.mp h
    have hnone := ih hrest
    rw [trackInPlace, Option.or_eq_none_iff] at hnone ⊢
    rw [trackLoop_skip rest hkind, hnone.1, reuseEmpty, if_neg hpages, hnone.2]
    exact ⟨rfl, rfl⟩

end Tracking

/-- Where tracking a page leads: a list as it is after growing a run, or after a
new entry. -/
def TracksTo (page : Word) (pageType : VmPageType) (reservedPool : Bool)
    (tracked tracked' : List VmPageList) : Prop :=
  trackInPlace page pageType reservedPool tracked = some tracked' ∨
    (trackInPlace page pageType reservedPool tracked = none ∧
      tracked' = ⟨page, 1, pageType, reservedPool⟩ :: tracked)

/-- The next page of the pool. -/
theorem tracksTo_pool (hk : k < 2 ^ 52) (hp : k ≤ p.toNat / 4096) :
    TracksTo (pageBelow p k) .ept true (threeRuns p k 0 0 k)
      (threeRuns p (k + 1) 0 0 (k + 1)) := by
  rw [threeRuns_pool, threeRuns_pool]
  by_cases hfirst : k = 0
  · refine Or.inr ⟨?_, ?_⟩
    · rw [hfirst]
      rfl
    · rw [hfirst]
      rfl
  · have hpages : 0 + k ≤ p.toNat / 4096 := by omega
    have hgrown := @trackLoop_runBelow p .ept true 0 k [] (by omega) (by omega) hpages
    rw [Nat.zero_add, List.append_nil, List.append_nil] at hgrown
    refine Or.inl ?_
    rw [trackInPlace, hgrown]
    rfl

/-- The entries of a list with a page that is tracked first of its kind. -/
theorem threeRuns_entries {pageType : VmPageType} (hk : k < 2 ^ 52) (hr : 0 < r) (hrk : r ≤ k)
    (hg : g < 2 ^ 52) (hkind : pageType = .ept ∨ g = 0) :
    ∀ e ∈ threeRuns p k g 0 r, e.pages ≠ 0 ∧ (e.pageType ≠ pageType ∨ e.reservedPool ≠ false) := by
  intro e he
  have hpool : ¬k = 0 := by omega
  have hother : VmPageType.guestPhysical ≠ .ept := by decide
  have hreservedPool : true ≠ false := by decide
  rw [threeRuns, runBelow, if_pos rfl, List.nil_append, if_neg hpool, List.mem_append,
    List.mem_singleton] at he
  cases he with
  | inl hguest =>
    by_cases hnone : g = 0
    · rw [runBelow, if_pos hnone] at hguest
      exact absurd hguest List.not_mem_nil
    · rw [runBelow, if_neg hnone, List.mem_singleton] at hguest
      have hept : pageType = .ept := hkind.resolve_right hnone
      rw [hguest, hept]
      exact ⟨ofNat_pages_ne_zero (by omega) (by omega), Or.inl hother⟩
  | inr hreserved =>
    rw [hreserved]
    exact ⟨ofNat_pages_ne_zero hr (by omega), Or.inr hreservedPool⟩

/-- The next guest page. -/
theorem tracksTo_guest (hk : k < 2 ^ 52) (hg : g < 2 ^ 52) (hp : k + g ≤ p.toNat / 4096)
    (hfirst : g = 0 → tb = 0 ∧ 0 < r ∧ r ≤ k) :
    TracksTo (pageBelow p (k + g)) .guestPhysical false (threeRuns p k g tb r)
      (threeRuns p k (g + 1) tb r) := by
  by_cases hnone : g = 0
  · obtain ⟨htables, hr, hrk⟩ := hfirst hnone
    subst hnone htables
    refine Or.inr ⟨trackInPlace_eq_none (threeRuns_entries hk hr hrk hg (Or.inr rfl)), rfl⟩
  · have hgrown := @trackLoop_runBelow p .guestPhysical false k g
      (if k = 0 then [] else [⟨pageBelow p (k - 1), BitVec.ofNat 56 r, .ept, true⟩]) (by omega)
      (by omega) hp
    refine Or.inl ?_
    rw [threeRuns, List.append_assoc, trackInPlace,
      trackLoop_runBelow_skip p 0 tb _ (Or.inl (by decide)), hgrown, threeRuns, List.append_assoc]
    rfl

/-- The next table in use. -/
theorem tracksTo_table (hk : k < 2 ^ 52) (hg : g < 2 ^ 52) (htb : tb < k) (hp : k ≤ p.toNat / 4096)
    (hfirst : tb = 0 → 0 < r ∧ r ≤ k) :
    TracksTo (pageBelow p tb) .ept false (threeRuns p k g tb r) (threeRuns p k g (tb + 1) r) := by
  by_cases hnone : tb = 0
  · obtain ⟨hr, hrk⟩ := hfirst hnone
    subst hnone
    refine Or.inr ⟨trackInPlace_eq_none (threeRuns_entries hk hr hrk hg (Or.inl rfl)), rfl⟩
  · have hpages : 0 + tb ≤ p.toNat / 4096 := by omega
    have hgrown := @trackLoop_runBelow p .ept false 0 tb (runBelow p k g .guestPhysical false ++
      if k = 0 then [] else [⟨pageBelow p (k - 1), BitVec.ofNat 56 r, .ept, true⟩]) (by omega)
      (by omega) hpages
    rw [Nat.zero_add] at hgrown
    refine Or.inl ?_
    rw [threeRuns, List.append_assoc, trackInPlace, hgrown, threeRuns, List.append_assoc]
    rfl

/-- The pool is drained from its highest page. -/
theorem untrackLoop_threeRuns (hk : k < 2 ^ 52) (hr : 0 < r) (hrk : r ≤ k) :
    untrackLoop .ept (threeRuns p k g tb r) = some (pageBelow p (k - r), threeRuns p k g tb (r - 1)) := by
  have hskip : ∀ (e : VmPageList) (rest : List VmPageList),
      (e.pageType ≠ .ept ∨ e.reservedPool = false) → untrackLoop .ept (e :: rest) =
        (untrackLoop .ept rest).map fun taken => (taken.1, e :: taken.2) := fun e rest he => by
    rw [untrackLoop, if_pos (he.imp_right Or.inl)]
  have hrun : ∀ (first count : ℕ) (kind : VmPageType) (pages : List VmPageList),
      untrackLoop .ept (runBelow p first count kind false ++ pages) =
        (untrackLoop .ept pages).map fun taken =>
          (taken.1, runBelow p first count kind false ++ taken.2) := fun first count kind pages => by
    by_cases hcount : count = 0
    · rw [runBelow, if_pos hcount]
      exact (congrFun Option.map_id _).symm
    · rw [runBelow, if_neg hcount]
      exact hskip _ _ (Or.inr rfl)
  have hpool : ¬k = 0 := by omega
  have hpages : ¬BitVec.ofNat 56 r = 0 := ofNat_pages_ne_zero hr (by omega)
  have hlast : pageBelow p (k - 1) + ((BitVec.ofNat 56 r).setWidth 64 - 1) * pageSize =
      pageBelow p (k - r) := by
    have hcount : (BitVec.ofNat 56 r).setWidth 64 - 1 = BitVec.ofNat 64 (r - 1) := by
      have hone : (1 : Word).toNat = 1 := rfl
      apply BitVec.eq_of_toNat_eq
      rw [BitVec.toNat_sub, BitVec.toNat_setWidth, BitVec.toNat_ofNat, BitVec.toNat_ofNat, hone]
      omega
    have hsum : k - 1 = k - r + (r - 1) := by omega
    rw [hcount, pageBelow, hsum, BitVec.ofNat_add, BitVec.add_mul, ← sub_sub, sub_add_cancel,
      pageBelow]
  have hpred : BitVec.ofNat 56 r - 1 = BitVec.ofNat 56 (r - 1) := by
    have hone : (1 : BitVec 56).toNat = 1 := rfl
    apply BitVec.eq_of_toNat_eq
    rw [BitVec.toNat_sub, BitVec.toNat_ofNat, BitVec.toNat_ofNat, hone]
    omega
  rw [threeRuns, List.append_assoc, hrun, hrun, if_neg hpool, untrackLoop, if_neg (by
    simp only [ne_eq, not_true_eq_false, Bool.true_eq_false, hpages, or_self, not_false_eq_true]),
    hlast, hpred, threeRuns, if_neg hpool, List.append_assoc]
  rfl

/-! ## Calls of the allocator -/

/-- Nothing that the allocator reads has changed but the list of a machine. -/
structure OthersKept (vm : Word) (t t' : Hv) : Prop where
  fixed : fixedPart t' = fixedPart t
  others : ∀ w, w ≠ vm → t'.vmAt w = t.vmAt w
  flag : (t'.vmAt vm).flags &&& vmTFlagVmcsInitialized = (t.vmAt vm).flags &&& vmTFlagVmcsInitialized
  region : (t'.vmAt vm).vmcsRegion = (t.vmAt vm).vmcsRegion
  cursor : savedCursor t' = savedCursor t
  returned : t'.mmReturned = t.mmReturned

theorem OthersKept.trans {t'' : Hv} (h : OthersKept vm t t') (h' : OthersKept vm t' t'') :
    OthersKept vm t t'' :=
  ⟨h'.fixed.trans h.fixed, fun w hw => (h'.others w hw).trans (h.others w hw),
    h'.flag.trans h.flag, h'.region.trans h.region, h'.cursor.trans h.cursor,
    h'.returned.trans h.returned⟩

/-- A machine in order whose list holds what was taken so far, and none of whose
drained runs starts at address zero. -/
structure Ready (vm : Word) (s : Hv) (taken : List Word) (t : Hv) : Prop where
  ok : MachineOk t vm
  pages : (machinePages t vm).Perm (taken ++ machinePages s vm)
  drained : ∀ e ∈ trackedOf t vm, e.pages = 0 → e.physicalAddress ≠ 0

/-- Calls of the allocator between which a machine works on its tables and its
list, with the pages that they returned, the last one first. -/
inductive Calls (vm : Word) (s : Hv) : List Word → Hv → Prop where
  | start : Calls vm s [] s
  | work {taken : List Word} {t t' : Hv} (h : Calls vm s taken t) (hkept : OthersKept vm t t') :
      Calls vm s taken t'
  | call {taken : List Word} {page : Word} {t t' : Hv} (h : Calls vm s taken t)
      (hready : Ready vm s taken t) (hcall : mmGetFreePage t = .ok page t') :
      Calls vm s (page :: taken) t'

/-- Consecutive descending pages: each of the first `count` calls returns the page
below the one before. -/
def YieldsDescending (s : Hv) (vm p : Word) (count : ℕ) : Prop :=
  ∀ taken t, Calls vm s taken t → Ready vm s taken t → taken.length < count →
    ∃ t', mmGetFreePage t = .ok (pageBelow p taken.length) t'

/-- A step that only writes memory, arenas and the record of the machine. -/
theorem othersKept_update {v : Vm} {m : Memory} {arenaAt : Word → ArenaHeader}
    (hflag : v.flags &&& vmTFlagVmcsInitialized = (t.vmAt vm).flags &&& vmTFlagVmcsInitialized)
    (hregion : v.vmcsRegion = (t.vmAt vm).vmcsRegion) :
    OthersKept vm t
      { t with vmAt := Function.update t.vmAt vm v, memory := m, arenaAt := arenaAt } where
  fixed := rfl
  others := fun _ hw => Function.update_of_ne hw _ _
  flag := by
    simp only [Function.update_self]
    exact hflag
  region := by
    simp only [Function.update_self]
    exact hregion
  cursor := rfl
  returned := rfl

theorem othersKept_memory (vm : Word) (t : Hv) (m : Memory) : OthersKept vm t { t with memory := m } :=
  ⟨rfl, fun _ _ => rfl, rfl, rfl, rfl, rfl⟩

/-! ## The list of the machine -/

/-- A state of the allocation: the calls so far, the list of the machine and what
its entries took from the arena. -/
structure Shape (s : Hv) (vm arena : Word) (taken : List Word) (tracked : List VmPageList)
    (t : Hv) : Prop where
  calls : Calls vm s taken t
  list : trackedOf t vm = tracked
  managerArena : t.vmManagerArena = some arena
  used : (t.arenaAt arena).usedSize =
    (s.arenaAt arena).usedSize + BitVec.ofNat 64 tracked.length * sizeofVmPageList
  room : tracked.length * 24 ≤ (arenaRoom s arena).toNat

/-- The only failure of the allocation: the arena has no room for three entries. -/
def NoRoom (s : Hv) (arena : Word) (e : Fault) (_ : Hv) : Prop :=
  e = .panic "subarenas not supported right now" ∧ arenaRoom s arena < 3 * sizeofVmPageList

variable {taken : List Word} {tracked tracked' : List VmPageList}

/-- A step that leaves list and arena alone. -/
theorem Shape.of_work (h : Shape s vm arena taken tracked t) (hkept : OthersKept vm t t')
    (htracked : trackedOf t' vm = trackedOf t vm) (harena : t'.arenaAt = t.arenaAt) :
    Shape s vm arena taken tracked t' where
  calls := h.calls.work hkept
  list := htracked.trans h.list
  managerArena := (congrArg Hv.vmManagerArena hkept.fixed).trans h.managerArena
  used := by
    rw [harena]
    exact h.used
  room := h.room

/-- So does a store. -/
theorem Shape.of_memory (h : Shape s vm arena taken tracked t) (m : Memory) :
    Shape s vm arena taken tracked { t with memory := m } := by
  have hkept := othersKept_memory vm t m
  exact h.of_work hkept rfl rfl

/-- Growing a run takes no entry. -/
theorem length_trackInPlace {page : Word} {pageType : VmPageType} {reservedPool : Bool}
    (h : trackInPlace page pageType reservedPool tracked = some tracked') :
    tracked'.length = tracked.length := by
  rw [trackInPlace, Option.or_eq_some_iff] at h
  rcases h with h | ⟨_, h⟩
  · obtain ⟨before, e, e', after, rfl, rfl, _⟩ := trackLoop_cases h
    simp only [List.length_append, List.length_cons]
  · obtain ⟨before, e, after, rfl, _, rfl⟩ := reuseEmpty_cases h
    simp only [List.length_append, List.length_cons]

/-- The room that the arena has left after some entries. -/
theorem Shape.arenaRoom_eq (h : Shape s vm arena taken tracked t) :
    (arenaRoom t arena).toNat = (arenaRoom s arena).toNat - tracked.length * 24 := by
  have hroom := h.room
  have hentry : sizeofVmPageList.toNat = 24 := rfl
  have hlt := (arenaRoom s arena).isLt
  have hleft : arenaRoom t arena =
      arenaRoom s arena - BitVec.ofNat 64 tracked.length * sizeofVmPageList := by
    rw [arenaRoom, arenaRoom, h.used, add_right_comm, sub_add_eq_sub_sub]
  rw [hleft, BitVec.toNat_sub, BitVec.toNat_mul, BitVec.toNat_ofNat, hentry]
  omega

/-- Tracking a page, while fewer than three entries were taken. -/
theorem Shape.track {page : Word} {pageType : VmPageType} {reservedPool : Bool}
    (h : Shape s vm arena taken tracked t) (htracks : TracksTo page pageType reservedPool tracked tracked')
    (hlen : tracked'.length ≤ 3) :
    Ensures (vmManagerTrackPage vm page pageType reservedPool) t
      (fun _ t' => Shape s vm arena taken tracked' t') (NoRoom s arena) := by
  have hentry : sizeofVmPageList.toNat = 24 := rfl
  rw [ensures_vmManagerTrackPage, h.list]
  rcases htracks with hplace | ⟨hplace, rfl⟩
  · rw [hplace]
    have hsame := length_trackInPlace hplace
    refine ⟨h.calls.work (othersKept_update rfl rfl), trackedOf_withTracked t vm tracked',
      h.managerArena, ?_, ?_⟩
    · rw [hsame]
      exact h.used
    · rw [hsame]
      exact h.room
  · rw [hplace, h.managerArena]
    have hroom := h.room
    have hleft := h.arenaRoom_eq
    rw [List.length_cons] at hlen
    refine ⟨fun hfull => ⟨rfl, ?_⟩, fun hfits => ?_⟩
    · have hthree : (3 * sizeofVmPageList).toNat = 72 := rfl
      rw [BitVec.lt_def, hentry] at hfull
      rw [BitVec.lt_def, hthree]
      omega
    · rw [BitVec.lt_def, hentry] at hfits
      refine ⟨h.calls.work (othersKept_update rfl rfl), trackedOf_withTracked t vm _,
        h.managerArena, ?_, ?_⟩
      · have hone : BitVec.ofNat 64 1 * sizeofVmPageList = sizeofVmPageList := BitVec.one_mul _
        simp only [Function.update_self]
        rw [h.used, List.length_cons, BitVec.ofNat_add, BitVec.add_mul, hone, BitVec.add_assoc]
      · rw [List.length_cons]
        omega

/-! ## Tables -/

/-- Sizes of a pool and a guest memory, where the pool does not reach below zero. -/
structure Fits (p : Word) (k g : ℕ) : Prop where
  pool : 2 ≤ k
  small : k + g < 2 ^ 52
  room : k ≤ p.toNat / 4096

theorem length_threeRuns (p : Word) (k g tb r : ℕ) : (threeRuns p k g tb r).length ≤ 3 := by
  have hrun : ∀ first count kind pool, (runBelow p first count kind pool).length ≤ 1 :=
    fun first count kind pool => by
      rw [runBelow]
      split <;> simp only [List.length_nil, List.length_singleton, Nat.zero_le, Nat.le_refl]
  have htables := hrun 0 tb .ept false
  have hguest := hrun k g .guestPhysical false
  rw [threeRuns, List.length_append, List.length_append]
  split
  · rw [List.length_nil]
    omega
  · rw [List.length_singleton]
    omega

/-- Taking a table from the pool. -/
theorem eptTablePage_shape {E : Fault → Hv → Prop} (hfits : Fits p k g) (htb : tb < k)
    (h : Shape s vm arena taken (threeRuns p k g tb (k - tb)) t) :
    Ensures (eptTablePage vm) t
      (fun page t' => page = p2vIdentityMap (pageBelow p tb) ∧
        Shape s vm arena taken (threeRuns p k g tb (k - tb - 1)) t') E := by
  have hsmall := hfits.small
  have hback : k - (k - tb) = tb := by omega
  have huntrack := @untrackLoop_threeRuns p k g tb (k - tb) (by omega) (by omega) (Nat.sub_le k tb)
  rw [hback] at huntrack
  have hlen : (threeRuns p k g tb (k - tb - 1)).length = (threeRuns p k g tb (k - tb)).length := by
    rw [threeRuns, threeRuns, List.length_append, @List.length_append _ (_ ++ _)]
    split <;> rfl
  have hrun : eptTablePage vm t = .ok (p2vIdentityMap (pageBelow p tb))
      (withTracked t vm (threeRuns p k g tb (k - tb - 1))) := by
    have hloop : untrackLoop .ept (t.vmAt vm).trackedPages =
        some (pageBelow p tb, threeRuns p k g tb (k - tb - 1)) := by
      rw [← huntrack, ← h.list]
      rfl
    simp only [eptTablePage, vmManagerUntrackEptPageFromReservedPool,
      vmManagerUntrackPageFromReservedPool, bind, EStateM.bind, get, getThe, MonadStateOf.get,
      EStateM.get, hloop]
    rfl
  refine Ensures.ok hrun ⟨rfl, h.calls.work (othersKept_update rfl rfl),
    trackedOf_withTracked t vm _, h.managerArena, ?_, ?_⟩
  · rw [hlen]
    exact h.used
  · rw [hlen]
    exact h.room

/-- Putting it into use. -/
theorem trackTable_shape (hfits : Fits p k g) (htb : tb < k)
    (h : Shape s vm arena taken (threeRuns p k g tb (k - tb - 1)) t) :
    Ensures (vmManagerTrackEptPage vm (p2vIdentityMap (pageBelow p tb))) t
      (fun _ t' => Shape s vm arena taken (threeRuns p k g (tb + 1) (k - (tb + 1))) t')
      (NoRoom s arena) := by
  have hpool := hfits.pool
  have hsmall := hfits.small
  have hroom := hfits.room
  have hrest : k - tb - 1 = k - (tb + 1) := by omega
  have htracks := @tracksTo_table p k g tb (k - tb - 1) (by omega) (by omega) htb (by omega)
    fun hfirst => ⟨by omega, by omega⟩
  rw [vmManagerTrackEptPage, v2p_p2v, ← hrest]
  exact h.track htracks (length_threeRuns p k g (tb + 1) (k - tb - 1))

/-- The list of the machine while `tb` tables are in use. -/
abbrev InUse (s : Hv) (vm arena : Word) (taken : List Word) (p : Word) (k g tb : ℕ) (t : Hv) : Prop :=
  Shape s vm arena taken (threeRuns p k g tb (k - tb)) t

/-- The root of the tables. -/
theorem eptPml4_shape (hfits : Fits p k g) (h : InUse s vm arena taken p k g tb t)
    (hpool : tb + absentCount (eptFollow t vm []) ≤ k) :
    Ensures (eptPml4 vm) t
      (fun _ t' => InUse s vm arena taken p k g (tb + absentCount (eptFollow t vm [])) t')
      (NoRoom s arena) := by
  simp only [eptPml4, ensures_bind, ensures_get, ensures_ite, ensures_pure, ensures_modifyVm]
  constructor
  · intro hept
    have hroot : absentCount (eptFollow t vm []) = 0 := by
      rw [eptFollow_eq hept, follow_nil]
      rfl
    rw [hroot]
    exact h
  · intro hnone
    have hroot : absentCount (eptFollow t vm []) = 1 := by
      have habs : eptFollow t vm [] = .absent := if_neg hnone
      rw [habs]
      rfl
    rw [hroot] at hpool ⊢
    refine (eptTablePage_shape hfits hpool h).mono ?_ fun _ _ he => he
    intro page t₁ htaken
    obtain ⟨hpage, hshape⟩ := htaken
    have hflag : ((t₁.vmAt vm).flags ||| vmTFlagEptPml4Initialized) &&& vmTFlagVmcsInitialized =
        (t₁.vmAt vm).flags &&& vmTFlagVmcsInitialized := by
      have hbits : vmTFlagEptPml4Initialized &&& vmTFlagVmcsInitialized = 0#64 := by decide
      rw [BitVec.and_comm, BitVec.and_or_distrib_left, BitVec.and_comm _ vmTFlagEptPml4Initialized,
        hbits, BitVec.or_zero, BitVec.and_comm]
    rw [hpage]
    refine trackTable_shape hfits hpool (hshape.of_work (othersKept_update hflag rfl) ?_ rfl)
    rw [trackedOf, trackedOf]
    simp only [Function.update_self]

/-- One level down, where no large page is met. -/
theorem eptNextTable_shape {path : List Slot} {i : Slot} {x : Frame} (hfits : Fits p k g)
    (h : InUse s vm arena taken p k g tb t) (hept : hasEpt (t.vmAt vm)) (hp : path.length < 3)
    (hx : eptFollow t vm path = .table x)
    (hsmall : ∀ entry, eptFollow t vm (path ++ [i]) ≠ .leaf entry [])
    (hpool : tb + absentCount (eptFollow t vm (path ++ [i])) ≤ k) :
    Ensures (eptNextTable vm (pageSizeBit path.length) (p2vIdentityMap (frameAddress x))
        (i.setWidth 64)) t
      (fun _ t' => InUse s vm arena taken p k g (tb + absentCount (eptFollow t vm (path ++ [i]))) t')
      (NoRoom s arena) := by
  have hnext := eptFollow_snoc (i := i) hept hx
  rw [eptTables] at hnext
  simp only [eptNextTable, ensures_bind, ensures_readElement, readQword_element, ensures_ite,
    ensures_panicWith, ensures_pure]
  rcases eptDecode_cases hp (slotWord t.memory x i) with
    ⟨hread, hd⟩ | ⟨hread, hlarge, hd⟩ | ⟨hread, hlarge, hd⟩
  · refine ⟨fun hne => absurd hread hne, fun _ => ?_⟩
    have hone : absentCount (eptFollow t vm (path ++ [i])) = 1 := by
      rw [hnext, hd]
      rfl
    rw [hone] at hpool ⊢
    refine (eptTablePage_shape hfits hpool h).mono ?_ fun _ _ he => he
    intro page t₁ htaken
    obtain ⟨hpage, hshape⟩ := htaken
    rw [hpage]
    refine (trackTable_shape hfits hpool hshape).mono ?_ fun _ _ he => he
    intro _ t₂ htracked
    rw [ensures_writeElement]
    exact htracked.of_memory _
  · rw [hd] at hnext
    exact absurd hnext (hsmall _)
  · refine ⟨fun _ => ⟨fun hz => absurd hlarge hz, fun _ => ?_⟩, fun hz => absurd hread hz⟩
    have hzero : absentCount (eptFollow t vm (path ++ [i])) = 0 := by
      rw [hnext, hd]
      rfl
    rw [hzero]
    exact h

/-- A walk down so far, with the list of the machine. -/
structure Reaching (s : Hv) (vm arena : Word) (taken : List Word) (p : Word) (k g tb : ℕ)
    (t t₁ : Hv) (path : List Slot) (x : Frame) : Prop where
  descent : Descent vm t t₁ path x
  list : InUse s vm arena taken p k g
    (tb + ∑ l ∈ Finset.range (path.length + 1), absentCount (eptFollow t vm (path.take l))) t₁

/-- One level further on the path of an address that is not mapped. -/
theorem Reaching.next {t₁ : Hv} {path rest : List Slot} {i : Slot} {x : Frame} (hfits : Fits p k g)
    (h : Reaching s vm arena taken p k g tb t t₁ path x) (hp : path.length < 3)
    (habs : eptFollow t vm (path ++ i :: rest) = .absent)
    (hpool : tb + ∑ l ∈ Finset.range (path.length + 2),
      absentCount (eptFollow t vm ((path ++ [i]).take l)) ≤ k) :
    Ensures (eptNextTable vm (pageSizeBit path.length) (p2vIdentityMap (frameAddress x))
        (i.setWidth 64)) t₁
      (fun next t₂ => ∃ y, next = p2vIdentityMap (frameAddress y) ∧
        Reaching s vm arena taken p k g tb t t₂ (path ++ [i]) y)
      (NoRoom s arena) := by
  have hbelow := h.descent.below (i := i) (by omega)
  have hsum := missing_snoc t vm path i
  have hsmall : ∀ entry, eptFollow t₁ vm (path ++ [i]) ≠ .leaf entry [] := fun entry hleaf => by
    rw [hbelow] at hleaf
    have hall := eptFollow_append_leaf hleaf rest
    rw [List.append_assoc, List.singleton_append, habs] at hall
    cases hall
  rw [hsum, ← Nat.add_assoc, ← hbelow] at hpool
  refine ((eptNextTable_spec h.descent.ok h.descent.ept hp h.descent.reached).and
    (eptNextTable_shape hfits h.list h.descent.ept hp h.descent.reached hsmall hpool)).mono ?_
    fun _ _ he => he.2
  intro next t₂ hboth
  obtain ⟨⟨y, hy, hstep⟩, hlist⟩ := hboth
  refine ⟨y, hy, h.descent.snoc hstep (by omega), ?_⟩
  rw [List.length_append, List.length_singleton, hsum, ← Nat.add_assoc, ← hbelow]
  exact hlist

/-- A mapping takes the missing tables from the pool. -/
theorem vmxEptMapPage_shape {gpa : Word} (hpa : Word) (hfits : Fits p k g) (hok : MachineOk t vm)
    (h : InUse s vm arena taken p k g tb t) (habs : eptFollow t vm (eptPath gpa) = .absent)
    (hpool : tb + tablesMissing t vm gpa ≤ k) :
    Ensures (vmxEptMapPage vm gpa hpa) t
      (fun _ t' => InUse s vm arena taken p k g (tb + tablesMissing t vm gpa) t')
      (NoRoom s arena) := by
  have hsplit : ∀ l, l ≤ 4 → tb + ∑ j ∈ Finset.range l,
      absentCount (eptFollow t vm ((eptPath gpa).take j)) ≤ k := fun l hl =>
    (Nat.add_le_add_left (Finset.sum_le_sum_of_subset (Finset.range_subset_range.mpr hl)) tb).trans
      hpool
  simp only [vmxEptMapPage, ensures_bind, linearAddressGetPml4_eq, linearAddressGetDirectoryPtr_eq,
    linearAddressGetDirectory_eq, linearAddressGetTable_eq]
  have hroot := hsplit 1 (by decide)
  rw [Finset.sum_range_one] at hroot
  refine ((eptPml4_spec hok).and (eptPml4_shape hfits h hroot)).mono ?_ fun _ _ he => he.2
  intro _ t₁ hfirst
  obtain ⟨⟨root, rfl, hstep⟩, hlist⟩ := hfirst
  have hreach₁ : Reaching s vm arena taken p k g tb t t₁ [] root :=
    ⟨Descent.of_root hstep, by rw [List.length_nil, Finset.sum_range_one]; exact hlist⟩
  refine (hreach₁.next hfits (by decide) habs (hsplit 2 (by decide))).mono ?_ fun _ _ he => he
  intro _ t₂ hsecond
  obtain ⟨pdpt, rfl, hreach₂⟩ := hsecond
  refine (hreach₂.next hfits (by simp) habs (hsplit 3 (by decide))).mono ?_ fun _ _ he => he
  intro _ t₃ hthird
  obtain ⟨pd, rfl, hreach₃⟩ := hthird
  refine (hreach₃.next hfits (by simp) habs (hsplit 4 (by decide))).mono ?_ fun _ _ he => he
  intro _ t₄ hfourth
  obtain ⟨pt, rfl, hreach₄⟩ := hfourth
  have hslot := eptFollow_pageTable (i := gpa.extractLsb' 12 9) hreach₄.descent.ept rfl
    hreach₄.descent.reached
  rw [hreach₄.descent.below (by simp)] at hslot
  have habs₄ : eptFollow t vm ([] ++ [gpa.extractLsb' 39 9] ++ [gpa.extractLsb' 30 9] ++
      [gpa.extractLsb' 21 9] ++ [gpa.extractLsb' 12 9]) = .absent := habs
  rw [habs₄] at hslot
  simp only [ensures_readElement, element_slot, ensures_ite, ensures_panicWith,
    ensures_writeElement, ← slotWord.eq_def]
  refine ⟨fun hread => ?_, fun _ => ?_⟩
  · rw [if_neg hread] at hslot
    cases hslot
  · rw [tablesMissing_eq]
    exact hreach₄.list.of_memory _

/-! ## Rounds of the loops -/

/-- The allocator lists what it returned. -/
theorem Calls.returned (h : Calls vm s taken t) : t.mmReturned = taken ++ s.mmReturned := by
  induction h with
  | start => rfl
  | work _ hkept ih => exact hkept.returned.trans ih
  | call _ _ hcall ih =>
    obtain ⟨_, _, rfl⟩ := mmGetFreePage_returned hcall
    rw [List.cons_append, ← ih]

/-- A call of the allocator. -/
theorem Shape.call {page : Word} (h : Shape s vm arena taken tracked t)
    (hready : Ready vm s taken t) (hcall : mmGetFreePage t = .ok page t') :
    Shape s vm arena (page :: taken) tracked t' := by
  have hcalls := h.calls.call hready hcall
  obtain ⟨_, _, rfl⟩ := mmGetFreePage_returned hcall
  exact ⟨hcalls, h.list, h.managerArena, h.used, h.room⟩

/-- Taking a page and filling it with zeros. -/
theorem zeroPage_shape {page : Word} {result : Word → Word} {E : Fault → Hv → Prop}
    (hcall : mmGetFreePage t = .ok page t') (h : Shape s vm arena taken tracked t') :
    Ensures (do
        let page ← mmGetFreePage
        memset (p2vIdentityMap page) 0 4096
        return result page) t
      (fun r t' => r = result page ∧ Shape s vm arena taken tracked t') E := by
  rw [ensures_bind]
  refine Ensures.ok hcall ?_
  rw [ensures_bind, ensures_memset, ensures_pure]
  exact ⟨rfl, h.of_memory _⟩

/-- What holds in every round: the list has its shape and the pages that were
taken are those of the machine. -/
structure Round (s : Hv) (vm arena size p : Word) (count : ℕ) (tracked : List VmPageList) (t : Hv) :
    Prop where
  shape : ∃ taken, taken.length = count ∧ Shape s vm arena taken tracked t
  grown : ∃ taken, Grown vm (sized s vm size) t [] taken

/-- The allocator yields the next page. -/
theorem Round.yields {size : Word} {count total : ℕ} (h : Round s vm arena size p count tracked t)
    (hyields : YieldsDescending s vm p total) (hok : MachineOk t vm)
    (hdrained : ∀ e ∈ tracked, e.pages = 0 → e.physicalAddress ≠ 0) (hcount : count < total) :
    ∃ taken t', taken.length = count + 1 ∧ mmGetFreePage t = .ok (pageBelow p count) t' ∧
      Shape s vm arena taken tracked t' := by
  obtain ⟨taken, hlength, hshape⟩ := h.shape
  obtain ⟨grown, hgrown⟩ := h.grown
  have hsame : grown = taken := by
    have hreturned := hgrown.takes.returned
    rw [hshape.calls.returned] at hreturned
    exact (List.append_cancel_right hreturned).symm
  have hpages := hgrown.pages
  rw [List.nil_append, hsame, machinePages, machinePages, trackedOf_sized] at hpages
  have hready : Ready vm s taken t := ⟨hok, hpages, by rw [hshape.list]; exact hdrained⟩
  obtain ⟨t', hcall⟩ := hyields taken t hshape.calls hready (by rwa [hlength])
  rw [hlength] at hcall
  exact ⟨_, t', by rw [List.length_cons, hlength], hcall, hshape.call hready hcall⟩

/-- Only the pool is ever drained, and it does not start at address zero. -/
theorem threeRuns_drained (hg : g < 2 ^ 52) (htb : tb < 2 ^ 52)
    (hp : k - 1 < p.toNat / 4096) :
    ∀ e ∈ threeRuns p k g tb r, e.pages = 0 → e.physicalAddress ≠ 0 := by
  have hrun : ∀ first count kind pool, count < 2 ^ 52 →
      ∀ e ∈ runBelow p first count kind pool, e.pages ≠ 0 := by
    intro first count kind pool hcount e he
    by_cases hnone : count = 0
    · rw [runBelow, if_pos hnone] at he
      exact absurd he List.not_mem_nil
    · rw [runBelow, if_neg hnone, List.mem_singleton] at he
      rw [he]
      exact ofNat_pages_ne_zero (by omega) (by omega)
  intro e he hdrained
  rw [threeRuns, List.mem_append, List.mem_append] at he
  rcases he with (htables | hguest) | hpool
  · exact absurd hdrained (hrun _ _ _ _ htb e htables)
  · exact absurd hdrained (hrun _ _ _ _ hg e hguest)
  · by_cases hnone : k = 0
    · rw [if_pos hnone] at hpool
      exact absurd hpool List.not_mem_nil
    · rw [if_neg hnone, List.mem_singleton] at hpool
      have hvalue := toNat_pageBelow hp.le
      have hnull : (0 : Word).toNat = 0 := rfl
      rw [hpool]
      intro hzero
      have hstart : pageBelow p (k - 1) = 0 := hzero
      rw [hstart, hnull] at hvalue
      omega

/-- The state after `i` rounds of the reservation. -/
structure PoolRound (s : Hv) (vm arena size p : Word) (i : ℕ) (t : Hv) : Prop where
  round : Round s vm arena size p i (threeRuns p i 0 0 i) t
  pool : PoolGrows vm i t

/-- A round of the reservation. -/
theorem PoolRound.reserve {size : Word} {total : ℕ} (h : PoolRound s vm arena size p i t)
    (hyields : YieldsDescending s vm p total) (hi : i < total) (hsmall : i < 2 ^ 52)
    (hroom : i < p.toNat / 4096) :
    Ensures (reserveEptPage vm) t (fun _ t' => PoolRound s vm arena size p (i + 1) t')
      (NoRoom s arena) := by
  have hdrained := @threeRuns_drained p i 0 0 i (by decide) (by decide) (by omega)
  obtain ⟨taken, t₁, hlength, hcall, hshape⟩ := h.round.yields hyields h.pool.ok hdrained hi
  have hlist : Ensures (reserveEptPage vm) t (fun _ t' =>
      Shape s vm arena taken (threeRuns p (i + 1) 0 0 (i + 1)) t') (NoRoom s arena) := by
    rw [reserveEptPage, ensures_bind]
    refine (zeroPage_shape (E := NoRoom s arena) hcall hshape).mono ?_ fun _ _ he => he
    intro page t₂ hpage
    rw [hpage.1, v2p_p2v]
    exact hpage.2.track (tracksTo_pool hsmall hroom.le) (length_threeRuns p (i + 1) 0 0 (i + 1))
  refine Ensures.intro (fun _ t' hrun => ?_) fun e t' hrun => hlist.of_error hrun
  obtain ⟨_, ⟨taken', hgrown'⟩, _⟩ := (reserveEptPage_spec h.pool.ok).of_ok hrun
  obtain ⟨grown, hgrown⟩ := h.round.grown
  exact ⟨⟨⟨taken, hlength, hlist.of_ok hrun⟩, _, hgrown.trans hgrown'⟩, h.pool.reserve hrun⟩

/-- The state after `i` rounds of the mapping, for a pool of `k` pages. -/
structure GuestRound (s : Hv) (vm arena size p : Word) (n k i : ℕ) (t : Hv) : Prop where
  round : Round s vm arena size p (k + i) (threeRuns p k i (tablesFor i) (k - tablesFor i)) t
  fits : PoolFits vm n i t
  guest : ∃ host, GuestMapped t vm i host

/-- A round of the mapping. -/
theorem GuestRound.add {size : Word} (h : GuestRound s vm arena size p n (tablesFor n) i t)
    (hyields : YieldsDescending s vm p (tablesFor n + n)) (hi : i < n) (hn : n ≤ 2 ^ 36)
    (hfits : Fits p (tablesFor n) (i + 1)) (hroom : tablesFor n + i ≤ p.toNat / 4096) :
    Ensures (addGuestPage vm (guestPage i)) t
      (fun _ t' => GuestRound s vm arena size p n (tablesFor n) (i + 1) t') (NoRoom s arena) := by
  obtain ⟨host, hguest⟩ := h.guest
  have hpool := hfits.pool
  have hsmall := hfits.small
  have hmissing := h.fits.missing (hi.trans_le hn)
  have hmono : tablesFor (i + 1) ≤ tablesFor n := tablesFor_mono hi
  have hused : tablesFor i ≤ tablesFor n := tablesFor_mono hi.le
  have hdrained := @threeRuns_drained p (tablesFor n) i (tablesFor i) (tablesFor n - tablesFor i)
    (by omega) (by omega) (by omega)
  obtain ⟨taken, t₁, hlength, hcall, hshape⟩ :=
    h.round.yields hyields h.fits.ok hdrained (by omega)
  have hfirst : i = 0 → tablesFor i = 0 ∧ 0 < tablesFor n - tablesFor i ∧
      tablesFor n - tablesFor i ≤ tablesFor n := fun hzero => by
    rw [hzero, tablesFor_zero]
    omega
  have habs : eptFollow t vm (eptPath (guestPage i)) = .absent :=
    hguest.absent _ rfl fun j hj hpath =>
      absurd (eptPath_guestPage_inj (hi.trans_le hn) (by omega) hpath) (by omega)
  have hlist : Ensures (addGuestPage vm (guestPage i)) t (fun _ t' =>
      InUse s vm arena taken p (tablesFor n) (i + 1) (tablesFor (i + 1)) t') (NoRoom s arena) := by
    rw [addGuestPage, ensures_bind]
    refine ((zeroPage_spec h.fits.ok id).and
      (zeroPage_shape (E := NoRoom s arena) hcall hshape)).mono ?_ fun _ _ he => he.2
    intro page t₂ hpage
    obtain ⟨⟨f, hframe, hloose, _⟩, hvalue, hshape₂⟩ := hpage
    have haddress : frameAddress f = pageBelow p (tablesFor n + i) := hframe.symm.trans hvalue
    have htracks := hshape₂.track (tracksTo_guest (by omega) (by omega) hroom hfirst)
      (length_threeRuns p (tablesFor n) (i + 1) (tablesFor i) (tablesFor n - tablesFor i))
    rw [ensures_bind, hframe, id]
    rw [← haddress] at htracks
    refine ((hloose.track h.fits.ok .guestPhysical false).and htracks).mono ?_ fun _ _ he => he.2
    intro _ t₃ htracked
    obtain ⟨htracked, hshape₃⟩ := htracked
    -- the page itself changes no path
    have hsame : tablesMissing t₃ vm (guestPage i) = tablesMissing t vm (guestPage i) :=
      Finset.sum_congr rfl fun l _ => by
        have hlen : ((eptPath (guestPage i)).take l).length ≤ 4 := List.length_take_le' l _
        rw [htracked.follow _ hlen]
    have hmap := vmxEptMapPage_shape (frameAddress f) hfits htracked.ok hshape₃
      ((htracked.follow (eptPath (guestPage i)) (Nat.le_refl 4)).trans habs) (by rw [hsame]; omega)
    rw [hsame, hmissing] at hmap
    exact hmap
  refine Ensures.intro (fun _ t' hrun => ?_) fun e t' hrun => hlist.of_error hrun
  obtain ⟨f, hadded⟩ := (addGuestPage_spec h.fits.ok (guestPage i)).of_ok hrun
  obtain ⟨taken', hgrown'⟩ := hadded.grown
  obtain ⟨grown, hgrown⟩ := h.round.grown
  exact ⟨⟨⟨taken, hlength, hlist.of_ok hrun⟩, _, hgrown.trans hgrown'⟩,
    (h.fits.add hi hn hrun).2, _, hguest.add hadded⟩

/-! ## The allocation -/

variable {hw : Hardware} {size : Word}

/-- A drained pool, the tables in use and the guest pages. -/
structure ThreeRuns (s : Hv) (vm arena p size : Word) (s' : Hv) : Prop where
  list : trackedOf s' vm =
    [⟨pageBelow p ((eptPages size).toNat - 1), (eptPages size).setWidth 56, .ept, false⟩,
      ⟨pageBelow p ((eptPages size).toNat + size.toNat - 1), size.setWidth 56, .guestPhysical, false⟩,
      ⟨pageBelow p ((eptPages size).toNat - 1), 0, .ept, true⟩]
  entries : (s'.arenaAt arena).usedSize = (s.arenaAt arena).usedSize + 3 * sizeofVmPageList
  room : ¬arenaRoom s arena < 3 * sizeofVmPageList

/-- Setting the size of a fresh machine starts the first loop. -/
theorem poolRound_sized (h : ReachedFresh hw s vm) (harena : s.vmManagerArena = some arena) :
    PoolRound s vm arena size p 0 (sized s vm size) := by
  obtain ⟨_, name, hrecord⟩ := h.fresh
  have hkept : OthersKept vm s (sized s vm size) := othersKept_update rfl rfl
  have htracked : trackedOf (sized s vm size) vm = [] := by
    rw [trackedOf_sized, trackedOf, hrecord]
    rfl
  have hzero : BitVec.ofNat 64 0 * sizeofVmPageList = 0#64 := by decide
  refine ⟨⟨⟨[], rfl, Calls.start.work hkept, htracked, harena, ?_, Nat.zero_le _⟩, [],
    Grown.refl vm _⟩, poolGrows_sized h⟩
  change (s.arenaAt arena).usedSize = (s.arenaAt arena).usedSize + BitVec.ofNat 64 0 * sizeofVmPageList
  rw [hzero, BitVec.add_zero]

/-- A finished pool starts the second loop. -/
theorem PoolRound.guestRound {k : ℕ} (h : PoolRound s vm arena size p k t) (hk : tablesFor n = k) :
    GuestRound s vm arena size p n k 0 t := by
  refine ⟨?_, ⟨h.pool.ok, fun q hq => ?_, ?_, ?_⟩, fun _ => 0, h.pool.ok,
    fun _ hj => absurd hj (Nat.not_lt_zero _), fun _ hj => absurd hj (Nat.not_lt_zero _),
    fun _ hj => absurd hj (Nat.not_lt_zero _), fun q hq _ => h.pool.absent q hq.le⟩
  · rw [tablesFor_zero]
    exact h.round
  · rw [h.pool.absent q hq.le]
    exact iff_of_false (fun hne => hne rfl) fun hj => absurd hj.choose_spec.1 (Nat.not_lt_zero _)
  · rw [h.pool.reserved, tablesFor_zero, hk, Nat.add_zero]
  · rw [h.pool.used, tablesFor_zero]

/-- When the allocator yields consecutive descending pages, the list of a fresh
machine ends with three entries, whatever the size of its guest memory, and the
allocation returns unless the arena has no room for them. -/
theorem allocate_threeRuns (h : ReachedFresh hw s vm) (hpos : 1 ≤ size.toNat)
    (hsize : size.toNat ≤ 512 ^ 4) (harena : s.vmManagerArena = some arena)
    (hyields : YieldsDescending s vm p ((eptPages size).toNat + size.toNat))
    (hwrap : ((eptPages size).toNat + size.toNat - 1) * 4096 ≤ p.toNat) :
    Ensures (vmManagerAllocateGuestPhysicalMemory vm size) s
      (fun _ s' => ThreeRuns s vm arena p size s') (NoRoom s arena) := by
  obtain ⟨_, name, hrecord⟩ := h.fresh
  have hfresh : (s.vmAt vm).guestPhysicalPages = 0 := by
    rw [hrecord]
    rfl
  have htables := toNat_eptPages hsize
  have hfour : tablesFor 1 ≤ tablesFor size.toNat := tablesFor_mono hpos
  have hone : tablesFor 1 = 4 := by decide
  have hmost : tablesFor size.toNat ≤ tablesFor (512 ^ 4) := tablesFor_mono hsize
  have hall : tablesFor (512 ^ 4) = 134480385 := by decide
  have hlowest : (eptPages size).toNat + size.toNat - 1 ≤ p.toNat / 4096 :=
    (Nat.le_div_iff_mul_le (by decide)).mpr hwrap
  rw [htables] at hyields hlowest
  rw [vmManagerAllocateGuestPhysicalMemory, ensures_bind, ensures_get, hfresh,
    if_neg (not_not.mpr rfl), ensures_bind, ensures_modifyVm, ensures_bind, htables]
  refine (ensures_forRange (fun i t => PoolRound s vm arena size p i t)
    (poolRound_sized h harena) fun i t hi ht => ?_).mono ?_ fun _ _ he => he
  · exact ht.reserve hyields (by omega) (by omega) (by omega)
  · intro _ t ht
    refine (ensures_forRange (fun i t => GuestRound s vm arena size p size.toNat
      (tablesFor size.toNat) i t) (ht.guestRound rfl) fun i t hi ht => ?_).mono ?_ fun _ _ he => he
    · exact ht.add hyields hi hsize ⟨by omega, by omega, by omega⟩ (by omega)
    · intro _ s' hend
      obtain ⟨taken, hlength, hshape⟩ := hend.round.shape
      have hruns : threeRuns p (tablesFor size.toNat) size.toNat (tablesFor size.toNat)
          (tablesFor size.toNat - tablesFor size.toNat) =
          [⟨pageBelow p ((eptPages size).toNat - 1), (eptPages size).setWidth 56, .ept, false⟩,
            ⟨pageBelow p ((eptPages size).toNat + size.toNat - 1), size.setWidth 56,
              .guestPhysical, false⟩,
            ⟨pageBelow p ((eptPages size).toNat - 1), 0, .ept, true⟩] := by
        rw [threeRuns, runBelow, runBelow, if_neg (by omega), if_neg (by omega), if_neg (by omega),
          Nat.sub_self, Nat.zero_add, ← htables, BitVec.ofNat_toNat, BitVec.ofNat_toNat]
        rfl
      have hroom := hshape.room
      have hused := hshape.used
      rw [hruns] at hroom hused
      refine ⟨hshape.list.trans hruns, hused, ?_⟩
      have hthree : (3 * sizeofVmPageList).toNat = 72 := rfl
      have hlen : 3 * 24 ≤ (arenaRoom s arena).toNat := hroom
      rw [BitVec.lt_def, hthree]
      omega

end Rkhv.DescendingPages
