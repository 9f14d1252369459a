import Rkhv.Arenas
import Rkhv.PageRuns

/-!
# The page tracker of a machine

A machine lists its host pages as runs of one page type and pool. Tracking a
page grows an adjacent run of its kind at either end, reuses a run without
pages or takes a new list entry; untracking takes the last page of the first
run of the reserved pool that has one. Read as a list of pages with their kind,
tracking adds one page and untracking removes one.
-/

namespace Rkhv.PageTracker

open ByteMemory HostTypes HostState StateOutcome PageRuns Arenas

/-- The loop of `vm_manager_track_page` up to a return; `none` when it ends
without one. -/
def trackLoop (physicalAddress : Word) (pageType : VmPageType) (reservedPool : Bool) :
    List VmPageList → Option (List VmPageList)
  | [] => none
  | iter :: rest =>
    if iter.pages = 0 then (trackLoop physicalAddress pageType reservedPool rest).map (iter :: ·)
    else if iter.pageType ≠ pageType ∨ iter.reservedPool ≠ reservedPool then
      (trackLoop physicalAddress pageType reservedPool rest).map (iter :: ·)
    else
      let firstPage := iter.physicalAddress
      let lastPage := firstPage + (iter.pages.setWidth 64 - 1) * pageSize
      if firstPage ≤ physicalAddress ∧ physicalAddress ≤ lastPage then some (iter :: rest)
      else if physicalAddress + pageSize = firstPage then
        some ({ iter with physicalAddress := physicalAddress, pages := iter.pages + 1 } :: rest)
      else if physicalAddress - pageSize = lastPage then
        some ({ iter with pages := iter.pages + 1 } :: rest)
      else (trackLoop physicalAddress pageType reservedPool rest).map (iter :: ·)

/-- Reuse the first run without pages, the `new_list` that the loop remembers. -/
def reuseEmpty (entry : VmPageList) : List VmPageList → Option (List VmPageList)
  | [] => none
  | iter :: rest =>
    if iter.pages = 0 then some (entry :: rest) else (reuseEmpty entry rest).map (iter :: ·)

/-- The tracked pages after a page was tracked without a new list entry. -/
def trackInPlace (physicalAddress : Word) (pageType : VmPageType) (reservedPool : Bool)
    (tracked : List VmPageList) : Option (List VmPageList) :=
  (trackLoop physicalAddress pageType reservedPool tracked).or
    (reuseEmpty ⟨physicalAddress, 1, pageType, reservedPool⟩ tracked)

/-- `vm_manager_track_page` -/
def vmManagerTrackPage (vm physicalAddress : Word) (pageType : VmPageType) (reservedPool : Bool) :
    HvM Unit := do
  let s ← get
  match trackInPlace physicalAddress pageType reservedPool (s.vmAt vm).trackedPages with
  | some tracked => modifyVm vm fun v => { v with trackedPages := tracked }
  | none =>
    let _newList ← arenaAllocate s.vmManagerArena sizeofVmPageList
    modifyVm vm fun v => { v with
      trackedPages := ⟨physicalAddress, 1, pageType, reservedPool⟩ :: v.trackedPages }

/-- The loop of `vm_manager_untrack_page_from_reserved_pool`. -/
def untrackLoop (pageType : VmPageType) : List VmPageList → Option (Word × List VmPageList)
  | [] => none
  | iter :: rest =>
    if iter.pageType ≠ pageType ∨ iter.reservedPool = false ∨ iter.pages = 0 then
      (untrackLoop pageType rest).map fun (page, rest') => (page, iter :: rest')
    else
      some (iter.physicalAddress + (iter.pages.setWidth 64 - 1) * pageSize,
        { iter with pages := iter.pages - 1 } :: rest)

/-- `vm_manager_untrack_page_from_reserved_pool`; `none` stands for `false`. -/
def vmManagerUntrackPageFromReservedPool (vm : Word) (pageType : VmPageType) :
    HvM (Option Word) := do
  let s ← get
  match untrackLoop pageType (s.vmAt vm).trackedPages with
  | none => return none
  | some (page, tracked) =>
    modifyVm vm fun v => { v with trackedPages := tracked }
    return some page

/-- `vm_manager_track_ept_page` -/
def vmManagerTrackEptPage (vm eptPage : Word) : HvM Unit :=
  vmManagerTrackPage vm (v2pIdentityMap eptPage) .ept false

/-- `vm_manager_untrack_ept_page_from_reserved_pool`; the result is a pointer. -/
def vmManagerUntrackEptPageFromReservedPool (vm : Word) : HvM (Option Word) := do
  let physicalAddress ← vmManagerUntrackPageFromReservedPool vm .ept
  return physicalAddress.map p2vIdentityMap

/-! ## Contents of the runs -/

/-- A page with the type and pool it is tracked under. -/
abbrev TrackedPage := Word × VmPageType × Bool

/-- Pages of a run. -/
def entryPages (e : VmPageList) : List Word := runPages e.physicalAddress e.pages.toNat

/-- Pages of a run with their kind. -/
def entryContents (e : VmPageList) : List TrackedPage :=
  (entryPages e).map fun page => (page, e.pageType, e.reservedPool)

/-- All tracked pages with their kinds. -/
def contents (tracked : List VmPageList) : List TrackedPage := tracked.flatMap entryContents

/-- A run is page aligned and ends within the 52-bit physical address space. -/
def EntryOk (e : VmPageList) : Prop :=
  e.physicalAddress.toNat % 4096 = 0 ∧ e.physicalAddress.toNat + e.pages.toNat * 4096 ≤ 2 ^ 52

/-- A page address below the 52-bit limit. -/
def PageOk (page : Word) : Prop := page.toNat % 4096 = 0 ∧ page.toNat + 4096 ≤ 2 ^ 52

theorem EntryOk.runFits {e : VmPageList} (h : EntryOk e) :
    RunFits e.physicalAddress e.pages.toNat := ⟨h.1, h.2.trans (by decide)⟩

theorem contents_cons (e : VmPageList) (tracked : List VmPageList) :
    contents (e :: tracked) = entryContents e ++ contents tracked := rfl

/-- A run of a single page. -/
theorem entry_single {page : Word} (h : PageOk page) (pageType : VmPageType) (reservedPool : Bool) :
    EntryOk ⟨page, 1, pageType, reservedPool⟩ ∧
      entryContents ⟨page, 1, pageType, reservedPool⟩ = [(page, pageType, reservedPool)] := by
  have hone : ((1 : BitVec 56)).toNat = 1 := rfl
  refine ⟨⟨h.1, ?_⟩, ?_⟩
  · simp only [hone, Nat.one_mul]
    exact h.2
  · simp only [entryContents, entryPages, hone, runPages_one, List.map_cons, List.map_nil]

/-- The pages of a run that is not empty, seen from its 64-bit arithmetic. -/
theorem EntryOk.lastPage {e : VmPageList} (h : EntryOk e) (hne : e.pages ≠ 0) :
    0 < e.pages.toNat ∧ (e.physicalAddress + (e.pages.setWidth 64 - 1) * pageSize).toNat =
      e.physicalAddress.toNat + (e.pages.toNat - 1) * 4096 := by
  have hpos : e.pages.toNat ≠ 0 := fun hz => hne (BitVec.eq_of_toNat_eq (by simpa using hz))
  have hlt := e.pages.isLt
  have hfit := h.2
  have hwidth : (e.pages.setWidth 64).toNat = e.pages.toNat := by
    rw [BitVec.toNat_setWidth]
    omega
  have hne64 : e.pages.setWidth 64 ≠ 0 := fun hz => by
    rw [hz] at hwidth
    exact hpos hwidth.symm
  refine ⟨Nat.pos_of_ne_zero hpos, ?_⟩
  have hfit64 : e.physicalAddress.toNat + (e.pages.setWidth 64).toNat * 4096 ≤ 2 ^ 64 := by
    simp only [hwidth]
    exact hfit.trans (by decide)
  have hlast := toNat_lastPage hne64 hfit64
  rwa [hwidth] at hlast

/-- The range test of the source decides membership of a run. -/
theorem EntryOk.mem_iff {e : VmPageList} {page : Word} (h : EntryOk e) (hne : e.pages ≠ 0)
    (hp : page.toNat % 4096 = 0) : page ∈ entryPages e ↔
      e.physicalAddress ≤ page ∧ page ≤ e.physicalAddress + (e.pages.setWidth 64 - 1) * pageSize := by
  obtain ⟨hpos, hlast⟩ := h.lastPage hne
  have halign := h.1
  rw [entryPages, mem_runPages h.runFits, BitVec.le_def, BitVec.le_def, hlast]
  omega

/-- `last_page` of a run that is not empty, counted from its start. -/
theorem lastPage_eq {e : VmPageList} (hne : e.pages ≠ 0) :
    0 < e.pages.toNat ∧ e.physicalAddress + (e.pages.setWidth 64 - 1) * pageSize =
      e.physicalAddress + BitVec.ofNat 64 ((e.pages.toNat - 1) * 4096) := by
  have hpos : e.pages.toNat ≠ 0 := fun hz => hne (BitVec.eq_of_toNat_eq (by simpa using hz))
  have hlt := e.pages.isLt
  have hsize : pageSize.toNat = 4096 := rfl
  have hone : (1 : Word).toNat = 1 := rfl
  refine ⟨Nat.pos_of_ne_zero hpos, congrArg _ (BitVec.eq_of_toNat_eq ?_)⟩
  rw [BitVec.toNat_mul, BitVec.toNat_sub, BitVec.toNat_setWidth, BitVec.toNat_ofNat, hsize, hone]
  omega

/-- The pages of a run grown by the page before its first one. -/
theorem entryContents_growFirst {e : VmPageList} {page : Word} (hn : e.pages.toNat + 1 < 2 ^ 56)
    (hadj : page + pageSize = e.physicalAddress) :
    entryContents { e with physicalAddress := page, pages := e.pages + 1 } =
      (page, e.pageType, e.reservedPool) :: entryContents e := by
  have hgrown : (e.pages + 1).toNat = e.pages.toNat + 1 := by
    have hone : (1 : BitVec 56).toNat = 1 := rfl
    rw [BitVec.toNat_add, hone]
    omega
  have hprev : e.physicalAddress - 4096 = page := by
    rw [← hadj]
    exact BitVec.add_sub_cancel page pageSize
  have hruns := runPages_pred e.physicalAddress e.pages.toNat
  rw [hprev] at hruns
  simp only [entryContents, entryPages, hgrown, hruns, List.map_cons]

/-- The pages of a run grown by the page after its last one. -/
theorem entryContents_growLast {e : VmPageList} {page : Word} (hne : e.pages ≠ 0)
    (hn : e.pages.toNat + 1 < 2 ^ 56)
    (hadj : page - pageSize = e.physicalAddress + (e.pages.setWidth 64 - 1) * pageSize) :
    (entryContents { e with pages := e.pages + 1 }).Perm
      ((page, e.pageType, e.reservedPool) :: entryContents e) := by
  obtain ⟨hpos, hlast⟩ := lastPage_eq hne
  have hgrown : (e.pages + 1).toNat = e.pages.toNat + 1 := by
    have hone : (1 : BitVec 56).toNat = 1 := rfl
    rw [BitVec.toNat_add, hone]
    omega
  have hnext : e.physicalAddress + BitVec.ofNat 64 (e.pages.toNat * 4096) = page := by
    have hpage : page = e.physicalAddress + BitVec.ofNat 64 ((e.pages.toNat - 1) * 4096) + pageSize := by
      rw [← hlast, ← hadj, BitVec.sub_add_cancel]
    have hstep : BitVec.ofNat 64 (e.pages.toNat * 4096) =
        BitVec.ofNat 64 ((e.pages.toNat - 1) * 4096) + pageSize := by
      have hsize : pageSize.toNat = 4096 := rfl
      apply BitVec.eq_of_toNat_eq
      rw [BitVec.toNat_add, BitVec.toNat_ofNat, BitVec.toNat_ofNat, hsize]
      omega
    rw [hpage, hstep, BitVec.add_assoc]
  simp only [entryContents, entryPages, hgrown, runPages_succ, hnext, List.map_append,
    List.map_cons, List.map_nil]
  exact List.perm_append_comm

/-- The pages of a run with its last page taken off. -/
theorem entryContents_shrink {e : VmPageList} (hne : e.pages ≠ 0) :
    (entryContents e).Perm
      ((e.physicalAddress + (e.pages.setWidth 64 - 1) * pageSize, e.pageType, e.reservedPool) ::
        entryContents { e with pages := e.pages - 1 }) := by
  obtain ⟨hpos, hlast⟩ := lastPage_eq hne
  have hless : (e.pages - 1).toNat + 1 = e.pages.toNat := by
    have hone : (1 : BitVec 56).toNat = 1 := rfl
    have hlt := e.pages.isLt
    rw [BitVec.toNat_sub, hone]
    omega
  have hcount : e.pages.toNat - 1 = (e.pages - 1).toNat := by omega
  rw [hcount] at hlast
  simp only [entryContents, entryPages]
  rw [← hless, runPages_succ, hlast, List.map_append]
  exact List.perm_append_comm

/-- A run grown by the page before its first one. -/
theorem EntryOk.grow_first {e : VmPageList} {page : Word} (h : EntryOk e) (hp : PageOk page)
    (hadj : page + pageSize = e.physicalAddress) :
    EntryOk { e with physicalAddress := page, pages := e.pages + 1 } ∧
      entryContents { e with physicalAddress := page, pages := e.pages + 1 } =
        (page, e.pageType, e.reservedPool) :: entryContents e := by
  have hfit := h.2
  have hpage := hp.2
  have hsize : pageSize.toNat = 4096 := rfl
  have hstart : e.physicalAddress.toNat = page.toNat + 4096 := by
    rw [← hadj, BitVec.toNat_add, hsize]
    omega
  have hgrown : (e.pages + 1).toNat = e.pages.toNat + 1 := by
    have hone : (1 : BitVec 56).toNat = 1 := rfl
    rw [BitVec.toNat_add, hone]
    omega
  refine ⟨⟨hp.1, ?_⟩, entryContents_growFirst (by omega) hadj⟩
  have hsame : page.toNat + (e.pages + 1).toNat * 4096 =
      e.physicalAddress.toNat + e.pages.toNat * 4096 := by
    rw [hgrown, hstart]
    omega
  exact hsame.le.trans hfit

/-- A run grown by the page after its last one. -/
theorem EntryOk.grow_last {e : VmPageList} {page : Word} (h : EntryOk e) (hne : e.pages ≠ 0)
    (hp : PageOk page) (hadj : page - pageSize = e.physicalAddress + (e.pages.setWidth 64 - 1) * pageSize) :
    EntryOk { e with pages := e.pages + 1 } ∧
      (entryContents { e with pages := e.pages + 1 }).Perm
        ((page, e.pageType, e.reservedPool) :: entryContents e) := by
  obtain ⟨hpos, hlast⟩ := h.lastPage hne
  have hfit := h.2
  have hpage := hp.2
  have hsize : pageSize.toNat = 4096 := rfl
  have hend : page.toNat = e.physicalAddress.toNat + e.pages.toNat * 4096 := by
    rw [← hadj, BitVec.toNat_sub, hsize] at hlast
    omega
  have hgrown : (e.pages + 1).toNat = e.pages.toNat + 1 := by
    have hone : (1 : BitVec 56).toNat = 1 := rfl
    rw [BitVec.toNat_add, hone]
    omega
  refine ⟨⟨h.1, ?_⟩, entryContents_growLast hne (by omega) hadj⟩
  have hsame : e.physicalAddress.toNat + (e.pages + 1).toNat * 4096 = page.toNat + 4096 := by
    rw [hgrown, hend]
    omega
  exact hsame.le.trans hpage

/-- The last page of a run, taken off. -/
theorem EntryOk.shrink {e : VmPageList} (h : EntryOk e) (hne : e.pages ≠ 0) :
    EntryOk { e with pages := e.pages - 1 } ∧
      (entryContents e).Perm
        ((e.physicalAddress + (e.pages.setWidth 64 - 1) * pageSize, e.pageType, e.reservedPool) ::
          entryContents { e with pages := e.pages - 1 }) := by
  have hpos := (lastPage_eq hne).1
  have hless : (e.pages - 1).toNat + 1 = e.pages.toNat := by
    have hone : (1 : BitVec 56).toNat = 1 := rfl
    have hlt := e.pages.isLt
    rw [BitVec.toNat_sub, hone]
    omega
  refine ⟨⟨h.1, ?_⟩, entryContents_shrink hne⟩
  have hle : (e.pages - 1).toNat ≤ e.pages.toNat := hless ▸ Nat.le_succ _
  exact (Nat.add_le_add_left (Nat.mul_le_mul_right 4096 hle) _).trans h.2

/-! ## The loops on the contents -/

/-- What the track loop does to the run it stops at: nothing when the run holds
the page, or it grows the run by the page at one end. -/
def StopsAt (page : Word) (e e' : VmPageList) : Prop :=
  ((e.physicalAddress ≤ page ∧
      page ≤ e.physicalAddress + (e.pages.setWidth 64 - 1) * pageSize) ∧ e' = e) ∨
    (page + pageSize = e.physicalAddress ∧
      e' = { e with physicalAddress := page, pages := e.pages + 1 }) ∨
    (page - pageSize = e.physicalAddress + (e.pages.setWidth 64 - 1) * pageSize ∧
      e' = { e with pages := e.pages + 1 })

/-- A return of the track loop: it stops at a run of the page's kind and leaves
the other runs alone. -/
theorem trackLoop_cases {page : Word} {pageType : VmPageType} {reservedPool : Bool}
    {tracked tracked' : List VmPageList}
    (h : trackLoop page pageType reservedPool tracked = some tracked') :
    ∃ before e e' after, tracked = before ++ e :: after ∧ tracked' = before ++ e' :: after ∧
      e.pages ≠ 0 ∧ e.pageType = pageType ∧ e.reservedPool = reservedPool ∧ StopsAt page e e' := by
  induction tracked generalizing tracked' with
  | nil => cases h
  | cons iter rest ih =>
    -- the loop goes on behind a run that it leaves alone
    have hskip : (trackLoop page pageType reservedPool rest).map (iter :: ·) = some tracked' →
        ∃ before e e' after, iter :: rest = before ++ e :: after ∧
          tracked' = before ++ e' :: after ∧ e.pages ≠ 0 ∧ e.pageType = pageType ∧
          e.reservedPool = reservedPool ∧ StopsAt page e e' := by
      intro hl
      rw [Option.map_eq_some_iff] at hl
      obtain ⟨rest', hr, rfl⟩ := hl
      obtain ⟨before, e, e', after, hrest, hrest', hcase⟩ := ih hr
      exact ⟨iter :: before, e, e', after, congrArg (iter :: ·) hrest,
        congrArg (iter :: ·) hrest', hcase⟩
    rw [trackLoop] at h
    by_cases hempty : iter.pages = 0
    · rw [if_pos hempty] at h
      exact hskip h
    rw [if_neg hempty] at h
    by_cases hkind : iter.pageType ≠ pageType ∨ iter.reservedPool ≠ reservedPool
    · rw [if_pos hkind] at h
      exact hskip h
    rw [if_neg hkind] at h
    rw [not_or, not_not, not_not] at hkind
    obtain ⟨htype, hpool⟩ := hkind
    dsimp only at h
    split at h
    · rename_i hheld
      cases h
      exact ⟨[], iter, iter, rest, rfl, rfl, hempty, htype, hpool, .inl ⟨hheld, rfl⟩⟩
    split at h
    · rename_i hbefore
      cases h
      exact ⟨[], iter, _, rest, rfl, rfl, hempty, htype, hpool, .inr (.inl ⟨hbefore, rfl⟩)⟩
    split at h
    · rename_i hafter
      cases h
      exact ⟨[], iter, _, rest, rfl, rfl, hempty, htype, hpool, .inr (.inr ⟨hafter, rfl⟩)⟩
    exact hskip h

/-- A run without pages that is reused. -/
theorem reuseEmpty_cases {entry : VmPageList} {tracked tracked' : List VmPageList}
    (h : reuseEmpty entry tracked = some tracked') :
    ∃ before e after, tracked = before ++ e :: after ∧ e.pages = 0 ∧
      tracked' = before ++ entry :: after := by
  induction tracked generalizing tracked' with
  | nil => cases h
  | cons iter rest ih =>
    rw [reuseEmpty] at h
    by_cases hempty : iter.pages = 0
    · rw [if_pos hempty] at h
      exact ⟨[], iter, rest, rfl, hempty, (Option.some.inj h).symm⟩
    · rw [if_neg hempty, Option.map_eq_some_iff] at h
      obtain ⟨rest', hr, rfl⟩ := h
      obtain ⟨before, e, after, hrest, hpages, hrest'⟩ := ih hr
      exact ⟨iter :: before, e, after, congrArg (iter :: ·) hrest, hpages,
        congrArg (iter :: ·) hrest'⟩

/-- The contents after one run was exchanged. -/
theorem contents_exchange {before after : List VmPageList} {e e' : VmPageList}
    {added : List TrackedPage} (h : (entryContents e').Perm (added ++ entryContents e)) :
    (contents (before ++ e' :: after)).Perm (added ++ contents (before ++ e :: after)) := by
  rw [contents, contents, List.flatMap_append, List.flatMap_append, List.flatMap_cons,
    List.flatMap_cons]
  calc before.flatMap entryContents ++ (entryContents e' ++ after.flatMap entryContents)
    _ |>.Perm (before.flatMap entryContents ++
          (added ++ (entryContents e ++ after.flatMap entryContents))) := by
        rw [← List.append_assoc added]
        exact (h.append_right _).append_left _
    _ |>.Perm (added ++ (before.flatMap entryContents ++
          (entryContents e ++ after.flatMap entryContents))) := by
        rw [← List.append_assoc, ← List.append_assoc added]
        exact List.perm_append_comm.append_right _

/-- The contents after one run was grown by a page. -/
theorem contents_grow {before after : List VmPageList} {e e' : VmPageList} {t : TrackedPage}
    (h : (entryContents e').Perm (t :: entryContents e)) :
    (contents (before ++ e' :: after)).Perm (t :: contents (before ++ e :: after)) :=
  @contents_exchange before after e e' [t] h

/-- Exchanging a run keeps what holds of every run. -/
theorem forall_exchange {p : VmPageList → Prop} {before after : List VmPageList}
    {e e' : VmPageList} (hall : ∀ x ∈ before ++ e :: after, p x) (he' : p e') :
    ∀ x ∈ before ++ e' :: after, p x := by
  rw [List.forall_mem_append, List.forall_mem_cons] at hall ⊢
  exact ⟨hall.1, he', hall.2.2⟩

/-- The track loop keeps the runs page aligned and within the address space. -/
theorem trackLoop_ok {page : Word} {pageType : VmPageType} {reservedPool : Bool}
    {tracked tracked' : List VmPageList} (hpage : PageOk page) (hok : ∀ e ∈ tracked, EntryOk e)
    (h : trackLoop page pageType reservedPool tracked = some tracked') :
    ∀ e ∈ tracked', EntryOk e := by
  obtain ⟨before, e, e', after, rfl, rfl, hne, -, -, hcase⟩ := trackLoop_cases h
  have he : EntryOk e := hok e (List.mem_append_right _ List.mem_cons_self)
  refine forall_exchange hok ?_
  rcases hcase with ⟨-, rfl⟩ | ⟨hbefore, rfl⟩ | ⟨hafter, rfl⟩
  · exact he
  · exact (he.grow_first hpage hbefore).1
  · exact (he.grow_last hne hpage hafter).1

/-- The track loop either meets no run to grow or adds the page to one. -/
theorem trackLoop_contents {page : Word} {pageType : VmPageType} {reservedPool : Bool}
    {tracked tracked' : List VmPageList} (hpage : PageOk page) (hok : ∀ e ∈ tracked, EntryOk e)
    (hnew : (page, pageType, reservedPool) ∉ contents tracked)
    (h : trackLoop page pageType reservedPool tracked = some tracked') :
    (∀ e ∈ tracked', EntryOk e) ∧
      (contents tracked').Perm ((page, pageType, reservedPool) :: contents tracked) := by
  refine ⟨trackLoop_ok hpage hok h, ?_⟩
  obtain ⟨before, e, e', after, rfl, rfl, hne, rfl, rfl, hcase⟩ := trackLoop_cases h
  have he : EntryOk e := hok e (List.mem_append_right _ List.mem_cons_self)
  rcases hcase with ⟨hheld, rfl⟩ | ⟨hbefore, rfl⟩ | ⟨hafter, rfl⟩
  · have hmem : page ∈ entryPages e' := (he.mem_iff hne hpage.1).mpr hheld
    have hcontents : (page, e'.pageType, e'.reservedPool) ∈ entryContents e' :=
      List.mem_map_of_mem hmem
    exact absurd (List.mem_flatMap_of_mem (List.mem_append_right _ List.mem_cons_self) hcontents)
      hnew
  · exact contents_grow (List.Perm.of_eq (he.grow_first hpage hbefore).2)
  · exact contents_grow (he.grow_last hne hpage hafter).2

/-- Reusing a run without pages adds the pages of the new run. -/
theorem reuseEmpty_contents {entry : VmPageList} {tracked tracked' : List VmPageList}
    (h : reuseEmpty entry tracked = some tracked') :
    (contents tracked').Perm (entryContents entry ++ contents tracked) := by
  obtain ⟨before, e, after, rfl, hempty, rfl⟩ := reuseEmpty_cases h
  have hnone : entryContents e = [] := by rw [entryContents, entryPages, hempty]; rfl
  exact contents_exchange (List.Perm.of_eq (by rw [hnone, List.append_nil]))

/-- Tracking without a new list entry keeps the runs page aligned and within the
address space. -/
theorem trackInPlace_ok {page : Word} {pageType : VmPageType} {reservedPool : Bool}
    {tracked tracked' : List VmPageList} (hpage : PageOk page) (hok : ∀ e ∈ tracked, EntryOk e)
    (h : trackInPlace page pageType reservedPool tracked = some tracked') :
    ∀ e ∈ tracked', EntryOk e := by
  rw [trackInPlace, Option.or_eq_some_iff] at h
  rcases h with h | ⟨_, h⟩
  · exact trackLoop_ok hpage hok h
  · obtain ⟨before, e, after, rfl, -, rfl⟩ := reuseEmpty_cases h
    exact forall_exchange hok (entry_single hpage pageType reservedPool).1

/-- Tracking without a new list entry adds the page under its kind. -/
theorem trackInPlace_contents {page : Word} {pageType : VmPageType} {reservedPool : Bool}
    {tracked tracked' : List VmPageList} (hpage : PageOk page) (hok : ∀ e ∈ tracked, EntryOk e)
    (hnew : (page, pageType, reservedPool) ∉ contents tracked)
    (h : trackInPlace page pageType reservedPool tracked = some tracked') :
    (∀ e ∈ tracked', EntryOk e) ∧
      (contents tracked').Perm ((page, pageType, reservedPool) :: contents tracked) := by
  refine ⟨trackInPlace_ok hpage hok h, ?_⟩
  rw [trackInPlace, Option.or_eq_some_iff] at h
  rcases h with h | ⟨_, h⟩
  · exact (trackLoop_contents hpage hok hnew h).2
  · have hreuse := reuseEmpty_contents h
    rwa [(entry_single hpage pageType reservedPool).2, List.singleton_append] at hreuse

/-- Untracking takes one page of the requested kind off the contents. -/
theorem untrackLoop_perm {pageType : VmPageType} {tracked tracked' : List VmPageList}
    {page : Word} (h : untrackLoop pageType tracked = some (page, tracked')) :
    (contents tracked).Perm ((page, pageType, true) :: contents tracked') := by
  induction tracked generalizing tracked' with
  | nil => cases h
  | cons iter rest ih =>
    rw [untrackLoop] at h
    by_cases hskip : iter.pageType ≠ pageType ∨ iter.reservedPool = false ∨ iter.pages = 0
    · rw [if_pos hskip, Option.map_eq_some_iff] at h
      obtain ⟨⟨p, rest'⟩, hr, he⟩ := h
      cases he
      rw [contents_cons, contents_cons]
      exact ((ih hr).append_left _).trans List.perm_middle
    · rw [if_neg hskip] at h
      simp only [not_or, not_not, Bool.not_eq_false] at hskip
      obtain ⟨rfl, hpool, hne⟩ := hskip
      cases h
      have hperm := entryContents_shrink hne
      rw [contents_cons, contents_cons, ← List.cons_append, ← hpool]
      exact hperm.append_right _

/-- Untracking keeps the runs page aligned and within the address space. -/
theorem untrackLoop_ok {pageType : VmPageType} {tracked tracked' : List VmPageList}
    {page : Word} (hok : ∀ e ∈ tracked, EntryOk e)
    (h : untrackLoop pageType tracked = some (page, tracked')) : ∀ e ∈ tracked', EntryOk e := by
  induction tracked generalizing tracked' with
  | nil => cases h
  | cons iter rest ih =>
    rw [List.forall_mem_cons] at hok
    rw [untrackLoop] at h
    by_cases hskip : iter.pageType ≠ pageType ∨ iter.reservedPool = false ∨ iter.pages = 0
    · rw [if_pos hskip, Option.map_eq_some_iff] at h
      obtain ⟨⟨p, rest'⟩, hr, he⟩ := h
      cases he
      exact List.forall_mem_cons.mpr ⟨hok.1, ih hok.2 hr⟩
    · rw [if_neg hskip] at h
      simp only [not_or, not_not, Bool.not_eq_false] at hskip
      cases h
      exact List.forall_mem_cons.mpr ⟨(hok.1.shrink hskip.2.2).1, hok.2⟩

/-- Untracking, on runs that fit. -/
theorem untrackLoop_contents {pageType : VmPageType} {tracked tracked' : List VmPageList}
    {page : Word} (hok : ∀ e ∈ tracked, EntryOk e)
    (h : untrackLoop pageType tracked = some (page, tracked')) :
    (∀ e ∈ tracked', EntryOk e) ∧
      (contents tracked).Perm ((page, pageType, true) :: contents tracked') :=
  ⟨untrackLoop_ok hok h, untrackLoop_perm h⟩

/-- Untracking fails exactly when no page of the kind is left. -/
theorem untrackLoop_eq_none {pageType : VmPageType} {tracked : List VmPageList} :
    untrackLoop pageType tracked = none ↔ ∀ page, (page, pageType, true) ∉ contents tracked := by
  induction tracked with
  | nil => simp [untrackLoop, contents]
  | cons iter rest ih =>
    rw [untrackLoop, contents_cons]
    by_cases hskip : iter.pageType ≠ pageType ∨ iter.reservedPool = false ∨ iter.pages = 0
    · rw [if_pos hskip, Option.map_eq_none_iff, ih]
      have hnone : ∀ page, (page, pageType, true) ∉ entryContents iter := by
        intro page hmem
        simp only [entryContents, List.mem_map, Prod.mk.injEq] at hmem
        obtain ⟨p, hp, rfl, htype, hpool⟩ := hmem
        rcases hskip with hskip | hskip | hskip
        · exact hskip htype
        · rw [hskip] at hpool
          cases hpool
        · rw [entryPages, hskip] at hp
          cases hp
      exact forall_congr' fun page => by rw [List.mem_append, or_iff_right (hnone page)]
    · rw [if_neg hskip]
      simp only [not_or, not_not, Bool.not_eq_false] at hskip
      obtain ⟨rfl, hpool, hne⟩ := hskip
      refine iff_of_false (by simp) fun hnone => ?_
      have hpos : 0 < iter.pages.toNat :=
        Nat.pos_of_ne_zero fun hz => hne (BitVec.eq_of_toNat_eq (by simpa using hz))
      refine hnone (iter.physicalAddress + BitVec.ofNat 64 (0 * 4096)) (List.mem_append_left _ ?_)
      simp only [entryContents, entryPages, runPages, List.mem_map, List.mem_range, hpool]
      exact ⟨_, ⟨0, hpos, rfl⟩, rfl⟩

end Rkhv.PageTracker
