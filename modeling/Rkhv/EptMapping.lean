import Rkhv.MachineSteps

/-!
# What mapping a page does to the tables

Going one level down either finds the table that is there and changes nothing,
or links one zero table and changes one path. Four such steps and a final store
make up `vmx_ept_map_page`: it adds exactly one translation, or finds the page
mapped and changes nothing, or is refused a page or a list entry.
-/

namespace Rkhv.EptMapping

open ByteMemory WordFields HostTypes HostState StateOutcome Arenas PageTracker PageTrackerRuns
  FreePages RadixWalk Ept EptWalk MachinePages MachineSteps

variable {vm : Word} {s : Hv}

/-- A step down to the table of a path: only this path may change, and only
when it led nowhere. -/
structure TableStep (vm : Word) (s s' : Hv) (path : List Slot) (y : Frame) : Prop where
  ok : MachineOk s' vm
  ept : hasEpt (s'.vmAt vm)
  grown : ∃ taken, Grown vm s s' [] taken
  reached : eptFollow s' vm path = .table y
  same : ∀ q, q.length ≤ 4 → q ≠ path → eptFollow s' vm q = eptFollow s vm q
  kept : eptFollow s vm path ≠ .absent → s' = s

/-- The state after a machine got its root. -/
def rooting (s : Hv) (vm : Word) (root : Frame) : Hv :=
  { s with vmAt := Function.update s.vmAt vm { s.vmAt vm with
      vmcsConfig := { (s.vmAt vm).vmcsConfig with eptp := frameAddress root }
      flags := (s.vmAt vm).flags ||| vmTFlagEptPml4Initialized } }

theorem rooting_vmAt (s : Hv) (vm : Word) (root : Frame) : (rooting s vm root).vmAt vm =
    { s.vmAt vm with
      vmcsConfig := { (s.vmAt vm).vmcsConfig with eptp := frameAddress root }
      flags := (s.vmAt vm).flags ||| vmTFlagEptPml4Initialized } := by
  simp only [rooting, Function.update_self]

/-- The flag of the root is set, and no other flag changes. -/
theorem flags_rooting (flags : Word) :
    (flags ||| vmTFlagEptPml4Initialized) &&& vmTFlagEptPml4Initialized ≠ 0 ∧
      (flags ||| vmTFlagEptPml4Initialized) &&& vmTFlagVmcsInitialized =
        flags &&& vmTFlagVmcsInitialized := by
  constructor
  · intro hz
    have hbit := congrArg (fun x => BitVec.getLsbD x 1) hz
    simp [vmTFlagEptPml4Initialized] at hbit
  · rw [BitVec.and_comm, BitVec.and_or_distrib_left, BitVec.and_comm _ flags]
    have hdisjoint : vmTFlagVmcsInitialized &&& vmTFlagEptPml4Initialized = 0 := by decide
    rw [hdisjoint, BitVec.ofNat_eq_ofNat, BitVec.or_zero]

theorem frame_rooting (s : Hv) (vm : Word) (root : Frame) : MachineFrame vm s (rooting s vm root) where
  fixed := rfl
  others := fun _ hw => Function.update_of_ne hw _ _
  machine := ⟨_, _, _, rooting_vmAt s vm root, (flags_rooting _).2⟩
  otherArenas := fun _ _ => rfl
  arena := fun _ _ h => ⟨Nat.le_refl _, h⟩

/-- A machine with a zero frame as its root, tracked as a table in use. -/
theorem tableStep_root {s₁ : Hv} {f : Frame} {tracked : List VmPageList}
    {arenaAt : Word → ArenaHeader} (h : MachineOk s vm) (hnone : ¬hasEpt (s.vmAt vm))
    (hloose : LooseTable vm s s₁ f) (ha : EntryAllocated (rooting s₁ vm f) arenaAt)
    (hok : ∀ e ∈ tracked, EntryOk e)
    (hperm : (contents tracked).Perm ((frameAddress f, .ept, false) :: contents (trackedOf s₁ vm))) :
    TableStep vm s (tracking (rooting s₁ vm f) vm tracked arenaAt) [] f := by
  obtain ⟨hmachine, ⟨taken, hgrown⟩, hzero, _, _⟩ := hloose
  have hnew := loose_new hgrown h.distinct
  have hvm : (tracking (rooting s₁ vm f) vm tracked arenaAt).vmAt vm =
      { (rooting s₁ vm f).vmAt vm with trackedPages := tracked } := by
    simp only [tracking, withTracked, Function.update_self]
  rw [rooting_vmAt] at hvm
  have hpages : (machinePages (tracking (rooting s₁ vm f) vm tracked arenaAt) vm).Perm
      (frameAddress f :: machinePages s₁ vm) := by
    rw [machinePages_tracking]
    exact hperm.map Prod.fst
  have hept : hasEpt ((tracking (rooting s₁ vm f) vm tracked arenaAt).vmAt vm) := by
    rw [hvm]
    exact (flags_rooting _).1
  have hempty : ∀ d i, eptTables s₁.memory d f i = .absent := eptTables_of_zero hzero
  have hpaths : ∀ q, eptFollow (tracking (rooting s₁ vm f) vm tracked arenaAt) vm q =
      if q = [] then .table f else .absent := fun q => by
    rw [eptFollow_eq hept, hvm, frameOf_frameAddress]
    exact follow_of_empty hempty 0 q
  refine ⟨⟨hmachine.listed, hmachine.map, hmachine.cursor, ?_, ?_, fun g hg => ?_, fun _ => ?_⟩,
    hept, ⟨taken, ?_⟩, ?_, fun q _ hq => ?_, fun hkept => ?_⟩
  · rw [trackedOf_tracking]
    exact hok
  · rw [hpages.nodup_iff, List.nodup_cons]
    exact ⟨hnew, hmachine.distinct⟩
  · rw [trackedOf_tracking, hperm.mem_iff, List.mem_cons] at hg
    exact hmachine.zeroed g (hg.resolve_left (by simp))
  · rw [hvm]
    refine ⟨by rw [frameOf_frameAddress], ?_, fun q t _ ht => ?_⟩
    · rw [frameOf_frameAddress]
      exact separate_of_empty hempty 4
    · rw [frameOf_frameAddress] at ht
      have ht' : (if q = [] then End.table f else .absent) = .table t :=
        (follow_of_empty hempty 0 q).symm.trans ht
      split at ht'
      · cases ht'
        exact hperm.mem_iff.mpr List.mem_cons_self
      · cases ht'
  · exact grown_tracked hgrown ((frame_rooting s₁ vm f).trans (frame_tracking ha)) rfl rfl
      (by rw [trackedOf_tracking]; exact hperm)
  · rw [hpaths, if_pos rfl]
  · rw [hpaths, if_neg hq, eptFollow, if_neg hnone]
  · rw [eptFollow, if_neg hnone] at hkept
    exact absurd rfl hkept

/-- The root step: the root that is there, or a new zero root. -/
theorem eptPml4_spec (h : MachineOk s vm) :
    Ensures (eptPml4 vm) s
      (fun pml4 s' => ∃ root, pml4 = p2vIdentityMap (frameAddress root) ∧ TableStep vm s s' [] root)
      (fun e s' => Refused vm s e s' ∧ eptFollow s vm [] = .absent) := by
  simp only [eptPml4, ensures_bind, ensures_get, ensures_ite, ensures_pure, ensures_modifyVm]
  constructor
  · intro hept
    refine ⟨frameOf (s.vmAt vm).vmcsConfig.eptp, by rw [(h.tree hept).root], h, hept,
      ⟨[], Grown.refl vm s⟩, ?_, fun _ _ _ => rfl, fun _ => rfl⟩
    rw [eptFollow_eq hept, follow_nil]
  · intro hnone
    have habs : eptFollow s vm [] = .absent := if_neg hnone
    refine (eptTablePage_spec h).mono ?_ ?_
    · rintro _ s₁ ⟨f, rfl, hloose⟩
      obtain ⟨taken, hgrown⟩ := hloose.grown
      have hnew := loose_new hgrown h.distinct
      rw [vmManagerTrackEptPage, v2p_p2v]
      change Ensures _ (rooting s₁ vm f) _ _
      have htracked : trackedOf (rooting s₁ vm f) vm = trackedOf s₁ vm := by
        rw [trackedOf, rooting_vmAt]
        rfl
      refine (vmManagerTrackPage_spec (pageOk_frameAddress f) (htracked ▸ hloose.ok.entries)
        fun hmem => hnew (List.mem_map_of_mem (htracked ▸ hmem))).mono ?_ ?_
      · rintro _ _ ⟨tracked, arenaAt, rfl, ha, hok, hperm⟩
        rw [htracked] at hperm
        exact ⟨f, rfl, tableStep_root h hnone hloose ha hok hperm⟩
      · rintro e s₂ ⟨rfl, hrefused, _⟩
        refine ⟨⟨⟨[frameAddress f], taken, ?_⟩, Or.inr hrefused⟩, habs⟩
        refine ⟨hgrown.frame.trans (frame_rooting s₁ vm f),
          ⟨hgrown.takes.returned, hgrown.takes.nodup, hgrown.takes.fresh⟩, ?_, ?_, ?_⟩
        · rw [machinePages, htracked]
          exact hgrown.pages
        · rw [htracked]
          exact hgrown.kinds
        · rw [machinePages, htracked]
          exact hgrown.memory
    · rintro e s' ⟨rfl, he⟩
      exact ⟨⟨⟨[], [], Grown.refl vm s'⟩, Or.inl he⟩, habs⟩

/-- The bit of a large page at a level of the tables. -/
def pageSizeBit (level : ℕ) : Word := if level = 0 then 0 else eptPdePageSize

/-- The tests of the source decide what an entry above the page tables means. -/
theorem eptDecode_cases {level : ℕ} (hlevel : level < 3) (entry : Word) :
    (entry &&& eptPteRead = 0 ∧ eptDecode level entry = .absent) ∨
      (entry &&& eptPteRead ≠ 0 ∧ entry &&& pageSizeBit level ≠ 0 ∧
        eptDecode level entry = .leaf entry) ∨
      (entry &&& eptPteRead ≠ 0 ∧ entry &&& pageSizeBit level = 0 ∧
        eptDecode level entry = .table (frameOf entry)) := by
  have h3 : level ≠ 3 := by omega
  by_cases hread : entry &&& eptPteRead = 0
  · exact Or.inl ⟨hread, by rw [eptDecode, if_pos hread]⟩
  · refine Or.inr ?_
    by_cases hzero : level = 0
    · refine Or.inr ⟨hread, by simp [pageSizeBit, hzero], ?_⟩
      rw [eptDecode, if_neg hread, if_neg h3, if_neg fun hl => hl.1 hzero]
    · rw [pageSizeBit, if_neg hzero]
      by_cases hlarge : entry &&& eptPdePageSize = 0
      · refine Or.inr ⟨hread, hlarge, ?_⟩
        rw [eptDecode, if_neg hread, if_neg h3, if_neg fun hl => hl.2 hlarge]
      · refine Or.inl ⟨hread, hlarge, ?_⟩
        rw [eptDecode, if_neg hread, if_neg h3, if_pos ⟨hzero, hlarge⟩]

/-- Linking a tracked zero frame below a table. -/
theorem tableStep_link {s₂ : Hv} {path : List Slot} {i : Slot} {x f : Frame}
    (h : Tracked vm s s₂ f .ept false) (hept : hasEpt (s.vmAt vm)) (hp : path.length < 3)
    (hx : eptFollow s vm path = .table x) (habs : eptFollow s vm (path ++ [i]) = .absent) :
    TableStep vm s (storing s₂ x i (eptEntry (frameAddress f))) (path ++ [i]) f := by
  have hlen : (path ++ [i]).length ≤ 4 := by
    rw [List.length_append, List.length_singleton]
    omega
  have hept₂ : hasEpt (s₂.vmAt vm) := by
    rw [hasEpt, h.same.1]
    exact hept
  have hx₂ : eptFollow s₂ vm path = .table x := (h.follow path (by omega)).trans hx
  have habs₂ : eptFollow s₂ vm (path ++ [i]) = .absent := (h.follow _ hlen).trans habs
  obtain ⟨taken, hgrown⟩ := h.grown
  obtain ⟨hok, hpaths⟩ := machineOk_link h.ok hept₂ hp hx₂ habs₂ h.zero h.tracked h.unreached
  have hxt := MachineOk.mem_machinePages (reached_tracked h.ok hept₂ (by omega) hx₂)
  refine ⟨hok, hept₂, ⟨[] ++ taken, hgrown.trans (grown_storing hxt)⟩, ?_, fun q hq hne => ?_,
    fun hkept => absurd habs hkept⟩
  · rw [hpaths _ hlen, if_pos rfl]
  · rw [hpaths q hq, if_neg hne, h.follow q hq]

/-- One level down: the table that is there, or a new zero table. -/
theorem eptNextTable_spec {path : List Slot} {i : Slot} {x : Frame} (h : MachineOk s vm)
    (hept : hasEpt (s.vmAt vm)) (hp : path.length < 3) (hx : eptFollow s vm path = .table x) :
    Ensures (eptNextTable vm (pageSizeBit path.length) (p2vIdentityMap (frameAddress x))
        (i.setWidth 64)) s
      (fun next s' => ∃ y, next = p2vIdentityMap (frameAddress y) ∧
        TableStep vm s s' (path ++ [i]) y)
      (fun e s' => (∃ entry, eptFollow s vm (path ++ [i]) = .leaf entry [] ∧
          e = .panic alreadyMappedPanicStr ∧ s' = s) ∨
        (eptFollow s vm (path ++ [i]) = .absent ∧ Refused vm s e s')) := by
  have hnext := eptFollow_snoc (i := i) hept hx
  rw [eptTables] at hnext
  simp only [eptNextTable, ensures_bind, ensures_readElement, readQword_element, ensures_ite,
    ensures_panicWith, ensures_pure, and_eptPtePhysicalAddressPage]
  rcases eptDecode_cases hp (slotWord s.memory x i) with
    ⟨hread, hd⟩ | ⟨hread, hlarge, hd⟩ | ⟨hread, hlarge, hd⟩
  · refine ⟨fun hne => absurd hread hne, fun _ => ?_⟩
    rw [hd] at hnext
    refine (eptTablePage_spec h).mono ?_ ?_
    · rintro _ s₁ ⟨f, rfl, hloose⟩
      rw [vmManagerTrackEptPage, v2p_p2v]
      refine (hloose.track h .ept false).mono ?_ fun e s₂ he => Or.inr ⟨hnext, he⟩
      rintro _ s₂ htracked
      rw [ensures_writeElement, element_slot]
      exact ⟨f, rfl, tableStep_link htracked hept hp hx hnext⟩
    · rintro e s' ⟨rfl, he⟩
      exact Or.inr ⟨hnext, ⟨[], [], Grown.refl vm s'⟩, Or.inl he⟩
  · refine ⟨fun _ => ⟨fun _ => ?_, fun hz => absurd hlarge hz⟩, fun hz => absurd hread hz⟩
    rw [hd] at hnext
    exact Or.inl ⟨_, hnext, trivial, trivial⟩
  · refine ⟨fun _ => ⟨fun hz => absurd hlarge hz, fun _ => ?_⟩, fun hz => absurd hread hz⟩
    rw [hd] at hnext
    exact ⟨_, rfl, h, hept, ⟨[], Grown.refl vm s⟩, hnext, fun _ _ _ => rfl, fun _ => rfl⟩

/-! ## The whole walk down -/

/-- A walk down along a path: only the paths of the tables on the way may
change, and only when they led nowhere. -/
structure Descent (vm : Word) (s s' : Hv) (path : List Slot) (y : Frame) : Prop where
  ok : MachineOk s' vm
  ept : hasEpt (s'.vmAt vm)
  grown : ∃ taken, Grown vm s s' [] taken
  reached : eptFollow s' vm path = .table y
  same : ∀ q, q.length ≤ 4 → ¬q <+: path → eptFollow s' vm q = eptFollow s vm q
  kept : eptFollow s vm path ≠ .absent → s' = s

/-- How mapping along a path fails: a leaf is met and nothing has changed, or
the path leads nowhere and a page or a list entry was refused. -/
def MapFailed (vm : Word) (s : Hv) (path : List Slot) (e : Fault) (s' : Hv) : Prop :=
  (∃ entry rest, eptFollow s vm path = .leaf entry rest ∧ e = .panic alreadyMappedPanicStr ∧
    s' = s) ∨ (eptFollow s vm path = .absent ∧ Refused vm s e s')

theorem eptFollow_append_absent {p : List Slot} (h : eptFollow s vm p = .absent) (q : List Slot) :
    eptFollow s vm (p ++ q) = .absent := by
  by_cases hept : hasEpt (s.vmAt vm)
  · rw [eptFollow_eq hept] at h ⊢
    exact follow_append_absent h q
  · exact if_neg hept

theorem eptFollow_append_leaf {p rest : List Slot} {entry : Word}
    (h : eptFollow s vm p = .leaf entry rest) (q : List Slot) :
    eptFollow s vm (p ++ q) = .leaf entry (rest ++ q) := by
  by_cases hept : hasEpt (s.vmAt vm)
  · rw [eptFollow_eq hept] at h ⊢
    exact follow_append_leaf h q
  · rw [eptFollow, if_neg hept] at h
    cases h

namespace Descent

variable {s₁ s₂ : Hv} {path : List Slot} {i : Slot} {x y : Frame}

/-- The root step starts a walk down. -/
theorem of_root (h : TableStep vm s s₁ [] x) : Descent vm s s₁ [] x :=
  ⟨h.ok, h.ept, h.grown, h.reached, fun q hq hne => h.same q hq fun he => hne (he ▸ List.nil_prefix),
    h.kept⟩

/-- What lies below the end of a walk is as before. -/
theorem below (h : Descent vm s s₁ path x) (hp : path.length < 4) :
    eptFollow s₁ vm (path ++ [i]) = eptFollow s vm (path ++ [i]) := by
  have hlen : (path ++ [i]).length = path.length + 1 := List.length_append
  exact h.same _ (by omega) (not_prefix_of_length (by omega))

/-- A walk that goes on somewhere has changed nothing so far. -/
theorem kept_below (h : Descent vm s s₁ path x) (hne : eptFollow s vm (path ++ [i]) ≠ .absent) :
    s₁ = s :=
  h.kept fun habs => hne (eptFollow_append_absent habs [i])

/-- A walk goes one level further. -/
theorem snoc (h : Descent vm s s₁ path x) (h' : TableStep vm s₁ s₂ (path ++ [i]) y)
    (hp : path.length < 4) : Descent vm s s₂ (path ++ [i]) y := by
  obtain ⟨taken, hgrown⟩ := h.grown
  obtain ⟨taken', hgrown'⟩ := h'.grown
  refine ⟨h'.ok, h'.ept, ⟨taken' ++ taken, hgrown.trans hgrown'⟩, h'.reached, fun q hq hne => ?_,
    fun hkept => ?_⟩
  · have hne₁ : ¬q <+: path := fun hpre => hne (hpre.trans (List.prefix_append path [i]))
    have hne₂ : q ≠ path ++ [i] := fun he => hne (he ▸ List.prefix_rfl)
    exact (h'.same q hq hne₂).trans (h.same q hq hne₁)
  · have hfirst := h.kept_below hkept
    rw [← h.below hp] at hkept
    exact (h'.kept hkept).trans hfirst

/-- A leaf below the end of a walk ends the mapping. -/
theorem failed_leaf (h : Descent vm s s₁ path x) (hp : path.length < 4) {entry : Word}
    (hleaf : eptFollow s₁ vm (path ++ [i]) = .leaf entry []) (rest : List Slot) :
    MapFailed vm s (path ++ i :: rest) (.panic alreadyMappedPanicStr) s₁ := by
  rw [h.below hp] at hleaf
  have hkept := h.kept_below (by rw [hleaf]; exact (nomatch ·))
  have hall := eptFollow_append_leaf hleaf rest
  rw [List.append_assoc] at hall
  exact Or.inl ⟨entry, _, hall, rfl, hkept⟩

/-- So does a refusal. -/
theorem failed_refused (h : Descent vm s s₁ path x) (hp : path.length < 4) {e : Fault}
    (habs : eptFollow s₁ vm (path ++ [i]) = .absent) (he : Refused vm s₁ e s₂) (rest : List Slot) :
    MapFailed vm s (path ++ i :: rest) e s₂ := by
  rw [h.below hp] at habs
  obtain ⟨taken, hgrown⟩ := h.grown
  have hall := eptFollow_append_absent habs rest
  rw [List.append_assoc] at hall
  exact Or.inr ⟨hall, he.after hgrown⟩

/-- One level further, or a failure of the mapping along any longer path. -/
theorem next (h : Descent vm s s₁ path x) (hp : path.length < 3) (i : Slot) (rest : List Slot) :
    Ensures (eptNextTable vm (pageSizeBit path.length) (p2vIdentityMap (frameAddress x))
        (i.setWidth 64)) s₁
      (fun next s₂ => ∃ y, next = p2vIdentityMap (frameAddress y) ∧
        Descent vm s s₂ (path ++ [i]) y)
      (fun e s₂ => MapFailed vm s (path ++ i :: rest) e s₂) := by
  have hp4 : path.length < 4 := by omega
  refine (eptNextTable_spec h.ok h.ept hp h.reached).mono ?_ ?_
  · rintro _ s₂ ⟨y, rfl, hstep⟩
    exact ⟨y, rfl, h.snoc hstep hp4⟩
  · rintro e s₂ (⟨entry, hleaf, rfl, rfl⟩ | ⟨habs, he⟩)
    · exact h.failed_leaf hp4 hleaf rest
    · exact h.failed_refused hp4 habs he rest

end Descent

/-! ## Mapping a page -/

/-- What mapping a page changes: one translation is added. -/
structure Mapped (vm : Word) (s s' : Hv) (gpa hpa : Word) : Prop where
  ok : MachineOk s' vm
  ept : hasEpt (s'.vmAt vm)
  grown : ∃ taken, Grown vm s s' [] taken
  absent : eptFollow s vm (eptPath gpa) = .absent
  follow : ∀ q, q.length = 4 → eptFollow s' vm q =
    if q = eptPath gpa then .leaf (eptEntry hpa) [] else eptFollow s vm q

/-- The last level: an empty slot receives the entry. -/
theorem Descent.mapped {s₁ : Hv} {p : List Slot} {i : Slot} {x : Frame} {gpa : Word} (hpa : Word)
    (h : Descent vm s s₁ p x) (hp : p.length = 3) (hgpa : eptPath gpa = p ++ [i])
    (habs : eptFollow s₁ vm (p ++ [i]) = .absent) :
    Mapped vm s (storing s₁ x i (eptEntry hpa)) gpa hpa := by
  have hp4 : p.length < 4 := by omega
  obtain ⟨hok, hfollow⟩ := machineOk_leaf (i := i) h.ok h.ept hp h.reached hpa
  obtain ⟨taken, hgrown⟩ := h.grown
  have hx := MachineOk.mem_machinePages (reached_tracked h.ok h.ept hp4 h.reached)
  refine ⟨hok, h.ept, ⟨[] ++ taken, hgrown.trans (grown_storing hx)⟩, ?_, fun q hq => ?_⟩
  · rw [hgpa, ← h.below hp4, habs]
  · rw [hfollow q hq.le, hgpa, h.same q hq.le (not_prefix_of_length (by omega))]

/-- The entry below a page table is absent or a leaf. -/
theorem eptFollow_pageTable {p : List Slot} {i : Slot} {x : Frame} (hept : hasEpt (s.vmAt vm))
    (hp : p.length = 3) (hx : eptFollow s vm p = .table x) :
    eptFollow s vm (p ++ [i]) = if slotWord s.memory x i &&& eptPteRead = 0 then .absent
      else .leaf (slotWord s.memory x i) [] := by
  rw [eptFollow_snoc hept hx, hp, eptTables, eptDecode, if_pos rfl]
  by_cases hread : slotWord s.memory x i &&& eptPteRead = 0
  · rw [if_pos hread, if_pos hread]
  · rw [if_neg hread, if_neg hread]

/-- `vmx_ept_map_page` adds exactly one translation, or finds the page mapped
and changes nothing, or is refused a page or a list entry. -/
theorem vmxEptMapPage_spec (h : MachineOk s vm) (gpa hpa : Word) :
    Ensures (vmxEptMapPage vm gpa hpa) s (fun _ s' => Mapped vm s s' gpa hpa)
      (fun e s' => MapFailed vm s (eptPath gpa) e s') := by
  simp only [vmxEptMapPage, ensures_bind, linearAddressGetPml4_eq, linearAddressGetDirectoryPtr_eq,
    linearAddressGetDirectory_eq, linearAddressGetTable_eq]
  refine (eptPml4_spec h).mono ?_ ?_
  · rintro _ s₁ ⟨root, rfl, hroot⟩
    refine ((Descent.of_root hroot).next (by decide) _ _).mono ?_ fun _ _ he => he
    rintro _ s₂ ⟨pdpt, rfl, hpdpt⟩
    refine (hpdpt.next (by simp) _ _).mono ?_ fun _ _ he => he
    rintro _ s₃ ⟨pd, rfl, hpd⟩
    refine (hpd.next (by simp) _ _).mono ?_ fun _ _ he => he
    rintro _ s₄ ⟨pt, rfl, hpt⟩
    have hslot := eptFollow_pageTable (i := gpa.extractLsb' 12 9) hpt.ept rfl hpt.reached
    simp only [ensures_readElement, element_slot, ensures_ite, ensures_panicWith,
      ensures_writeElement, ← slotWord.eq_def]
    constructor
    · intro hread
      rw [if_neg hread] at hslot
      exact hpt.failed_leaf (by simp) hslot []
    · intro hread
      rw [not_not] at hread
      rw [if_pos hread] at hslot
      exact hpt.mapped hpa rfl rfl hslot
  · rintro e s' ⟨he, habs⟩
    exact Or.inr ⟨eptFollow_append_absent habs (eptPath gpa), he⟩

end Rkhv.EptMapping
