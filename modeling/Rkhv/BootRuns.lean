import Rkhv.BootMapping

/-!
# Runs of both mapping calls

`paging_map_page` and `paging_map_physical` guard against overlap with different
tests: the first meets every entry that is there, the second looks at slot 0 of
the PML4 only. A mapping is lost exactly when the window is mapped over pages
of its own slot, which `paging_map_physical` does not test.
-/

namespace Rkhv.BootRuns

open ByteMemory WordFields HostTypes StateOutcome BootPagePool VmGuestPaging ArchitecturalWalk
  NestedWalk RightsWalk RadixWalk BootPaging BootWindow BootTables BootMapping

variable {firmware : BootServices} {start : ℕ} {pml4 : Frame} {window : Option Frame}
  {l l' : Loader}

/-! ## Calls -/

/-- A call on a PML4. -/
inductive BootCall where
  | mapPage (physicalAddress virtualAddress : Word) (permission : PagingPermission)
  | mapPhysical

/-- What the call does. -/
def BootCall.run (firmware : BootServices) (pml4 : Frame) : BootCall → LoaderM Unit
  | .mapPage physicalAddress virtualAddress permission =>
    pagingMapPage firmware (frameAddress pml4) physicalAddress virtualAddress permission
  | .mapPhysical => pagingMapPhysical firmware (frameAddress pml4)

/-- Addresses that the call is to map. -/
def BootCall.Maps : BootCall → Word → Prop
  | .mapPage _ virtualAddress _, va => va.toNat / 4096 = virtualAddress.toNat / 4096
  | .mapPhysical, va => InWindow va

/-- Every step of a sequence of calls has a property. It sees the calls that
returned `EFI_SUCCESS` so far, newest first, the next call and the state before it. -/
def AllSteps (firmware : BootServices) (pml4 : Frame)
    (step : List BootCall → BootCall → Loader → Prop) :
    List BootCall → List BootCall → Loader → Prop
  | [], _, _ => True
  | c :: rest, mapped, l => step mapped c l ∧
    match c.run firmware pml4 l with
    | .ok _ l' => AllSteps firmware pml4 step rest (c :: mapped) l'
    | .error _ l' => AllSteps firmware pml4 step rest mapped l'

/-- The next call keeps the translations of all addresses that earlier calls
mapped, and fails when it is to map one of them. -/
def KeepsMapped (firmware : BootServices) (pml4 : Frame) (mapped : List BootCall) (c : BootCall)
    (l : Loader) : Prop :=
  Ensures (c.run firmware pml4) l
    (fun _ l' => ∀ d ∈ mapped, ∀ va, d.Maps va →
      bootWalk l'.memory pml4 va = bootWalk l.memory pml4 va ∧ ¬c.Maps va)
    (fun _ l' => ∀ d ∈ mapped, ∀ va, d.Maps va →
      bootWalk l'.memory pml4 va = bootWalk l.memory pml4 va)

/-- The call does not map the window over a page in its slot: slot 0 is taken,
an allocation fails, or no earlier call mapped a page there. -/
def SparesWindowSlot (firmware : BootServices) (pml4 : Frame) (mapped : List BootCall) :
    BootCall → Loader → Prop
  | .mapPage _ _ _, _ => True
  | .mapPhysical, l => ¬(slotWord l.memory pml4 0 &&& ptePresent = 0 ∧ WindowAllocated firmware l ∧
      ∃ pa va permission, BootCall.mapPage pa va permission ∈ mapped ∧
        linearAddressGetPml4 va = linearAddressGetPml4 rkhvPhysicalMemoryBase)

/-! ## Mapping the window -/

section Window

variable {pdpt pds : Frame} (hfresh : FreshPages firmware start pml4)
  (h : TablesOk firmware start pml4 none l) (hmapped : WindowMapped firmware pml4 l l' pdpt pds)

include hfresh h hmapped

/-- Slots that the window does not take lead where they led. -/
theorem bootFollow_beside {i : Slot} {r : List Slot} (h0 : i ≠ 0) (h2 : i ≠ 2)
    (hr : (i :: r).length ≤ 4) : bootFollow (some pdpt) l'.memory pml4 (i :: r) =
      bootFollow none l.memory pml4 (i :: r) := by
  refine follow_congr (i :: r) fun p t j r' hq ht => ?_
  have hlen := congrArg List.length hq
  rw [List.length_append, List.length_cons (a := j)] at hlen
  have hp : p.length < 4 := by omega
  have hused := h.used p t hp ht
  have hne : t ≠ pdpt := fun he =>
    hused.not_given hfresh h.calls (Nat.le_refl _) (he ▸ hmapped.pdptGiven)
  cases p with
  | nil =>
    obtain ⟨rfl, _⟩ := List.cons.inj hq
    obtain rfl : pml4 = t := End.table.inj ht
    rw [bootTables, bootTables, hmapped.root i h0 h2]
    obtain habsent | ⟨g, hg⟩ := h.entries [] pml4 i (by decide) (follow_nil _ _ _)
    · rw [bootDecode, bootDecode, if_pos habsent, if_pos habsent]
    · have htable : bootTables none l.memory 0 pml4 i = .table g := by
        rw [bootTables, hg]
        exact bootDecode_tableEntry (by decide) fun _ hc => by cases hc
      have hgused := h.used [i] g (by simp) (by rw [bootFollow, follow_table htable, follow_nil])
      have hgne : pdpt ≠ g := fun he =>
        hgused.not_given hfresh h.calls (Nat.le_refl _) (he ▸ hmapped.pdptGiven)
      rw [hg]
      exact (bootDecode_tableEntry (by decide) fun _ hc => hgne (Option.some.inj hc)).trans
        (bootDecode_tableEntry (by decide) fun _ hc => by cases hc).symm
  | cons k p =>
    -- below the root the window plays no part
    have hroot : t ≠ pml4 := by
      intro he
      rw [he] at ht
      have hnil := h.separate (k :: p) [] pml4 hp (by decide) ht (follow_nil _ _ _)
      cases hnil
    have hsame := hmapped.others t hroot (hused.not_given hfresh h.calls (Nat.le_refl _))
      (hused.not_given hfresh h.calls (Nat.le_succ _))
    rw [bootTables, bootTables, hsame.slotWord, List.length_cons, bootDecode, bootDecode,
      if_neg fun hc : p.length + 1 = 0 ∧ _ => absurd hc.1 (Nat.succ_ne_zero _),
      if_neg fun hc : p.length + 1 = 0 ∧ _ => absurd hc.1 (Nat.succ_ne_zero _)]

/-- The tables that are reached beside the window were reached before. -/
theorem bootFollow_table_window {p : List Slot} {t : Frame} (hp : p.length ≤ 4)
    (ht : bootFollow (some pdpt) l'.memory pml4 p = .table t) :
    bootFollow none l.memory pml4 p = .table t := by
  have hleaf : ∀ i r, slotWord l'.memory pml4 i = tableEntry (frameAddress pdpt) →
      bootFollow (some pdpt) l'.memory pml4 (i :: r) = .leaf (tableEntry (frameAddress pdpt)) r := by
    intro i r hslot
    refine follow_leaf ?_ r
    rw [bootTables, hslot, bootDecode_window]
  cases p with
  | nil => exact ht
  | cons i r =>
    by_cases h0 : i = 0
    · rw [hleaf i r (h0 ▸ hmapped.low)] at ht
      cases ht
    by_cases h2 : i = 2
    · rw [hleaf i r (h2 ▸ hmapped.high)] at ht
      cases ht
    rw [bootFollow_beside hfresh h hmapped h0 h2 hp] at ht
    exact ht

/-- Tables without a window stay in order when one is mapped. -/
theorem tablesOk_window : TablesOk firmware start pml4 (some pdpt) l' := by
  have hcalls : l.allocateCalls ≤ l'.allocateCalls := by
    rw [hmapped.calls]
    exact Nat.le_add_right _ _
  have hreached : ∀ p t, p.length ≤ 4 → bootFollow (some pdpt) l'.memory pml4 p = .table t →
      bootFollow none l.memory pml4 p = .table t := fun _ _ hp ht =>
    bootFollow_table_window hfresh h hmapped hp ht
  have hnotGiven : ∀ p t, p.length < 4 → bootFollow (some pdpt) l'.memory pml4 p = .table t →
      ¬GivenBy firmware l.allocateCalls t ∧ ¬GivenBy firmware (l.allocateCalls + 1) t :=
    fun p t hp ht => by
      have hused := h.used p t hp (hreached p t hp.le ht)
      exact ⟨hused.not_given hfresh h.calls (Nat.le_refl _),
        hused.not_given hfresh h.calls (Nat.le_succ _)⟩
  refine ⟨h.calls.trans hcalls, fun p q t hp hq htp htq => ?_, fun p t i hp ht => ?_,
    fun p t hp ht => (h.used p t hp (hreached p t hp.le ht)).mono hcalls, fun f hf => ?_⟩
  · exact h.separate p q t hp hq (hreached p t hp.le htp) (hreached q t hq.le htq)
  · have hp4 : p.length < 4 := by omega
    have hbefore := h.entries p t i hp (hreached p t hp4.le ht)
    by_cases hroot : t = pml4
    · subst hroot
      by_cases h0 : i = 0
      · exact Or.inr ⟨pdpt, h0 ▸ hmapped.low⟩
      by_cases h2 : i = 2
      · exact Or.inr ⟨pdpt, h2 ▸ hmapped.high⟩
      rw [hmapped.root i h0 h2]
      exact hbefore
    · obtain ⟨hfirst, hsecond⟩ := hnotGiven p t hp4 ht
      rw [(hmapped.others t hroot hfirst hsecond).slotWord]
      exact hbefore
  · obtain rfl := Option.some.inj hf
    have hlast : l.allocateCalls + 1 < l'.allocateCalls := by
      rw [hmapped.calls]
      exact Nat.lt_succ_self _
    refine ⟨pds, hmapped.window, hmapped.low, hmapped.high,
      Or.inr ⟨_, h.calls, Nat.lt_of_succ_lt hlast, hmapped.pdptGiven⟩,
      fun j => Or.inr ⟨_, Nat.le_succ_of_le h.calls, hlast, hmapped.pdsGiven j⟩, fun p t hp ht => ?_⟩
    obtain ⟨hfirst, hsecond⟩ := hnotGiven p t hp ht
    refine ⟨fun he => hfirst (he ▸ hmapped.pdptGiven), fun j he => hsecond (he ▸ hmapped.pdsGiven j)⟩

end Window

/-- A failed call to map the window changes no walk. -/
theorem stopped_of_windowFailed (hfailed : WindowFailed firmware l l')
    (hfresh : FreshPages firmware start pml4) (h : TablesOk firmware start pml4 window l) :
    Stopped firmware start pml4 window l l' := by
  obtain ⟨hok, hsame⟩ := h.of_same hfailed.calls.1 fun f hf =>
    hfailed.others f (hf.not_given hfresh h.calls (Nat.le_refl _))
      (hf.not_given hfresh h.calls (Nat.le_succ _))
  exact ⟨hok, fun q hq => hsame q (Nat.le_of_eq hq)⟩

/-! ## Invariant of a run -/

/-- The tables after some calls: they lead to every page that was mapped, and
have a window when one was mapped. -/
structure RunOk (firmware : BootServices) (start : ℕ) (pml4 : Frame) (window : Option Frame)
    (mapped : List BootCall) (l : Loader) : Prop where
  ok : TablesOk firmware start pml4 window l
  pages : ∀ pa va permission, BootCall.mapPage pa va permission ∈ mapped →
    bootFollow window l.memory pml4 (bootPath va) = .leaf (pageEntry pa permission) []
  window : BootCall.mapPhysical ∈ mapped → ∃ pdpt, window = some pdpt

/-- Addresses of one page have one path. -/
theorem bootPath_congr {va va' : Word} (h : va'.toNat / 4096 = va.toNat / 4096) :
    bootPath va' = bootPath va := by
  have hslot : ∀ level, 0 < level → slotOf level va' = slotOf level va := fun level hlevel => by
    have hshift : levelShift level = 12 + 9 * (level - 1) := rfl
    apply BitVec.eq_of_toNat_eq
    rw [slotOf, slotOf, BitVec.extractLsb'_toNat, BitVec.extractLsb'_toNat,
      Nat.shiftRight_eq_div_pow, Nat.shiftRight_eq_div_pow, hshift, Nat.pow_add,
      ← Nat.div_div_eq_div_mul, ← Nat.div_div_eq_div_mul]
    exact congrArg (fun page => page / 2 ^ (9 * (level - 1)) % 2 ^ 9) h
  rw [bootPath, bootPath, hslot 4 (by decide), hslot 3 (by decide), hslot 2 (by decide),
    hslot 1 (by decide)]

/-- Addresses of the window have its slots. -/
theorem slot_of_inWindow {va : Word} (h : InWindow va) : slotOf 4 va = 0 ∨ slotOf 4 va = 2 := by
  have hbase : rkhvPhysicalMemoryBase.toNat = 2 ^ 40 := rfl
  refine (inWindow_iff (Or.inl ?_)).mp h
  rw [InWindow, hbase] at h
  omega

/-- Both slots of a window lead to its table. -/
theorem bootFollow_window {pdpt pds : Frame} (h : WindowOk firmware start pml4 l pdpt pds)
    {i : Slot} (hi : i = 0 ∨ i = 2) (r : List Slot) :
    bootFollow (some pdpt) l.memory pml4 (i :: r) = .leaf (tableEntry (frameAddress pdpt)) r := by
  have hslot : slotWord l.memory pml4 i = tableEntry (frameAddress pdpt) := by
    obtain rfl | rfl := hi
    · exact h.low
    · exact h.high
  refine follow_leaf ?_ r
  rw [bootTables, hslot, bootDecode_window]

namespace RunOk

variable {mapped : List BootCall} {d : BootCall} {va : Word}

/-- The path of a mapped address ends at a leaf. -/
theorem leaf (h : RunOk firmware start pml4 window mapped l) (hd : d ∈ mapped) (hva : d.Maps va) :
    ∃ entry r, bootFollow window l.memory pml4 (bootPath va) = .leaf entry r := by
  cases d with
  | mapPage pa va' permission =>
    refine ⟨pageEntry pa permission, [], ?_⟩
    rw [bootPath_congr hva]
    exact h.pages pa va' permission hd
  | mapPhysical =>
    obtain ⟨pdpt, rfl⟩ := h.window hd
    obtain ⟨pds, hok⟩ := h.ok.windowOk pdpt rfl
    exact ⟨_, _, bootFollow_window hok (slot_of_inWindow hva) _⟩

/-- A call that stopped keeps every walk and all that was mapped. -/
theorem stopped (h : RunOk firmware start pml4 window mapped l)
    (hstopped : Stopped firmware start pml4 window l l') :
    RunOk firmware start pml4 window mapped l' := by
  refine ⟨hstopped.ok, fun pa va permission hd => ?_, h.window⟩
  rw [hstopped.same _ rfl, h.pages pa va permission hd]

/-- An added page is no mapped one. -/
theorem path_ne {va' entry : Word} (h : RunOk firmware start pml4 window mapped l)
    (hadded : PageAdded firmware start pml4 window l l' va' entry) (hd : d ∈ mapped)
    (hva : d.Maps va) : bootPath va ≠ bootPath va' := by
  intro he
  obtain ⟨_, _, hleaf⟩ := h.leaf hd hva
  rw [he, hadded.absent] at hleaf
  cases hleaf

/-- A new page extends what was mapped. -/
theorem added {pa va' : Word} {permission : PagingPermission}
    (h : RunOk firmware start pml4 window mapped l)
    (hadded : PageAdded firmware start pml4 window l l' va' (pageEntry pa permission)) :
    RunOk firmware start pml4 window (.mapPage pa va' permission :: mapped) l' := by
  refine ⟨hadded.ok, fun pa₁ va₁ permission₁ hd => ?_, fun hd => ?_⟩
  · rw [hadded.follow _ rfl]
    obtain he | hd := List.mem_cons.mp hd
    · obtain ⟨rfl, rfl, rfl⟩ := BootCall.mapPage.inj he
      rw [if_pos rfl]
    · have hne : bootPath va₁ ≠ bootPath va' := h.path_ne hadded hd rfl
      rw [if_neg hne, h.pages pa₁ va₁ permission₁ hd]
  · obtain he | hd := List.mem_cons.mp hd
    · cases he
    · exact h.window hd

/-- `paging_map_page` keeps all that was mapped. -/
theorem keepsMapped_mapPage (h : RunOk firmware start pml4 window mapped l)
    (hfresh : FreshPages firmware start pml4) (pa va : Word) (permission : PagingPermission) :
    KeepsMapped firmware pml4 mapped (.mapPage pa va permission) l := by
  refine (pagingMapPage_spec hfresh h.ok pa va permission).mono (fun _ l' hadded => ?_)
    fun e l' hstopped => fun _ _ va' _ => hstopped.1.bootWalk_eq h.ok va'
  intro d hd va' hva'
  have hne := h.path_ne hadded hd hva'
  refine ⟨?_, fun hc => hne (bootPath_congr hc)⟩
  rw [hadded.ok.bootWalk_eq, h.ok.bootWalk_eq, hadded.follow _ rfl, if_neg hne]

/-- Mapping the window, when slot 0 is empty: none is there yet. -/
theorem no_window (h : RunOk firmware start pml4 window mapped l)
    (hempty : slotWord l.memory pml4 0 &&& ptePresent = 0) : window = none := by
  cases window with
  | none => rfl
  | some pdpt =>
    obtain ⟨pds, hok⟩ := h.ok.windowOk pdpt rfl
    rw [hok.low] at hempty
    exact absurd hempty (tableEntry_present _)

/-- A mapped page keeps its slot of the PML4 from being empty. -/
theorem slot_present {pa : Word} {permission : PagingPermission}
    (h : RunOk firmware start pml4 window mapped l)
    (hd : BootCall.mapPage pa va permission ∈ mapped) :
    ¬slotWord l.memory pml4 (slotOf 4 va) &&& ptePresent = 0 := by
  intro hempty
  have hleaf := h.pages pa va permission hd
  have habsent : bootTables window l.memory 0 pml4 (slotOf 4 va) = .absent := by
    rw [bootTables, bootDecode, if_pos hempty]
  rw [bootFollow, bootPath, follow_absent habsent] at hleaf
  cases hleaf

end RunOk

/-- The slot of the window as the source computes it. -/
theorem windowSlot_iff (va : Word) :
    linearAddressGetPml4 va = linearAddressGetPml4 rkhvPhysicalMemoryBase ↔ slotOf 4 va = 2 := by
  rw [windowSlots.2, linearAddressGetPml4_slot]
  constructor
  · intro h
    have hslot := congrArg (BitVec.setWidth 9) h
    rw [BitVec.setWidth_setWidth_of_le _ (by decide), BitVec.setWidth_eq] at hslot
    exact hslot
  · intro h
    rw [h]

section MapWindow

variable {mapped : List BootCall} {pdpt pds : Frame} (hfresh : FreshPages firmware start pml4)
  (h : RunOk firmware start pml4 none mapped l) (hmapped : WindowMapped firmware pml4 l l' pdpt pds)
  (hempty : slotWord l.memory pml4 0 &&& ptePresent = 0)
  (hspared : ∀ pa va permission, BootCall.mapPage pa va permission ∈ mapped → slotOf 4 va ≠ 2)

include hfresh h hmapped hempty hspared

/-- Pages outside the slot of the window stay, since slot 0 was empty. -/
theorem bootFollow_spared {pa va : Word} {permission : PagingPermission}
    (hd : BootCall.mapPage pa va permission ∈ mapped) :
    bootFollow (some pdpt) l'.memory pml4 (bootPath va) =
      bootFollow none l.memory pml4 (bootPath va) := by
  have hlow : slotOf 4 va ≠ 0 := fun he => h.slot_present hd (he ▸ hempty)
  exact bootFollow_beside hfresh h.ok hmapped hlow (hspared pa va permission hd) (Nat.le_refl 4)

theorem runOk_window : RunOk firmware start pml4 (some pdpt) (.mapPhysical :: mapped) l' := by
  refine ⟨tablesOk_window hfresh h.ok hmapped, fun pa va permission hd => ?_, fun _ => ⟨pdpt, rfl⟩⟩
  obtain he | hd := List.mem_cons.mp hd
  · cases he
  · rw [bootFollow_spared hfresh h hmapped hempty hspared hd, h.pages pa va permission hd]

/-- The window lies beside all mapped addresses and keeps their walks. -/
theorem bootWalk_spared {d : BootCall} {va : Word} (hd : d ∈ mapped) (hva : d.Maps va) :
    bootWalk l'.memory pml4 va = bootWalk l.memory pml4 va ∧ ¬InWindow va := by
  cases d with
  | mapPhysical =>
    obtain ⟨_, hc⟩ := h.window hd
    cases hc
  | mapPage pa va' permission =>
    have hpath : bootPath va = bootPath va' := bootPath_congr hva
    have hslot : slotOf 4 va = slotOf 4 va' := (List.cons.inj hpath).1
    refine ⟨?_, fun hin => ?_⟩
    · rw [(tablesOk_window hfresh h.ok hmapped).bootWalk_eq, h.ok.bootWalk_eq, hpath,
        bootFollow_spared hfresh h hmapped hempty hspared hd]
    · obtain hlow | hhigh := slot_of_inWindow hin
      · exact h.slot_present hd (hslot ▸ hlow ▸ hempty)
      · exact hspared pa va' permission hd (hslot ▸ hhigh)

end MapWindow

/-- A page in the slot of the window is lost: the window gives all rights, and
no page has them all. -/
theorem bootWalk_lost {mapped : List BootCall} {pdpt pds : Frame} {pa va : Word}
    {permission : PagingPermission} (h : RunOk firmware start pml4 window mapped l)
    (hmapped : WindowMapped firmware pml4 l l' pdpt pds)
    (hd : BootCall.mapPage pa va permission ∈ mapped) (hslot : slotOf 4 va = 2) :
    bootWalk l'.memory pml4 va ≠ bootWalk l.memory pml4 va := by
  obtain ⟨_, hwrite, hexecute⟩ := pageEntry_bits pa permission
  rw [hmapped.walk (Or.inr hslot), h.ok.bootWalk_eq, h.pages pa va permission hd, endTranslation,
    leafTranslation, hwrite, hexecute]
  intro hsame
  obtain ⟨_, hw, hx⟩ := Translation.mk.inj (Except.ok.inj hsame)
  have hrw : permission = .rw := of_decide_eq_true hw.symm
  rw [hrw] at hx
  cases hx

/-! ## Steps and runs -/

/-- Mapping the window keeps what was mapped exactly when it spares its slot. -/
theorem keepsMapped_mapPhysical {mapped : List BootCall} (hfresh : FreshPages firmware start pml4)
    (h : RunOk firmware start pml4 window mapped l) :
    KeepsMapped firmware pml4 mapped .mapPhysical l ↔
      SparesWindowSlot firmware pml4 mapped .mapPhysical l := by
  have hspec := pagingMapPhysical_spec hfresh h.ok.calls
  constructor
  · rintro hkeeps ⟨hempty, hallocated, pa, va, permission, hd, hslot⟩
    obtain ⟨l', hok⟩ := pagingMapPhysical_returns hfresh h.ok.calls hempty hallocated
    obtain ⟨pdpt, pds, hmapped⟩ := (hspec.of_ok hok).2
    have hkept := (Ensures.of_ok hkeeps hok _ hd va rfl).1
    exact bootWalk_lost h hmapped hd ((windowSlot_iff va).mp hslot) hkept
  · intro hspares
    refine hspec.mono (fun _ l' hreturned => ?_) fun _ l' hfailed => fun _ _ va _ =>
      (stopped_of_windowFailed hfailed.2 hfresh h.ok).bootWalk_eq h.ok va
    obtain ⟨⟨hempty, hallocated⟩, pdpt, pds, hmapped⟩ := hreturned
    obtain rfl := h.no_window hempty
    exact fun d hd va hva => bootWalk_spared hfresh h hmapped hempty
      (fun pa va permission hd hslot => hspares ⟨hempty, hallocated, pa, va, permission, hd,
        (windowSlot_iff va).mpr hslot⟩) hd hva

/-- A call keeps what was mapped exactly when it spares the slot of the window. -/
theorem RunOk.keepsMapped_iff {mapped : List BootCall} (hfresh : FreshPages firmware start pml4)
    (h : RunOk firmware start pml4 window mapped l) (c : BootCall) :
    KeepsMapped firmware pml4 mapped c l ↔ SparesWindowSlot firmware pml4 mapped c l := by
  cases c with
  | mapPage pa va permission =>
    exact ⟨fun _ => trivial, fun _ => h.keepsMapped_mapPage hfresh pa va permission⟩
  | mapPhysical => exact keepsMapped_mapPhysical hfresh h

/-- A call that spares the slot keeps the invariant. -/
theorem RunOk.step {mapped : List BootCall} (hfresh : FreshPages firmware start pml4)
    (h : RunOk firmware start pml4 window mapped l) {c : BootCall}
    (hspares : SparesWindowSlot firmware pml4 mapped c l) :
    Ensures (c.run firmware pml4) l
      (fun _ l' => ∃ window', RunOk firmware start pml4 window' (c :: mapped) l')
      (fun _ l' => ∃ window', RunOk firmware start pml4 window' mapped l') := by
  cases c with
  | mapPage pa va permission =>
    exact (pagingMapPage_spec hfresh h.ok pa va permission).mono
      (fun _ l' hadded => ⟨window, h.added hadded⟩) fun _ l' hstopped => ⟨window, h.stopped hstopped.1⟩
  | mapPhysical =>
    refine (pagingMapPhysical_spec hfresh h.ok.calls).mono (fun _ l' hreturned => ?_)
      fun _ l' hfailed => ⟨window, h.stopped (stopped_of_windowFailed hfailed.2 hfresh h.ok)⟩
    obtain ⟨⟨hempty, hallocated⟩, pdpt, pds, hmapped⟩ := hreturned
    obtain rfl := h.no_window hempty
    exact ⟨some pdpt, runOk_window hfresh h hmapped hempty fun pa va permission hd hslot =>
      hspares ⟨hempty, hallocated, pa, va, permission, hd, (windowSlot_iff va).mpr hslot⟩⟩

/-- From tables in order, a sequence of calls keeps what was mapped exactly
when all its calls spare the slot of the window. -/
theorem RunOk.allSteps_iff (hfresh : FreshPages firmware start pml4) (cs : List BootCall) :
    ∀ {window : Option Frame} {mapped : List BootCall} {l : Loader},
      RunOk firmware start pml4 window mapped l →
      (AllSteps firmware pml4 (KeepsMapped firmware pml4) cs mapped l ↔
        AllSteps firmware pml4 (SparesWindowSlot firmware pml4) cs mapped l) := by
  induction cs with
  | nil => exact fun _ => Iff.rfl
  | cons c rest ih =>
    intro window mapped l h
    rw [AllSteps, AllSteps, h.keepsMapped_iff hfresh c]
    refine and_congr_right fun hspares => ?_
    have hstep := h.step hfresh hspares
    cases hcall : c.run firmware pml4 l with
    | ok _ l' =>
      obtain ⟨window', h'⟩ := hstep.of_ok hcall
      exact ih h'
    | error e l' =>
      obtain ⟨window', h'⟩ := hstep.of_error hcall
      exact ih h'

/-- A zeroed PML4 before any call. -/
theorem runOk_zero (hzero : ZeroFrame l.memory pml4) :
    RunOk firmware l.allocateCalls pml4 none [] l :=
  ⟨(tablesOk_zero hzero).1, fun _ _ _ hd => absurd hd List.not_mem_nil,
    fun hd => absurd hd List.not_mem_nil⟩

/-- In every sequence of calls on a zeroed PML4 each call keeps the translations
of all addresses that earlier calls mapped, and fails when it is to map one of
them, exactly when no call maps the window over a page in its slot. -/
theorem bootPaging_keepsMapped_iff (hfresh : FreshPages firmware l.allocateCalls pml4)
    (hzero : ZeroFrame l.memory pml4) (cs : List BootCall) :
    AllSteps firmware pml4 (KeepsMapped firmware pml4) cs [] l ↔
      AllSteps firmware pml4 (SparesWindowSlot firmware pml4) cs [] l :=
  RunOk.allSteps_iff hfresh cs (runOk_zero hzero)

/-- Calls that map no page in the slot of the window spare it. -/
theorem allSteps_spares (cs : List BootCall) : ∀ {mapped : List BootCall} {l : Loader},
    (∀ pa va permission, BootCall.mapPage pa va permission ∈ mapped ∨
        BootCall.mapPage pa va permission ∈ cs →
      linearAddressGetPml4 va ≠ linearAddressGetPml4 rkhvPhysicalMemoryBase) →
      AllSteps firmware pml4 (SparesWindowSlot firmware pml4) cs mapped l := by
  induction cs with
  | nil => exact fun _ => trivial
  | cons c rest ih =>
    intro mapped l hslots
    have hspares : SparesWindowSlot firmware pml4 mapped c l := by
      cases c with
      | mapPage => trivial
      | mapPhysical =>
        rintro ⟨_, _, pa, va, permission, hd, hslot⟩
        exact hslots pa va permission (Or.inl hd) hslot
    rw [AllSteps]
    refine ⟨hspares, ?_⟩
    cases c.run firmware pml4 l with
    | ok _ l' =>
      refine ih fun pa va permission hd => hslots pa va permission ?_
      obtain hd | hd := hd
      · obtain he | hd := List.mem_cons.mp hd
        · exact Or.inr (he ▸ List.mem_cons_self)
        · exact Or.inl hd
      · exact Or.inr (List.mem_cons_of_mem c hd)
    | error e l' =>
      exact ih fun pa va permission hd => hslots pa va permission (hd.imp_right (List.mem_cons_of_mem c))

/-- The window and a page of the hypervisor's code. -/
theorem bootPaging_keepsMapped_codePage :
    AllSteps twoAnswers 1 (KeepsMapped twoAnswers 1)
      [.mapPhysical, .mapPage 0x300000 0xffffff0000000000 .rx] [] freshLoader := by
  refine (bootPaging_keepsMapped_iff freshPages_twoAnswers (fun _ _ => rfl) _).mpr
    (allSteps_spares _ fun pa va permission hd => ?_)
  obtain hd | hd := hd
  · cases hd
  · simp only [List.mem_cons, reduceCtorEq, BootCall.mapPage.injEq, false_or, List.not_mem_nil,
      or_false] at hd
    rw [hd.2.1]
    decide

/-- Firmware that gives four single pages and then a block of 512. -/
def pagesAndBlock : BootServices where
  allocatePages k n :=
    if k < 4 ∧ n = 1 then .ok (frameAddress (BitVec.ofNat 40 (k + 2)))
    else if k = 4 ∧ n = 512 then .ok 0x100000
    else .error .outOfResources

theorem pagesAndBlock_cases {k : ℕ} {n address : Word}
    (h : pagesAndBlock.allocatePages k n = .ok address) :
    k < 4 ∧ n = 1 ∧ address.toNat = (k + 2) * 4096 ∨ k = 4 ∧ n = 512 ∧ address = 0x100000 := by
  rw [pagesAndBlock] at h
  dsimp only at h
  split at h
  · rename_i hk
    obtain ⟨hk, rfl⟩ := hk
    refine Or.inl ⟨hk, rfl, ?_⟩
    rw [← Except.ok.inj h, toNat_frameAddress, BitVec.toNat_ofNat]
    omega
  split at h
  · rename_i hk
    exact Or.inr ⟨hk.1, hk.2, (Except.ok.inj h).symm⟩
  · cases h

theorem givenBy_pagesAndBlock {k : ℕ} {f : Frame} (h : GivenBy pagesAndBlock k f) :
    k < 4 ∧ f.toNat = k + 2 ∨ k = 4 ∧ 256 ≤ f.toNat := by
  obtain ⟨n, address, hanswer, hfrom, hto⟩ := h
  rw [toNat_frameAddress] at hfrom hto
  obtain ⟨hk, rfl, haddress⟩ | ⟨hk, rfl, rfl⟩ := pagesAndBlock_cases hanswer
  · have hone : (1 : Word).toNat = 1 := rfl
    rw [haddress] at hfrom hto
    rw [hone] at hto
    exact Or.inl ⟨hk, by omega⟩
  · have hblock : (0x100000 : Word).toNat = 0x100000 := rfl
    rw [hblock] at hfrom
    exact Or.inr ⟨hk, by omega⟩

theorem freshPages_pagesAndBlock : FreshPages pagesAndBlock 0 1 where
  page k n address _ h := by
    obtain ⟨hk, rfl, haddress⟩ | ⟨_, rfl, rfl⟩ := pagesAndBlock_cases h
    · have hone : (1 : Word).toNat = 1 := rfl
      rw [haddress, hone]
      omega
    · decide
  disjoint j k f _ _ hj hk := by
    have hfirst := givenBy_pagesAndBlock hj
    have hsecond := givenBy_pagesAndBlock hk
    omega
  pml4 k _ h := by
    have hone : (1 : Frame).toNat = 1 := rfl
    have hframe := givenBy_pagesAndBlock h
    omega

/-- After three tables it has a table and the directories for a window. -/
theorem windowAllocated_pagesAndBlock {memory : Memory} {pool : PagingPageTablePool}
    (hcapacity : pool.capacity = 4) (hpool : pool.pool = [⟨0x2000, 3⟩]) :
    WindowAllocated pagesAndBlock ⟨memory, pool, 3⟩ := by
  obtain ⟨capacity, regions, hfits⟩ := pool
  dsimp only at hcapacity hpool
  subst hcapacity hpool
  have hfirst : pagesAndBlock.allocatePages 3 1 = .ok 0x5000 := by decide
  have hsecond : pagesAndBlock.allocatePages 4 (BitVec.ofNat 64 pageTableEntries) = .ok 0x100000 := by
    decide
  exact ⟨_, _, ⟨0x5000, hfirst, rfl⟩, ⟨0x100000, hsecond, rfl⟩⟩

/-- A page at the start of the window, then the window: the page is lost. -/
theorem bootPaging_loses_windowPage : FreshPages pagesAndBlock freshLoader.allocateCalls 1 ∧
    ZeroFrame freshLoader.memory 1 ∧
    ¬AllSteps pagesAndBlock 1 (KeepsMapped pagesAndBlock 1)
      [.mapPage 0x300000 0x10000000000 .rx, .mapPhysical] [] freshLoader := by
  have hzero : ZeroFrame freshLoader.memory 1 := fun _ _ => rfl
  refine ⟨freshPages_pagesAndBlock, hzero, fun hkeeps => ?_⟩
  have hspares := (RunOk.allSteps_iff freshPages_pagesAndBlock _ (runOk_zero hzero)).mp hkeeps
  have hmapped : (match (BootCall.mapPage 0x300000 0x10000000000 .rx).run pagesAndBlock 1 freshLoader with
      | .ok _ l' => decide (slotWord l'.memory 1 0 &&& ptePresent = 0 ∧ l'.allocateCalls = 3 ∧
          l'.pageTablePool.capacity = 4 ∧ l'.pageTablePool.pool = [⟨0x2000, 3⟩])
      | .error _ _ => false) = true := by
    decide +kernel
  rw [AllSteps] at hspares
  cases hcall : (BootCall.mapPage 0x300000 0x10000000000 .rx).run pagesAndBlock 1 freshLoader with
  | error e l' =>
    rw [hcall] at hmapped
    cases hmapped
  | ok _ l' =>
    rw [hcall] at hmapped hspares
    obtain ⟨hempty, hcalls, hcapacity, hpool⟩ := of_decide_eq_true hmapped
    obtain ⟨memory, pool, calls⟩ := l'
    dsimp only at hempty hcalls hcapacity hpool hspares
    subst hcalls
    exact hspares.2.1 ⟨hempty, windowAllocated_pagesAndBlock hcapacity hpool, 0x300000,
      0x10000000000, .rx, List.mem_singleton_self _, by decide⟩

end Rkhv.BootRuns
