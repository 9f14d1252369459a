import Rkhv.EptAgreement
import Rkhv.HostRuns

/-!
# Extended page tables that map every address to itself

`vmx_ept_create_identity_mapping` fills one table with 512 pages of 1 GiB and
links it below a new root, so that the walker translates every guest physical
address below 2^39 to itself and none above. Mapping calls for addresses below
2^39 meet one of the large pages and stop; all others leave them alone.
-/

namespace Rkhv.EptIdentity

open ByteMemory WordFields HostTypes HostState StateOutcome Arenas PageTracker PageTrackerRuns
  FreePages RadixWalk VmxPages Ept EptWalk MachinePages MachineSteps EptMapping EptAgreement HostRuns

/-- The entry of `vmx_ept_create_identity_mapping` for one GiB. -/
def eptIdentityEntry (i : ℕ) : Word :=
  eptPteRead ||| eptPteWrite ||| eptPteExecute ||| eptPdePageSize |||
    ((BitVec.ofNat 64 i <<< 30) &&& eptPdptePhysicalAddressPage)

/-- The two equal parts of `vmx_ept_create_identity_mapping` that take a table. -/
def eptTrackedTable (vm : Word) : HvM Word := do
  let table ← eptTablePage vm
  vmManagerTrackEptPage vm table
  return table

/-- `vmx_ept_create_identity_mapping` -/
def vmxEptCreateIdentityMapping (vm : Word) : HvM Unit := do
  let s ← get
  if (s.vmAt vm).flags &&& vmTFlagEptPml4Initialized ≠ 0 then
    panicWith "Setting up a new EPT with id mapping on a VM with EPT PML4 already initialized"
  else
    let pdpt ← eptTrackedTable vm
    forRange pageTableEntries fun i => writeElement pdpt (BitVec.ofNat 64 i) (eptIdentityEntry i)
    let pml4 ← eptTrackedTable vm
    writeElement pml4 0 (eptEntry (v2pIdentityMap pdpt))
    modifyVm vm fun v => { v with
      vmcsConfig := { v.vmcsConfig with eptp := v2pIdentityMap pml4 }
      flags := v.flags ||| vmTFlagEptPml4Initialized }

variable {vm : Word} {s s' : Hv}

/-! ## Entries -/

/-- An entry of the identity table is a page of 1 GiB. -/
theorem eptDecode_identity (j : Slot) :
    eptDecode 1 (eptIdentityEntry j.toNat) = .leaf (eptIdentityEntry j.toNat) := by
  revert j
  decide +kernel

/-- The page of an entry starts at its number times 1 GiB. -/
theorem identityEntry_page (j : Slot) :
    eptIdentityEntry j.toNat &&& eptPdptePhysicalAddressPage = j.setWidth 64 <<< 30 := by
  revert j
  decide +kernel

/-- The address behind the entry of its GiB is the address itself. -/
theorem leafAddress_identity {gpa : Word} (hgpa : gpa.toNat < 2 ^ 39) (a b : Slot) :
    leafAddress gpa (eptIdentityEntry (gpa.extractLsb' 30 9).toNat) [a, b] = gpa := by
  have hmask : linearAddressDMask ||| linearAddressTableMask ||| linearAddressOffsetMask =
      BitVec.ofNat 64 (2 ^ 30 - 1) := by decide
  have hlow : (gpa &&& BitVec.ofNat 64 (2 ^ 30 - 1)).toNat = gpa.toNat % 2 ^ 30 := by
    rw [BitVec.toNat_and, BitVec.toNat_ofNat, Nat.mod_eq_of_lt (by decide : 2 ^ 30 - 1 < 2 ^ 64),
      Nat.and_two_pow_sub_one_eq_mod]
  have hhigh : ((gpa.extractLsb' 30 9).setWidth 64 <<< 30).toNat = (gpa.toNat / 2 ^ 30) <<< 30 := by
    rw [BitVec.toNat_shiftLeft, BitVec.toNat_setWidth, BitVec.extractLsb'_toNat,
      Nat.shiftRight_eq_div_pow, Nat.shiftLeft_eq, Nat.shiftLeft_eq]
    omega
  change (eptIdentityEntry (gpa.extractLsb' 30 9).toNat &&& eptPdptePhysicalAddressPage) |||
    (gpa &&& (linearAddressDMask ||| linearAddressTableMask ||| linearAddressOffsetMask)) = gpa
  rw [identityEntry_page, hmask]
  apply BitVec.eq_of_toNat_eq
  rw [BitVec.toNat_or, hlow, hhigh, ← Nat.shiftLeft_add_eq_or_of_lt (Nat.mod_lt _ (by decide)),
    Nat.shiftLeft_eq]
  omega

/-- Addresses below 2^39 are those whose path starts with slot 0, up to 2^48. -/
theorem pml4Slot_eq_zero {gpa : Word} (h : gpa.toNat < 2 ^ 48) :
    gpa.extractLsb' 39 9 = 0 ↔ gpa.toNat < 2 ^ 39 := by
  rw [← BitVec.toNat_inj, BitVec.extractLsb'_toNat, Nat.shiftRight_eq_div_pow]
  change gpa.toNat / 2 ^ 39 % 2 ^ 9 = 0 ↔ _
  omega

/-! ## Tables that are taken and filled -/

/-- Taking a page for a table writes that page only. -/
theorem eptTablePage_memory (h : MachineOk s vm) :
    Ensures (eptTablePage vm) s
      (fun table s' => ∀ g, table ≠ p2vIdentityMap (frameAddress g) → SameFrame s.memory s'.memory g)
      (fun _ _ => True) := by
  simp only [eptTablePage, vmManagerUntrackEptPageFromReservedPool, ensures_bind, ensures_pure]
  refine (vmManagerUntrackPage_spec h.entries).mono (fun r s₁ hr => ?_) fun _ _ h => h
  cases r with
  | none =>
    obtain ⟨rfl, _⟩ := hr
    change Ensures vmxGetFreeEptPage s₁ _ _
    simp only [vmxGetFreeEptPage, ensures_bind, ensures_memset, ensures_pure, v2p_p2v]
    refine (mmGetFreePage_spec h).mono (fun page s₂ hpage => ?_) fun _ _ _ => trivial
    obtain ⟨pos, _, rfl, hok, _⟩ := hpage
    intro g hg
    exact (fill_other hok).1 g fun he => hg (congrArg p2vIdentityMap he.symm)
  | some page =>
    obtain ⟨tracked, rfl, _⟩ := hr
    exact fun g _ => SameFrame.refl _ g

/-- A new table: a zero frame that was no table before, tracked, with all others as they were. -/
structure NewTable (vm : Word) (s s' : Hv) (f : Frame) : Prop where
  tracked : Tracked vm s s' f .ept false
  others : ∀ g, g ≠ f → SameFrame s.memory s'.memory g
  fresh : ∀ g, (frameAddress g, .ept, false) ∈ contents (trackedOf s vm) →
    g ≠ f ∧ (frameAddress g, .ept, false) ∈ contents (trackedOf s' vm)

theorem eptTrackedTable_spec (h : MachineOk s vm) :
    Ensures (eptTrackedTable vm) s
      (fun table s' => ∃ f, table = p2vIdentityMap (frameAddress f) ∧ NewTable vm s s' f)
      (fun _ _ => True) := by
  rw [eptTrackedTable, ensures_bind]
  refine ((eptTablePage_spec h).and (eptTablePage_memory h)).mono (fun table s₁ htable => ?_)
    fun _ _ _ => trivial
  obtain ⟨⟨f, rfl, hloose⟩, hmemory⟩ := htable
  obtain ⟨taken, hgrown⟩ := hloose.grown
  have hnew := loose_new hgrown h.distinct
  rw [ensures_bind, vmManagerTrackEptPage, v2p_p2v]
  have hkept := @vmManagerTrackPage_spec vm (frameAddress f) .ept false s₁
    (pageOk_frameAddress f) hloose.ok.entries fun hmem => hnew (List.mem_map_of_mem hmem)
  refine ((hloose.track h .ept false).and hkept).mono (fun _ s₂ htracked => ?_) fun _ _ _ => trivial
  obtain ⟨htracked, tracked, arenaAt, rfl, _, _, hperm⟩ := htracked
  refine ⟨f, rfl, htracked, fun g hg => ?_, fun g hg => ?_⟩
  · exact hmemory g fun he => hg (frameAddress_injective (p2v_inj.mp he)).symm
  · have hthere := hgrown.kinds _ hg (fun he => by cases he)
    constructor
    · intro he
      rw [he] at hthere
      exact hnew (MachineOk.mem_machinePages hthere)
    · change (frameAddress g, VmPageType.ept, false) ∈ contents (trackedOf (tracking s₁ vm tracked arenaAt) vm)
      rw [trackedOf_tracking]
      exact hperm.mem_iff.mpr (List.mem_cons_of_mem _ hthere)

/-- The loop over the entries changes the frame of the table only. -/
theorem fillIdentity_spec (s : Hv) (f : Frame) {n : ℕ} (hn : n ≤ 512) :
    Ensures (forRange n fun i =>
        writeElement (p2vIdentityMap (frameAddress f)) (BitVec.ofNat 64 i) (eptIdentityEntry i)) s
      (fun _ s' => ∃ m, s' = { s with memory := m } ∧ SlotsFilled s.memory m f eptIdentityEntry n)
      (fun _ _ => False) := by
  refine ensures_forRange (fun k t => ∃ m, t = { s with memory := m } ∧
    SlotsFilled s.memory m f eptIdentityEntry k) ⟨s.memory, rfl, SlotsFilled.start _ _ _⟩ ?_
  intro k t hk ht
  obtain ⟨m, rfl, hfilled⟩ := ht
  have hk' : k < 512 := Nat.lt_of_lt_of_le hk hn
  have hindex : BitVec.ofNat 64 k = (BitVec.ofNat 9 k).setWidth 64 := by
    apply BitVec.eq_of_toNat_eq
    rw [BitVec.toNat_setWidth, BitVec.toNat_ofNat, BitVec.toNat_ofNat]
    omega
  rw [ensures_writeElement, hindex, element_slot]
  exact ⟨_, rfl, hfilled.store hk'⟩

/-- Filling a new table keeps a machine without tables in order. -/
theorem machineOk_filled {f : Frame} {m : Memory} (hnew : NewTable vm s s' f)
    (hnone : ¬hasEpt (s.vmAt vm)) (hothers : ∀ g, g ≠ f → SameFrame s'.memory m g) :
    MachineOk { s' with memory := m } vm := by
  have hok := hnew.tracked.ok
  refine ⟨hok.listed, hok.map, hok.cursor, hok.entries, hok.distinct, fun g hg => ?_, fun hept => ?_⟩
  · refine (hok.zeroed g hg).of_same (hothers g fun he => ?_)
    rw [he] at hg
    have hkind := hok.kind_unique hg hnew.tracked.tracked rfl
    cases hkind
  · rw [hasEpt, hnew.tracked.same.1] at hept
    exact absurd hept hnone

/-! ## The finished tables -/

/-- A root whose slot 0 leads to the identity table and nothing else. -/
structure IdentityTables (m : Memory) (root pdpt : Frame) : Prop where
  link : eptTables m 0 root 0 = .table pdpt
  empty : ∀ i, i ≠ 0 → eptTables m 0 root i = .absent
  entries : ∀ j : Slot, slotWord m pdpt j = eptIdentityEntry j.toNat

namespace IdentityTables

variable {m : Memory} {root pdpt : Frame}

/-- Below slot 0 every path ends at the entry of its GiB. -/
theorem follow_leaf (h : IdentityTables m root pdpt) (j : Slot) (rest : List Slot) :
    follow (eptTables m) 0 root (0 :: j :: rest) = .leaf (eptIdentityEntry j.toNat) rest := by
  rw [follow_table h.link]
  refine RadixWalk.follow_leaf ?_ rest
  rw [eptTables, h.entries]
  exact eptDecode_identity j

/-- No other slot of the root leads anywhere. -/
theorem follow_absent (h : IdentityTables m root pdpt) {i : Slot} (hi : i ≠ 0) (rest : List Slot) :
    follow (eptTables m) 0 root (i :: rest) = .absent :=
  RadixWalk.follow_absent (h.empty i hi) rest

/-- The only tables are the root and the identity table. -/
theorem follow_table_cases (h : IdentityTables m root pdpt) {p : List Slot} {t : Frame}
    (ht : follow (eptTables m) 0 root p = .table t) : p = [] ∧ t = root ∨ p = [0] ∧ t = pdpt := by
  cases p with
  | nil =>
    rw [follow_nil] at ht
    exact Or.inl ⟨rfl, (End.table.inj ht).symm⟩
  | cons i p =>
    by_cases hi : i = 0
    · subst hi
      cases p with
      | nil =>
        rw [follow_table h.link, follow_nil] at ht
        exact Or.inr ⟨rfl, (End.table.inj ht).symm⟩
      | cons j rest =>
        rw [h.follow_leaf] at ht
        cases ht
    · rw [h.follow_absent hi] at ht
      cases ht

/-- No table is reached by two paths. -/
theorem separate (h : IdentityTables m root pdpt) (hne : pdpt ≠ root) (D : ℕ) :
    Separate (eptTables m) root D := by
  intro p q t _ _ hp hq
  obtain ⟨hp, ht⟩ | ⟨hp, ht⟩ := h.follow_table_cases hp
  · obtain ⟨hq, _⟩ | ⟨_, ht'⟩ := h.follow_table_cases hq
    · rw [hp, hq]
    · exact absurd (ht'.symm.trans ht) hne
  · obtain ⟨_, ht'⟩ | ⟨hq, _⟩ := h.follow_table_cases hq
    · exact absurd (ht.symm.trans ht') hne
    · rw [hp, hq]

end IdentityTables

/-- A machine whose tables map the first 2^39 addresses to themselves. -/
structure IdentityEpt (s : Hv) (vm : Word) : Prop where
  ok : MachineOk s vm
  ept : hasEpt (s.vmAt vm)
  leaf : ∀ (j : Slot) (rest : List Slot), rest.length = 2 →
    eptFollow s vm (0 :: j :: rest) = .leaf (eptIdentityEntry j.toNat) rest

/-- Linking the identity table below a new root finishes the tables. -/
theorem identityEpt_rooting {t : Hv} {f g : Frame} (hok : MachineOk t vm) (hne : f ≠ g)
    (hzero : ZeroFrame t.memory g) (hfilled : ∀ j : Slot, slotWord t.memory f j = eptIdentityEntry j.toNat)
    (hf : (frameAddress f, .ept, false) ∈ contents (trackedOf t vm))
    (hg : (frameAddress g, .ept, false) ∈ contents (trackedOf t vm)) :
    IdentityEpt (rooting (storing t g 0 (eptEntry (frameAddress f))) vm g) vm ∧
      ∀ (i : Slot) (rest : List Slot), i ≠ 0 →
        eptFollow (rooting (storing t g 0 (eptEntry (frameAddress f))) vm g) vm (i :: rest) = .absent := by
  have hvm := rooting_vmAt (storing t g 0 (eptEntry (frameAddress f))) vm g
  have htables : IdentityTables (storing t g 0 (eptEntry (frameAddress f))).memory g f := by
    refine ⟨?_, fun i hi => ?_, fun j => ?_⟩
    · rw [storing, eptTables_store, if_pos ⟨rfl, rfl⟩, eptDecode_eptEntry (by decide),
        frameOf_frameAddress]
    · rw [storing, eptTables_store, if_neg fun hc => hi hc.2]
      exact eptTables_of_zero hzero 0 i
    · rw [(sameFrame_storing hne).slotWord, hfilled]
  have hept : hasEpt ((rooting (storing t g 0 (eptEntry (frameAddress f))) vm g).vmAt vm) := by
    rw [hvm]
    exact (flags_rooting _).1
  have htracked : trackedOf (rooting (storing t g 0 (eptEntry (frameAddress f))) vm g) vm =
      trackedOf t vm := by
    rw [trackedOf, hvm]
    rfl
  have hroot : frameOf ((rooting (storing t g 0 (eptEntry (frameAddress f))) vm g).vmAt
      vm).vmcsConfig.eptp = g := by
    rw [hvm]
    exact frameOf_frameAddress g
  refine ⟨⟨⟨hok.listed, hok.map, hok.cursor, ?_, ?_, fun x hx => ?_, fun _ => ?_⟩, hept,
    fun j rest _ => ?_⟩, fun i rest hi => ?_⟩
  · rw [htracked]
    exact hok.entries
  · rw [machinePages, htracked]
    exact hok.distinct
  · rw [htracked] at hx
    refine (hok.zeroed x hx).of_same (sameFrame_storing fun he => ?_)
    rw [he] at hx
    have hkind := hok.kind_unique hx hg rfl
    cases hkind
  · refine ⟨?_, ?_, fun p x _ hx => ?_⟩
    · rw [hroot, hvm]
    · rw [hroot]
      exact htables.separate hne 4
    · rw [hroot] at hx
      change (frameAddress x, VmPageType.ept, false) ∈ contents (trackedOf _ vm)
      rw [htracked]
      obtain ⟨_, rfl⟩ | ⟨_, rfl⟩ := htables.follow_table_cases hx
      · exact hg
      · exact hf
  · rw [eptFollow_eq hept, hroot]
    exact htables.follow_leaf j rest
  · rw [eptFollow_eq hept, hroot]
    exact htables.follow_absent hi rest

/-- `vmx_ept_create_identity_mapping` leaves a machine with identity tables
for the first 2^39 addresses and nothing mapped elsewhere. -/
theorem vmxEptCreateIdentityMapping_spec (h : MachineOk s vm) (hnone : ¬hasEpt (s.vmAt vm)) :
    Ensures (vmxEptCreateIdentityMapping vm) s
      (fun _ s' => IdentityEpt s' vm ∧
        ∀ (i : Slot) (rest : List Slot), i ≠ 0 → eptFollow s' vm (i :: rest) = .absent)
      (fun _ _ => True) := by
  simp only [vmxEptCreateIdentityMapping, ensures_bind, ensures_get, ensures_ite]
  refine ⟨fun hept => absurd hept hnone, fun _ => ?_⟩
  -- the count stays a variable, so that no step unfolds the loop
  have hall : ∀ j : Slot, j.toNat < pageTableEntries := fun j => j.isLt
  have hentries : pageTableEntries ≤ 512 := Nat.le_refl 512
  generalize pageTableEntries = n at hall hentries ⊢
  refine (eptTrackedTable_spec h).mono (fun _ s₁ hfirst => ?_) fun _ _ _ => trivial
  obtain ⟨f, rfl, hfirst⟩ := hfirst
  refine (fillIdentity_spec s₁ f hentries).mono (fun _ s₂ hfill => ?_) fun _ _ _ => trivial
  obtain ⟨m, rfl, hfilled⟩ := hfill
  have hok := machineOk_filled hfirst hnone hfilled.others
  refine (eptTrackedTable_spec hok).mono (fun _ s₃ hsecond => ?_) fun _ _ _ => trivial
  obtain ⟨g, rfl, hsecond⟩ := hsecond
  obtain ⟨hne, hf⟩ := hsecond.fresh f hfirst.tracked.tracked
  have hkept : ∀ j : Slot, slotWord s₃.memory f j = eptIdentityEntry j.toNat := fun j => by
    rw [(hsecond.others f hne).slotWord]
    exact hfilled.filled j (hall j)
  simp only [ensures_writeElement, ensures_modifyVm, v2p_p2v]
  have hzeroSlot := element_slot g 0
  rw [show (0 : Slot).setWidth 64 = (0 : Word) from rfl] at hzeroSlot
  rw [hzeroSlot]
  exact identityEpt_rooting hsecond.tracked.ok hne hsecond.tracked.zero hkept hf
    hsecond.tracked.tracked

/-! ## Calls that stop -/

/-- What a stopped call leaves: every path of four slots but its own as before. -/
structure CallKept (vm : Word) (s s' : Hv) (path : List Slot) : Prop where
  ok : MachineOk s' vm
  ept : hasEpt (s'.vmAt vm)
  same : ∀ q, q.length = 4 → q ≠ path → eptFollow s' vm q = eptFollow s vm q

/-- A step down that stops keeps every path. -/
theorem eptNextTable_stopped {bit : Word} {i : Slot} {x : Frame} (h : MachineOk s vm)
    (hept : hasEpt (s.vmAt vm)) :
    Ensures (eptNextTable vm bit (p2vIdentityMap (frameAddress x)) (i.setWidth 64)) s
      (fun _ _ => True)
      (fun _ s' => MachineOk s' vm ∧ hasEpt (s'.vmAt vm) ∧
        ∀ q, q.length ≤ 4 → eptFollow s' vm q = eptFollow s vm q) := by
  simp only [eptNextTable, ensures_bind, ensures_readElement, readQword_element, ensures_ite,
    ensures_panicWith, ensures_pure]
  refine ⟨fun _ => ⟨fun _ => ⟨h, hept, fun _ _ => trivial⟩, fun _ => trivial⟩, fun _ => ?_⟩
  refine (eptTablePage_spec h).mono (fun _ s₁ htable => ?_) fun _ s' he => ?_
  · obtain ⟨f, rfl, hloose⟩ := htable
    obtain ⟨taken, hgrown⟩ := hloose.grown
    have hnew := loose_new hgrown h.distinct
    rw [vmManagerTrackEptPage, v2p_p2v]
    refine (track_loose hloose.ok (pageOk_frameAddress f) hnew fun _ _ _ hpool => by
      cases hpool).mono (fun _ _ _ => ?_) fun _ s' he => ?_
    · rw [ensures_writeElement]
      trivial
    · obtain ⟨rfl, _⟩ := he
      refine ⟨hloose.ok, ?_, hloose.follow⟩
      rw [hasEpt, hloose.same.1]
      exact hept
  · obtain ⟨rfl, _⟩ := he
    exact ⟨h, hept, fun _ _ => rfl⟩

/-- A call whose walk down stops keeps every path but its own. -/
theorem descent_stopped {s₁ : Hv} {p path : List Slot} {x : Frame} (h : Descent vm s s₁ p x)
    (hp : p.length < 3) (i : Slot) :
    Ensures (eptNextTable vm (pageSizeBit p.length) (p2vIdentityMap (frameAddress x))
        (i.setWidth 64)) s₁ (fun _ _ => True) (fun _ s' => CallKept vm s s' path) := by
  refine (eptNextTable_stopped h.ok h.ept).mono (fun _ _ _ => trivial) fun _ s' he => ?_
  obtain ⟨hok, hept, hsame⟩ := he
  refine ⟨hok, hept, fun q hq _ => ?_⟩
  rw [hsame q (Nat.le_of_eq hq), h.same q (Nat.le_of_eq hq) (not_prefix_of_length (by omega))]

/-- Whether it returns or stops, a mapping call keeps every path but its own. -/
theorem vmxEptMapPage_kept (h : MachineOk s vm) (hept : hasEpt (s.vmAt vm)) (gpa hpa : Word) :
    Ensures (vmxEptMapPage vm gpa hpa) s (fun _ s' => CallKept vm s s' (eptPath gpa))
      (fun _ s' => CallKept vm s s' (eptPath gpa)) := by
  have hreturned := (vmxEptMapPage_spec h gpa hpa).mono (fun _ s' (hm : Mapped vm s s' gpa hpa) =>
    (⟨hm.ok, hm.ept, fun q hq hne => by rw [hm.follow q hq, if_neg hne]⟩ :
      CallKept vm s s' (eptPath gpa))) fun _ _ _ => trivial
  suffices hstopped : Ensures (vmxEptMapPage vm gpa hpa) s (fun _ _ => True)
      (fun _ s' => CallKept vm s s' (eptPath gpa)) from
    (hreturned.and hstopped).mono (fun _ _ hq => hq.1) fun _ _ he => he.2
  simp only [vmxEptMapPage, ensures_bind, linearAddressGetPml4_eq, linearAddressGetDirectoryPtr_eq,
    linearAddressGetDirectory_eq, linearAddressGetTable_eq]
  refine (eptPml4_spec h).mono (fun _ s₁ hroot => ?_) fun _ _ he => ?_
  · obtain ⟨root, rfl, hroot⟩ := hroot
    have hstart := Descent.of_root hroot
    refine ((hstart.next (by decide) _ [gpa.extractLsb' 30 9]).and
      (descent_stopped hstart (by decide) _)).mono (fun _ s₂ hnext => ?_) fun _ _ he => he.2
    obtain ⟨⟨pdpt, rfl, hpdpt⟩, _⟩ := hnext
    refine ((hpdpt.next (by simp) _ [gpa.extractLsb' 21 9]).and
      (descent_stopped hpdpt (by simp) _)).mono (fun _ s₃ hnext => ?_) fun _ _ he => he.2
    obtain ⟨⟨pd, rfl, hpd⟩, _⟩ := hnext
    refine ((hpd.next (by simp) _ [gpa.extractLsb' 12 9]).and
      (descent_stopped hpd (by simp) _)).mono (fun _ s₄ hnext => ?_) fun _ _ he => he.2
    obtain ⟨⟨pt, rfl, hpt⟩, _⟩ := hnext
    simp only [ensures_readElement, ensures_ite, ensures_panicWith, ensures_writeElement]
    refine ⟨fun _ => ⟨hpt.ok, hpt.ept, fun q hq _ => ?_⟩, fun _ => trivial⟩
    exact hpt.same q (Nat.le_of_eq hq) (not_prefix_of_length (by rw [hq]; simp))
  · have habs := he.2
    rw [eptFollow_eq hept, follow_nil] at habs
    cases habs

/-! ## Runs of mapping calls after the identity mapping -/

/-- A sequence of mapping calls, newest first, each of which returned or
stopped; the sequence goes on from the state that a stopped call left. -/
inductive CallRun (vm : Word) (s : Hv) : List (Word × Word) → Hv → Prop where
  | start : CallRun vm s [] s
  | returned {calls : List (Word × Word)} {gpa hpa : Word} {t t' : Hv} (hrun : CallRun vm s calls t)
      (hcall : vmxEptMapPage vm gpa hpa t = .ok () t') : CallRun vm s ((gpa, hpa) :: calls) t'
  | stopped {calls : List (Word × Word)} {gpa hpa : Word} {e : Fault} {t t' : Hv}
      (hrun : CallRun vm s calls t) (hcall : vmxEptMapPage vm gpa hpa t = .error e t') :
      CallRun vm s ((gpa, hpa) :: calls) t'

namespace IdentityEpt

/-- A path that starts with slot 0 meets a page of 1 GiB. -/
theorem eptFollow_low (h : IdentityEpt s vm) {gpa : Word} (hgpa : gpa.extractLsb' 39 9 = 0) :
    eptFollow s vm (eptPath gpa) = .leaf (eptIdentityEntry (gpa.extractLsb' 30 9).toNat)
      [gpa.extractLsb' 21 9, gpa.extractLsb' 12 9] := by
  rw [eptPath, hgpa]
  exact h.leaf _ _ rfl

/-- A mapping call there stops and changes nothing. -/
theorem map_low (h : IdentityEpt s vm) {gpa : Word} (hgpa : gpa.extractLsb' 39 9 = 0) (hpa : Word) :
    vmxEptMapPage vm gpa hpa s = .error (.panic alreadyMappedPanicStr) s := by
  have hspec := vmxEptMapPage_spec h.ok gpa hpa
  have hleaf := h.eptFollow_low hgpa
  cases hm : vmxEptMapPage vm gpa hpa s with
  | ok u s' =>
    have habs := (hspec.of_ok hm).absent
    rw [hleaf] at habs
    cases habs
  | error e s' =>
    obtain ⟨_, _, _, rfl, rfl⟩ | ⟨habs, _⟩ := hspec.of_error hm
    · rfl
    · rw [hleaf] at habs
      cases habs

/-- A call for another path keeps the identity part. -/
theorem of_kept (h : IdentityEpt s vm) {path : List Slot} (hk : CallKept vm s s' path)
    (hpath : ∀ rest, path ≠ 0 :: rest) : IdentityEpt s' vm := by
  refine ⟨hk.ok, hk.ept, fun j rest hrest => ?_⟩
  rw [hk.same _ (by rw [List.length_cons, List.length_cons, hrest]) (hpath _).symm, h.leaf j rest hrest]

/-- Every mapping call keeps the identity part, whether it returns or stops. -/
theorem call (h : IdentityEpt s vm) (gpa hpa : Word) :
    Ensures (vmxEptMapPage vm gpa hpa) s (fun _ s' => IdentityEpt s' vm)
      (fun _ s' => IdentityEpt s' vm) := by
  by_cases hgpa : gpa.extractLsb' 39 9 = 0
  · exact Ensures.error (h.map_low hgpa hpa) h
  · have hpath : ∀ rest, eptPath gpa ≠ 0 :: rest := fun rest he => hgpa (List.cons.inj he).1
    exact (vmxEptMapPage_kept h.ok h.ept gpa hpa).mono (fun _ _ hk => h.of_kept hk hpath)
      fun _ _ hk => h.of_kept hk hpath

/-- So does a run of calls. -/
theorem run {calls : List (Word × Word)} (h : IdentityEpt s vm) (hrun : CallRun vm s calls s') :
    IdentityEpt s' vm := by
  induction hrun with
  | start => exact h
  | returned _ hcall ih => exact (ih.call _ _).of_ok hcall
  | stopped _ hcall ih => exact (ih.call _ _).of_error hcall

/-- The walker returns the addresses below 2^39 as they are. -/
theorem walk_low (h : IdentityEpt s vm) {gpa : Word} (hgpa : gpa.toNat < 2 ^ 39) :
    vmxEptGetHostPhysicalAddress s.memory (s.vmAt vm) gpa = some gpa := by
  have hslot := (pml4Slot_eq_zero (Nat.lt_trans hgpa (by decide))).mpr hgpa
  rw [walk_eq h.ok, h.eptFollow_low hslot]
  exact congrArg some (leafAddress_identity hgpa _ _)

end IdentityEpt

/-- The identity mapping gives every address below 2^39 to itself and nothing
up to 2^48, and however many mapping calls follow, those below 2^39 stop with
nothing changed and the identity part stays. -/
theorem vmxEptCreateIdentityMapping_agrees {t t' : Hv} {calls : List (Word × Word)}
    (hsupply : TableSupply s vm) (hcreate : vmxEptCreateIdentityMapping vm s = .ok () t)
    (hrun : CallRun vm t calls t') :
    (∀ gpa, gpa.toNat < 2 ^ 39 →
      vmxEptGetHostPhysicalAddress t.memory (t.vmAt vm) gpa = some gpa) ∧
    (∀ gpa, 2 ^ 39 ≤ gpa.toNat → gpa.toNat < 2 ^ 48 →
      vmxEptGetHostPhysicalAddress t.memory (t.vmAt vm) gpa = none) ∧
    (∀ gpa, gpa.toNat < 2 ^ 39 →
      vmxEptGetHostPhysicalAddress t'.memory (t'.vmAt vm) gpa = some gpa) ∧
    ∀ gpa hpa, gpa.toNat < 2 ^ 39 →
      vmxEptMapPage vm gpa hpa t' = .error (.panic alreadyMappedPanicStr) t' := by
  obtain ⟨hident, houtside⟩ :=
    (vmxEptCreateIdentityMapping_spec hsupply.machineOk hsupply.noEpt).of_ok hcreate
  have hafter := hident.run hrun
  refine ⟨fun gpa hgpa => hident.walk_low hgpa, fun gpa hle hlt => ?_,
    fun gpa hgpa => hafter.walk_low hgpa, fun gpa hpa hgpa => hafter.map_low ?_ hpa⟩
  · have hslot : gpa.extractLsb' 39 9 ≠ 0 := fun hz =>
      absurd ((pml4Slot_eq_zero hlt).mp hz) (Nat.not_lt.mpr hle)
    rw [walk_eq hident.ok, eptPath, houtside _ _ hslot]
  · exact (pml4Slot_eq_zero (Nat.lt_trans hgpa (by decide))).mpr hgpa

/-- The identity mapping of a machine with four reserved table pages, followed
by a call for an address inside it. -/
theorem vmxEptCreateIdentityMapping_agrees_reserved : ∃ t t' : Hv,
    vmxEptCreateIdentityMapping 1 (reservedMachine 0) = .ok () t ∧
      CallRun 1 t [(0x5000, 0x8000)] t' ∧
      vmxEptGetHostPhysicalAddress t'.memory (t'.vmAt 1) 0x123456789 = some 0x123456789 := by
  have hreturned : returnsWith (vmxEptCreateIdentityMapping 1 (reservedMachine 0)) (fun _ => true) =
      true := by
    decide +kernel
  obtain ⟨t, hcreate, _⟩ := exists_of_returnsWith hreturned
  have hsupply := tableSupply_reservedMachine 0
  have hcall := (vmxEptCreateIdentityMapping_agrees hsupply hcreate .start).2.2.2 0x5000 0x8000
    (by decide)
  have hrun : CallRun 1 t [(0x5000, 0x8000)] t := .stopped .start hcall
  exact ⟨t, t, hcreate, hrun,
    (vmxEptCreateIdentityMapping_agrees hsupply hcreate hrun).2.2.1 0x123456789 (by decide)⟩

end Rkhv.EptIdentity
