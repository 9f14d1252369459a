import Rkhv.HostSteps

/-!
# Operations that hand out host pages

Every operation keeps the state of the hypervisor in order and accounts for the
pages that it takes: afterwards exactly these are held in addition. The one
exception is the creation of a VMCS before the page of the MSR bitmaps is
valid: the VMCS region is registered last, so that the search for the bitmaps'
page can return it again. The state stays in order even then, since both are
pages that no machine tracks.
-/

namespace Rkhv.HostOperations

open ByteMemory WordFields HostTypes HostState StateOutcome FreePages FreePageSearch
  FreePageContract Arenas PageTracker PageTrackerRuns VmxPages VmxInstructions Ept VmManager Vmcs
  MachinePages MachineSteps EptMapping GuestMemory HostPages HostSteps

variable {s s' : Hv}

/-! ## Outcomes -/

/-- The pages that an operation took are exactly those held in addition. -/
def Accounted (s s' : Hv) : Prop :=
  ∃ taken, HandedOut s s' taken ∧ (heldPages s').Perm (taken ++ heldPages s)

/-- The pages that a failed operation took were fresh and different. -/
def Spent (s s' : Hv) : Prop := ∃ taken, HandedOut s s' taken

theorem handedOut_nil (s : Hv) : HandedOut s s [] :=
  ⟨rfl, List.nodup_nil, fun _ hp => absurd hp List.not_mem_nil, rfl⟩

theorem accounted_refl (s : Hv) : Accounted s s := ⟨[], handedOut_nil s, List.Perm.refl _⟩

theorem spent_refl (s : Hv) : Spent s s := ⟨[], handedOut_nil s⟩

/-- One fresh page was handed out. -/
theorem handedOut_one {page : Word} (hp : FreshPage s page)
    (hreturned : s'.mmReturned = page :: s.mmReturned)
    (hchainload : s'.mmChainloadPage = s.mmChainloadPage) : HandedOut s s' [page] := by
  refine ⟨hreturned, List.nodup_singleton page, fun p hmem => ?_, hchainload⟩
  rw [List.mem_singleton.mp hmem]
  exact hp

theorem MachineKept.trans {s₁ s₂ s₃ : Hv} {vm : Word} (h : MachineKept s₁ s₂ vm)
    (h' : MachineKept s₂ s₃ vm) : MachineKept s₁ s₃ vm :=
  ⟨h'.ok, h'.tracked.trans h.tracked, h'.guestPages.trans h.guestPages,
    fun q hq => (h'.follow q hq).trans (h.follow q hq)⟩

/-- The state stays in order and no machine is concerned. -/
structure Untouched (s s' : Hv) : Prop where
  ok : HostOk s'
  vmList : s'.vmManagerVmList = s.vmManagerVmList
  kept : ∀ vm ∈ s.vmManagerVmList, MachineKept s s' vm

theorem untouched_refl (h : HostOk s) : Untouched s s :=
  ⟨h, rfl, fun vm hvm => ⟨h.machines vm hvm, rfl, rfl, fun _ _ => rfl⟩⟩

theorem Untouched.trans {s'' : Hv} (h : Untouched s s') (h' : Untouched s' s'') : Untouched s s'' :=
  ⟨h'.ok, h'.vmList.trans h.vmList, fun vm hvm =>
    MachineKept.trans (h.kept vm hvm) (h'.kept vm (h.vmList.symm ▸ hvm))⟩

theorem Untouched.vmPages_eq (h : Untouched s s') : vmPages s' = vmPages s := by
  rw [vmPages, vmPages, h.vmList]
  exact List.flatMap_congr fun vm hvm => by rw [machinePages, machinePages, (h.kept vm hvm).tracked]

theorem untouched_special {page : Word} (h : HostOk s) (hp : FreshPage s page)
    (hstep : SpecialStep s s' page) : Untouched s s' :=
  ⟨hostOk_special h hp hstep, hstep.vmList, fun _ hvm => kept_special h hp hstep hvm⟩

/-- A special step that holds its page accounts for it. -/
theorem accounted_special {page : Word} (hp : FreshPage s page) (hstep : SpecialStep s s' page)
    (hreturned : s'.mmReturned = page :: s.mmReturned)
    (hperm : (specialPages s').Perm (page :: specialPages s)) : Accounted s s' := by
  refine ⟨[page], handedOut_one hp hreturned hstep.chainload, ?_⟩
  rw [heldPages, heldPages, hstep.vmPages_eq]
  exact hperm.append_right _

/-! ## VMX pages -/

/-- A dword at the start of a page is written to this page only. -/
theorem sameFrame_writeDword_page {m : Memory} {page : Word} (hpage : PageOk page) {v : BitVec 32}
    {f : Frame} (hf : frameAddress f ≠ page) : SameFrame m (writeDword m page v) f := by
  rw [← frameAddress_frameOf hpage]
  exact sameFrame_writeDword fun he => hf (he ▸ frameAddress_frameOf hpage)

/-- The state after the VMXON region was taken. -/
def vmxonTaken (s : Hv) (page : Word) (pos : Word × Word) : Hv :=
  { taking s page pos with
    vmxonRegion := page
    vmxonRegionValid := true
    memory := writeDword s.memory page (vmxGetVmcsRevisionIdentifier s.cpu) }

theorem vmxGetVmxonRegion_spec (h : HostOk s) :
    Ensures vmxGetVmxonRegion s (fun _ s' => Untouched s s' ∧ Accounted s s')
      (fun _ s' => s' = s) := by
  simp only [vmxGetVmxonRegion, ensures_bind, ensures_get, ensures_ite, ensures_pure,
    ensures_modify, v2p_p2v]
  refine ⟨fun _ => ⟨untouched_refl h, accounted_refl s⟩, fun hvalid => ?_⟩
  rw [Bool.not_eq_true] at hvalid
  refine (hostGetFreePage_spec h).mono ?_ fun _ _ he => he
  rintro page _ ⟨pos, hpos, rfl, hp⟩
  change Untouched s (vmxonTaken s page pos) ∧ Accounted s (vmxonTaken s page pos)
  have hperm : (specialPages (vmxonTaken s page pos)).Perm (page :: specialPages s) := by
    have hold : vmxPages s = [] ++ (if s.msrBitmapsPageValid then [s.msrBitmapsPage] else []) := by
      rw [vmxPages, hvalid]
      rfl
    rw [specialPages, specialPages, hold]
    change (s.arenaList ++ page :: _ ++ vmcsPages s).Perm _
    rw [List.append_assoc, List.append_assoc]
    exact List.perm_middle
  have hstep : SpecialStep s (vmxonTaken s page pos) page :=
    ⟨rfl, Or.inr hpos, rfl, fun _ _ => ⟨rfl, rfl, Iff.rfl, rfl⟩,
      fun f hf => sameFrame_writeDword_page hp.ok hf, rfl, fun _ _ => rfl, fun _ ha => ha,
      fun p hmem => List.mem_cons.mp (hperm.mem_iff.mp hmem)⟩
  exact ⟨untouched_special h hp hstep, accounted_special hp hstep rfl hperm⟩

/-- The state after the page of the MSR bitmaps was taken. -/
def msrBitmapsTaken (s : Hv) (page : Word) (pos : Word × Word) : Hv :=
  { taking s page pos with
    msrBitmapsPage := page
    msrBitmapsPageValid := true
    memory := vmxMsrInitBitmaps s.memory (p2vIdentityMap page) }

theorem specialPages_msrBitmapsTaken {page : Word} {pos : Word × Word}
    (hvalid : s.msrBitmapsPageValid = false) :
    (specialPages (msrBitmapsTaken s page pos)).Perm (page :: specialPages s) := by
  have hold : vmxPages s = if s.vmxonRegionValid then [s.vmxonRegion] else [] := by
    rw [vmxPages, hvalid]
    exact List.append_nil _
  have hnew : vmxPages (msrBitmapsTaken s page pos) =
      (if s.vmxonRegionValid then [s.vmxonRegion] else []) ++ [page] := rfl
  rw [specialPages, specialPages, hold, hnew, ← List.append_assoc]
  change (s.arenaList ++ _ ++ [page] ++ vmcsPages s).Perm _
  rw [List.append_assoc]
  exact List.perm_middle

theorem specialStep_msrBitmapsTaken {page : Word} {pos : Word × Word}
    (hvalid : s.msrBitmapsPageValid = false) (hp : FreshPage s page)
    (hpos : ValidPosition (efiMmap s) pos) : SpecialStep s (msrBitmapsTaken s page pos) page := by
  refine ⟨rfl, Or.inr hpos, rfl, fun _ _ => ⟨rfl, rfl, Iff.rfl, rfl⟩, fun f hf => ?_, rfl,
    fun _ _ => rfl, fun _ ha => ha,
    fun p hmem => List.mem_cons.mp ((specialPages_msrBitmapsTaken hvalid).mem_iff.mp hmem)⟩
  have hframe := frameAddress_frameOf hp.ok
  have hsame := sameFrame_vmxMsrInitBitmaps (m := s.memory) (f := frameOf page) (g := f)
    fun he => hf (he ▸ hframe)
  rwa [hframe] at hsame

/-- The page of the MSR bitmaps is there, or a fresh page is taken for it. -/
theorem vmxGetMsrBitmapsPage_state (h : HostOk s) :
    Ensures vmxGetMsrBitmapsPage s
      (fun _ s' => (s.msrBitmapsPageValid = true ∧ s' = s) ∨
        (s.msrBitmapsPageValid = false ∧ ∃ page pos, FreshPage s page ∧
          ValidPosition (efiMmap s) pos ∧ s' = msrBitmapsTaken s page pos))
      (fun _ s' => s' = s) := by
  simp only [vmxGetMsrBitmapsPage, ensures_bind, ensures_get, ensures_ite, ensures_pure,
    ensures_modify]
  refine ⟨fun hvalid => Or.inl ⟨hvalid, trivial⟩, fun hvalid => ?_⟩
  rw [Bool.not_eq_true] at hvalid
  refine (hostGetFreePage_spec h).mono ?_ fun _ _ he => he
  rintro page _ ⟨pos, hpos, rfl, hp⟩
  exact Or.inr ⟨hvalid, page, pos, hp, hpos, rfl⟩

theorem vmxGetMsrBitmapsPage_spec (h : HostOk s) :
    Ensures vmxGetMsrBitmapsPage s (fun _ s' => Untouched s s' ∧ Accounted s s')
      (fun _ s' => s' = s) := by
  refine (vmxGetMsrBitmapsPage_state h).mono ?_ fun _ _ he => he
  rintro _ s' (⟨_, rfl⟩ | ⟨hvalid, page, pos, hp, hpos, rfl⟩)
  · exact ⟨untouched_refl h, accounted_refl s'⟩
  · have hstep := specialStep_msrBitmapsTaken hvalid hp hpos
    exact ⟨untouched_special h hp hstep,
      accounted_special hp hstep rfl (specialPages_msrBitmapsTaken hvalid)⟩

/-! ## Arenas -/

/-- The state after an arena was created. -/
def arenaTaken (s : Hv) (page : Word) (pos : Word × Word) : Hv :=
  { taking s page pos with
    arenaAt := Function.update s.arenaAt page ⟨0⟩
    arenaList := page :: s.arenaList }

theorem specialStep_arenaTaken {page : Word} {pos : Word × Word} (h : HostOk s)
    (hp : FreshPage s page) (hpos : ValidPosition (efiMmap s) pos) :
    SpecialStep s (arenaTaken s page pos) page := by
  refine ⟨rfl, Or.inr hpos, rfl, fun _ _ => ⟨rfl, rfl, Iff.rfl, rfl⟩, fun f _ => SameFrame.refl _ f,
    rfl, fun a ha => ?_, fun _ ha => List.mem_cons_of_mem _ ha, fun p hmem => List.mem_cons.mp hmem⟩
  refine Function.update_of_ne (fun he => hp.unheld ?_) _ _
  exact List.mem_append_left _ (List.mem_append_left _ (List.mem_append_left _ (he ▸ (h.arena a ha).1)))

/-- A created arena is empty and listed. -/
structure ArenaCreated (s s' : Hv) (page : Word) : Prop where
  untouched : Untouched s s'
  accounted : Accounted s s'
  listed : page ∈ s'.arenaList
  empty : s'.arenaAt page = ⟨0⟩
  managerArena : s'.vmManagerArena = s.vmManagerArena

theorem arenaCreate_spec (h : HostOk s) :
    Ensures arenaCreate s (fun page s' => ArenaCreated s s' page) (fun _ s' => s' = s) := by
  simp only [arenaCreate, ensures_bind, ensures_modify, ensures_pure]
  refine (hostGetFreePage_spec h).mono ?_ fun _ _ he => he
  rintro page _ ⟨pos, hpos, rfl, hp⟩
  have hstep := specialStep_arenaTaken h hp hpos
  exact ⟨untouched_special h hp hstep, accounted_special hp hstep rfl (List.Perm.refl _),
    List.mem_cons_self, Function.update_self _ _ _, rfl⟩

/-! ## Creating a machine -/

/-- An arena becomes the one of the machines while there is no machine. -/
theorem hostOk_setArena {a : Word} (h : HostOk s) (hnone : s.vmManagerArena = none)
    (ha : a ∈ s.arenaList) (hheader : s.arenaAt a = ⟨0⟩) :
    HostOk { s with vmManagerArena := some a } := by
  have hempty : s.vmManagerVmList = [] := List.eq_nil_iff_forall_not_mem.mpr fun vm hvm => by
    obtain ⟨_, hsome, _⟩ := h.pointers vm hvm
    rw [hnone] at hsome
    cases hsome
  refine ⟨h.map, h.cursor, fun vm hvm => ?_, h.distinct, h.apart, h.unowned, h.listed,
    fun page hpage => ?_, fun vm hvm => ?_⟩
  · change vm ∈ s.vmManagerVmList at hvm
    rw [hempty] at hvm
    cases hvm
  · obtain rfl : a = page := Option.some_inj.mp hpage
    exact ⟨ha, by rw [hheader]; decide⟩
  · change vm ∈ s.vmManagerVmList at hvm
    rw [hempty] at hvm
    cases hvm

/-- The record of a machine in its arena. -/
def vmPointer (s : Hv) (a : Word) : Word :=
  p2vIdentityMap a + ((s.arenaAt a).usedSize + sizeofArenaHeader)

/-- The state after a machine was created in its arena. -/
def vmCreated (s : Hv) (a : Word) (name : String) : Hv :=
  { s with
    arenaAt := Function.update s.arenaAt a ⟨(s.arenaAt a).usedSize + sizeofVm⟩
    vmAt := Function.update s.vmAt (vmPointer s a) (newVm name)
    vmManagerVmList := vmPointer s a :: s.vmManagerVmList }

/-- A new machine has neither tables nor a VMCS. -/
theorem newVm_flags (name : String) : (newVm name).flags = 0 := rfl

section Create

variable {a : Word} {name : String} (h : HostOk s) (ha : s.vmManagerArena = some a)
  (hroom : ¬arenaRoom s a < sizeofVm)

include h ha hroom

/-- Room for one machine record. -/
theorem vmCreated_used : ((s.arenaAt a).usedSize + sizeofVm).toNat =
    (s.arenaAt a).usedSize.toNat + 272 ∧ (s.arenaAt a).usedSize.toNat + 272 ≤ 4064 := by
  have hle := (h.arena a ha).2
  have hheader : sizeofArenaHeader.toNat = 32 := rfl
  have hvm : sizeofVm.toNat = 272 := rfl
  have hsize : pageSize.toNat = 4096 := rfl
  rw [arenaRoom, BitVec.lt_def, BitVec.toNat_sub, BitVec.toNat_add, hheader, hvm, hsize] at hroom
  rw [BitVec.toNat_add, hvm]
  omega

omit hroom in
/-- Where the new record lies in the arena: behind all others. -/
theorem vmPointer_offset : (vmPointer s a - p2vIdentityMap a).toNat =
    32 + (s.arenaAt a).usedSize.toNat := by
  have hle := (h.arena a ha).2
  have hheader : sizeofArenaHeader.toNat = 32 := rfl
  rw [vmPointer, BitVec.add_comm (p2vIdentityMap a), BitVec.add_sub_cancel, BitVec.toNat_add, hheader]
  omega

omit hroom in
/-- The new record is no listed machine. -/
theorem vmPointer_new : vmPointer s a ∉ s.vmManagerVmList := by
  intro hmem
  obtain ⟨page, hpage, hoffset⟩ := h.pointers _ hmem
  obtain rfl : a = page := Option.some_inj.mp (ha.symm.trans hpage)
  rw [vmPointer_offset h ha] at hoffset
  omega

omit hroom in
/-- A listed machine is not the new one. -/
theorem vmCreated_other {vm : Word} (hvm : vm ∈ s.vmManagerVmList) :
    (vmCreated s a name).vmAt vm = s.vmAt vm := by
  have hne : vm ≠ vmPointer s a := fun he => vmPointer_new h ha (he ▸ hvm)
  exact Function.update_of_ne hne _ _

omit hroom in
theorem vmCreated_kept {vm : Word} (hvm : vm ∈ s.vmManagerVmList) :
    MachineKept s (vmCreated s a name) vm := by
  have hv := @vmCreated_other _ _ name h ha _ hvm
  exact MachineOk.kept (h.machines vm hvm) (List.mem_cons_of_mem _ hvm) rfl h.cursor
    ⟨by rw [trackedOf, trackedOf, hv], by rw [hv], by rw [hv], by rw [hv]⟩
    fun f _ => SameFrame.refl _ f

omit h ha hroom in
/-- The new machine tracks no page and has no tables. -/
theorem vmCreated_new : (vmCreated s a name).vmAt (vmPointer s a) = newVm name :=
  Function.update_self _ _ _

omit ha hroom in
theorem vmCreated_machineOk : MachineOk (vmCreated s a name) (vmPointer s a) := by
  have hv := @vmCreated_new s a name
  have htracked : trackedOf (vmCreated s a name) (vmPointer s a) = [] := by
    rw [trackedOf, hv]
    rfl
  refine ⟨List.mem_cons_self, h.map, h.cursor, ?_, ?_, ?_, ?_⟩
  · rw [htracked]
    exact fun _ he => absurd he List.not_mem_nil
  · rw [machinePages, htracked]
    exact List.nodup_nil
  · rw [htracked]
    exact fun _ hf => absurd hf List.not_mem_nil
  · rw [hv, hasEpt, newVm_flags]
    exact fun hept => absurd (by decide) hept

omit hroom in
/-- The new machine holds nothing. -/
theorem heldPages_vmCreated : specialPages (vmCreated s a name) = specialPages s ∧
    vmPages (vmCreated s a name) = vmPages s := by
  have hv := @vmCreated_new s a name
  constructor
  · have hvmcs : vmcsPages (vmCreated s a name) = vmcsPages s := by
      rw [vmcsPages]
      change ((vmPointer s a :: s.vmManagerVmList).filter _).map _ = _
      rw [List.filter_cons_of_neg (by rw [hv, newVm_flags]; decide), vmcsPages]
      have hfilter : ∀ vm ∈ s.vmManagerVmList,
          (((vmCreated s a name).vmAt vm).flags &&& vmTFlagVmcsInitialized != 0) =
            ((s.vmAt vm).flags &&& vmTFlagVmcsInitialized != 0) := fun vm hvm => by
        rw [vmCreated_other h ha hvm]
      rw [List.filter_congr hfilter]
      exact List.map_congr_left fun vm hvm => by
        rw [vmCreated_other h ha (List.mem_of_mem_filter hvm)]
    rw [specialPages, specialPages, hvmcs]
    rfl
  · rw [vmPages]
    change (vmPointer s a :: s.vmManagerVmList).flatMap _ = _
    have hnil : machinePages (vmCreated s a name) (vmPointer s a) = [] := by
      rw [machinePages, trackedOf, hv]
      rfl
    rw [List.flatMap_cons, hnil, List.nil_append, vmPages]
    exact List.flatMap_congr fun vm hvm => by
      rw [machinePages, machinePages, (vmCreated_kept h ha hvm).tracked]

theorem hostOk_vmCreated : HostOk (vmCreated s a name) := by
  obtain ⟨hspecial, hvmPages⟩ := @heldPages_vmCreated _ _ name h ha
  obtain ⟨hused, hmax⟩ := vmCreated_used h ha hroom
  have hheader : (vmCreated s a name).arenaAt a = ⟨(s.arenaAt a).usedSize + sizeofVm⟩ :=
    Function.update_self _ _ _
  refine ⟨h.map, h.cursor, fun vm hvm => ?_, hvmPages ▸ h.distinct, ?_, ?_,
    List.nodup_cons.mpr ⟨vmPointer_new h ha, h.listed⟩, fun page hpage => ?_, fun vm hvm => ?_⟩
  · rcases List.mem_cons.mp hvm with rfl | hvm
    · exact vmCreated_machineOk h
    · exact (vmCreated_kept h ha hvm).ok
  · rw [hspecial, hvmPages]
    exact h.apart
  · rw [heldPages, hspecial, hvmPages]
    exact h.unowned
  · obtain rfl : a = page := Option.some_inj.mp (ha.symm.trans hpage)
    rw [hheader]
    exact ⟨(h.arena a ha).1, by rw [hused]; exact hmax⟩
  · refine ⟨a, ha, ?_⟩
    rw [hheader, hused]
    rcases List.mem_cons.mp hvm with rfl | hvm
    · rw [vmPointer_offset h ha]
      omega
    · obtain ⟨page, hpage, hoffset⟩ := h.pointers vm hvm
      obtain rfl : a = page := Option.some_inj.mp (ha.symm.trans hpage)
      omega

end Create

/-- What the creation of a machine does: a listed machine without pages and
tables appears, and the others are as before. -/
structure Created (s s' : Hv) (vm : Word) : Prop where
  ok : HostOk s'
  vmList : s'.vmManagerVmList = vm :: s.vmManagerVmList
  kept : ∀ w ∈ s.vmManagerVmList, MachineKept s s' w
  accounted : Accounted s s'
  record : ∃ name, s'.vmAt vm = newVm name

/-- The machines have an arena, created now or before. -/
structure ArenaReady (s t : Hv) (a : Word) : Prop where
  ok : HostOk t
  arena : t.vmManagerArena = some a
  vmList : t.vmManagerVmList = s.vmManagerVmList
  kept : ∀ w ∈ s.vmManagerVmList, MachineKept s t w
  accounted : Accounted s t

/-- Cutting a record off the arena that has room for it. -/
theorem ArenaReady.created {t : Hv} {a : Word} {name : String} (h : ArenaReady s t a)
    (hroom : ¬arenaRoom t a < sizeofVm) : Created s (vmCreated t a name) (vmPointer t a) := by
  obtain ⟨taken, hhanded, hperm⟩ := h.accounted
  obtain ⟨hspecial, hvmPages⟩ := @heldPages_vmCreated _ _ name h.ok h.arena
  refine ⟨hostOk_vmCreated h.ok h.arena hroom, congrArg _ h.vmList, fun w hw => ?_,
    ⟨taken, ⟨hhanded.returned, hhanded.nodup, hhanded.fresh, hhanded.chainload⟩, ?_⟩, name, vmCreated_new⟩
  · exact MachineKept.trans (h.kept w hw) (vmCreated_kept h.ok h.arena (h.vmList.symm ▸ hw))
  · rw [heldPages, hspecial, hvmPages]
    exact hperm

/-- Giving the machines their first arena. -/
theorem arenaReady_first {s₁ : Hv} {a : Word} (hnone : s₁.vmManagerArena = none)
    (hu : Untouched s s₁) (hacc : Accounted s s₁) (ha : a ∈ s₁.arenaList)
    (hheader : s₁.arenaAt a = ⟨0⟩) : ArenaReady s { s₁ with vmManagerArena := some a } a := by
  have hok := hostOk_setArena hu.ok hnone ha hheader
  obtain ⟨taken, hhanded, hperm⟩ := hacc
  refine ⟨hok, rfl, hu.vmList, fun w hw => ?_,
    ⟨taken, ⟨hhanded.returned, hhanded.nodup, hhanded.fresh, hhanded.chainload⟩, hperm⟩⟩
  have hkept := hu.kept w hw
  exact ⟨hok.machines w (hu.vmList.symm ▸ hw), hkept.tracked, hkept.guestPages, hkept.follow⟩

/-- A machine is created, or its record does not fit the arena. -/
theorem vmManagerCreateVmxMachine_spec (h : HostOk s) (name : String) :
    Ensures (vmManagerCreateVmxMachine name) s (fun vm s' => Created s s' vm)
      (fun _ s' => Spent s s') := by
  simp only [vmManagerCreateVmxMachine, ensures_bind, ensures_get, ensures_ite, ensures_modify,
    ensures_pure]
  constructor
  · intro hnone
    refine (arenaCreate_spec h).mono ?_ ?_
    · intro a s₁ hcreated
      have hready := arenaReady_first (hcreated.managerArena.trans hnone) hcreated.untouched
        hcreated.accounted hcreated.listed hcreated.empty
      rw [ensures_arenaAllocate]
      refine ⟨fun _ => ?_, fun hroom => hready.created hroom⟩
      obtain ⟨taken, hhanded, _⟩ := hready.accounted
      exact ⟨taken, hhanded⟩
    · rintro _ s' rfl
      exact spent_refl s'
  · intro hsome
    rw [ensures_arenaAllocate]
    split
    · exact absurd ‹_› hsome
    · rename_i a ha
      have hready : ArenaReady s s a := ⟨h, ha, rfl, (untouched_refl h).kept, accounted_refl s⟩
      exact ⟨fun _ => spent_refl s, fun hroom => hready.created hroom⟩

/-! ## Guest memory -/

/-- An operation of one machine: the state stays in order, its pages are
accounted for and the other machines are as before. -/
structure MachineDone (s s' : Hv) (vm : Word) : Prop where
  ok : HostOk s'
  vmList : s'.vmManagerVmList = s.vmManagerVmList
  kept : ∀ w ∈ s.vmManagerVmList, w ≠ vm → MachineKept s s' w
  accounted : Accounted s s'

variable {vm : Word}

theorem machineDone_grown {taken : List Word} (h : HostOk s) (hvm : vm ∈ s.vmManagerVmList)
    (hok : MachineOk s' vm) (hg : Grown vm s s' [] taken) : MachineDone s s' vm := by
  obtain ⟨hhost, hperm⟩ := hostOk_grown h hvm hok hg
  exact ⟨hhost, hg.frame.vmList, fun w hw hne => kept_other h hvm hok hg hw hne,
    ⟨taken, handedOut_grown h hg, hperm⟩⟩

/-- A failed machine operation spent fresh pages. -/
theorem spent_stopped (h : HostOk s) (hstop : Stopped vm s s') : Spent s s' := by
  obtain ⟨_, taken, hg⟩ := hstop
  exact ⟨taken, handedOut_grown h hg⟩

theorem vmxEptMapPage_host (h : HostOk s) (hvm : vm ∈ s.vmManagerVmList) (gpa hpa : Word) :
    Ensures (vmxEptMapPage vm gpa hpa) s (fun _ s' => MachineDone s s' vm)
      (fun _ s' => Spent s s') := by
  refine (vmxEptMapPage_spec (h.machines vm hvm) gpa hpa).mono ?_ ?_
  · intro _ s' hm
    obtain ⟨taken, hg⟩ := hm.grown
    exact machineDone_grown h hvm hm.ok hg
  · rintro _ s' (⟨_, _, _, _, rfl⟩ | ⟨_, he⟩)
    · exact spent_refl s'
    · exact spent_stopped h (Refused.stopped he)

/-- The size of a guest memory concerns nobody. -/
theorem specialPages_sized (s : Hv) (vm n : Word) : specialPages (sized s vm n) = specialPages s := by
  have hmachine : ∀ w, ((sized s vm n).vmAt w).flags = (s.vmAt w).flags ∧
      ((sized s vm n).vmAt w).vmcsRegion = (s.vmAt w).vmcsRegion := fun w => by
    by_cases hw : w = vm
    · rw [hw, sized_vmAt]
      exact ⟨rfl, rfl⟩
    · have hother : (sized s vm n).vmAt w = s.vmAt w := Function.update_of_ne hw _ _
      rw [hother]
      exact ⟨rfl, rfl⟩
  have hvmcs : vmcsPages (sized s vm n) = vmcsPages s := by
    rw [vmcsPages, vmcsPages]
    simp only [hmachine]
    rfl
  rw [specialPages, specialPages, hvmcs]
  rfl

theorem vmPages_sized (s : Hv) (vm n : Word) : vmPages (sized s vm n) = vmPages s :=
  List.flatMap_congr fun w _ => by rw [machinePages, machinePages, trackedOf_sized]

theorem machineKept_sized (h : HostOk s) (n : Word) {w : Word} (hw : w ∈ s.vmManagerVmList)
    (hne : w ≠ vm) : MachineKept s (sized s vm n) w := by
  have hv : (sized s vm n).vmAt w = s.vmAt w := Function.update_of_ne hne _ _
  exact MachineOk.kept (h.machines w hw) hw rfl h.cursor
    ⟨trackedOf_sized s vm n w, by rw [hv], by rw [hv], by rw [hv]⟩ fun f _ => SameFrame.refl _ f

theorem hostOk_sized (h : HostOk s) (n : Word) : HostOk (sized s vm n) := by
  refine ⟨h.map, h.cursor, fun w hw => ?_, vmPages_sized s vm n ▸ h.distinct, ?_, ?_, h.listed,
    h.arena, h.pointers⟩
  · by_cases hne : w = vm
    · exact hne ▸ machineOk_sized (h.machines w hw) n
    · exact (machineKept_sized h n hw hne).ok
  · rw [specialPages_sized, vmPages_sized]
    exact h.apart
  · rw [heldPages, specialPages_sized, vmPages_sized]
    exact h.unowned

/-- An allocation gives the machine its size and, if nothing was mapped before,
a guest memory of this size. -/
theorem allocate_host (h : HostOk s) (hvm : vm ∈ s.vmManagerVmList) (n : Word) :
    Ensures (vmManagerAllocateGuestPhysicalMemory vm n) s
      (fun _ s' => MachineDone s s' vm ∧ (s.vmAt vm).guestPhysicalPages = 0 ∧
        (s'.vmAt vm).guestPhysicalPages = n ∧
        ∀ host, GuestMapped s vm 0 host → ∃ host, GuestMapped s' vm n.toNat host)
      (fun _ s' => Spent s s') := by
  have hsized := @hostOk_sized _ vm h n
  have hheld : heldPages (sized s vm n) = heldPages s := by
    rw [heldPages, specialPages_sized, vmPages_sized, heldPages]
  have hfresh : ∀ page, FreshPage (sized s vm n) page → FreshPage s page := fun page hp =>
    ⟨hp.ok, hp.unowned, hheld ▸ hp.unheld⟩
  refine (vmManagerAllocateGuestPhysicalMemory_spec (h.machines vm hvm) n).mono ?_ ?_
  · rintro _ s' ⟨hzero, halloc⟩
    obtain ⟨taken, hg⟩ := halloc.grown
    obtain ⟨hok, hlist, hkept, ⟨taken', hhanded, hperm⟩⟩ := machineDone_grown hsized hvm halloc.ok hg
    refine ⟨⟨hok, hlist, fun w hw hne => ?_, ⟨taken', ⟨hhanded.returned, hhanded.nodup,
      fun page hp => hfresh page (hhanded.fresh page hp), hhanded.chainload⟩, hheld ▸ hperm⟩⟩, hzero, ?_,
      fun host hguest => halloc.guest host (hguest.sized n)⟩
    · exact MachineKept.trans (machineKept_sized h n hw hne) (hkept w hw hne)
    · rw [grown_guestPhysicalPages hg, sized_vmAt]
  · rintro _ s' (rfl | hstop)
    · exact spent_refl s'
    · obtain ⟨taken, hhanded⟩ := spent_stopped hsized hstop
      exact ⟨taken, hhanded.returned, hhanded.nodup, fun page hp => hfresh page (hhanded.fresh page hp),
        hhanded.chainload⟩

/-! ## Creating a VMCS -/

/-- The state after the page of a VMCS was taken and loaded; the machine's flag
is not set yet. -/
def vmcsLoaded (s : Hv) (vm page : Word) (pos : Word × Word) (cpu : Cpu) : Hv :=
  { taking s page pos with
    memory := writeDword s.memory page (vmxGetVmcsRevisionIdentifier s.cpu)
    vmAt := Function.update s.vmAt vm { s.vmAt vm with vmcsRegion := page }
    cpu := cpu }

/-- The state after the flag of a machine was set. -/
def vmcsRegistered (s : Hv) (vm : Word) (cpu : Cpu) : Hv :=
  { s with
    vmAt := Function.update s.vmAt vm
      { s.vmAt vm with flags := (s.vmAt vm).flags ||| vmTFlagVmcsInitialized }
    cpu := cpu }

section Vmcs

variable {page : Word} {pos : Word × Word} {cpu : Cpu}

theorem vmcsLoaded_vmAt : (vmcsLoaded s vm page pos cpu).vmAt vm =
    { s.vmAt vm with vmcsRegion := page } := Function.update_self _ _ _

theorem vmcsLoaded_other {w : Word} (hw : w ≠ vm) :
    (vmcsLoaded s vm page pos cpu).vmAt w = s.vmAt w := Function.update_of_ne hw _ _

/-- A loaded page is not registered. -/
theorem specialPages_vmcsLoaded (hflag : (s.vmAt vm).flags &&& vmTFlagVmcsInitialized = 0) :
    specialPages (vmcsLoaded s vm page pos cpu) = specialPages s := by
  have hflags : ∀ w, ((vmcsLoaded s vm page pos cpu).vmAt w).flags = (s.vmAt w).flags := fun w => by
    by_cases hw : w = vm
    · rw [hw, vmcsLoaded_vmAt]
    · rw [vmcsLoaded_other hw]
  have hvmcs : vmcsPages (vmcsLoaded s vm page pos cpu) = vmcsPages s := by
    rw [vmcsPages, vmcsPages]
    simp only [hflags]
    refine List.map_congr_left fun w hw => ?_
    have hset := (List.mem_filter.mp hw).2
    have hne : w ≠ vm := fun he => by
      rw [he, hflag] at hset
      cases hset
    rw [vmcsLoaded_other hne]
  rw [specialPages, specialPages, hvmcs]
  rfl

theorem specialStep_vmcsLoaded (hp : FreshPage s page) (hpos : ValidPosition (efiMmap s) pos)
    (hflag : (s.vmAt vm).flags &&& vmTFlagVmcsInitialized = 0) :
    SpecialStep s (vmcsLoaded s vm page pos cpu) page := by
  refine ⟨rfl, Or.inr hpos, rfl, fun w _ => ?_, fun f hf => sameFrame_writeDword_page hp.ok hf, rfl,
    fun _ _ => rfl, fun _ ha => ha, fun p hmem => Or.inr ?_⟩
  · by_cases hw : w = vm
    · have hv : (vmcsLoaded s vm page pos cpu).vmAt w = { s.vmAt w with vmcsRegion := page } := by
        rw [hw, vmcsLoaded_vmAt]
      exact ⟨by rw [trackedOf, trackedOf, hv], by rw [hv], by rw [hv]; exact Iff.rfl, by rw [hv]⟩
    · have hv := @vmcsLoaded_other s vm page pos cpu _ hw
      exact ⟨by rw [trackedOf, trackedOf, hv], by rw [hv], by rw [hv], by rw [hv]⟩
  · rwa [specialPages_vmcsLoaded hflag] at hmem

/-- Setting the flag of the VMCS sets it and leaves the one of the tables. -/
theorem flags_registered (flags : Word) :
    (flags ||| vmTFlagVmcsInitialized) &&& vmTFlagVmcsInitialized ≠ 0 ∧
      (flags ||| vmTFlagVmcsInitialized) &&& vmTFlagEptPml4Initialized =
        flags &&& vmTFlagEptPml4Initialized := by
  constructor
  · intro hz
    have hbit := congrArg (fun x => BitVec.getLsbD x 0) hz
    simp [vmTFlagVmcsInitialized] at hbit
  · have hdisjoint : vmTFlagEptPml4Initialized &&& vmTFlagVmcsInitialized = 0 := by decide
    rw [BitVec.and_comm, BitVec.and_or_distrib_left, BitVec.and_comm _ flags, hdisjoint,
      BitVec.ofNat_eq_ofNat, BitVec.or_zero]

theorem vmcsRegistered_vmAt : (vmcsRegistered s vm cpu).vmAt vm =
    { s.vmAt vm with flags := (s.vmAt vm).flags ||| vmTFlagVmcsInitialized } :=
  Function.update_self _ _ _

theorem vmcsRegistered_other {w : Word} (hw : w ≠ vm) :
    (vmcsRegistered s vm cpu).vmAt w = s.vmAt w := Function.update_of_ne hw _ _

theorem sameMachine_vmcsRegistered (w : Word) : SameMachine s (vmcsRegistered s vm cpu) w := by
  by_cases hw : w = vm
  · have hv : (vmcsRegistered s vm cpu).vmAt w =
        { s.vmAt w with flags := (s.vmAt w).flags ||| vmTFlagVmcsInitialized } := by
      rw [hw, vmcsRegistered_vmAt]
    exact ⟨by rw [trackedOf, trackedOf, hv], by rw [hv],
      by rw [hv, hasEpt, hasEpt, (flags_registered _).2], by rw [hv]⟩
  · have hv := @vmcsRegistered_other s vm cpu _ hw
    exact ⟨by rw [trackedOf, trackedOf, hv], by rw [hv], by rw [hv], by rw [hv]⟩

/-- A flag that is set registers the region of its machine. -/
theorem specialPages_vmcsRegistered (hlisted : s.vmManagerVmList.Nodup)
    (hvm : vm ∈ s.vmManagerVmList) (hflag : (s.vmAt vm).flags &&& vmTFlagVmcsInitialized = 0) :
    (specialPages (vmcsRegistered s vm cpu)).Perm ((s.vmAt vm).vmcsRegion :: specialPages s) := by
  have hv := @vmcsRegistered_vmAt s vm cpu
  have hsplit := List.perm_cons_erase hvm
  have hrest : ∀ w ∈ s.vmManagerVmList.erase vm,
      (vmcsRegistered s vm cpu).vmAt w = s.vmAt w := fun w hw =>
    vmcsRegistered_other (hlisted.mem_erase_iff.mp hw).1
  have hvmcs : (vmcsPages (vmcsRegistered s vm cpu)).Perm ((s.vmAt vm).vmcsRegion :: vmcsPages s) := by
    have hbefore : (vmcsPages s).Perm (((s.vmManagerVmList.erase vm).filter fun w =>
        (s.vmAt w).flags &&& vmTFlagVmcsInitialized != 0).map fun w => (s.vmAt w).vmcsRegion) := by
      have hperm := (hsplit.filter fun w => (s.vmAt w).flags &&& vmTFlagVmcsInitialized != 0).map
        fun w => (s.vmAt w).vmcsRegion
      rwa [List.filter_cons_of_neg (by rw [hflag]; decide)] at hperm
    have hafter := (hsplit.filter fun w =>
      ((vmcsRegistered s vm cpu).vmAt w).flags &&& vmTFlagVmcsInitialized != 0).map
        fun w => ((vmcsRegistered s vm cpu).vmAt w).vmcsRegion
    rw [List.filter_cons_of_pos (by rw [hv, bne_iff_ne]; exact (flags_registered _).1),
      List.map_cons, hv] at hafter
    refine hafter.trans (List.Perm.cons _ (List.Perm.trans (List.Perm.of_eq ?_) hbefore.symm))
    rw [List.filter_congr fun w hw => by rw [hrest w hw]]
    exact List.map_congr_left fun w hw => by rw [hrest w (List.mem_of_mem_filter hw)]
  have hfront := hvmcs.append_left (s.arenaList ++ vmxPages s)
  exact hfront.trans List.perm_middle

/-- Registering a region that no machine tracks keeps the state in order. -/
theorem untouched_vmcsRegistered (h : HostOk s) (hvm : vm ∈ s.vmManagerVmList)
    (hflag : (s.vmAt vm).flags &&& vmTFlagVmcsInitialized = 0)
    (hnot : (s.vmAt vm).vmcsRegion ∉ vmPages s)
    (hunowned : mmPageUsedByChainload s.mmChainloadPage (s.vmAt vm).vmcsRegion = false) :
    Untouched s (vmcsRegistered s vm cpu) := by
  have hperm := @specialPages_vmcsRegistered _ _ cpu h.listed hvm hflag
  have hkept : ∀ w ∈ s.vmManagerVmList, MachineKept s (vmcsRegistered s vm cpu) w := fun w hw =>
    MachineOk.kept (h.machines w hw) hw rfl h.cursor (sameMachine_vmcsRegistered w)
      fun f _ => SameFrame.refl _ f
  have hpages : vmPages (vmcsRegistered s vm cpu) = vmPages s :=
    List.flatMap_congr fun w _ => (sameMachine_vmcsRegistered w).machinePages_eq
  refine ⟨⟨h.map, h.cursor, fun w hw => (hkept w hw).ok, hpages ▸ h.distinct, fun p hp => ?_,
    fun p hp => ?_, h.listed, h.arena, h.pointers⟩, rfl, hkept⟩
  · rw [hpages]
    rcases List.mem_cons.mp (hperm.mem_iff.mp hp) with rfl | hp
    · exact hnot
    · exact h.apart p hp
  · rw [heldPages, hpages, List.mem_append] at hp
    rcases hp with hp | hp
    · rcases List.mem_cons.mp (hperm.mem_iff.mp hp) with rfl | hp
      · exact hunowned
      · exact h.unowned p (List.mem_append_left _ hp)
    · exact h.unowned p (List.mem_append_right _ hp)

/-- Writing the fields changes the processor only. -/
theorem writeVmcsFields_spec (hw : Hardware) (fields : List VmcsField) (s : Hv) :
    Ensures (writeVmcsFields hw fields) s (fun _ s' => ∃ cpu, s' = { s with cpu := cpu })
      (fun _ s' => ∃ cpu, s' = { s with cpu := cpu }) := by
  induction fields generalizing s with
  | nil => exact ⟨s.cpu, rfl⟩
  | cons field fields ih =>
    simp only [writeVmcsFields]
    split <;> simp only [ensures_bind, ensures_rdmsr, ensures_pure, ensures_vmwriteAsserted] <;>
      exact ⟨fun _ => ih _, fun _ => ⟨s.cpu, rfl⟩⟩

/-- The registration of the loaded page, whatever happened to the MSR bitmaps
in between. -/
theorem untouched_vmcsCreated {t : Hv} (h : HostOk s) (hvm : vm ∈ s.vmManagerVmList)
    (hflag : (s.vmAt vm).flags &&& vmTFlagVmcsInitialized = 0) (hp : FreshPage s page)
    (hpos : ValidPosition (efiMmap s) pos)
    (ht : Untouched (vmcsLoaded s vm page pos cpu) t)
    (hvmAt : t.vmAt = (vmcsLoaded s vm page pos cpu).vmAt)
    (hchainload : t.mmChainloadPage = s.mmChainloadPage) (cpu' : Cpu) :
    Untouched s (vmcsRegistered t vm cpu') := by
  have hall := (untouched_special h hp (specialStep_vmcsLoaded hp hpos hflag)).trans ht
  have hv : t.vmAt vm = { s.vmAt vm with vmcsRegion := page } := by
    rw [hvmAt, vmcsLoaded_vmAt]
  refine hall.trans (untouched_vmcsRegistered hall.ok (hall.vmList.symm ▸ hvm) ?_ ?_ ?_)
  · rw [hv]
    exact hflag
  · rw [hv, hall.vmPages_eq]
    exact fun hmem => hp.unheld (List.mem_append_right _ hmem)
  · rw [hv, hchainload]
    exact hp.unowned

/-- With the MSR bitmaps in place the page of the VMCS is the only one taken. -/
theorem accounted_vmcsCreated (h : HostOk s) (hvm : vm ∈ s.vmManagerVmList)
    (hflag : (s.vmAt vm).flags &&& vmTFlagVmcsInitialized = 0) (hp : FreshPage s page) (cpu' : Cpu) :
    Accounted s (vmcsRegistered (vmcsLoaded s vm page pos cpu) vm cpu') := by
  have hflag' : ((vmcsLoaded s vm page pos cpu).vmAt vm).flags &&& vmTFlagVmcsInitialized = 0 := by
    rw [vmcsLoaded_vmAt]
    exact hflag
  have hperm := @specialPages_vmcsRegistered (vmcsLoaded s vm page pos cpu) _ cpu'
    h.listed hvm hflag'
  have hpages : vmPages (vmcsRegistered (vmcsLoaded s vm page pos cpu) vm cpu') = vmPages s :=
    List.flatMap_congr fun w _ => by
      rw [(sameMachine_vmcsRegistered w).machinePages_eq]
      by_cases hw : w = vm
      · rw [machinePages, trackedOf, hw, vmcsLoaded_vmAt]
        rfl
      · rw [machinePages, trackedOf, vmcsLoaded_other hw]
        rfl
  rw [vmcsLoaded_vmAt, specialPages_vmcsLoaded hflag] at hperm
  refine ⟨[page], handedOut_one hp rfl rfl, ?_⟩
  rw [heldPages, heldPages, hpages]
  exact hperm.append_right _

/-- The creation of a VMCS keeps the state in order; with the MSR bitmaps in
place it also accounts for its page. -/
theorem vmxCreateInitializedVmcs_spec (hw : Hardware) (h : HostOk s)
    (hvm : vm ∈ s.vmManagerVmList) :
    Ensures (vmxCreateInitializedVmcs hw vm) s
      (fun _ s' => Untouched s s' ∧ (s.msrBitmapsPageValid = true → Accounted s s'))
      (fun _ s' => s.msrBitmapsPageValid = true → Spent s s') := by
  simp only [vmxCreateInitializedVmcs, vmxGetFreeVmcsRegion, vmxVmclear, vmxVmptrld, ensures_bind,
    ensures_get, ensures_ite, ensures_panicWith, ensures_modify, ensures_modifyVm, ensures_pure,
    ensures_vmxAssert, ensures_rdmsr, v2p_p2v]
  refine ⟨fun _ _ => spent_refl s, fun hflag => ?_⟩
  rw [not_not] at hflag
  refine (hostGetFreePage_spec h).mono ?_ ?_
  · rintro page _ ⟨pos, hpos, rfl, hp⟩
    have hspent : ∀ cpu, Spent s (vmcsLoaded s vm page pos cpu) := fun cpu =>
      ⟨[page], handedOut_one hp rfl rfl⟩
    refine ⟨fun _ => ⟨fun _ => ⟨fun _ => ?_, fun hf => absurd hf (by decide)⟩,
      fun _ => ⟨fun hf => absurd hf (by decide), fun _ _ => hspent s.cpu⟩⟩, fun _ _ => hspent s.cpu⟩
    change Ensures vmxGetMsrBitmapsPage (vmcsLoaded s vm page pos { s.cpu with vmcsPointer := page }) _ _
    have hloaded := untouched_special h hp
      (@specialStep_vmcsLoaded _ _ _ _ { s.cpu with vmcsPointer := page } hp hpos hflag)
    refine (vmxGetMsrBitmapsPage_state hloaded.ok).mono ?_ ?_
    · rintro _ t (⟨_, rfl⟩ | ⟨hvalid, q, qpos, hq, hqpos, rfl⟩)
      · refine (writeVmcsFields_spec hw _ _).mono ?_ ?_
        · rintro _ _ ⟨cpu, rfl⟩
          exact ⟨untouched_vmcsCreated h hvm hflag hp hpos (untouched_refl hloaded.ok) rfl rfl cpu,
            fun _ => accounted_vmcsCreated h hvm hflag hp cpu⟩
        · rintro _ _ ⟨cpu, rfl⟩ _
          exact hspent cpu
      · have hmsr := untouched_special hloaded.ok hq (specialStep_msrBitmapsTaken hvalid hq hqpos)
        have hnotValid : ¬s.msrBitmapsPageValid = true := by
          change s.msrBitmapsPageValid = false at hvalid
          rw [hvalid]
          decide
        refine (writeVmcsFields_spec hw _ _).mono ?_ fun _ _ _ hv => absurd hv hnotValid
        rintro _ _ ⟨cpu, rfl⟩
        exact ⟨untouched_vmcsCreated h hvm hflag hp hpos hmsr rfl rfl cpu,
          fun hv => absurd hv hnotValid⟩
    · rintro _ t rfl _
      exact hspent _
  · rintro _ s' rfl _
    exact spent_refl s'

end Vmcs

end Rkhv.HostOperations
