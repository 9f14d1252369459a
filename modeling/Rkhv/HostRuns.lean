import Rkhv.HostOperations

/-!
# Exclusive page ownership over whole runs

The operations that obtain host pages are called in any order, on any listed
machines, from the state after boot. As long as every VMCS is created with the
page of the MSR bitmaps in place, no page is handed out twice, none belongs to
the bootloader's image, and the pages handed out are exactly those held. The
first VMCS created without that page shares its page with the bitmaps.
-/

namespace Rkhv.HostRuns

open ByteMemory HostTypes HostState StateOutcome PageRuns FreePages FreePageSearch FreePageContract Arenas
  PageTracker PageTrackerRuns VmxPages VmxInstructions Ept VmManager Vmcs MachinePages MachineSteps GuestMemory
  HostPages HostSteps HostOperations

/-! ## Runs -/

/-- The operations that obtain host pages. -/
inductive HostOp where
  | getVmxonRegion
  | getMsrBitmapsPage
  | arenaCreate
  | createVmxMachine (name : String)
  | allocateGuestPhysicalMemory (vm guestPhysicalPages : Word)
  | eptMapPage (vm guestPhysicalPage hostPhysicalPage : Word)
  | createInitializedVmcs (vm : Word)

/-- The call behind an operation. -/
def hostOp (hw : Hardware) : HostOp → HvM Unit
  | .getVmxonRegion => do let _ ← vmxGetVmxonRegion
  | .getMsrBitmapsPage => do let _ ← vmxGetMsrBitmapsPage
  | .arenaCreate => do let _ ← Arenas.arenaCreate
  | .createVmxMachine name => do let _ ← vmManagerCreateVmxMachine name
  | .allocateGuestPhysicalMemory vm guestPhysicalPages =>
    vmManagerAllocateGuestPhysicalMemory vm guestPhysicalPages
  | .eptMapPage vm guestPhysicalPage hostPhysicalPage =>
    vmxEptMapPage vm guestPhysicalPage hostPhysicalPage
  | .createInitializedVmcs vm => vmxCreateInitializedVmcs hw vm

/-- The machine that an operation is called on is one that was created. -/
def OnListed (s : Hv) : HostOp → Prop
  | .allocateGuestPhysicalMemory vm _ => vm ∈ s.vmManagerVmList
  | .eptMapPage vm _ _ => vm ∈ s.vmManagerVmList
  | .createInitializedVmcs vm => vm ∈ s.vmManagerVmList
  | _ => True

/-- A run of operations that returned, each of them admitted in its state. -/
inductive HostRun (hw : Hardware) (Admitted : Hv → HostOp → Prop) (s₀ : Hv) : Hv → Prop where
  | start : HostRun hw Admitted s₀ s₀
  | step {s s' : Hv} {op : HostOp} (hrun : HostRun hw Admitted s₀ s) (hadmitted : Admitted s op)
      (hcall : hostOp hw op s = .ok () s') : HostRun hw Admitted s₀ s'

/-- Usable pages of a map lie at page boundaries below the 52-bit limit of
physical addresses. -/
def PhysicalMap (mmap : EfiMmap) : Prop := ∀ page, UsablePage mmap page → PageOk page

/-- Right after boot nothing is held. -/
theorem hostOk_boot {c : ChainloadPage} (hmap : PhysicalMap c.efiMmapUsable) (memory : Memory)
    (cpu : Cpu) : HostOk (bootState c memory cpu) where
  map := hmap
  cursor := Or.inl rfl
  machines := fun _ hvm => absurd hvm List.not_mem_nil
  distinct := List.nodup_nil
  apart := fun _ hp => absurd hp List.not_mem_nil
  unowned := fun _ hp => absurd hp List.not_mem_nil
  listed := List.nodup_nil
  arena := fun _ ha => nomatch ha
  pointers := fun _ hvm => absurd hvm List.not_mem_nil

variable {hw : Hardware} {s s' : Hv}

/-- The step of a VMCS that needs the page of the MSR bitmaps. -/
def BitmapsInPlace (s : Hv) : HostOp → Prop
  | .createInitializedVmcs _ => s.msrBitmapsPageValid = true
  | _ => True

/-- Every operation keeps the state in order and, with the bitmaps in place,
accounts for its pages; a failed one spent fresh pages. -/
theorem hostOp_spec (h : HostOk s) {op : HostOp} (hop : OnListed s op) :
    Ensures (hostOp hw op) s
      (fun _ s' => HostOk s' ∧ (BitmapsInPlace s op → Accounted s s'))
      (fun _ s' => BitmapsInPlace s op → Spent s s') := by
  cases op with
  | getVmxonRegion =>
    rw [hostOp, ensures_bind]
    exact (vmxGetVmxonRegion_spec h).mono (fun _ _ hd => ⟨hd.1.ok, fun _ => hd.2⟩)
      fun _ s' he _ => he ▸ spent_refl s'
  | getMsrBitmapsPage =>
    rw [hostOp, ensures_bind]
    exact (vmxGetMsrBitmapsPage_spec h).mono (fun _ _ hd => ⟨hd.1.ok, fun _ => hd.2⟩)
      fun _ s' he _ => he ▸ spent_refl s'
  | arenaCreate =>
    rw [hostOp, ensures_bind]
    exact (arenaCreate_spec h).mono (fun _ _ hd => ⟨hd.untouched.ok, fun _ => hd.accounted⟩)
      fun _ s' he _ => he ▸ spent_refl s'
  | createVmxMachine name =>
    rw [hostOp, ensures_bind]
    exact (vmManagerCreateVmxMachine_spec h name).mono (fun _ _ hd => ⟨hd.ok, fun _ => hd.accounted⟩)
      fun _ _ he _ => he
  | allocateGuestPhysicalMemory vm n =>
    exact (allocate_host h hop n).mono (fun _ _ hd => ⟨hd.1.ok, fun _ => hd.1.accounted⟩)
      fun _ _ he _ => he
  | eptMapPage vm gpa hpa =>
    exact (vmxEptMapPage_host h hop gpa hpa).mono (fun _ _ hd => ⟨hd.ok, fun _ => hd.accounted⟩)
      fun _ _ he _ => he
  | createInitializedVmcs vm =>
    exact (vmxCreateInitializedVmcs_spec hw h hop).mono (fun _ _ hd => ⟨hd.1.ok, hd.2⟩)
      fun _ _ he => he

/-- The state stays in order over whole runs. -/
theorem HostRun.hostOk {Admitted : Hv → HostOp → Prop} {s₀ : Hv} (hrun : HostRun hw Admitted s₀ s)
    (h₀ : HostOk s₀) (hlisted : ∀ t op, Admitted t op → OnListed t op) : HostOk s := by
  induction hrun with
  | start => exact h₀
  | step _ hadmitted hcall ih => exact ((hostOp_spec ih (hlisted _ _ hadmitted)).of_ok hcall).1

/-! ## Exclusive ownership -/

/-- No page was handed out twice, and none belongs to the chainload page, the
sections, the attachments or the page-table regions. -/
structure NeverShared (s : Hv) : Prop where
  nodup : s.mmReturned.Nodup
  unowned : ∀ page ∈ s.mmReturned, mmPageUsedByChainload s.mmChainloadPage page = false

/-- Moreover the pages handed out are exactly those held: arenas, VMXON region,
MSR bitmaps, VMCS regions and tracked pages. -/
structure Exclusive (s : Hv) : Prop where
  neverShared : NeverShared s
  held : (heldPages s).Perm s.mmReturned

/-- Handing out fresh pages shares none. -/
theorem Exclusive.neverShared_after (h : Exclusive s) {taken : List Word}
    (ht : HandedOut s s' taken) : NeverShared s' := by
  refine ⟨?_, fun page hp => ?_⟩
  · rw [ht.returned]
    exact List.nodup_append.mpr ⟨ht.nodup, h.neverShared.nodup, fun a ha b hb hab =>
      (ht.fresh a ha).unheld (h.held.mem_iff.mpr (hab ▸ hb))⟩
  · rw [ht.chainload]
    rw [ht.returned, List.mem_append] at hp
    exact hp.elim (fun hmem => (ht.fresh page hmem).unowned) (h.neverShared.unowned page)

/-- An operation that accounts for its pages keeps ownership exclusive. -/
theorem Exclusive.accounted (h : Exclusive s) (ha : Accounted s s') : Exclusive s' := by
  obtain ⟨taken, hhanded, hperm⟩ := ha
  refine ⟨h.neverShared_after hhanded, ?_⟩
  rw [hhanded.returned]
  exact hperm.trans (h.held.append_left taken)

/-- An operation on listed machines that creates no VMCS before the page of the
MSR bitmaps is in place. -/
def Protected (s : Hv) (op : HostOp) : Prop := OnListed s op ∧ BitmapsInPlace s op

/-- No operation changes the chainload page. -/
theorem hostOp_chainload (h : HostOk s) {op : HostOp} (hop : Protected s op)
    (hcall : hostOp hw op s = .ok () s') : s'.mmChainloadPage = s.mmChainloadPage := by
  obtain ⟨_, haccounted⟩ := (hostOp_spec h hop.1).of_ok hcall
  obtain ⟨_, hhanded, _⟩ := haccounted hop.2
  exact hhanded.chainload

/-- Ownership stays exclusive over whole runs, and a further operation that
fails has shared no page either. -/
theorem hostRun_exclusive {c : ChainloadPage} {memory : Memory} {cpu : Cpu}
    (hmap : PhysicalMap c.efiMmapUsable)
    (hrun : HostRun hw Protected (bootState c memory cpu) s) :
    Exclusive s ∧ ∀ op e s', Protected s op → hostOp hw op s = .error e s' → NeverShared s' := by
  have h₀ := hostOk_boot hmap memory cpu
  have hexclusive : Exclusive s := by
    induction hrun with
    | start => exact ⟨⟨List.nodup_nil, fun _ hp => absurd hp List.not_mem_nil⟩, List.Perm.refl _⟩
    | step hrun hadmitted hcall ih =>
      have hok := hrun.hostOk h₀ fun _ _ hp => hp.1
      exact ih.accounted (((hostOp_spec hok hadmitted.1).of_ok hcall).2 hadmitted.2)
  refine ⟨hexclusive, fun op e s' hp herror => ?_⟩
  have hok := hrun.hostOk h₀ fun _ _ hp => hp.1
  obtain ⟨taken, hhanded⟩ := (hostOp_spec hok hp.1).of_error herror hp.2
  exact hexclusive.neverShared_after hhanded

/-! ## A VMCS before the MSR bitmaps -/

/-- A page that is loaded as a VMCS counts as free until it is registered. -/
theorem mmPageIsFree_vmcsLoaded {vm page other : Word} {pos : Word × Word} {cpu : Cpu}
    (hflag : (s.vmAt vm).flags &&& vmTFlagVmcsInitialized = 0) :
    mmPageIsFree (vmcsLoaded s vm page pos cpu) other = mmPageIsFree s other := by
  have hmachine : ∀ w, ((((vmcsLoaded s vm page pos cpu).vmAt w).flags &&&
        vmTFlagVmcsInitialized != 0 &&
      ((vmcsLoaded s vm page pos cpu).vmAt w).vmcsRegion == other) ||
      ((vmcsLoaded s vm page pos cpu).vmAt w).trackedPages.any (pageListUses other)) =
      (((s.vmAt w).flags &&& vmTFlagVmcsInitialized != 0 && (s.vmAt w).vmcsRegion == other) ||
      (s.vmAt w).trackedPages.any (pageListUses other)) := fun w => by
    by_cases hw : w = vm
    · rw [hw, vmcsLoaded_vmAt, hflag]
      rfl
    · rw [vmcsLoaded_other hw]
  simp only [mmPageIsFree, mmPageUsedByVmManager, hmachine]
  rfl

/-- The page of the MSR bitmaps is the one at the saved position while that one
counts as free. -/
theorem vmxGetMsrBitmapsPage_again (hvalid : s.msrBitmapsPageValid = false)
    (hv : ValidPosition (efiMmap s) (savedCursor s))
    (hfree : mmPageIsFree s (positionPage (efiMmap s) (savedCursor s)) = true) :
    Ensures vmxGetMsrBitmapsPage s
      (fun page s' => page = positionPage (efiMmap s) (savedCursor s) ∧ s'.msrBitmapsPage = page ∧
        s'.mmReturned = page :: s.mmReturned ∧ s'.vmAt = s.vmAt)
      (fun _ _ => True) := by
  simp only [vmxGetMsrBitmapsPage, ensures_bind, ensures_get, ensures_ite, hvalid,
    ensures_modify, ensures_pure]
  exact ⟨fun hf => absurd hf (by decide),
    fun _ => Ensures.ok (mmGetFreePage_again hv hfree) ⟨rfl, trivial, rfl, rfl⟩⟩

/-- Without the page of the MSR bitmaps in place, the page of a new VMCS is
handed out a second time as that page. -/
theorem vmxCreateInitializedVmcs_shares (h : HostOk s) {vm : Word}
    (hvalid : s.msrBitmapsPageValid = false) :
    Ensures (vmxCreateInitializedVmcs hw vm) s
      (fun _ s' => ∃ page, s'.mmReturned = page :: page :: s.mmReturned ∧
        (s'.vmAt vm).vmcsRegion = page ∧ s'.msrBitmapsPage = page)
      (fun _ _ => True) := by
  simp only [vmxCreateInitializedVmcs, vmxGetFreeVmcsRegion, vmxVmclear, vmxVmptrld, ensures_bind,
    ensures_get, ensures_ite, ensures_panicWith, ensures_modify, ensures_modifyVm, ensures_pure,
    ensures_vmxAssert, ensures_rdmsr, v2p_p2v]
  refine ⟨fun _ => trivial, fun hflag => ?_⟩
  rw [not_not] at hflag
  refine ensures_mmGetFreePage h.cursor (fun pos hpos hfree _ => ?_) (fun _ _ _ => trivial)
    fun _ _ _ => trivial
  refine ⟨fun _ => ⟨fun _ => ⟨fun _ => ?_, fun hf => absurd hf (by decide)⟩,
    fun _ => ⟨fun hf => absurd hf (by decide), fun _ => trivial⟩⟩, fun _ => trivial⟩
  have hagain : mmPageIsFree (vmcsLoaded s vm (positionPage (efiMmap s) pos) pos
      { s.cpu with vmcsPointer := positionPage (efiMmap s) pos }) (positionPage (efiMmap s) pos) =
      true := by
    rw [mmPageIsFree_vmcsLoaded hflag]
    exact hfree
  change Ensures vmxGetMsrBitmapsPage (vmcsLoaded s vm (positionPage (efiMmap s) pos) pos
    { s.cpu with vmcsPointer := positionPage (efiMmap s) pos }) _ _
  refine Ensures.mono (vmxGetMsrBitmapsPage_again (s := vmcsLoaded s vm (positionPage (efiMmap s) pos) pos
    { s.cpu with vmcsPointer := positionPage (efiMmap s) pos }) hvalid hpos hagain) ?_
    fun _ _ _ => trivial
  · rintro _ t ⟨rfl, hbitmaps, hreturned, hvmAt⟩
    refine (writeVmcsFields_spec hw _ _).mono ?_ fun _ _ _ => trivial
    rintro _ _ ⟨cpu, rfl⟩
    refine ⟨positionPage (efiMmap s) pos, hreturned, ?_, hbitmaps⟩
    rw [Function.update_self, hvmAt, vmcsLoaded_vmAt]

/-- The history only grows. -/
theorem hostOp_returned (h : HostOk s) {op : HostOp} (hop : OnListed s op)
    (hcall : hostOp hw op s = .ok () s') : ∃ taken, s'.mmReturned = taken ++ s.mmReturned := by
  by_cases hplace : BitmapsInPlace s op
  · obtain ⟨taken, hhanded, _⟩ := ((hostOp_spec h hop).of_ok hcall).2 hplace
    exact ⟨taken, hhanded.returned⟩
  · cases op with
    | createInitializedVmcs vm =>
      rw [BitmapsInPlace, Bool.not_eq_true] at hplace
      obtain ⟨page, hreturned, _⟩ := (vmxCreateInitializedVmcs_shares h hplace).of_ok hcall
      exact ⟨[page, page], hreturned⟩
    | _ => exact absurd trivial hplace

/-- An operation after which no page is shared had the bitmaps in place. -/
theorem bitmapsInPlace_of_nodup (h : HostOk s) {op : HostOp}
    (hcall : hostOp hw op s = .ok () s') (hnodup : s'.mmReturned.Nodup) : BitmapsInPlace s op := by
  cases op with
  | createInitializedVmcs vm =>
    rw [BitmapsInPlace, ← Bool.not_eq_false]
    intro hvalid
    obtain ⟨page, hreturned, _⟩ := (vmxCreateInitializedVmcs_shares h hvalid).of_ok hcall
    rw [hreturned] at hnodup
    exact (List.nodup_cons.mp hnodup).1 List.mem_cons_self
  | _ => exact trivial

/-- A run after which no page was handed out twice is a protected one. -/
theorem HostRun.protected {s₀ : Hv} (hrun : HostRun hw OnListed s₀ s) (h₀ : HostOk s₀)
    (hnodup : s.mmReturned.Nodup) : HostRun hw Protected s₀ s := by
  induction hrun with
  | start => exact .start
  | step hrun hadmitted hcall ih =>
    have hok := hrun.hostOk h₀ fun _ _ hp => hp
    have hplace := bitmapsInPlace_of_nodup hok hcall hnodup
    obtain ⟨taken, hreturned⟩ := hostOp_returned hok hadmitted hcall
    rw [hreturned] at hnodup
    exact .step (ih (List.nodup_append.mp hnodup).2.1) ⟨hadmitted, hplace⟩ hcall

/-- A run shares no page exactly when it created no VMCS before the page of the
MSR bitmaps was in place. Then ownership is exclusive throughout: the pages
handed out are those held, and an operation that fails shares none either. -/
theorem hostRun_neverShared_iff {c : ChainloadPage} {memory : Memory} {cpu : Cpu}
    (hmap : PhysicalMap c.efiMmapUsable)
    (hrun : HostRun hw OnListed (bootState c memory cpu) s) :
    (NeverShared s ↔ HostRun hw Protected (bootState c memory cpu) s) ∧
      (HostRun hw Protected (bootState c memory cpu) s → Exclusive s ∧
        ∀ op e s', Protected s op → hostOp hw op s = .error e s' → NeverShared s') := by
  have h₀ := hostOk_boot hmap memory cpu
  refine ⟨⟨fun hshared => hrun.protected h₀ hshared.nodup, fun hprotected => ?_⟩,
    hostRun_exclusive hmap⟩
  exact (hostRun_exclusive hmap hprotected).1.neverShared

/-! ## Hosts with a few pages -/

/-- A map whose only descriptor holds usable pages from `0x10000` on. -/
def smallMap (pages : BitVec 63) : EfiMmap :=
  (Vector.replicate rkhvMaxEfiMmapDescriptors default).set 0 ⟨0x10000, pages, true⟩
    rkhvMaxEfiMmapDescriptors_pos

theorem physicalMap_smallMap {pages : BitVec 63}
    (hpages : ∀ page ∈ runPages 0x10000 pages.toNat, PageOk page) : PhysicalMap (smallMap pages) := by
  rintro page ⟨desc, hdesc, husable, hpage⟩
  have hmem : desc ∈ ⟨0x10000, pages, true⟩ :: List.replicate 230 default := hdesc
  rcases List.mem_cons.mp hmem with rfl | hrest
  · exact hpages page hpage
  · rw [List.eq_of_mem_replicate hrest] at husable
    cases husable

/-- A processor on which every VMX instruction succeeds. -/
def obedientHardware : Hardware :=
  ⟨fun _ _ => true, fun _ _ => default, 0, 0, 0, default, default, fun _ _ => default, 0⟩

/-- The boot state of a host with that map. -/
def smallHost (pages : BitVec 63) : Hv :=
  bootState { (default : ChainloadPage) with efiMmapUsable := smallMap pages } (fun _ => 0)
    ⟨0, fun _ _ => 0, fun _ => 0⟩

/-- Whether a call returned, in a state that passes a test. -/
def returnsWith (r : EStateM.Result Fault Hv Unit) (test : Hv → Bool) : Bool :=
  match r with
  | .ok _ s => test s
  | .error _ _ => false

theorem exists_of_returnsWith {r : EStateM.Result Fault Hv Unit} {test : Hv → Bool}
    (h : returnsWith r test = true) : ∃ s, r = .ok () s ∧ test s = true := by
  cases r with
  | ok _ s => exact ⟨s, rfl, h⟩
  | error _ _ => cases h

/-- The machine that a host with four usable pages creates first. -/
def firstVm : Word := 0x10000013020

/-- With the bitmaps first, a VMCS takes a page of its own. -/
theorem hostRun_neverShared_iff_fourPages : ∃ s,
    HostRun obedientHardware Protected (smallHost 4) s ∧ NeverShared s ∧
      s.mmReturned = [0x11000, 0x12000, 0x13000] := by
  have hcreate : returnsWith (hostOp obedientHardware (.createVmxMachine "guest") (smallHost 4))
      (fun s => s.vmManagerVmList == [firstVm] &&
        returnsWith (hostOp obedientHardware .getMsrBitmapsPage s) fun s =>
          (s.vmManagerVmList == [firstVm] && s.msrBitmapsPageValid) &&
            returnsWith (hostOp obedientHardware (.createInitializedVmcs firstVm) s) fun s =>
              s.mmReturned == [0x11000, 0x12000, 0x13000]) = true := by
    decide +kernel
  obtain ⟨s₁, h₁, htest⟩ := exists_of_returnsWith hcreate
  obtain ⟨_, htest⟩ := (Bool.and_eq_true _ _).mp htest
  obtain ⟨s₂, h₂, htest⟩ := exists_of_returnsWith htest
  obtain ⟨hplace, htest⟩ := (Bool.and_eq_true _ _).mp htest
  obtain ⟨hlist, hvalid⟩ := (Bool.and_eq_true _ _).mp hplace
  obtain ⟨s₃, h₃, htest⟩ := exists_of_returnsWith htest
  have hlisted : firstVm ∈ s₂.vmManagerVmList := by
    rw [beq_iff_eq.mp hlist]
    exact List.mem_singleton_self _
  have hcreated : HostRun obedientHardware Protected (smallHost 4) s₁ :=
    .step .start (by exact ⟨trivial, trivial⟩) h₁
  have hbitmaps : HostRun obedientHardware Protected (smallHost 4) s₂ :=
    .step hcreated (by exact ⟨trivial, trivial⟩) h₂
  have hprotected : HostRun obedientHardware Protected (smallHost 4) s₃ :=
    .step hbitmaps (by exact ⟨hlisted, hvalid⟩) h₃
  have hcreated' : HostRun obedientHardware OnListed (smallHost 4) s₁ :=
    .step .start (by exact trivial) h₁
  have hbitmaps' : HostRun obedientHardware OnListed (smallHost 4) s₂ :=
    .step hcreated' (by exact trivial) h₂
  have hrun : HostRun obedientHardware OnListed (smallHost 4) s₃ :=
    .step hbitmaps' (by exact hlisted) h₃
  have hmap : PhysicalMap (smallMap 4) :=
    physicalMap_smallMap fun page hp => by fin_cases hp <;> exact ⟨by decide, by decide⟩
  exact ⟨s₃, hprotected, (hostRun_neverShared_iff hmap hrun).1.mpr hprotected,
    beq_iff_eq.mp htest⟩

/-- Without them the VMCS of the first machine and the MSR bitmaps are one and
the same page. -/
theorem hostRun_sharesVmcsPage : ∃ s, HostRun obedientHardware OnListed (smallHost 4) s ∧
    s.mmReturned = [0x12000, 0x12000, 0x13000] ∧ ¬NeverShared s := by
  have hcreate : returnsWith (hostOp obedientHardware (.createVmxMachine "guest") (smallHost 4))
      (fun s => s.vmManagerVmList == [firstVm] &&
        returnsWith (hostOp obedientHardware (.createInitializedVmcs firstVm) s) fun s =>
          s.mmReturned == [0x12000, 0x12000, 0x13000]) = true := by
    decide +kernel
  obtain ⟨s₁, h₁, htest⟩ := exists_of_returnsWith hcreate
  obtain ⟨hlist, htest⟩ := (Bool.and_eq_true _ _).mp htest
  obtain ⟨s₂, h₂, htest⟩ := exists_of_returnsWith htest
  have hlisted : firstVm ∈ s₁.vmManagerVmList := by
    rw [beq_iff_eq.mp hlist]
    exact List.mem_singleton_self _
  have hcreated : HostRun obedientHardware OnListed (smallHost 4) s₁ :=
    .step .start (by exact trivial) h₁
  have hreturned := beq_iff_eq.mp htest
  refine ⟨s₂, .step hcreated (by exact hlisted) h₂, hreturned, fun hshared => ?_⟩
  have hnodup := hshared.nodup
  rw [hreturned] at hnodup
  exact absurd hnodup (by decide)

end Rkhv.HostRuns
