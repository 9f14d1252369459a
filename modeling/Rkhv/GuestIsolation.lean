import Rkhv.HostRuns

/-!
# Isolation of guest memories over whole runs

Machines are created, given their guest memories and their VMCS in any order.
In every state of such a run the guest memory of every machine resolves to its
last byte, page by page to host pages of its own: no host page is behind two
guest pages, of one machine or of two, and none is a table, a VMX page, an
arena or a page of the bootloader's image.
-/

namespace Rkhv.GuestIsolation

open ByteMemory HostTypes HostState StateOutcome FreePages FreePageSearch FreePageContract
  PageRuns PageTracker PageTrackerRuns Ept VmManager EptAgreement MachinePages MachineSteps GuestMemory
  HostPages HostSteps HostOperations HostRuns

variable {hw : Hardware} {s s' : Hv} {vm w gpa gpa' : Word} {f : Frame}

/-- The operations that build machines; a guest memory has at most as many pages
as four levels of tables can map. -/
def BuildsGuests (s : Hv) : HostOp → Prop
  | .eptMapPage _ _ _ => False
  | .allocateGuestPhysicalMemory vm guestPhysicalPages =>
    vm ∈ s.vmManagerVmList ∧ guestPhysicalPages.toNat ≤ 512 ^ 4
  | op => OnListed s op

/-- Number of pages of a guest memory. -/
def guestPages (s : Hv) (vm : Word) : ℕ := (s.vmAt vm).guestPhysicalPages.toNat

/-- A guest memory is mapped as a whole. -/
structure GuestBuilt (s : Hv) (vm : Word) : Prop where
  bounded : guestPages s vm ≤ 512 ^ 4
  mapped : ∃ host, GuestMapped s vm (guestPages s vm) host

/-- The state is in order and every guest memory is mapped. -/
structure GuestsOk (s : Hv) : Prop where
  host : HostOk s
  built : ∀ vm ∈ s.vmManagerVmList, GuestBuilt s vm

/-! ## Steps -/

/-- A kept machine keeps its guest memory and its size. -/
theorem GuestBuilt.kept (h : GuestBuilt s vm) (hkept : MachineKept s s' vm) : GuestBuilt s' vm := by
  obtain ⟨host, hmapped⟩ := h.mapped
  have hpages : guestPages s' vm = guestPages s vm := congrArg BitVec.toNat hkept.guestPages
  exact ⟨hpages ▸ h.bounded, host, hpages ▸ hkept.guestMapped hmapped⟩

/-- A new machine has an empty guest memory. -/
theorem Created.guestBuilt (h : Created s s' vm) : GuestBuilt s' vm := by
  obtain ⟨name, hrecord⟩ := h.record
  have hpages : guestPages s' vm = 0 := by
    rw [guestPages, hrecord]
    rfl
  have hnone : ¬hasEpt (s'.vmAt vm) := by
    rw [hrecord, hasEpt, newVm_flags]
    decide
  have hok := h.ok.machines vm (h.vmList ▸ List.mem_cons_self)
  exact ⟨hpages ▸ Nat.zero_le _, fun _ => 0, hpages ▸ guestMapped_empty hok hnone _⟩

theorem GuestsOk.untouched (h : GuestsOk s) (hu : Untouched s s') : GuestsOk s' :=
  ⟨hu.ok, fun vm hvm => by
    rw [hu.vmList] at hvm
    exact (h.built vm hvm).kept (hu.kept vm hvm)⟩

theorem GuestsOk.created (h : GuestsOk s) (hc : Created s s' vm) : GuestsOk s' := by
  refine ⟨hc.ok, fun w hw => ?_⟩
  rw [hc.vmList] at hw
  rcases List.mem_cons.mp hw with rfl | hold
  · exact Created.guestBuilt hc
  · exact (h.built w hold).kept (hc.kept w hold)

/-- An allocation builds the guest memory of its machine. -/
theorem GuestsOk.allocate (h : GuestsOk s) (hvm : vm ∈ s.vmManagerVmList) {n : Word}
    (hn : n.toNat ≤ 512 ^ 4) :
    Ensures (vmManagerAllocateGuestPhysicalMemory vm n) s (fun _ s' => GuestsOk s')
      (fun _ _ => True) := by
  refine (allocate_host h.host hvm n).mono ?_ fun _ _ _ => trivial
  rintro _ s' ⟨hdone, hzero, hsize, hguest⟩
  refine ⟨hdone.ok, fun w hw => ?_⟩
  rw [hdone.vmList] at hw
  by_cases hne : w = vm
  · have hempty : guestPages s vm = 0 := congrArg BitVec.toNat hzero
    have hpages : guestPages s' vm = n.toNat := congrArg BitVec.toNat hsize
    obtain ⟨host, hmapped⟩ := (h.built vm hvm).mapped
    rw [hempty] at hmapped
    obtain ⟨host', hmapped'⟩ := hguest host hmapped
    exact hne ▸ ⟨hpages ▸ hn, host', hpages ▸ hmapped'⟩
  · exact (h.built w hw).kept (hdone.kept w hw hne)

/-- Every operation keeps the guest memories mapped. -/
theorem guestsOk_step (h : GuestsOk s) {op : HostOp} (hop : BuildsGuests s op) :
    Ensures (hostOp hw op) s (fun _ s' => GuestsOk s') (fun _ _ => True) := by
  cases op with
  | getVmxonRegion =>
    rw [hostOp, ensures_bind]
    exact (vmxGetVmxonRegion_spec h.host).mono (fun _ _ hd => h.untouched hd.1) fun _ _ _ => trivial
  | getMsrBitmapsPage =>
    rw [hostOp, ensures_bind]
    exact (vmxGetMsrBitmapsPage_spec h.host).mono (fun _ _ hd => h.untouched hd.1)
      fun _ _ _ => trivial
  | arenaCreate =>
    rw [hostOp, ensures_bind]
    exact (arenaCreate_spec h.host).mono (fun _ _ hd => h.untouched hd.untouched)
      fun _ _ _ => trivial
  | createVmxMachine name =>
    rw [hostOp, ensures_bind]
    exact (vmManagerCreateVmxMachine_spec h.host name).mono (fun _ _ hd => h.created hd)
      fun _ _ _ => trivial
  | allocateGuestPhysicalMemory vm n => exact h.allocate hop.1 hop.2
  | eptMapPage _ _ _ => exact absurd hop id
  | createInitializedVmcs vm =>
    exact (vmxCreateInitializedVmcs_spec hw h.host hop).mono (fun _ _ hd => h.untouched hd.1)
      fun _ _ _ => trivial

theorem guestsOk_run {c : ChainloadPage} {memory : Memory} {cpu : Cpu}
    (hmap : PhysicalMap c.efiMmapUsable)
    (hrun : HostRun hw BuildsGuests (bootState c memory cpu) s) : GuestsOk s := by
  induction hrun with
  | start => exact ⟨hostOk_boot hmap memory cpu, fun _ hvm => absurd hvm List.not_mem_nil⟩
  | step _ hadmitted hcall ih => exact (guestsOk_step ih hadmitted).of_ok hcall

/-! ## Isolation -/

/-- The address lies in the guest memory. -/
def InGuest (s : Hv) (vm gpa : Word) : Prop := gpa.toNat < guestPages s vm * 4096

/-- The walker resolves the address to a byte of the frame. -/
def Backed (s : Hv) (vm gpa : Word) (f : Frame) : Prop :=
  ∃ hostPhysicalAddress, vmxEptGetHostPhysicalAddress s.memory (s.vmAt vm) gpa =
    some hostPhysicalAddress ∧ InFrame f hostPhysicalAddress

/-- Guest memories are isolated from each other and from the hypervisor. -/
structure Isolated (s : Hv) : Prop where
  backed : ∀ vm ∈ s.vmManagerVmList, ∀ gpa, InGuest s vm gpa →
    ∃ f, Backed s vm gpa f ∧ (frameAddress f, .guestPhysical, false) ∈ contents (trackedOf s vm)
  separate : ∀ vm ∈ s.vmManagerVmList, ∀ gpa gpa' f, InGuest s vm gpa → InGuest s vm gpa' →
    Backed s vm gpa f → Backed s vm gpa' f → gpa.toNat / 4096 = gpa'.toNat / 4096
  disjoint : ∀ vm ∈ s.vmManagerVmList, ∀ w ∈ s.vmManagerVmList, vm ≠ w → ∀ gpa gpa' f,
    InGuest s vm gpa → InGuest s w gpa' → Backed s vm gpa f → ¬Backed s w gpa' f
  apart : ∀ vm ∈ s.vmManagerVmList, ∀ gpa f, InGuest s vm gpa → Backed s vm gpa f →
    frameAddress f ∉ specialPages s ∧
    mmPageUsedByChainload s.mmChainloadPage (frameAddress f) = false ∧
    ∀ w ∈ s.vmManagerVmList, ∀ pool, (frameAddress f, .ept, pool) ∉ contents (trackedOf s w)

/-- A page and an offset below its size lie in the frame of the page. -/
theorem inFrame_guestOffset (f : Frame) (gpa : Word) :
    InFrame f (frameAddress f + linearAddressGetOffset gpa) := by
  have hmask : linearAddressOffsetMask = BitVec.ofNat 64 (2 ^ 12 - 1) := by decide
  refine VmxPages.inFrame_offset ?_
  rw [linearAddressGetOffset, hmask, BitVec.toNat_and, BitVec.toNat_ofNat]
  exact Nat.lt_of_le_of_lt Nat.and_le_right (by decide)

/-- The frame behind an address of a guest memory is the one of its page. -/
theorem GuestMapped.backed_iff {n : ℕ} {host : ℕ → Frame} (h : GuestMapped s vm n host)
    (hn : n ≤ 512 ^ 4) (hgpa : gpa.toNat < n * 4096) :
    Backed s vm gpa f ↔ f = host (gpa.toNat / 4096) := by
  have hwalk := h.walk hn hgpa
  constructor
  · rintro ⟨hpa, hpaWalk, hin⟩
    obtain rfl := Option.some_inj.mp (hwalk.symm.trans hpaWalk)
    exact InFrame.eq hin (inFrame_guestOffset _ gpa)
  · rintro rfl
    exact ⟨_, hwalk, inFrame_guestOffset _ gpa⟩

/-- The frame behind an address of a built guest memory is tracked as a guest page. -/
theorem GuestBuilt.tracked (h : GuestBuilt s vm) (hgpa : InGuest s vm gpa) (hf : Backed s vm gpa f) :
    (frameAddress f, .guestPhysical, false) ∈ contents (trackedOf s vm) := by
  obtain ⟨host, hmapped⟩ := h.mapped
  rw [(GuestMapped.backed_iff hmapped h.bounded hgpa).mp hf]
  unfold InGuest at hgpa
  exact hmapped.tracked _ (by omega)

theorem GuestsOk.isolated (h : GuestsOk s) : Isolated s := by
  refine ⟨fun vm hvm gpa hgpa => ?_, fun vm hvm gpa gpa' f hgpa hgpa' hf hf' => ?_,
    fun vm hvm w hw hne gpa gpa' f hgpa hgpa' hf hf' => ?_, fun vm hvm gpa f hgpa hf => ?_⟩
  · have hbuilt := h.built vm hvm
    obtain ⟨host, hmapped⟩ := hbuilt.mapped
    have hbacked := (GuestMapped.backed_iff hmapped hbuilt.bounded hgpa).mpr rfl
    exact ⟨_, hbacked, hbuilt.tracked hgpa hbacked⟩
  · have hbuilt := h.built vm hvm
    obtain ⟨host, hmapped⟩ := hbuilt.mapped
    rw [GuestMapped.backed_iff hmapped hbuilt.bounded hgpa] at hf
    rw [GuestMapped.backed_iff hmapped hbuilt.bounded hgpa'] at hf'
    unfold InGuest at hgpa hgpa'
    exact hmapped.injective _ (by omega) _ (by omega) (hf.symm.trans hf')
  · have hpage := MachineOk.mem_machinePages ((h.built vm hvm).tracked hgpa hf)
    have hpage' := MachineOk.mem_machinePages ((h.built w hw).tracked hgpa' hf')
    exact disjoint_machinePages h.host hvm hw hne hpage hpage'
  · have htracked := (h.built vm hvm).tracked hgpa hf
    have hpage := MachineOk.mem_machinePages htracked
    have hheld : frameAddress f ∈ vmPages s := mem_vmPages.mpr ⟨vm, hvm, hpage⟩
    refine ⟨fun hspecial => h.host.apart _ hspecial hheld,
      h.host.unowned _ (List.mem_append_right _ hheld), fun w hw pool hept => ?_⟩
    by_cases hne : vm = w
    · -- the same machine tracks a page once
      obtain rfl := hne
      have hsame := (h.host.machines vm hvm).kind_unique htracked hept rfl
      cases hsame
    · exact disjoint_machinePages h.host hvm hw hne hpage (MachineOk.mem_machinePages hept)

/-- In every state of a run that builds machines, guest memories are isolated. -/
theorem hostRun_isolated {c : ChainloadPage} {memory : Memory} {cpu : Cpu}
    (hmap : PhysicalMap c.efiMmapUsable)
    (hrun : HostRun hw BuildsGuests (bootState c memory cpu) s) : Isolated s :=
  (guestsOk_run hmap hrun).isolated

/-- The machine that a host with sixteen usable pages creates first. -/
def firstOfSixteen : Word := 0x1000001f020

/-- A machine with two guest pages. -/
theorem hostRun_isolated_twoPages : ∃ s, HostRun obedientHardware BuildsGuests (smallHost 16) s ∧
    guestPages s firstOfSixteen = 2 ∧ Isolated s := by
  have hbuild : returnsWith (hostOp obedientHardware (.createVmxMachine "guest") (smallHost 16))
      (fun s => s.vmManagerVmList == [firstOfSixteen] &&
        returnsWith (hostOp obedientHardware (.allocateGuestPhysicalMemory firstOfSixteen 2) s)
          fun s => (s.vmAt firstOfSixteen).guestPhysicalPages == 2) = true := by
    decide +kernel
  obtain ⟨s₁, h₁, htest⟩ := exists_of_returnsWith hbuild
  obtain ⟨hlist, htest⟩ := (Bool.and_eq_true _ _).mp htest
  obtain ⟨s₂, h₂, htest⟩ := exists_of_returnsWith htest
  have hlisted : firstOfSixteen ∈ s₁.vmManagerVmList := by
    rw [beq_iff_eq.mp hlist]
    exact List.mem_singleton_self _
  have hcreated : HostRun obedientHardware BuildsGuests (smallHost 16) s₁ :=
    .step .start (by exact trivial) h₁
  have hrun : HostRun obedientHardware BuildsGuests (smallHost 16) s₂ :=
    .step hcreated (by exact ⟨hlisted, by decide⟩) h₂
  have hmap : PhysicalMap (smallMap 16) :=
    physicalMap_smallMap fun page hp => by fin_cases hp <;> exact ⟨by decide, by decide⟩
  exact ⟨s₂, hrun, congrArg BitVec.toNat (beq_iff_eq.mp htest), hostRun_isolated hmap hrun⟩

end Rkhv.GuestIsolation
