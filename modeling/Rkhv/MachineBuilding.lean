import Rkhv.ExitMemory
import Rkhv.GuestIdentity
import Rkhv.VmcsConfinement

/-!
# Everything that happens before a launch

Before a machine is launched, machines are created, given guest memories, a VMCS
and devices, and their guests are set up: page tables, code and first registers.
Through all of this the guest memories stay mapped and apart, and a VMCS that
confines its machine stays as it is.
-/

namespace Rkhv.MachineBuilding

open ByteMemory WordFields HostTypes HostState StateOutcome PageTracker PageTrackerRuns Arenas VmxPages
  VmxMsr Vmcs MachinePages GuestMemory HostPages HostSteps HostOperations HostRuns GuestIsolation
  Vmd8250Uart VmIoPorts VmGuestPaging GuestSetup GuestIdentity ExitMemory VmcsFields VmcsConfinement

variable {hw : Hardware} {s s' : Hv} {vm : Word}

/-! ## Steps -/

/-- Setting up a guest writes its memory and its record, but not its size, its
tables or its VMCS. -/
structure SetUp (s s' : Hv) (vm : Word) : Prop where
  host : s' = settingUp s vm s'.memory (s'.vmAt vm)
  only : GuestMemoryOnly vm s s'

/-- Runs of everything that precedes a launch. -/
inductive BuildRun (hw : Hardware) (s₀ : Hv) : Hv → Prop where
  | start : BuildRun hw s₀ s₀
  | op {s s' : Hv} {op : HostOp} (hrun : BuildRun hw s₀ s) (hadmitted : BuildsGuests s op)
      (hcall : hostOp hw op s = .ok () s') : BuildRun hw s₀ s'
  | setUp {s s' : Hv} {vm : Word} (hrun : BuildRun hw s₀ s) (hvm : vm ∈ s.vmManagerVmList)
      (hset : SetUp s s' vm) : BuildRun hw s₀ s'
  | createUart {s s' : Hv} {portBase : BitVec 16} {portName : String} {d : ℕ}
      (hrun : BuildRun hw s₀ s) (hcall : vmd8250UartCreate portBase portName s = .ok d s') :
      BuildRun hw s₀ s'
  | register {s s' : Hv} {vm : Word} {d : ℕ} (hrun : BuildRun hw s₀ s)
      (hvm : vm ∈ s.vmManagerVmList) (hcall : vmManagerRegisterDevice vm d s = .ok () s') :
      BuildRun hw s₀ s'

/-- A machine that is confined stays so, by the VMCS that it has. -/
structure ConfinedOn (s s' : Hv) (vm : Word) : Prop where
  confines : VmcsConfines s' vm
  vmcs : s'.cpu.vmcs (s'.vmAt vm).vmcsRegion = s.cpu.vmcs (s.vmAt vm).vmcsRegion

/-- Machines stay listed and confined, and the bitmaps stay in order. -/
structure ConfinementKept (s s' : Hv) : Prop where
  listed : ∀ w ∈ s.vmManagerVmList, w ∈ s'.vmManagerVmList
  bitmaps : BitmapsOk s → BitmapsOk s'
  confined : ∀ w ∈ s.vmManagerVmList, VmcsConfines s w → ConfinedOn s s' w
  msr : s'.cpu.msr = s.cpu.msr

theorem HostKept.confinementKept (h : HostKept s s') : ConfinementKept s s' where
  listed := h.listed
  bitmaps := fun hok => hok.kept h
  confined := fun w hw hc => ⟨hc.kept hw h, by
    rw [(h.record w hw hc.registered hc.sized).vmcsRegion]
    exact h.vmcs _ (mem_vmcsPages hw hc.registered)⟩
  msr := h.msr

theorem ConfinementKept.trans {s'' : Hv} (h : ConfinementKept s s') (h' : ConfinementKept s' s'') :
    ConfinementKept s s'' where
  listed := fun w hw => h'.listed w (h.listed w hw)
  bitmaps := fun hok => h'.bitmaps (h.bitmaps hok)
  confined := fun w hw hc => by
    have hfirst := h.confined w hw hc
    have hsecond := h'.confined w (h.listed w hw) hfirst.confines
    exact ⟨hsecond.confines, hsecond.vmcs.trans hfirst.vmcs⟩
  msr := h'.msr.trans h.msr

/-- A step keeps the guest memories and the confinement of machines. -/
def Builds (s s' : Hv) : Prop := GuestsOk s → GuestsOk s' ∧ ConfinementKept s s'

/-- One step after the other. -/
theorem Builds.trans {s'' : Hv} (h : Builds s s') (h' : Builds s' s'') : Builds s s'' := fun hok =>
  ⟨(h' (h hok).1).1, (h hok).2.trans (h' (h hok).1).2⟩

/-- Same pages, same processor, and no page written but guest memory. -/
theorem hostKept_structural (hs : SameStructure s s') (hcpu : s'.cpu = s.cpu)
    (hmemory : ∀ f, frameAddress f ∈ specialPages s → SameFrame s.memory s'.memory f) :
    HostKept s s' := by
  have hvalid : s'.msrBitmapsPageValid = s.msrBitmapsPageValid := hs.field Hv.msrBitmapsPageValid
  have hpage : s'.msrBitmapsPage = s.msrBitmapsPage := hs.field Hv.msrBitmapsPage
  exact {
    bitmapsPage := fun h => ⟨hvalid.trans h, hpage⟩
    newBitmaps := fun h hv => absurd (hv.symm.trans (hvalid.trans h)) (by decide)
    memory := hmemory
    record := fun w _ _ _ => ⟨hs.flags w, hs.vmcsRegion w, hs.eptp w, hs.guestPhysicalPages w⟩
    vmcs := fun _ _ => by rw [hcpu]
    listed := fun _ hw => hs.vmList ▸ hw
    msr := congrArg Cpu.msr hcpu }

/-- A change of data that says nothing about pages. -/
theorem builds_sameMemory (hs : SameStructure s s') (hcpu : s'.cpu = s.cpu)
    (hmemory : s'.memory = s.memory) : Builds s s' := by
  have hsame : ∀ f, SameFrame s.memory s'.memory f := fun f a _ => congrFun hmemory a
  exact fun h => ⟨GuestsOk.structural h hs fun _ _ f _ _ => hsame f,
    HostKept.confinementKept (hostKept_structural hs hcpu fun f _ => hsame f)⟩

theorem SetUp.builds (h : SetUp s s' vm) (hvm : vm ∈ s.vmManagerVmList) : Builds s s' := by
  have hcpu : s'.cpu = s.cpu := by
    rw [h.host]
    rfl
  exact fun hok => ⟨GuestsOk.guestMemoryOnly hok hvm h.only, HostKept.confinementKept
    (hostKept_structural h.only.structural hcpu fun f hf a ha =>
      h.only.memory a (not_inGuestMemory_special hok.host hvm hf ha))⟩

theorem register_builds {d : ℕ} (h : vmManagerRegisterDevice vm d s = .ok () s') : Builds s s' := by
  have hspec : Ensures (vmManagerRegisterDevice vm d) s (fun _ s' => SameStructure s s' ∧
      s'.cpu = s.cpu ∧ s'.memory = s.memory) (fun _ _ => True) := by
    simp only [vmManagerRegisterDevice, ensures_bind, ensures_get]
    split
    · exact trivial
    · simp only [ensures_ite, ensures_panicWith, ensures_modify, implies_true, true_and]
      refine fun _ => ⟨?_, trivial⟩
      rw [SameStructure, structuralPart, structuralPart]
      congr 1
      funext w
      by_cases hw : w = vm
      · rw [hw]
        dsimp only
        rw [Function.update_self]
        rfl
      · dsimp only
        rw [Function.update_of_ne hw]
  obtain ⟨hs, hcpu, hmemory⟩ := hspec.of_ok h
  exact builds_sameMemory hs hcpu hmemory

/-! ## Arenas of devices -/

/-- Cutting off an arena that has room keeps the state in order. -/
theorem arenaAllocate_builds {arena : Option Word} {size a : Word} (hsize : size.toNat ≤ 4064)
    (h : arenaAllocate arena size s = .ok a s') : Builds s s' := by
  intro hok
  have hspec : Ensures (arenaAllocate arena size) s (fun _ s' => ∃ page, ¬arenaRoom s page < size ∧
      s' = { s with arenaAt := Function.update s.arenaAt page ⟨(s.arenaAt page).usedSize + size⟩ })
      (fun _ _ => True) := by
    rw [ensures_arenaAllocate]
    split
    · exact trivial
    · exact ⟨fun _ => trivial, fun hroom => ⟨_, hroom, rfl⟩⟩
  obtain ⟨page, hroom, rfl⟩ := hspec.of_ok h
  have hused : ∀ b, s.vmManagerArena = some b → (s.arenaAt b).usedSize.toNat ≤
      ((Function.update s.arenaAt page ⟨(s.arenaAt page).usedSize + size⟩) b).usedSize.toNat ∧
      ((Function.update s.arenaAt page ⟨(s.arenaAt page).usedSize + size⟩) b).usedSize.toNat ≤
        4064 := fun b hb => by
    have hle := (hok.host.arena b hb).2
    by_cases he : b = page
    · have hheader : sizeofArenaHeader.toNat = 32 := rfl
      have hpageSize : pageSize.toNat = 4096 := rfl
      rw [← he] at hroom
      rw [arenaRoom, BitVec.lt_def, BitVec.toNat_sub, BitVec.toNat_add, hheader, hpageSize] at hroom
      rw [he, Function.update_self]
      rw [he] at hroom hle
      rw [BitVec.toNat_add]
      omega
    · rw [Function.update_of_ne he]
      exact ⟨Nat.le_refl _, hle⟩
  refine ⟨⟨⟨hok.host.map, hok.host.cursor, fun w hw => ?_, hok.host.distinct, hok.host.apart,
    hok.host.unowned, hok.host.listed, fun b hb => ?_, fun w hw => ?_⟩, fun w hw => ?_⟩, ?_⟩
  · have hm := hok.host.machines w hw
    exact ⟨hm.listed, hm.map, hm.cursor, hm.entries, hm.distinct, hm.zeroed, hm.tree⟩
  · exact ⟨(hok.host.arena b hb).1, (hused b hb).2⟩
  · obtain ⟨b, hb, hoffset⟩ := hok.host.pointers w hw
    have hgrown := (hused b hb).1
    exact ⟨b, hb, by dsimp only; omega⟩
  · obtain ⟨hbounded, host, hg⟩ := hok.built w hw
    have hm := hg.ok
    exact ⟨hbounded, host, ⟨hm.listed, hm.map, hm.cursor, hm.entries, hm.distinct, hm.zeroed, hm.tree⟩,
      hg.mapped, hg.tracked, hg.injective, hg.absent⟩
  · exact ⟨fun _ hw => hw, fun hb => hb, fun _ _ hc => ⟨⟨hc.registered, hc.sized, hc.hasEpt,
      hc.bitmapsValid, hc.ept, hc.eptPointer, hc.msrBitmaps, hc.bitmapsPage, hc.apart⟩, rfl⟩,
      rfl⟩

theorem vmdGetDeviceArena_builds {arena : Option Word} (h : vmdGetDeviceArena s = .ok arena s') :
    Builds s s' := by
  intro hok
  have hspec : Ensures vmdGetDeviceArena s (fun _ s' => Builds s s') (fun _ _ => True) := by
    simp only [vmdGetDeviceArena, ensures_bind, ensures_get, ensures_ite, ensures_pure, ensures_modify]
    refine ⟨fun _ => ?_, fun _ => builds_sameMemory rfl rfl rfl⟩
    have hboth := (arenaCreate_spec hok.host).and (arenaCreate_kept hok.host)
    refine hboth.mono (fun a t hdone => ?_) fun _ _ _ => trivial
    have hcreated : Builds s t := fun _ =>
      ⟨hok.untouched hdone.1.untouched, HostKept.confinementKept hdone.2⟩
    exact hcreated.trans (builds_sameMemory rfl rfl rfl)
  exact hspec.of_ok h hok

theorem createUart_builds {portBase : BitVec 16} {portName : String} {d : ℕ}
    (h : vmd8250UartCreate portBase portName s = .ok d s') : Builds s s' := by
  rw [vmd8250UartCreate, bind_eq_ok] at h
  obtain ⟨arena, s₁, harena, h⟩ := h
  rw [bind_eq_ok] at h
  obtain ⟨_, s₂, hdevice, h⟩ := h
  rw [bind_eq_ok] at h
  obtain ⟨arena', s₃, harena', h⟩ := h
  rw [bind_eq_ok] at h
  obtain ⟨_, s₄, huart, h⟩ := h
  have hlast : Builds s₄ s' := by
    cases h
    exact builds_sameMemory rfl rfl rfl
  exact (vmdGetDeviceArena_builds harena).trans ((arenaAllocate_builds (by decide) hdevice).trans
    ((vmdGetDeviceArena_builds harena').trans ((arenaAllocate_builds (by decide) huart).trans hlast)))

/-! ## Runs -/

theorem hostOp_builds {op : HostOp} (hop : BuildsGuests s op) (h : hostOp hw op s = .ok () s') :
    Builds s s' := fun hok =>
  ⟨(guestsOk_step hok hop).of_ok h, HostKept.confinementKept ((hostOp_kept hok.host hop).of_ok h)⟩

/-- A run keeps the guest memories and the confinement of machines. -/
theorem BuildRun.builds {s₀ : Hv} (hrun : BuildRun hw s₀ s) : Builds s₀ s := by
  induction hrun with
  | start => exact fun hok => ⟨hok, fun _ hw => hw, fun hb => hb, fun _ _ hc => ⟨hc, rfl⟩, rfl⟩
  | op _ hadmitted hcall ih => exact ih.trans (hostOp_builds hadmitted hcall)
  | setUp _ hvm hset ih => exact ih.trans (hset.builds hvm)
  | createUart _ hcall ih => exact ih.trans (createUart_builds hcall)
  | register _ _ hcall ih => exact ih.trans (register_builds hcall)

/-- After boot nothing is held and no bitmaps are in place. -/
theorem guestsOk_boot {c : ChainloadPage} (hmap : PhysicalMap c.efiMmapUsable) (memory : Memory)
    (cpu : Cpu) : GuestsOk (bootState c memory cpu) :=
  ⟨hostOk_boot hmap memory cpu, fun _ hvm => absurd hvm List.not_mem_nil⟩

/-- Before the launch of any machine all guest memories are isolated. -/
theorem buildRun_isolated {c : ChainloadPage} {memory : Memory} {cpu : Cpu}
    (hmap : PhysicalMap c.efiMmapUsable) (hrun : BuildRun hw (bootState c memory cpu) s) :
    GuestsOk s ∧ BitmapsOk s := by
  obtain ⟨hok, hkept⟩ := hrun.builds (guestsOk_boot hmap memory cpu)
  exact ⟨hok, hkept.bitmaps fun hvalid => absurd hvalid Bool.false_ne_true⟩

/-! ## Setting up a guest -/

/-- Writes within the pages of a mapped guest memory set the guest up. -/
theorem setUp_of_writes {n : ℕ} {host : ℕ → Frame} (h : GuestMapped s vm n host) {m : Memory} {v : Vm}
    (hm : WritesWithin host {j | j < n} s.memory m) (hv : skeleton v = skeleton (s.vmAt vm)) :
    SetUp s (settingUp s vm m v) vm := by
  refine ⟨by rw [settingUp_vmAt, settingUp_memory], ?_, fun a ha => hm a fun j hj hin => ?_⟩
  · rw [SameStructure, structuralPart, structuralPart]
    congr 1
    funext w
    by_cases hw : w = vm
    · rw [hw, settingUp_vmAt, hv]
    · have hother : (settingUp s vm m v).vmAt w = s.vmAt w := Function.update_of_ne hw _ _
      rw [hother]
  · exact ha ⟨host j, h.tracked j hj, hin⟩

/-- `vm_guest_paging_setup_identity` sets its guest up. -/
theorem vmGuestPagingSetupIdentity_setUp (h : GuestsOk s) (hvm : vm ∈ s.vmManagerVmList) {cr3 : Word}
    (hcall : vmGuestPagingSetupIdentity vm s = .ok cr3 s') : SetUp s s' vm := by
  obtain ⟨_, host, hmapped⟩ := h.built vm hvm
  have hready : (s.vmAt vm).guestPhysicalPages ≠ 0 ∧
      (s.vmAt vm).guestPhysicalPagesUsedByInitialSetup = 0 := by
    rw [vmGuestPagingSetupIdentity, bind_of_ok (get_eq_ok.mpr ⟨rfl, rfl⟩)] at hcall
    split at hcall
    · cases hcall
    split at hcall
    · cases hcall
    · exact ⟨‹_›, not_not.mp ‹_›⟩
  have hpos : 1 ≤ guestPages s vm := by
    rw [guestPages, Nat.one_le_iff_ne_zero]
    exact fun hzero => hready.1 (BitVec.eq_of_toNat_eq hzero)
  have hsize : (s.vmAt vm).guestPhysicalPages = BitVec.ofNat 64 (guestPages s vm) := by
    rw [guestPages, BitVec.ofNat_toNat, BitVec.setWidth_eq]
  obtain ⟨_, hset⟩ := (vmGuestPagingSetupIdentity_spec hmapped hpos hsize hready.2).of_ok hcall
  rw [hset.state]
  exact setUp_of_writes hmapped (hset.writes.mono fun _ hj => hj.2) rfl

end Rkhv.MachineBuilding
