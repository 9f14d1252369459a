import Rkhv.VmexitFrame

/-!
# Host and guest model-specific registers stay apart

A run starts with `vmx_msr_vmlaunch` and goes back and forth between guest and
host through `vmx_msr_vmexit` and `vmx_msr_vmresume`. Both sides write the
exchanged registers in between. The run remembers what each side last wrote.
-/

namespace Rkhv.MsrSwitch

open ByteMemory HostTypes HostState StateOutcome VmxInstructions Vmcs VmxMsr VmxVmexit
open VmexitFrame HostRuns

/-- A moment of a run, with its history. -/
structure World where
  hv : Hv
  /-- `vm_state` of the exit in a host phase, `none` in a guest phase. -/
  exited : Option VmxVmexitState
  /-- What the host last gave each register, at first its value at the launch. -/
  lastHost : RwbkMsr → Word
  /-- What the guest last gave each register, at first the host's value. -/
  lastGuest : RwbkMsr → Word
  /-- The `X_VMCS` registers in the VMCS at the last exit. -/
  atExit : VmcsMsr → Word

/-- Neither an exchanged register nor its backup differs. -/
def SameRwbk (s t : Hv) : Prop :=
  (∀ entry : RwbkMsr, t.cpu.msr entry.addr = s.cpu.msr entry.addr) ∧
    t.vmxMsrHostBackup = s.vmxMsrHostBackup

/-- Runs of the three hooks, of writes to the exchanged registers and of anything
else on both sides. -/
inductive SwitchRun (hw : Hardware) : World → Prop where
  | launch {s s' : Hv} (h : vmxMsrVmlaunch s = .ok () s') : SwitchRun hw
      { hv := s', exited := none, lastHost := fun entry => s.cpu.msr entry.addr
        lastGuest := fun entry => s.cpu.msr entry.addr
        atExit := fun entry => currentField s.cpu entry.field }
  | guestWrite {w : World} {entry : RwbkMsr} {value : Word} {s' : Hv} (h : SwitchRun hw w)
      (hphase : w.exited = none) (hwrite : wrmsr entry.addr value w.hv = .ok () s') : SwitchRun hw
      { w with hv := s', lastGuest := Function.update w.lastGuest entry value }
  | guestOther {w : World} {s' : Hv} (h : SwitchRun hw w) (hphase : w.exited = none)
      (hother : SameRwbk w.hv s') : SwitchRun hw { w with hv := s' }
  | exit {w : World} {vmState vmState' : VmxVmexitState} {s' : Hv} (h : SwitchRun hw w)
      (hphase : w.exited = none) (hexit : vmxMsrVmexit hw vmState w.hv = .ok vmState' s') :
      SwitchRun hw { w with
        hv := s', exited := some vmState', atExit := fun entry => currentField w.hv.cpu entry.field }
  | hostWrite {w : World} {vmState : VmxVmexitState} {entry : RwbkMsr} {value : Word} {s' : Hv}
      (h : SwitchRun hw w) (hphase : w.exited = some vmState)
      (hwrite : wrmsr entry.addr value w.hv = .ok () s') :
      SwitchRun hw { w with hv := s', lastHost := Function.update w.lastHost entry value }
  | hostOther {w : World} {vmState vmState' : VmxVmexitState} {s' : Hv} (h : SwitchRun hw w)
      (hphase : w.exited = some vmState) (hmsrs : vmState'.msrs = vmState.msrs)
      (hother : SameRwbk w.hv s') : SwitchRun hw { w with hv := s', exited := some vmState' }
  | resume {w : World} {vmState : VmxVmexitState} {s' : Hv} (h : SwitchRun hw w)
      (hphase : w.exited = some vmState) (hresume : vmxMsrVmresume hw vmState w.hv = .ok () s') :
      SwitchRun hw { w with hv := s', exited := none }

/-- Registers, backup and `vm_state` hold what each side last wrote. -/
def KeptApart (w : World) : Prop :=
  match w.exited with
  | none => (∀ entry : RwbkMsr, w.hv.cpu.msr entry.addr = w.lastGuest entry) ∧
      ∀ entry, rwbkValue w.hv.vmxMsrHostBackup entry = w.lastHost entry
  | some vmState => (∀ entry : RwbkMsr, w.hv.cpu.msr entry.addr = w.lastHost entry) ∧
      (∀ entry, rwbkValue vmState.msrs entry = w.lastGuest entry) ∧
      ∀ entry, vmcsValue vmState.msrs entry = w.atExit entry

theorem keptApart_guest {w : World} (hphase : w.exited = none) : KeptApart w ↔
    (∀ entry : RwbkMsr, w.hv.cpu.msr entry.addr = w.lastGuest entry) ∧
      ∀ entry, rwbkValue w.hv.vmxMsrHostBackup entry = w.lastHost entry := by
  rw [KeptApart, hphase]

theorem keptApart_host {w : World} {vmState : VmxVmexitState} (hphase : w.exited = some vmState) :
    KeptApart w ↔ (∀ entry : RwbkMsr, w.hv.cpu.msr entry.addr = w.lastHost entry) ∧
      (∀ entry, rwbkValue vmState.msrs entry = w.lastGuest entry) ∧
      ∀ entry, vmcsValue vmState.msrs entry = w.atExit entry := by
  rw [KeptApart, hphase]

/-- A write to one register gives it the value and keeps the others. -/
theorem wrmsr_updates {s s' : Hv} {entry : RwbkMsr} {value : Word} {last : RwbkMsr → Word}
    (hlast : ∀ other : RwbkMsr, s.cpu.msr other.addr = last other)
    (h : wrmsr entry.addr value s = .ok () s') :
    (∀ other : RwbkMsr, s'.cpu.msr other.addr = Function.update last entry value other) ∧
      s'.vmxMsrHostBackup = s.vmxMsrHostBackup := by
  cases h
  refine ⟨fun other => ?_, rfl⟩
  dsimp only
  by_cases heq : other = entry
  · rw [heq, Function.update_self, Function.update_self]
  · rw [Function.update_of_ne heq, Function.update_of_ne fun h => heq (RwbkMsr.addr_inj h)]
    exact hlast other

/-- Every step of a run keeps the two sides apart. -/
theorem SwitchRun.keptApart {hw : Hardware} {w : World} (h : SwitchRun hw w) : KeptApart w := by
  induction h with
  | launch hlaunch =>
    rw [vmxMsrVmlaunch_eq] at hlaunch
    cases hlaunch
    exact ⟨fun _ => rfl, fun _ => rwbkValue_withRwbk _ _ _⟩
  | guestWrite _ hphase hwrite ih =>
    rw [keptApart_guest hphase] at ih
    have hupdated := wrmsr_updates ih.1 hwrite
    refine (keptApart_guest (by exact hphase)).mpr ?_
    refine ⟨hupdated.1, fun entry => ?_⟩
    rw [hupdated.2]
    exact ih.2 entry
  | guestOther _ hphase hother ih =>
    rw [keptApart_guest hphase] at ih
    refine (keptApart_guest (by exact hphase)).mpr ?_
    exact ⟨fun entry => (hother.1 entry).trans (ih.1 entry), hother.2 ▸ ih.2⟩
  | exit _ hphase hexit ih =>
    rw [keptApart_guest hphase] at ih
    obtain ⟨⟨msrs, rfl, hvmcs, hrwbk⟩, rfl⟩ := vmxMsrVmexit_returned hexit
    exact ⟨fun entry => (loadRwbk_addr _ _ entry).trans (ih.2 entry),
      fun entry => (hrwbk entry).trans (ih.1 entry), hvmcs⟩
  | hostWrite _ hphase hwrite ih =>
    rw [keptApart_host hphase] at ih
    have hupdated := wrmsr_updates ih.1 hwrite
    refine (keptApart_host (by exact hphase)).mpr ?_
    exact ⟨hupdated.1, ih.2⟩
  | hostOther _ hphase hmsrs hother ih =>
    rw [keptApart_host hphase] at ih
    refine (keptApart_host rfl).mpr ?_
    rw [hmsrs]
    exact ⟨fun entry => (hother.1 entry).trans (ih.1 entry), ih.2⟩
  | resume _ hphase hresume ih =>
    rw [keptApart_host hphase] at ih
    obtain ⟨cpu, rfl, hmsr, _, _⟩ := vmxMsrVmresume_returned hresume
    refine ⟨fun entry => ?_, fun entry => ?_⟩
    · rw [← ih.2.1 entry]
      exact (congrFun hmsr entry.addr).trans (loadRwbk_addr _ _ entry)
    · exact (rwbkValue_withRwbk _ _ entry).trans (ih.1 entry)

/-- At every point of a run the registers hold what the running side last gave
them, and a resume leaves in the VMCS what the exit read there. -/
theorem msrs_kept_apart {hw : Hardware} {w : World} (h : SwitchRun hw w) :
    (w.exited.isSome = true → ∀ entry : RwbkMsr, w.hv.cpu.msr entry.addr = w.lastHost entry) ∧
    (w.exited.isSome = false → ∀ entry : RwbkMsr, w.hv.cpu.msr entry.addr = w.lastGuest entry) ∧
    ∀ vmState s', w.exited = some vmState → vmxMsrVmresume hw vmState w.hv = .ok () s' →
      ∀ entry : VmcsMsr, currentField s'.cpu entry.field = w.atExit entry := by
  have hkept := h.keptApart
  refine ⟨fun hsome => ?_, fun hnone => ?_, fun vmState s' hphase hresume entry => ?_⟩
  · obtain ⟨vmState, hphase⟩ := Option.isSome_iff_exists.mp hsome
    exact ((keptApart_host hphase).mp hkept).1
  · rw [Option.isSome_eq_false_iff, Option.isNone_iff_eq_none] at hnone
    exact ((keptApart_guest hnone).mp hkept).1
  · obtain ⟨cpu, rfl, _, _, hvmcs, _⟩ := vmxMsrVmresume_returned hresume
    exact (hvmcs entry).trans (((keptApart_host hphase).mp hkept).2.2 entry)

/-- The guest writes a register, exits, the host writes it and resumes: the guest
finds its own value again. -/
theorem msrs_kept_apart_resumed : ∃ w, SwitchRun obedientHardware w ∧
    w.exited.isSome = false ∧ w.lastGuest .ia32BiosSignId = 1 ∧
    w.lastHost .ia32BiosSignId = 2 ∧ w.hv.cpu.msr 0x8b = 1 := by
  have hlaunched := @SwitchRun.launch obedientHardware (smallHost 1) _ vmxMsrVmlaunch_eq
  have hguest := @SwitchRun.guestWrite _ _ .ia32BiosSignId 1 _ hlaunched rfl rfl
  have hexited := @SwitchRun.exit obedientHardware _ default _ _ hguest rfl rfl
  have hhost := @SwitchRun.hostWrite _ _ _ .ia32BiosSignId 2 _ hexited rfl rfl
  -- the state stays a variable, so that the writes are not evaluated
  have hreturns : ∀ vmState s, ∃ s', vmxMsrVmresume obedientHardware vmState s = .ok () s' :=
    fun _ _ => ⟨_, rfl⟩
  obtain ⟨s', hresume⟩ := hreturns _ _
  have hresumed := @SwitchRun.resume obedientHardware _ _ s' hhost rfl hresume
  refine ⟨_, hresumed, rfl, rfl, rfl, ?_⟩
  exact (msrs_kept_apart hresumed).2.1 rfl .ia32BiosSignId

/-- A handled VM exit is a stretch of a run: an exit, a host phase that writes no
exchanged register, and a resume. -/
theorem SwitchRun.handler {hw : Hardware} {w : World} (h : SwitchRun hw w)
    (hphase : w.exited = none) {reg reg' : VmxVmexitRegState} {vm : Word} {s' : Hv}
    (hrun : vmxVmexitHandler hw reg w.hv = .ok (reg', vm) s') : SwitchRun hw
    { w with hv := s', exited := none, atExit := fun entry => currentField w.hv.cpu entry.field } := by
  obtain ⟨vmState, vmState', t, t', hread, hhandle, hwrite, _, _⟩ := vmxVmexitHandler_stages hrun
  obtain ⟨_, _, hexit⟩ := readVmState_exchanges hread
  have hhandled := handleExit_returned hhandle
  have hmsrs : vmState'.msrs = vmState.msrs := by rw [hhandled.same]
  have hcpu : t'.cpu.msr = t.cpu.msr := by
    rw [hhandled.cpu]
    split <;> rfl
  have hbackup : t'.vmxMsrHostBackup = t.vmxMsrHostBackup := by rw [hhandled.host]
  have hexited := h.exit hphase hexit
  have hemulated := @SwitchRun.hostOther _ _ _ _ t' hexited rfl hmsrs
    ⟨fun entry => congrFun hcpu entry.addr, hbackup⟩
  have hwritten := @SwitchRun.hostOther _ _ _ _ { t' with cpu := writtenCpu t'.cpu vmState' }
    hemulated rfl rfl ⟨fun _ => rfl, rfl⟩
  exact hwritten.resume rfl (writeVmState_exchanges hwrite)

end Rkhv.MsrSwitch
