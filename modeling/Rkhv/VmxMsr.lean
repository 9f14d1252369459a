import Rkhv.Vmcs

/-!
# Model-specific registers between host and guest

Three hooks of `vmx_msr.c` move the registers of `VMX_MSR_LIST`. Those of
`X_VMCS` live in the VMCS while the host runs. Those of `X_RWBK` are exchanged
with the processor: at an exit the guest's values go to the exit's own record
and the host's backup to the processor, at a resume the other way round.
-/

namespace Rkhv.VmxMsr

open ByteMemory HostTypes HostState StateOutcome VmxInstructions Vmcs

/-! ## The list -/

/-- The entries `X_VMCS(addr, name, vmcs)` of `VMX_MSR_LIST`. -/
inductive VmcsMsr where
  | ia32Efer
  | ia32FsBase
  | ia32GsBase
  deriving DecidableEq

/-- The entries `X_RWBK(addr, name)` of `VMX_MSR_LIST`. -/
inductive RwbkMsr where
  | ia32MiscEnable
  | ia32BiosSignId
  | ia32Xss
  | ia32KernelGsBase
  deriving DecidableEq

/-- The `X_VMCS` entries in their order. -/
def vmcsMsrs : List VmcsMsr := [.ia32Efer, .ia32FsBase, .ia32GsBase]

/-- The `X_RWBK` entries in their order. -/
def rwbkMsrs : List RwbkMsr := [.ia32MiscEnable, .ia32BiosSignId, .ia32Xss, .ia32KernelGsBase]

/-- Field of the VMCS that holds the register. -/
def VmcsMsr.field : VmcsMsr → Word
  | ia32Efer => vmcsGuestIa32Efer
  | ia32FsBase => vmcsGuestFsBase
  | ia32GsBase => vmcsGuestGsBase

/-- Text of the field's encoding and of the member that holds its value, as they
stand in the text of an assertion. -/
def VmcsMsr.text : VmcsMsr → String × String
  | ia32Efer => ("0x00002806", "vm_state->msrs.ia32_efer")
  | ia32FsBase => ("0x0000680E", "vm_state->msrs.ia32_fs_base")
  | ia32GsBase => ("0x00006810", "vm_state->msrs.ia32_gs_base")

/-- Address of the register. -/
def RwbkMsr.addr : RwbkMsr → BitVec 32
  | ia32MiscEnable => 0x1a0
  | ia32BiosSignId => 0x8b
  | ia32Xss => 0xda0
  | ia32KernelGsBase => 0xc0000102

/-- The members of `vmx_msr_state_t` for the `X_VMCS` entries. -/
def vmcsValue (msrs : VmxMsrState) : VmcsMsr → Word
  | .ia32Efer => msrs.ia32Efer
  | .ia32FsBase => msrs.ia32FsBase
  | .ia32GsBase => msrs.ia32GsBase

/-- The members of `vmx_msr_state_t` for the `X_RWBK` entries. -/
def rwbkValue (msrs : VmxMsrState) : RwbkMsr → Word
  | .ia32MiscEnable => msrs.ia32MiscEnable
  | .ia32BiosSignId => msrs.ia32BiosSignId
  | .ia32Xss => msrs.ia32Xss
  | .ia32KernelGsBase => msrs.ia32KernelGsBase

def setVmcsValue (msrs : VmxMsrState) (value : Word) : VmcsMsr → VmxMsrState
  | .ia32Efer => { msrs with ia32Efer := value }
  | .ia32FsBase => { msrs with ia32FsBase := value }
  | .ia32GsBase => { msrs with ia32GsBase := value }

def setRwbkValue (msrs : VmxMsrState) (value : Word) : RwbkMsr → VmxMsrState
  | .ia32MiscEnable => { msrs with ia32MiscEnable := value }
  | .ia32BiosSignId => { msrs with ia32BiosSignId := value }
  | .ia32Xss => { msrs with ia32Xss := value }
  | .ia32KernelGsBase => { msrs with ia32KernelGsBase := value }

/-! ## The hooks -/

/-- `vmx_vmexit_state_t`, without the area of `xsave`. -/
structure VmxVmexitState where
  vm : Word
  regState : VmxVmexitRegState
  rip : Word
  rsp : Word
  rflags : Word
  cr0 : Word
  cr3 : Word
  cr4 : Word
  msrs : VmxMsrState
  deriving DecidableEq, Inhabited

/-- `X_RWBK` of `vmx_msr_vmlaunch`, for the entries of a list. -/
def backupRwbkMsrs : List RwbkMsr → HvM Unit
  | [] => pure ()
  | msr :: rest => do
    let value ← rdmsr msr.addr
    modify fun s => { s with vmxMsrHostBackup := setRwbkValue s.vmxMsrHostBackup value msr }
    backupRwbkMsrs rest

/-- `vmx_msr_vmlaunch` -/
def vmxMsrVmlaunch : HvM Unit := backupRwbkMsrs rwbkMsrs

/-- `X_VMCS` of `vmx_msr_vmexit`. -/
def readVmcsMsrs (hw : Hardware) : List VmcsMsr → VmxMsrState → HvM VmxMsrState
  | [], msrs => pure msrs
  | msr :: rest, msrs => do
    let value ← vmreadAsserted hw ("vmx_vmread(" ++ msr.text.1 ++ ", &" ++ msr.text.2 ++ ")") msr.field
    readVmcsMsrs hw rest (setVmcsValue msrs value msr)

/-- `X_RWBK` of `vmx_msr_vmexit`. -/
def exitRwbkMsrs : List RwbkMsr → VmxMsrState → HvM VmxMsrState
  | [], msrs => pure msrs
  | msr :: rest, msrs => do
    let value ← rdmsr msr.addr
    let s ← get
    wrmsr msr.addr (rwbkValue s.vmxMsrHostBackup msr)
    exitRwbkMsrs rest (setRwbkValue msrs value msr)

/-- `vmx_msr_vmexit`; the result is the updated `vm_state`. -/
def vmxMsrVmexit (hw : Hardware) (vmState : VmxVmexitState) : HvM VmxVmexitState := do
  let msrs ← readVmcsMsrs hw vmcsMsrs vmState.msrs
  let msrs ← exitRwbkMsrs rwbkMsrs msrs
  return { vmState with msrs := msrs }

/-- `X_VMCS` of `vmx_msr_vmresume`. -/
def writeVmcsMsrs (hw : Hardware) (msrs : VmxMsrState) : List VmcsMsr → HvM Unit
  | [] => pure ()
  | msr :: rest => do
    vmwriteAsserted hw ("vmx_vmwrite(" ++ msr.text.1 ++ ", " ++ msr.text.2 ++ ")") msr.field
      (vmcsValue msrs msr)
    writeVmcsMsrs hw msrs rest

/-- `X_RWBK` of `vmx_msr_vmresume`. -/
def resumeRwbkMsrs (msrs : VmxMsrState) : List RwbkMsr → HvM Unit
  | [] => pure ()
  | msr :: rest => do
    let value ← rdmsr msr.addr
    modify fun s => { s with vmxMsrHostBackup := setRwbkValue s.vmxMsrHostBackup value msr }
    wrmsr msr.addr (rwbkValue msrs msr)
    resumeRwbkMsrs msrs rest

/-- `vmx_msr_vmresume` -/
def vmxMsrVmresume (hw : Hardware) (vmState : VmxVmexitState) : HvM Unit := do
  writeVmcsMsrs hw vmState.msrs vmcsMsrs
  resumeRwbkMsrs vmState.msrs rwbkMsrs

/-! ## What the hooks do -/

/-- A field of the current VMCS. -/
def currentField (cpu : Cpu) (field : Word) : Word := cpu.vmcs cpu.vmcsPointer field

@[simp] theorem currentField_cpuVmwrite (cpu : Cpu) (field value other : Word) :
    currentField (cpuVmwrite cpu field value) other =
      if other = field then value else currentField cpu other := by
  rw [currentField, cpuVmwrite]
  dsimp only
  rw [Function.update_self, Function.update_apply]
  rfl

@[simp] theorem cpuVmwrite_vmcsPointer (cpu : Cpu) (field value : Word) :
    (cpuVmwrite cpu field value).vmcsPointer = cpu.vmcsPointer := rfl

@[simp] theorem cpuVmwrite_msr (cpu : Cpu) (field value : Word) :
    (cpuVmwrite cpu field value).msr = cpu.msr := rfl

/-- An asserted read that returned yields the field of the current VMCS. -/
theorem vmreadAsserted_returned {hw : Hardware} {expr : String} {field value : Word} {s s' : Hv}
    (h : vmreadAsserted hw expr field s = .ok value s') :
    value = currentField s.cpu field ∧ s' = s := by
  have hspec : Ensures (vmreadAsserted hw expr field) s
      (fun value t => value = currentField s.cpu field ∧ t = s) (fun _ _ => True) := by
    rw [ensures_vmreadAsserted]
    exact ⟨fun _ => ⟨rfl, rfl⟩, fun _ => trivial⟩
  exact hspec.of_ok h

/-- An asserted write that returned has changed the field. -/
theorem vmwriteAsserted_returned {hw : Hardware} {expr : String} {field value : Word} {s s' : Hv}
    (h : vmwriteAsserted hw expr field value s = .ok () s') :
    s' = { s with cpu := cpuVmwrite s.cpu field value } := by
  have hspec : Ensures (vmwriteAsserted hw expr field value) s
      (fun _ t => t = { s with cpu := cpuVmwrite s.cpu field value }) (fun _ _ => True) := by
    rw [ensures_vmwriteAsserted]
    exact ⟨fun _ => rfl, fun _ => trivial⟩
  exact hspec.of_ok h

/-- Registers after the `X_RWBK` ones were loaded with given values. -/
def loadRwbk (values : RwbkMsr → Word) (msr : BitVec 32 → Word) : BitVec 32 → Word :=
  rwbkMsrs.foldl (fun loaded entry => Function.update loaded entry.addr (values entry)) msr

/-- A record with given values for the `X_RWBK` entries. -/
def withRwbk (values : RwbkMsr → Word) (msrs : VmxMsrState) : VmxMsrState :=
  rwbkMsrs.foldl (fun stored entry => setRwbkValue stored (values entry) entry) msrs

theorem RwbkMsr.addr_inj {x y : RwbkMsr} (h : x.addr = y.addr) : x = y := by
  cases x <;> cases y <;> first | rfl | exact absurd h (by decide)

/-- A loaded register holds its value. -/
@[simp] theorem loadRwbk_addr (values : RwbkMsr → Word) (msr : BitVec 32 → Word) (entry : RwbkMsr) :
    loadRwbk values msr entry.addr = values entry := by
  cases entry <;> simp [loadRwbk, rwbkMsrs, RwbkMsr.addr]

/-- No other register is loaded. -/
theorem loadRwbk_other (values : RwbkMsr → Word) (msr : BitVec 32 → Word) {addr : BitVec 32}
    (h : ∀ entry : RwbkMsr, addr ≠ entry.addr) : loadRwbk values msr addr = msr addr := by
  simp only [loadRwbk, rwbkMsrs, List.foldl_cons, List.foldl_nil, Function.update_apply, h,
    if_false]

/-- Loading what the registers hold changes nothing. -/
theorem loadRwbk_self (msr : BitVec 32 → Word) :
    loadRwbk (fun entry => msr entry.addr) msr = msr := by
  simp only [loadRwbk, rwbkMsrs, List.foldl_cons, List.foldl_nil, Function.update_eq_self]

/-- Loading twice keeps the second values. -/
theorem loadRwbk_loadRwbk (values values' : RwbkMsr → Word) (msr : BitVec 32 → Word) :
    loadRwbk values (loadRwbk values' msr) = loadRwbk values msr := by
  funext addr
  by_cases h : ∃ entry : RwbkMsr, addr = entry.addr
  · obtain ⟨entry, rfl⟩ := h
    rw [loadRwbk_addr, loadRwbk_addr]
  · have hne : ∀ entry : RwbkMsr, addr ≠ entry.addr := fun entry heq => h ⟨entry, heq⟩
    rw [loadRwbk_other _ _ hne, loadRwbk_other _ _ hne, loadRwbk_other _ _ hne]

@[simp] theorem rwbkValue_withRwbk (values : RwbkMsr → Word) (msrs : VmxMsrState)
    (entry : RwbkMsr) : rwbkValue (withRwbk values msrs) entry = values entry := by
  cases entry <;> rfl

@[simp] theorem vmcsValue_withRwbk (values : RwbkMsr → Word) (msrs : VmxMsrState)
    (entry : VmcsMsr) : vmcsValue (withRwbk values msrs) entry = vmcsValue msrs entry := by
  cases entry <;> rfl

variable {hw : Hardware} {s s' : Hv}

/-- `vmx_msr_vmlaunch` backs up what the registers hold. -/
theorem vmxMsrVmlaunch_eq : vmxMsrVmlaunch s = .ok () { s with
    vmxMsrHostBackup := withRwbk (fun entry => s.cpu.msr entry.addr) s.vmxMsrHostBackup } := rfl

/-- The `X_VMCS` part of an exit reads the fields of the current VMCS. -/
theorem readVmcsMsrs_returned {msrs msrs' : VmxMsrState}
    (h : readVmcsMsrs hw vmcsMsrs msrs s = .ok msrs' s') :
    s' = s ∧ (∀ entry, vmcsValue msrs' entry = currentField s.cpu entry.field) ∧
      ∀ entry, rwbkValue msrs' entry = rwbkValue msrs entry := by
  have hspec : Ensures (readVmcsMsrs hw vmcsMsrs msrs) s (fun msrs' s' => s' = s ∧
      (∀ entry, vmcsValue msrs' entry = currentField s.cpu entry.field) ∧
      ∀ entry, rwbkValue msrs' entry = rwbkValue msrs entry) (fun _ _ => True) := by
    simp only [vmcsMsrs, readVmcsMsrs, ensures_bind, ensures_vmreadAsserted, ensures_pure,
      implies_true, and_true]
    intro _ _ _
    refine ⟨trivial, fun entry => ?_, fun entry => ?_⟩
    · cases entry <;> rfl
    · cases entry <;> rfl
  exact hspec.of_ok h

/-- The `X_RWBK` part of an exit exchanges the registers with the backup. -/
theorem exitRwbkMsrs_returned {msrs msrs' : VmxMsrState}
    (h : exitRwbkMsrs rwbkMsrs msrs s = .ok msrs' s') :
    msrs' = withRwbk (fun entry => s.cpu.msr entry.addr) msrs ∧ s' = { s with
      cpu := { s.cpu with msr := loadRwbk (rwbkValue s.vmxMsrHostBackup) s.cpu.msr } } := by
  have hspec : Ensures (exitRwbkMsrs rwbkMsrs msrs) s (fun msrs' s' =>
      msrs' = withRwbk (fun entry => s.cpu.msr entry.addr) msrs ∧ s' = { s with
        cpu := { s.cpu with msr := loadRwbk (rwbkValue s.vmxMsrHostBackup) s.cpu.msr } })
      (fun _ _ => True) := by
    simp only [rwbkMsrs, exitRwbkMsrs, ensures_bind, ensures_rdmsr, ensures_get, ensures_wrmsr,
      ensures_pure]
    refine ⟨?_, rfl⟩
    simp [withRwbk, rwbkMsrs, RwbkMsr.addr]
  exact hspec.of_ok h

/-- The `X_VMCS` part of a resume writes the fields of the current VMCS. -/
theorem writeVmcsMsrs_returned {msrs : VmxMsrState}
    (h : writeVmcsMsrs hw msrs vmcsMsrs s = .ok () s') :
    ∃ cpu, s' = { s with cpu := cpu } ∧ cpu.msr = s.cpu.msr ∧
      cpu.vmcsPointer = s.cpu.vmcsPointer ∧
      (∀ entry : VmcsMsr, currentField cpu entry.field = vmcsValue msrs entry) ∧
      ∀ field, (∀ entry : VmcsMsr, field ≠ entry.field) →
        currentField cpu field = currentField s.cpu field := by
  have hspec : Ensures (writeVmcsMsrs hw msrs vmcsMsrs) s (fun _ s' =>
      ∃ cpu, s' = { s with cpu := cpu } ∧ cpu.msr = s.cpu.msr ∧
        cpu.vmcsPointer = s.cpu.vmcsPointer ∧
        (∀ entry : VmcsMsr, currentField cpu entry.field = vmcsValue msrs entry) ∧
        ∀ field, (∀ entry : VmcsMsr, field ≠ entry.field) →
          currentField cpu field = currentField s.cpu field) (fun _ _ => True) := by
    simp only [vmcsMsrs, writeVmcsMsrs, ensures_bind, ensures_vmwriteAsserted, ensures_pure,
      implies_true, and_true]
    intro _ _ _
    refine ⟨_, rfl, rfl, rfl, fun entry => ?_, fun field hfield => ?_⟩
    · cases entry <;> simp [VmcsMsr.field, vmcsGuestIa32Efer, vmcsGuestFsBase, vmcsGuestGsBase]
    · simp only [currentField_cpuVmwrite, hfield, if_false]
  exact hspec.of_ok h

/-- The `X_RWBK` part of a resume backs the registers up and loads the guest's. -/
theorem resumeRwbkMsrs_eq (msrs : VmxMsrState) : Ensures (resumeRwbkMsrs msrs rwbkMsrs) s
    (fun _ s' => s' = { s with
      vmxMsrHostBackup := withRwbk (fun entry => s.cpu.msr entry.addr) s.vmxMsrHostBackup
      cpu := { s.cpu with msr := loadRwbk (rwbkValue msrs) s.cpu.msr } }) (fun _ _ => False) := by
  simp only [rwbkMsrs, resumeRwbkMsrs, ensures_bind, ensures_rdmsr, ensures_modify, ensures_wrmsr,
    ensures_pure]
  simp [withRwbk, loadRwbk, rwbkMsrs, RwbkMsr.addr]

/-- What `vmx_msr_vmexit` leaves in `vm_state` and in the processor. -/
theorem vmxMsrVmexit_returned {vmState vmState' : VmxVmexitState}
    (h : vmxMsrVmexit hw vmState s = .ok vmState' s') :
    (∃ msrs, vmState' = { vmState with msrs := msrs } ∧
      (∀ entry, vmcsValue msrs entry = currentField s.cpu entry.field) ∧
      ∀ entry, rwbkValue msrs entry = s.cpu.msr entry.addr) ∧
    s' = { s with
      cpu := { s.cpu with msr := loadRwbk (rwbkValue s.vmxMsrHostBackup) s.cpu.msr } } := by
  rw [vmxMsrVmexit, bind_eq_ok] at h
  obtain ⟨msrs, t, hread, h⟩ := h
  rw [bind_eq_ok] at h
  obtain ⟨msrs', t', hexit, h⟩ := h
  cases h
  obtain ⟨rfl, hvmcs, _⟩ := readVmcsMsrs_returned hread
  obtain ⟨rfl, rfl⟩ := exitRwbkMsrs_returned hexit
  refine ⟨⟨_, rfl, fun entry => ?_, fun entry => rwbkValue_withRwbk _ _ _⟩, rfl⟩
  rw [vmcsValue_withRwbk, hvmcs]

/-- What `vmx_msr_vmresume` leaves in the backup and in the processor. -/
theorem vmxMsrVmresume_returned {vmState : VmxVmexitState}
    (h : vmxMsrVmresume hw vmState s = .ok () s') :
    ∃ cpu, s' = { s with
        vmxMsrHostBackup := withRwbk (fun entry => s.cpu.msr entry.addr) s.vmxMsrHostBackup
        cpu := cpu } ∧
      cpu.msr = loadRwbk (rwbkValue vmState.msrs) s.cpu.msr ∧
      cpu.vmcsPointer = s.cpu.vmcsPointer ∧
      (∀ entry : VmcsMsr, currentField cpu entry.field = vmcsValue vmState.msrs entry) ∧
      ∀ field, (∀ entry : VmcsMsr, field ≠ entry.field) →
        currentField cpu field = currentField s.cpu field := by
  rw [vmxMsrVmresume, bind_eq_ok] at h
  obtain ⟨_, t, hwrite, h⟩ := h
  obtain ⟨cpu, rfl, hmsr, hpointer, hvmcs, hother⟩ := writeVmcsMsrs_returned hwrite
  have hresume := (resumeRwbkMsrs_eq vmState.msrs).of_ok h
  refine ⟨{ cpu with msr := loadRwbk (rwbkValue vmState.msrs) cpu.msr }, ?_, ?_, hpointer, hvmcs,
    hother⟩
  · rw [hresume, ← hmsr]
  · rw [hmsr]

end Rkhv.VmxMsr
