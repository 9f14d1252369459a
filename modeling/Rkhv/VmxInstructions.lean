import Rkhv.HostState

/-!
# VMX and MSR instructions

The instructions report success or failure; whether one succeeds is up to the
processor. A failing one changes nothing. Every call of the hypervisor is
wrapped in `VMX_ASSERT`, which panics with the text of the call.
-/

namespace Rkhv.VmxInstructions

open ByteMemory HostTypes HostState StateOutcome

/-- `VMX_ASSERT(expr)` for the text of `expr` and whether it is `VM_SUCCEED`. -/
def vmxAssert (expr : String) (succeeded : Bool) : HvM Unit :=
  if succeeded then pure () else panicWith ("VMX_ASSERT failed : " ++ expr)

/-- `vmx_vmclear` -/
def vmxVmclear (hw : Hardware) (vmcsRegionPhysicalAddress : Word) : HvM Bool := do
  let s ← get
  return hw.vmxSucceeds s.cpu (.vmclear vmcsRegionPhysicalAddress)

/-- `vmx_vmptrld` -/
def vmxVmptrld (hw : Hardware) (vmcsRegionPhysicalAddress : Word) : HvM Bool := do
  let s ← get
  if hw.vmxSucceeds s.cpu (.vmptrld vmcsRegionPhysicalAddress) then
    modify fun s => { s with cpu := { s.cpu with vmcsPointer := vmcsRegionPhysicalAddress } }
    return true
  else return false

/-- `vmx_vmptrst`; the stored pointer is the second part. -/
def vmxVmptrst (hw : Hardware) : HvM (Bool × Word) := do
  let s ← get
  return (hw.vmxSucceeds s.cpu .vmptrst, s.cpu.vmcsPointer)

/-- `vmx_vmread`; the value read is the second part. -/
def vmxVmread (hw : Hardware) (fieldEncoding : Word) : HvM (Bool × Word) := do
  let s ← get
  return (hw.vmxSucceeds s.cpu (.vmread fieldEncoding), s.cpu.vmcs s.cpu.vmcsPointer fieldEncoding)

/-- The processor after a field of the current VMCS was written. -/
def cpuVmwrite (cpu : Cpu) (fieldEncoding value : Word) : Cpu :=
  { cpu with
    vmcs := Function.update cpu.vmcs cpu.vmcsPointer
      (Function.update (cpu.vmcs cpu.vmcsPointer) fieldEncoding value) }

/-- `vmx_vmwrite` -/
def vmxVmwrite (hw : Hardware) (fieldEncoding value : Word) : HvM Bool := do
  let s ← get
  if hw.vmxSucceeds s.cpu (.vmwrite fieldEncoding value) then
    modify fun s => { s with cpu := cpuVmwrite s.cpu fieldEncoding value }
    return true
  else return false

/-- `VMX_ASSERT(vmx_vmread(field, &variable))` -/
def vmreadAsserted (hw : Hardware) (expr : String) (fieldEncoding : Word) : HvM Word := do
  let (succeeded, value) ← vmxVmread hw fieldEncoding
  vmxAssert expr succeeded
  return value

/-- `VMX_ASSERT(vmx_vmwrite(field, value))` -/
def vmwriteAsserted (hw : Hardware) (expr : String) (fieldEncoding value : Word) : HvM Unit := do
  vmxAssert expr (← vmxVmwrite hw fieldEncoding value)

/-- `rdmsr` -/
def rdmsr (addr : BitVec 32) : HvM Word := do
  let s ← get
  return s.cpu.msr addr

/-- `wrmsr` -/
def wrmsr (addr : BitVec 32) (value : Word) : HvM Unit :=
  modify fun s => { s with cpu := { s.cpu with msr := Function.update s.cpu.msr addr value } }

/-- What a failing assertion raises. -/
def assertFault (expr : String) : Fault := .panic ("VMX_ASSERT failed : " ++ expr)

variable {hw : Hardware} {s : Hv} {E : Fault → Hv → Prop}

@[simp] theorem ensures_vmxAssert {expr : String} {succeeded : Bool} {Q : Unit → Hv → Prop} :
    Ensures (vmxAssert expr succeeded) s Q E ↔
      (succeeded = true → Q () s) ∧ (succeeded = false → E (assertFault expr) s) := by
  cases succeeded with
  | false =>
    simp only [vmxAssert, Bool.false_eq_true, if_false, ensures_panicWith, false_implies,
      true_implies, true_and]
    exact Iff.rfl
  | true => simp only [vmxAssert, if_true, ensures_pure, true_implies, Bool.true_eq_false,
      false_implies, and_true]

@[simp] theorem ensures_vmreadAsserted {expr : String} {fieldEncoding : Word}
    {Q : Word → Hv → Prop} : Ensures (vmreadAsserted hw expr fieldEncoding) s Q E ↔
      (hw.vmxSucceeds s.cpu (.vmread fieldEncoding) = true →
        Q (s.cpu.vmcs s.cpu.vmcsPointer fieldEncoding) s) ∧
      (hw.vmxSucceeds s.cpu (.vmread fieldEncoding) = false → E (assertFault expr) s) := by
  simp only [vmreadAsserted, vmxVmread, ensures_bind, ensures_get, ensures_pure, ensures_vmxAssert]

@[simp] theorem ensures_vmwriteAsserted {expr : String} {fieldEncoding value : Word}
    {Q : Unit → Hv → Prop} : Ensures (vmwriteAsserted hw expr fieldEncoding value) s Q E ↔
      (hw.vmxSucceeds s.cpu (.vmwrite fieldEncoding value) = true →
        Q () { s with cpu := cpuVmwrite s.cpu fieldEncoding value }) ∧
      (hw.vmxSucceeds s.cpu (.vmwrite fieldEncoding value) = false → E (assertFault expr) s) := by
  simp only [vmwriteAsserted, vmxVmwrite, ensures_bind, ensures_get, ensures_ite, ensures_modify,
    ensures_pure, ensures_vmxAssert, Bool.not_eq_true, true_implies, Bool.true_eq_false,
    Bool.false_eq_true, false_implies, and_true, true_and]

@[simp] theorem ensures_rdmsr {addr : BitVec 32} {Q : Word → Hv → Prop} :
    Ensures (rdmsr addr) s Q E ↔ Q (s.cpu.msr addr) s := Iff.rfl

@[simp] theorem ensures_wrmsr {addr : BitVec 32} {value : Word} {Q : Unit → Hv → Prop} :
    Ensures (wrmsr addr value) s Q E ↔ Q ()
      { s with cpu := { s.cpu with msr := Function.update s.cpu.msr addr value } } := Iff.rfl

end Rkhv.VmxInstructions
