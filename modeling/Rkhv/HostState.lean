import Rkhv.HostTypes
import Rkhv.StateOutcome

/-!
# State of the hypervisor

The static variables of the hypervisor, the records in its arenas, the host
memory and the processor state form one record. A hypervisor function is a
program over this state that returns or stops with a fault: a `PANIC`, an
array access outside its bounds, a null pointer, a division by zero or an
endless list.
-/

namespace Rkhv.HostState

open ByteMemory HostTypes StateOutcome

/-- Ways in which a function does not return. -/
inductive Fault where
  /-- `PANIC(message)`, which prints and halts. -/
  | panic (message : String)
  /-- An array was indexed outside its bounds; C leaves the rest undefined. -/
  | outOfBounds (index : Word)
  /-- A null pointer was dereferenced. -/
  | nullPointer
  /-- A remainder by zero was taken; C leaves the rest undefined. -/
  | divisionByZero
  /-- A loop that does not end. -/
  | hang
  deriving DecidableEq, Repr

/-! ## Devices -/

/-- `VMD_8250UART_T_OUTPUT_BUFFER_CAPACITY` -/
def vmd8250UartOutputBufferCapacity : ℕ := 128

/-- `vmd_8250uart_t`: an emulated serial port. -/
structure Vmd8250Uart where
  outputBuffer : Vector (BitVec 8) 128
  outputBufferSize : Word
  portName : String
  portBase : BitVec 16
  baudRateDivisor : BitVec 16
  intEnableReg : BitVec 8
  fifoControlReg : BitVec 8
  lineControlReg : BitVec 8
  modemControlReg : BitVec 8
  deriving DecidableEq, Inhabited

/-- What the hypervisor prints on behalf of a machine. -/
inductive ConsoleEvent where
  /-- The line of `vmd_8250uart_putc`, with the bytes of its last `%s`. -/
  | uartLine (vm port : String) (text : List (BitVec 8))
  /-- The line of `vmd_8250uart_debug_print_control_regs`. -/
  | uartControlRegs (vm port : String) (baudRate : BitVec 32) (int fifo line modem : BitVec 8)
  /-- An `out` of the given bytes to a port that no device claims. -/
  | unexpectedOut (vm : String) (bytes : ℕ) (port : BitVec 16) (value : BitVec 32)
  /-- An `in` of the given bytes from a port that no device claims. -/
  | unexpectedIn (vm : String) (bytes : ℕ) (port : BitVec 16)
  deriving DecidableEq

/-- What a device handler leaves behind: its data and the printed lines. -/
abbrev HandlerResult (α : Type) := Except String (α × Vmd8250Uart × List ConsoleEvent)

/-- `vm_device_out*_handler_t`: machine name, data, port and value. -/
abbrev OutHandler (w : ℕ) :=
  String → Vmd8250Uart → BitVec 16 → BitVec w → HandlerResult Unit

/-- `vm_device_in*_handler_t`: machine name, data and port. -/
abbrev InHandler (w : ℕ) := String → Vmd8250Uart → BitVec 16 → HandlerResult (BitVec w)

/-- `vm_device_t`. Devices are numbered in the order of their creation, `next`
is the number of the next device of the list and `ports` holds `ports_len`
entries. A null handler is `none`. -/
structure VmDevice where
  next : Option ℕ
  ports : List (BitVec 16)
  deviceData : Vmd8250Uart
  outbHandler : Option (OutHandler 8)
  outwHandler : Option (OutHandler 16)
  outdHandler : Option (OutHandler 32)
  inbHandler : Option (InHandler 8)
  inwHandler : Option (InHandler 16)
  indHandler : Option (InHandler 32)
  deriving Inhabited

/-! ## Processor -/

/-- The part of `vmx_msr_state_t` that the hooks save and restore themselves,
in the order of `VMX_MSR_LIST`. -/
structure VmxMsrState where
  ia32Efer : Word
  ia32FsBase : Word
  ia32GsBase : Word
  ia32MiscEnable : Word
  ia32BiosSignId : Word
  ia32Xss : Word
  ia32KernelGsBase : Word
  deriving DecidableEq, Inhabited

/-- Processor state that the hypervisor reaches with VMX and MSR instructions. -/
structure Cpu where
  /-- Current VMCS pointer, set by `vmptrld`. -/
  vmcsPointer : Word
  /-- VMCS fields by region and field encoding. -/
  vmcs : Word → Word → Word
  /-- Model-specific registers. -/
  msr : BitVec 32 → Word

/-- Calls of the functions of `vmx_instructions.h` that return a
`vmx_inst_error_t`. -/
inductive VmxInstruction where
  | vmclear (vmcsRegion : Word)
  | vmptrld (vmcsRegion : Word)
  | vmptrst
  | vmread (fieldEncoding : Word)
  | vmwrite (fieldEncoding value : Word)
  deriving DecidableEq

/-- Result registers of `cpuid`. -/
structure CpuidResult where
  eax : BitVec 32
  ebx : BitVec 32
  ecx : BitVec 32
  edx : BitVec 32
  deriving DecidableEq, Inhabited

/-- `gdt_segment_descriptor_t`, as far as the access rights are read from it. -/
structure GdtSegmentDescriptor where
  access : BitVec 8
  flags : BitVec 8
  deriving DecidableEq, Inhabited

/-- What the hypervisor reads from the processor it runs on. -/
structure Hardware where
  /-- Whether a VMX instruction returns `VM_SUCCEED` in a processor state. -/
  vmxSucceeds : Cpu → VmxInstruction → Bool
  /-- `cpuid` for inputs EAX and ECX. -/
  cpuid : BitVec 32 → BitVec 32 → CpuidResult
  cr0 : Word
  cr3 : Word
  cr4 : Word
  gdtr : DescriptorTable
  idtr : DescriptorTable
  /-- Entry of a descriptor table, by the table's base and the entry's index. -/
  gdtEntry : Word → Word → GdtSegmentDescriptor
  /-- Address of the assembly stub `vmx_vmexit`. -/
  vmxVmexit : Word

/-! ## Hypervisor -/

/-- `arena_header_t`, without the links: their order is `arenaList`. -/
structure ArenaHeader where
  usedSize : Word
  deriving DecidableEq, Inhabited

/-- Static variables, arena records, host memory and processor. -/
structure Hv where
  /-- `*mm_chainload_page` -/
  mmChainloadPage : ChainloadPage
  /-- `last_returned_region_index` of `mm_get_free_page` -/
  lastReturnedRegionIndex : Word
  /-- `last_returned_page_index` of `mm_get_free_page` -/
  lastReturnedPageIndex : Word
  /-- History: the pages `mm_get_free_page` returned, newest first. No function
  reads it. -/
  mmReturned : List Word
  /-- Pages of the arenas, from `arena_head` along `next`. -/
  arenaList : List Word
  /-- Arena headers by page. -/
  arenaAt : Word → ArenaHeader
  vmxonRegionValid : Bool
  vmxonRegion : Word
  msrBitmapsPageValid : Bool
  msrBitmapsPage : Word
  /-- `vm_manager_arena`, null or the page of the arena. -/
  vmManagerArena : Option Word
  /-- `vm_manager_vm_list`, pointers in `next` order. -/
  vmManagerVmList : List Word
  /-- Machine records by pointer. -/
  vmAt : Word → Vm
  /-- `vm_manager_current_vm` -/
  vmManagerCurrentVm : Option Word
  /-- `vmd_device_arena`, null or the page of the arena. -/
  vmdDeviceArena : Option Word
  /-- Device records by creation number. -/
  deviceList : List VmDevice
  vmxMsrHostBackup : VmxMsrState
  xsaveHostXcr0 : Word
  /-- Host memory by physical address. -/
  memory : Memory
  cpu : Cpu
  /-- Lines printed for machines, newest first. -/
  console : List ConsoleEvent

/-- State after `mm_setup` stored the chainload page: every other static
variable still has its initial value. -/
def bootState (c : ChainloadPage) (memory : Memory) (cpu : Cpu) : Hv where
  mmChainloadPage := c
  lastReturnedRegionIndex := -1
  lastReturnedPageIndex := -1
  mmReturned := []
  arenaList := []
  arenaAt := fun _ => default
  vmxonRegionValid := false
  vmxonRegion := 0
  msrBitmapsPageValid := false
  msrBitmapsPage := 0
  vmManagerArena := none
  vmManagerVmList := []
  vmAt := fun _ => default
  vmManagerCurrentVm := none
  vmdDeviceArena := none
  deviceList := []
  vmxMsrHostBackup := default
  xsaveHostXcr0 := 0
  memory := memory
  cpu := cpu
  console := []

/-- A hypervisor function. -/
abbrev HvM := EStateM Fault Hv

/-- `PANIC(message)` -/
def panicWith {α : Type} (message : String) : HvM α := throw (.panic message)

@[simp] theorem ensures_panicWith {α : Type} {message : String} {s : Hv} {Q : α → Hv → Prop}
    {E : Fault → Hv → Prop} :
    Ensures (panicWith message : HvM α) s Q E ↔ E (.panic message) s := Iff.rfl

/-- Change the record of a machine. -/
def modifyVm (vm : Word) (f : Vm → Vm) : HvM Unit :=
  modify fun s => { s with vmAt := Function.update s.vmAt vm (f (s.vmAt vm)) }

@[simp] theorem ensures_modifyVm {vm : Word} {f : Vm → Vm} {s : Hv} {Q : Unit → Hv → Prop}
    {E : Fault → Hv → Prop} : Ensures (modifyVm vm f) s Q E ↔
      Q () { s with vmAt := Function.update s.vmAt vm (f (s.vmAt vm)) } := Iff.rfl

/-- Change the host memory. -/
def modifyMemory (f : Memory → Memory) : HvM Unit :=
  modify fun s => { s with memory := f s.memory }

@[simp] theorem ensures_modifyMemory {f : Memory → Memory} {s : Hv} {Q : Unit → Hv → Prop}
    {E : Fault → Hv → Prop} :
    Ensures (modifyMemory f) s Q E ↔ Q () { s with memory := f s.memory } := Iff.rfl

/-- Read element `i` of an array of quadwords at a pointer into the window. -/
def readElement (table i : Word) : HvM Word := do
  let s ← get
  return readQword s.memory (v2pIdentityMap (table + i * 8))

@[simp] theorem ensures_readElement {table i : Word} {s : Hv} {Q : Word → Hv → Prop}
    {E : Fault → Hv → Prop} : Ensures (readElement table i) s Q E ↔
      Q (readQword s.memory (v2pIdentityMap (table + i * 8))) s := Iff.rfl

/-- Store element `i` of an array of quadwords at a pointer into the window. -/
def writeElement (table i value : Word) : HvM Unit :=
  modifyMemory fun m => writeQword m (v2pIdentityMap (table + i * 8)) value

@[simp] theorem ensures_writeElement {table i value : Word} {s : Hv} {Q : Unit → Hv → Prop}
    {E : Fault → Hv → Prop} : Ensures (writeElement table i value) s Q E ↔
      Q () { s with memory := writeQword s.memory (v2pIdentityMap (table + i * 8)) value } :=
  Iff.rfl

/-- `memset(pointer, value, n)` through the window. -/
def memset (pointer : Word) (value : BitVec 8) (n : ℕ) : HvM Unit :=
  modifyMemory fun m => fill m (v2pIdentityMap pointer) value n

@[simp] theorem ensures_memset {pointer : Word} {value : BitVec 8} {n : ℕ} {s : Hv}
    {Q : Unit → Hv → Prop} {E : Fault → Hv → Prop} : Ensures (memset pointer value n) s Q E ↔
      Q () { s with memory := fill s.memory (v2pIdentityMap pointer) value n } := Iff.rfl

end Rkhv.HostState
