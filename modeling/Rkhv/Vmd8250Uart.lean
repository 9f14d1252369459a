import Rkhv.Arenas

/-!
# The emulated serial port

An 8250 UART of `vmd_8250uart.c` collects the bytes written to it into a line
buffer and prints the buffer at a newline or when it is full. Its registers are
plain bytes; the divisor of the baud rate is behind the data and interrupt
registers while the divisor latch bit of the line control register is set.
-/

namespace Rkhv.Vmd8250Uart

open ByteMemory HostTypes HostState StateOutcome Arenas

/-! ## Constants of `serial.h` -/

def comDataReg : BitVec 16 := 0
def comIntEnableReg : BitVec 16 := 1
def comIntIdReg : BitVec 16 := 2
def comFifoControlReg : BitVec 16 := 2
def comLineControlReg : BitVec 16 := 3
def comModemControlReg : BitVec 16 := 4
def comLineStatusReg : BitVec 16 := 5
def comModemStatusReg : BitVec 16 := 6
def comScratchReg : BitVec 16 := 7

/-- `COM_PORTS_LEN` -/
def comPortsLen : ℕ := 8

/-- `COM_BAUD_RATE_BASE` -/
def comBaudRateBase : BitVec 32 := 115200

/-- The four `COM_INT_ENABLE_*` bits. -/
def comIntEnableMask : BitVec 8 := 0x01 ||| 0x02 ||| 0x04 ||| 0x08

/-- The `COM_FIFO_CONTROL_*` bits that are kept. -/
def comFifoControlMask : BitVec 8 := 0x01 ||| 0x02 ||| 0x04 ||| 0x08 ||| 0xc0

/-- `COM_LINE_CONTROL_DLAB` -/
def comLineControlDlab : BitVec 8 := 0x80

/-- The four `COM_MODEM_CONTROL_*` bits. -/
def comModemControlMask : BitVec 8 := 0x01 ||| 0x02 ||| 0x08 ||| 0x10

def comLineStatusTransmitterHoldingRegisterEmpty : BitVec 8 := 0x20
def comLineStatusTransmitterEmpty : BitVec 8 := 0x40

/-! ## Handlers -/

/-- The bytes that `%s` prints of a buffer. -/
def cString (buffer : Vector (BitVec 8) 128) : List (BitVec 8) :=
  buffer.toList.takeWhile (· ≠ 0)

/-- `vmd_8250uart_putc`: the new data and the printed lines. -/
def vmd8250UartPutc (vmName : String) (uart : Vmd8250Uart) (readByte : BitVec 8) :
    Vmd8250Uart × List ConsoleEvent :=
  let lastIndex : Word := BitVec.ofNat 64 vmd8250UartOutputBufferCapacity - 1
  let start := if lastIndex ≤ uart.outputBufferSize then 0 else uart.outputBufferSize
  let filled := uart.outputBuffer.setIfInBounds start.toNat readByte
  let size := start + 1
  if readByte = 0x0a ∨ lastIndex ≤ size then
    let terminated :=
      if 0 < size ∧ filled[(size - 1).toNat]? = some 0x0a then
        filled.setIfInBounds (size - 1).toNat 0
      else filled.setIfInBounds size.toNat 0
    ({ uart with outputBuffer := terminated, outputBufferSize := 0 },
      [.uartLine vmName uart.portName (cString terminated)])
  else ({ uart with outputBuffer := filled, outputBufferSize := size }, [])

/-- `baud_rate` of `vmd_8250uart_debug_print_control_regs` -/
def baudRate (uart : Vmd8250Uart) : BitVec 32 :=
  if uart.baudRateDivisor = 0 then 0 else comBaudRateBase / uart.baudRateDivisor.zeroExtend 32

/-- `vmd_8250uart_debug_print_control_regs` -/
def vmd8250UartDebugPrintControlRegs (vmName : String) (uart : Vmd8250Uart) : ConsoleEvent :=
  .uartControlRegs vmName uart.portName (baudRate uart) uart.intEnableReg uart.fifoControlReg
    uart.lineControlReg uart.modemControlReg

/-- Whether the divisor latch is selected. -/
def dlab (uart : Vmd8250Uart) : Bool := uart.lineControlReg &&& comLineControlDlab ≠ 0

/-- The end of the `outb` handler for every register but the data register. -/
def printed (vmName : String) (uart : Vmd8250Uart) : HandlerResult Unit :=
  .ok ((), uart, [vmd8250UartDebugPrintControlRegs vmName uart])

/-- `vmd_8250uart_outb_handler` -/
def vmd8250UartOutbHandler : OutHandler 8 := fun vmName uart port readByte =>
  let portOffset := port - uart.portBase
  if portOffset = comDataReg then
    if dlab uart then
      printed vmName { uart with
        baudRateDivisor := (uart.baudRateDivisor &&& 0xff00) ||| readByte.zeroExtend 16 }
    else
      let (uart', lines) := vmd8250UartPutc vmName uart readByte
      .ok ((), uart', lines)
  else if portOffset = comIntEnableReg then
    if dlab uart then
      printed vmName { uart with
        baudRateDivisor := (uart.baudRateDivisor &&& 0xff) ||| (readByte.zeroExtend 16 <<< 8) }
    else printed vmName { uart with intEnableReg := readByte &&& comIntEnableMask }
  else if portOffset = comFifoControlReg then
    printed vmName { uart with fifoControlReg := readByte &&& comFifoControlMask }
  else if portOffset = comLineControlReg then
    printed vmName { uart with lineControlReg := readByte }
  else if portOffset = comModemControlReg then
    printed vmName { uart with modemControlReg := readByte &&& comModemControlMask }
  else if portOffset = comLineStatusReg ∨ portOffset = comModemStatusReg ∨
      portOffset = comScratchReg then
    -- the status registers are read-only and the scratch register is ignored
    printed vmName uart
  else .error "Reached 8250uart outb handler with unexpected port"

/-- `vmd_8250uart_inb_handler` -/
def vmd8250UartInbHandler : InHandler 8 := fun _ uart port =>
  let portOffset := port - uart.portBase
  let answer (value : BitVec 8) : HandlerResult (BitVec 8) := .ok (value, uart, [])
  if portOffset = comDataReg then
    answer (if dlab uart then (uart.baudRateDivisor &&& 0xff).truncate 8 else 0)
  else if portOffset = comIntEnableReg then
    answer (if dlab uart then (uart.baudRateDivisor >>> 8).truncate 8 else uart.intEnableReg)
  else if portOffset = comIntIdReg then answer 0
  else if portOffset = comLineControlReg then answer uart.lineControlReg
  else if portOffset = comModemControlReg then answer uart.modemControlReg
  else if portOffset = comLineStatusReg then
    -- the port is always ready to transmit
    answer (comLineStatusTransmitterHoldingRegisterEmpty ||| comLineStatusTransmitterEmpty)
  else if portOffset = comModemStatusReg then answer 0
  else if portOffset = comScratchReg then answer 0
  else .error "Reached 8250uart inb handler with unexpected port"

/-- Name of the port that a printed line is about. -/
def consolePort : ConsoleEvent → Option String
  | .uartLine _ portName _ => some portName
  | .uartControlRegs _ portName _ _ _ _ _ => some portName
  | .unexpectedOut .. => none
  | .unexpectedIn .. => none

/-- The handlers of a port keep its name and base and print under its name. -/
def Serves {α : Type} (uart : Vmd8250Uart) (result : HandlerResult α) : Prop :=
  ∃ value uart' lines, result = .ok (value, uart', lines) ∧ uart'.portBase = uart.portBase ∧
    uart'.portName = uart.portName ∧ ∀ line ∈ lines, consolePort line = some uart.portName

/-- The ports of a window are those at an offset below eight from its base. -/
def InWindow (portBase port : BitVec 16) : Prop := (port - portBase).toNat < comPortsLen

instance (portBase port : BitVec 16) : Decidable (InWindow portBase port) :=
  inferInstanceAs (Decidable ((port - portBase).toNat < comPortsLen))

theorem serves_printed {vmName : String} {uart uart' : Vmd8250Uart}
    (hbase : uart'.portBase = uart.portBase) (hname : uart'.portName = uart.portName) :
    Serves uart (printed vmName uart') := by
  refine ⟨(), uart', _, rfl, hbase, hname, fun line hline => ?_⟩
  rw [List.mem_singleton.mp hline, vmd8250UartDebugPrintControlRegs, consolePort, hname]

/-- A written byte changes the line buffer, and prints at most the line. -/
theorem putc_cases (vmName : String) (uart : Vmd8250Uart) (readByte : BitVec 8) :
    ∃ buffer size, (∃ text, vmd8250UartPutc vmName uart readByte =
        ({ uart with outputBuffer := buffer, outputBufferSize := size },
          [.uartLine vmName uart.portName text])) ∨
      vmd8250UartPutc vmName uart readByte =
        ({ uart with outputBuffer := buffer, outputBufferSize := size }, []) := by
  unfold vmd8250UartPutc
  dsimp only
  split <;> split
  · exact ⟨_, _, .inl ⟨_, rfl⟩⟩
  · exact ⟨_, _, .inr rfl⟩
  · exact ⟨_, _, .inl ⟨_, rfl⟩⟩
  · exact ⟨_, _, .inr rfl⟩

theorem serves_putc (vmName : String) (uart : Vmd8250Uart) (readByte : BitVec 8) :
    Serves uart (.ok ((), vmd8250UartPutc vmName uart readByte)) := by
  have hcases := putc_cases vmName uart readByte
  obtain ⟨buffer, size, ⟨text, hputc⟩ | hputc⟩ := hcases
  · rw [hputc]
    refine ⟨(), _, _, rfl, rfl, rfl, fun line hline => ?_⟩
    rw [List.mem_singleton.mp hline, consolePort]
  · rw [hputc]
    exact ⟨(), _, _, rfl, rfl, rfl, fun _ hline => absurd hline List.not_mem_nil⟩

/-- An offset inside the window is one of the eight registers. -/
theorem InWindow.register {portBase port : BitVec 16} (h : InWindow portBase port) :
    port - portBase = comDataReg ∨ port - portBase = comIntEnableReg ∨
      port - portBase = comFifoControlReg ∨ port - portBase = comLineControlReg ∨
      port - portBase = comModemControlReg ∨ port - portBase = comLineStatusReg ∨
      port - portBase = comModemStatusReg ∨ port - portBase = comScratchReg := by
  simp only [InWindow, comPortsLen] at h
  simp only [← BitVec.toNat_inj, comDataReg, comIntEnableReg, comFifoControlReg, comLineControlReg,
    comModemControlReg, comLineStatusReg, comModemStatusReg, comScratchReg, BitVec.reduceToNat]
  omega

/-- The `outb` handler serves every port of its window. -/
theorem serves_outb {uart : Vmd8250Uart} {port : BitVec 16} (h : InWindow uart.portBase port)
    (vmName : String) (value : BitVec 8) :
    Serves uart (vmd8250UartOutbHandler vmName uart port value) := by
  unfold vmd8250UartOutbHandler
  dsimp only
  have hreg := h.register
  split
  · split
    · exact serves_printed rfl rfl
    · exact serves_putc vmName uart value
  split
  · split <;> exact serves_printed rfl rfl
  split
  · exact serves_printed rfl rfl
  split
  · exact serves_printed rfl rfl
  split
  · exact serves_printed rfl rfl
  split
  · exact serves_printed rfl rfl
  · simp_all only [or_self]

/-- The `inb` handler serves every port of its window. -/
theorem serves_inb {uart : Vmd8250Uart} {port : BitVec 16} (h : InWindow uart.portBase port)
    (vmName : String) : Serves uart (vmd8250UartInbHandler vmName uart port) := by
  have hanswer : ∀ value : BitVec 8,
      Serves uart (.ok (value, uart, []) : HandlerResult (BitVec 8)) := fun value =>
    ⟨value, uart, [], rfl, rfl, rfl, fun _ hline => absurd hline List.not_mem_nil⟩
  unfold vmd8250UartInbHandler
  dsimp only
  split
  · exact hanswer _
  split
  · exact hanswer _
  split
  · exact hanswer _
  split
  · exact hanswer _
  split
  · exact hanswer _
  split
  · exact hanswer _
  split
  · exact hanswer _
  split
  · exact hanswer _
  · have hreg := h.register
    simp_all only [comIntIdReg, comFifoControlReg, or_self]

/-! ## Creation -/

/-- `sizeof(vm_device_t)` -/
def sizeofVmDevice : Word := 104

/-- `sizeof(vmd_8250uart_t)` -/
def sizeofVmd8250Uart : Word := 152

/-- `vmd_get_device_arena` -/
def vmdGetDeviceArena : HvM (Option Word) := do
  let s ← get
  if s.vmdDeviceArena = none then
    let arena ← arenaCreate
    modify fun s => { s with vmdDeviceArena := some arena }
  let s ← get
  return s.vmdDeviceArena

/-- The ports that `vmd_8250uart_create` claims from a base on. -/
def uartPorts (portBase : BitVec 16) : List (BitVec 16) :=
  (List.range comPortsLen).map fun i => portBase + BitVec.ofNat 16 i

theorem mem_uartPorts {portBase port : BitVec 16} :
    port ∈ uartPorts portBase ↔ InWindow portBase port := by
  simp only [uartPorts, comPortsLen, List.mem_map, List.mem_range, InWindow]
  constructor
  · intro h
    obtain ⟨i, hi, heq⟩ := h
    rw [← heq, BitVec.add_comm, BitVec.add_sub_cancel, BitVec.toNat_ofNat]
    omega
  · intro h
    refine ⟨(port - portBase).toNat, h, ?_⟩
    rw [BitVec.ofNat_toNat, BitVec.setWidth_eq, BitVec.add_comm, BitVec.sub_add_cancel]

/-- The device that serves the ports of a UART. -/
def uartDevice (next : Option ℕ) (uart : Vmd8250Uart) : VmDevice where
  next := next
  ports := uartPorts uart.portBase
  deviceData := uart
  outbHandler := some vmd8250UartOutbHandler
  outwHandler := none
  outdHandler := none
  inbHandler := some vmd8250UartInbHandler
  inwHandler := none
  indHandler := none

/-- The data of a UART after `memset`, with its name and port base. -/
def newUart (portBase : BitVec 16) (portName : String) : Vmd8250Uart where
  outputBuffer := Vector.replicate 128 0
  outputBufferSize := 0
  portName := portName
  portBase := portBase
  baudRateDivisor := 0
  intEnableReg := 0
  fifoControlReg := 0
  lineControlReg := 0
  modemControlReg := 0

/-- `vmd_8250uart_create`; the result is the number of the new device. -/
def vmd8250UartCreate (portBase : BitVec 16) (portName : String) : HvM ℕ := do
  let deviceArena ← vmdGetDeviceArena
  let _ ← arenaAllocate deviceArena sizeofVmDevice
  let uartArena ← vmdGetDeviceArena
  let _ ← arenaAllocate uartArena sizeofVmd8250Uart
  let s ← get
  modify fun s => { s with deviceList := s.deviceList ++ [uartDevice none (newUart portBase portName)] }
  return s.deviceList.length

end Rkhv.Vmd8250Uart
