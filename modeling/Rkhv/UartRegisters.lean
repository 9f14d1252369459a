import Rkhv.Vmd8250Uart

/-!
# The registers of a serial port

A guest sees a UART through reads and writes at eight offsets. Each register is
the last byte that was written to it, masked for two of them; the divisor latch
bit decides which register two of the offsets stand for, and is itself part of
the last byte written at an offset. Reads and all other writes change none.
-/

namespace Rkhv.UartRegisters

open ByteMemory HostTypes HostState Vmd8250Uart

/-! ## Accesses -/

/-- The registers at the eight offsets, without the divisor latch. -/
inductive UartRegister where
  | data
  | intEnable
  | fifoControl
  | lineControl
  | modemControl
  | lineStatus
  | modemStatus
  | scratch
  deriving DecidableEq

/-- Offset of a register from the base of the port. -/
def UartRegister.offset : UartRegister → BitVec 16
  | data => comDataReg
  | intEnable => comIntEnableReg
  | fifoControl => comFifoControlReg
  | lineControl => comLineControlReg
  | modemControl => comModemControlReg
  | lineStatus => comLineStatusReg
  | modemStatus => comModemStatusReg
  | scratch => comScratchReg

/-- An access of one byte to a register. -/
inductive RegisterAccess where
  | write (register : UartRegister) (value : BitVec 8)
  | read (register : UartRegister)
  deriving DecidableEq

/-- The port of a register. -/
def registerPort (uart : Vmd8250Uart) (register : UartRegister) : BitVec 16 :=
  uart.portBase + register.offset

/-- Perform an access, and print. -/
def registerAccess (vmName : String) (uart : Vmd8250Uart) :
    RegisterAccess → Except String (Vmd8250Uart × List ConsoleEvent)
  | .write register value =>
    (vmd8250UartOutbHandler vmName uart (registerPort uart register) value).map Prod.snd
  | .read register =>
    (vmd8250UartInbHandler vmName uart (registerPort uart register)).map Prod.snd

/-- Perform accesses one after the other. -/
def performAccesses (vmName : String) : Vmd8250Uart → List RegisterAccess → Except String Vmd8250Uart
  | uart, [] => .ok uart
  | uart, access :: rest =>
    match registerAccess vmName uart access with
    | .error message => .error message
    | .ok (uart', _) => performAccesses vmName uart' rest

/-! ## What the handlers do at each offset -/

variable {vmName : String} {uart : Vmd8250Uart} {past : List RegisterAccess}

/-- The handlers see the offset again. -/
theorem registerPort_sub (uart : Vmd8250Uart) (register : UartRegister) :
    registerPort uart register - uart.portBase = register.offset := by
  rw [registerPort, BitVec.add_comm, BitVec.add_sub_cancel]

/-- The ports of the registers are those of the window. -/
theorem inWindow_iff {port : BitVec 16} :
    InWindow uart.portBase port ↔ ∃ register, port = registerPort uart register := by
  constructor
  · intro h
    have hport : ∀ register : UartRegister, port - uart.portBase = register.offset →
        ∃ register, port = registerPort uart register := fun register hr => by
      refine ⟨register, ?_⟩
      rw [registerPort, ← hr, BitVec.add_comm, BitVec.sub_add_cancel]
    obtain h | h | h | h | h | h | h | h := h.register
    · exact hport .data h
    · exact hport .intEnable h
    · exact hport .fifoControl h
    · exact hport .lineControl h
    · exact hport .modemControl h
    · exact hport .lineStatus h
    · exact hport .modemStatus h
    · exact hport .scratch h
  · intro h
    obtain ⟨register, rfl⟩ := h
    rw [InWindow, registerPort_sub]
    cases register <;> decide

/-- A UART after a write that went to a register. -/
def writtenUart (uart : Vmd8250Uart) (value : BitVec 8) : UartRegister → Vmd8250Uart
  | .data => { uart with
      baudRateDivisor := (uart.baudRateDivisor &&& 0xff00) ||| value.zeroExtend 16 }
  | .intEnable =>
    if dlab uart then { uart with
      baudRateDivisor := (uart.baudRateDivisor &&& 0xff) ||| (value.zeroExtend 16 <<< 8) }
    else { uart with intEnableReg := value &&& comIntEnableMask }
  | .fifoControl => { uart with fifoControlReg := value &&& comFifoControlMask }
  | .lineControl => { uart with lineControlReg := value }
  | .modemControl => { uart with modemControlReg := value &&& comModemControlMask }
  | .lineStatus | .modemStatus | .scratch => uart

/-- A write to a register leaves the line buffer alone. -/
theorem writtenUart_buffer (uart : Vmd8250Uart) (value : BitVec 8) (register : UartRegister) :
    (writtenUart uart value register).outputBuffer = uart.outputBuffer ∧
      (writtenUart uart value register).outputBufferSize = uart.outputBufferSize := by
  cases register with
  | intEnable =>
    rw [writtenUart]
    split_ifs with hdlab
    · exact ⟨rfl, rfl⟩
    · exact ⟨rfl, rfl⟩
  | data => exact ⟨rfl, rfl⟩
  | fifoControl => exact ⟨rfl, rfl⟩
  | lineControl => exact ⟨rfl, rfl⟩
  | modemControl => exact ⟨rfl, rfl⟩
  | lineStatus => exact ⟨rfl, rfl⟩
  | modemStatus => exact ⟨rfl, rfl⟩
  | scratch => exact ⟨rfl, rfl⟩

/-- Without the latch, data goes to the line buffer. -/
theorem registerAccess_data (hdlab : dlab uart = false) (value : BitVec 8) :
    registerAccess vmName uart (.write .data value) = .ok (vmd8250UartPutc vmName uart value) := by
  have hoffset := registerPort_sub uart .data
  rw [registerAccess, vmd8250UartOutbHandler]
  simp only [hoffset, hdlab]
  rfl

/-- All other writes go to a register, and the registers are printed. -/
theorem registerAccess_write {register : UartRegister}
    (h : register = .data → dlab uart = true) (value : BitVec 8) :
    registerAccess vmName uart (.write register value) =
      .ok (writtenUart uart value register,
        [vmd8250UartDebugPrintControlRegs vmName (writtenUart uart value register)]) := by
  have hoffset := registerPort_sub uart register
  rw [registerAccess, vmd8250UartOutbHandler]
  simp only [hoffset]
  cases register with
  | data =>
    simp only [h rfl]
    rfl
  | intEnable =>
    rw [writtenUart]
    cases hdlab : dlab uart with
    | true => rfl
    | false => rfl
  | fifoControl => rfl
  | lineControl => rfl
  | modemControl => rfl
  | lineStatus => rfl
  | modemStatus => rfl
  | scratch => rfl

/-- What a read answers. -/
def readValue (uart : Vmd8250Uart) : UartRegister → BitVec 8
  | .data => if dlab uart then (uart.baudRateDivisor &&& 0xff).truncate 8 else 0
  | .intEnable => if dlab uart then (uart.baudRateDivisor >>> 8).truncate 8 else uart.intEnableReg
  | .lineControl => uart.lineControlReg
  | .modemControl => uart.modemControlReg
  | .lineStatus =>
    comLineStatusTransmitterHoldingRegisterEmpty ||| comLineStatusTransmitterEmpty
  | .fifoControl | .modemStatus | .scratch => 0

/-- A read prints nothing and changes nothing. -/
theorem inbHandler_eq (vmName : String) (uart : Vmd8250Uart) (register : UartRegister) :
    vmd8250UartInbHandler vmName uart (registerPort uart register) =
      .ok (readValue uart register, uart, []) := by
  have hoffset := registerPort_sub uart register
  rw [vmd8250UartInbHandler]
  simp only [hoffset]
  cases register <;> rfl

theorem registerAccess_read (vmName : String) (uart : Vmd8250Uart) (register : UartRegister) :
    registerAccess vmName uart (.read register) = .ok (uart, []) := by
  rw [registerAccess, inbHandler_eq]
  rfl

/-! ## The last bytes written -/

/-- The last byte written where a test of the earlier accesses and the register holds;
the newest access comes first. -/
def lastWritten (selects : List RegisterAccess → UartRegister → Bool) :
    List RegisterAccess → BitVec 8
  | [] => 0
  | .read _ :: past => lastWritten selects past
  | .write register value :: past =>
    if selects past register then value else lastWritten selects past

/-- The last byte written to the line control register. -/
def lineControl : List RegisterAccess → BitVec 8 :=
  lastWritten fun _ register => register = .lineControl

/-- Whether the divisor latch is set. -/
def latched (past : List RegisterAccess) : Bool := lineControl past &&& comLineControlDlab ≠ 0

/-- The last byte written to the modem control register. -/
def modemControl : List RegisterAccess → BitVec 8 :=
  lastWritten fun _ register => register = .modemControl

/-- The last byte written to offset 0 while the latch was set. -/
def divisorLow : List RegisterAccess → BitVec 8 :=
  lastWritten fun past register => register = .data && latched past

/-- The last byte written to offset 1 while the latch was set. -/
def divisorHigh : List RegisterAccess → BitVec 8 :=
  lastWritten fun past register => register = .intEnable && latched past

/-- The last byte written to offset 1 while the latch was clear. -/
def intEnable : List RegisterAccess → BitVec 8 :=
  lastWritten fun past register => register = .intEnable && !latched past

/-- What a register reads after some accesses, newest first. -/
def registerFile (past : List RegisterAccess) : UartRegister → BitVec 8
  | .data => if latched past then divisorLow past else 0
  | .intEnable => if latched past then divisorHigh past else intEnable past &&& 0x0f
  | .lineControl => lineControl past
  | .modemControl => modemControl past &&& 0x1b
  | .lineStatus => 0x60
  | .fifoControl | .modemStatus | .scratch => 0

/-- Writes that go to no register that can be read back. -/
def Passive (past : List RegisterAccess) : UartRegister → Prop
  | .data => latched past = false
  | .fifoControl | .lineStatus | .modemStatus | .scratch => True
  | .intEnable | .lineControl | .modemControl => False

/-! ## The halves of the divisor -/

/-- The lower half of a divisor, as it is read. -/
def lowByte (divisor : BitVec 16) : BitVec 8 := (divisor &&& 0xff).truncate 8

/-- The upper half of a divisor, as it is read. -/
def highByte (divisor : BitVec 16) : BitVec 8 := (divisor >>> 8).truncate 8

theorem lowByte_setLow (divisor : BitVec 16) (value : BitVec 8) :
    lowByte ((divisor &&& 0xff00) ||| value.zeroExtend 16) = value := by
  apply BitVec.eq_of_getLsbD_eq
  intro i hlt
  interval_cases i <;> simp [lowByte]

theorem highByte_setLow (divisor : BitVec 16) (value : BitVec 8) :
    highByte ((divisor &&& 0xff00) ||| value.zeroExtend 16) = highByte divisor := by
  apply BitVec.eq_of_getLsbD_eq
  intro i hlt
  interval_cases i <;> simp [highByte]

theorem lowByte_setHigh (divisor : BitVec 16) (value : BitVec 8) :
    lowByte ((divisor &&& 0xff) ||| (value.zeroExtend 16 <<< 8)) = lowByte divisor := by
  apply BitVec.eq_of_getLsbD_eq
  intro i hlt
  interval_cases i <;> simp [lowByte]

theorem highByte_setHigh (divisor : BitVec 16) (value : BitVec 8) :
    highByte ((divisor &&& 0xff) ||| (value.zeroExtend 16 <<< 8)) = value := by
  apply BitVec.eq_of_getLsbD_eq
  intro i hlt
  interval_cases i <;> simp [highByte]

/-! ## Whole runs -/

/-- The registers hold what was written last. -/
structure Holds (uart : Vmd8250Uart) (past : List RegisterAccess) : Prop where
  line : uart.lineControlReg = lineControl past
  modem : uart.modemControlReg = modemControl past &&& comModemControlMask
  low : lowByte uart.baudRateDivisor = divisorLow past
  high : highByte uart.baudRateDivisor = divisorHigh past
  int : uart.intEnableReg = intEnable past &&& comIntEnableMask

/-- The latch is the bit of the last byte written to the line control register. -/
theorem Holds.dlab_eq (h : Holds uart past) : dlab uart = latched past := by
  rw [dlab, latched, h.line]

/-- The registers after creation are zero. -/
theorem holds_newUart (portBase : BitVec 16) (portName : String) :
    Holds (newUart portBase portName) [] where
  line := rfl
  modem := rfl
  low := show lowByte 0 = 0 by decide
  high := show highByte 0 = 0 by decide
  int := rfl

/-- A read changes no register. -/
theorem Holds.read (h : Holds uart past) (register : UartRegister) :
    Holds uart (.read register :: past) := ⟨h.line, h.modem, h.low, h.high, h.int⟩

/-- The line buffer is no register. -/
theorem Holds.data (h : Holds uart past) (hlatch : latched past = false) (value : BitVec 8) :
    Holds (vmd8250UartPutc vmName uart value).1 (.write .data value :: past) := by
  have hlow : divisorLow (.write .data value :: past) = divisorLow past := by
    simp [divisorLow, lastWritten, hlatch]
  have hcases := putc_cases vmName uart value
  obtain ⟨buffer, size, ⟨text, hputc⟩ | hputc⟩ := hcases
  · rw [hputc]
    exact ⟨h.line, h.modem, h.low.trans hlow.symm, h.high, h.int⟩
  · rw [hputc]
    exact ⟨h.line, h.modem, h.low.trans hlow.symm, h.high, h.int⟩

/-- A write changes its register. -/
theorem Holds.write (h : Holds uart past) {register : UartRegister}
    (hlatch : register = .data → latched past = true) (value : BitVec 8) :
    Holds (writtenUart uart value register) (.write register value :: past) := by
  have hdlab := h.dlab_eq
  cases register with
  | data =>
    have hlow : divisorLow (.write .data value :: past) = value := by
      simp [divisorLow, lastWritten, hlatch rfl]
    exact ⟨h.line, h.modem, (lowByte_setLow _ value).trans hlow.symm,
      (highByte_setLow _ value).trans h.high, h.int⟩
  | intEnable =>
    rw [writtenUart, hdlab]
    cases hset : latched past with
    | true =>
      have hhigh : divisorHigh (.write .intEnable value :: past) = value := by
        simp [divisorHigh, lastWritten, hset]
      have hint : intEnable (.write .intEnable value :: past) = intEnable past := by
        simp [intEnable, lastWritten, hset]
      exact ⟨h.line, h.modem, (lowByte_setHigh _ value).trans h.low,
        (highByte_setHigh _ value).trans hhigh.symm, by rw [hint]; exact h.int⟩
    | false =>
      have hhigh : divisorHigh (.write .intEnable value :: past) = divisorHigh past := by
        simp [divisorHigh, lastWritten, hset]
      have hint : intEnable (.write .intEnable value :: past) = value := by
        simp [intEnable, lastWritten, hset]
      exact ⟨h.line, h.modem, h.low, h.high.trans hhigh.symm, by rw [hint]; rfl⟩
  | fifoControl => exact ⟨h.line, h.modem, h.low, h.high, h.int⟩
  | lineControl => exact ⟨rfl, h.modem, h.low, h.high, h.int⟩
  | modemControl => exact ⟨h.line, rfl, h.low, h.high, h.int⟩
  | lineStatus => exact ⟨h.line, h.modem, h.low, h.high, h.int⟩
  | modemStatus => exact ⟨h.line, h.modem, h.low, h.high, h.int⟩
  | scratch => exact ⟨h.line, h.modem, h.low, h.high, h.int⟩

/-- Every access is served and keeps the registers. -/
theorem Holds.access (h : Holds uart past) (vmName : String) (access : RegisterAccess) :
    ∃ uart' lines, registerAccess vmName uart access = .ok (uart', lines) ∧
      Holds uart' (access :: past) := by
  cases access with
  | read register => exact ⟨uart, [], registerAccess_read vmName uart register, h.read register⟩
  | write register value =>
    by_cases hdata : register = .data ∧ latched past = false
    · obtain ⟨rfl, hlatch⟩ := hdata
      exact ⟨_, _, registerAccess_data (h.dlab_eq.trans hlatch) value, h.data hlatch value⟩
    · have hlatch : register = .data → latched past = true := fun hr => by
        rw [← Bool.not_eq_false]
        exact fun hf => hdata ⟨hr, hf⟩
      exact ⟨_, _, registerAccess_write (fun hr => h.dlab_eq.trans (hlatch hr)) value,
        h.write hlatch value⟩

/-- Every run of accesses is served and keeps the registers. -/
theorem Holds.run (h : Holds uart past) (vmName : String) (accesses : List RegisterAccess) :
    ∃ uart', performAccesses vmName uart accesses = .ok uart' ∧
      Holds uart' (accesses.reverse ++ past) := by
  induction accesses generalizing uart past with
  | nil => exact ⟨uart, rfl, h⟩
  | cons access rest ih =>
    obtain ⟨uart₁, lines, haccess, h₁⟩ := h.access vmName access
    obtain ⟨uart', hrest, h'⟩ := ih h₁
    refine ⟨uart', ?_, ?_⟩
    · rw [performAccesses, haccess]
      exact hrest
    · rw [List.reverse_cons, List.append_assoc]
      exact h'

/-- The registers read what the last writes left. -/
theorem Holds.readValue (h : Holds uart past) (register : UartRegister) :
    readValue uart register = registerFile past register := by
  cases register with
  | data =>
    rw [UartRegisters.readValue, h.dlab_eq, registerFile, ← h.low]
    rfl
  | intEnable =>
    rw [UartRegisters.readValue, h.dlab_eq, registerFile, ← h.high, h.int]
    rfl
  | fifoControl => rfl
  | lineControl => exact h.line
  | modemControl => exact h.modem
  | lineStatus => rfl
  | modemStatus => rfl
  | scratch => rfl

/-- Passive writes change no register. -/
theorem registerFile_passive {register : UartRegister} (h : Passive past register)
    (value : BitVec 8) : registerFile (.write register value :: past) = registerFile past := by
  have hline : lineControl (.write register value :: past) = lineControl past := by
    cases register <;> first | rfl | cases h
  have hlatched : latched (.write register value :: past) = latched past := by
    rw [latched, hline, latched]
  have hmodem : modemControl (.write register value :: past) = modemControl past := by
    cases register <;> first | rfl | cases h
  have hlow : divisorLow (.write register value :: past) = divisorLow past := by
    cases register <;> first | rfl | cases h | simp [divisorLow, lastWritten, show latched past = false from h]
  have hhigh : divisorHigh (.write register value :: past) = divisorHigh past := by
    cases register <;> first | rfl | cases h
  have hint : intEnable (.write register value :: past) = intEnable past := by
    cases register <;> first | rfl | cases h
  funext r
  cases r <;> simp only [registerFile, hline, hlatched, hmodem, hlow, hhigh, hint]

/-- After every run of accesses from creation on, a read answers with the register
file of the run, which passive writes do not change. -/
theorem registers_of_accesses (vmName portName : String) (portBase : BitVec 16)
    (accesses : List RegisterAccess) :
    ∃ uart, performAccesses vmName (newUart portBase portName) accesses = .ok uart ∧
      (∀ register, vmd8250UartInbHandler vmName uart (registerPort uart register) =
        .ok (registerFile accesses.reverse register, uart, [])) ∧
      ∀ register value, Passive accesses.reverse register →
        registerFile (accesses ++ [RegisterAccess.write register value]).reverse =
          registerFile accesses.reverse := by
  obtain ⟨uart, hrun, hholds⟩ := (holds_newUart portBase portName).run vmName accesses
  rw [List.append_nil] at hholds
  refine ⟨uart, hrun, fun register => ?_, fun register value hpassive => ?_⟩
  · rw [inbHandler_eq, hholds.readValue]
  · rw [List.reverse_append]
    exact registerFile_passive hpassive value

end Rkhv.UartRegisters
