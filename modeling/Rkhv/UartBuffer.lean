import Rkhv.UartRegisters

/-!
# The line buffer of a serial port

`vmd_8250uart_putc` tests the capacity of its buffer twice with one expression:
before the store it would discard what is pending, after it the line is flushed.
From creation on the second test keeps the first from ever holding, so that no
byte is lost, every store lies in the buffer and every printed line ends there.
-/

namespace Rkhv.UartBuffer

open ByteMemory HostTypes HostState Vmd8250Uart UartRegisters

/-! ## What a call does with the buffer -/

/-- `sizeof(uart->output_buffer) - 1` -/
def lastIndex : Word := BitVec.ofNat 64 vmd8250UartOutputBufferCapacity - 1

/-- The branch at the start of `vmd_8250uart_putc` that drops what is pending. -/
def discards (uart : Vmd8250Uart) : Prop := lastIndex ≤ uart.outputBufferSize

instance (uart : Vmd8250Uart) : Decidable (discards uart) := inferInstanceAs (Decidable (_ ≤ _))

/-- The index of the byte that is stored. -/
def storeIndex (uart : Vmd8250Uart) : Word := if discards uart then 0 else uart.outputBufferSize

/-- The call ends the line. -/
def flushes (uart : Vmd8250Uart) (readByte : BitVec 8) : Prop :=
  readByte = 0x0a ∨ lastIndex ≤ storeIndex uart + 1

instance (uart : Vmd8250Uart) (readByte : BitVec 8) : Decidable (flushes uart readByte) :=
  inferInstanceAs (Decidable (_ ∨ _))

/-- The buffer when the byte is stored. -/
def filledBuffer (uart : Vmd8250Uart) (readByte : BitVec 8) : Vector (BitVec 8) 128 :=
  uart.outputBuffer.setIfInBounds (storeIndex uart).toNat readByte

/-- The index of the terminator: that of a newline, or the next one. -/
def terminatorIndex (uart : Vmd8250Uart) (readByte : BitVec 8) : Word :=
  let size := storeIndex uart + 1
  if 0 < size ∧ (filledBuffer uart readByte)[(size - 1).toNat]? = some 0x0a then size - 1 else size

/-- All stores of a call, in their order. -/
def putcStores (uart : Vmd8250Uart) (readByte : BitVec 8) : List (Word × BitVec 8) :=
  (storeIndex uart, readByte) ::
    if flushes uart readByte then [(terminatorIndex uart readByte, 0)] else []

/-- The buffer after some stores. -/
def storeAt (buffer : Vector (BitVec 8) 128) (stores : List (Word × BitVec 8)) :
    Vector (BitVec 8) 128 :=
  stores.foldl (fun b store => b.setIfInBounds store.1.toNat store.2) buffer

variable {vmName portName : String} {uart uart' : Vmd8250Uart} {portBase : BitVec 16}

/-- `vmd_8250uart_putc` in terms of its stores. -/
theorem putc_eq (vmName : String) (uart : Vmd8250Uart) (readByte : BitVec 8) :
    vmd8250UartPutc vmName uart readByte =
      ({ uart with
          outputBuffer := storeAt uart.outputBuffer (putcStores uart readByte)
          outputBufferSize := if flushes uart readByte then 0 else storeIndex uart + 1 },
        if flushes uart readByte then
          [.uartLine vmName uart.portName
            (cString (storeAt uart.outputBuffer (putcStores uart readByte)))]
        else []) := by
  -- the source in the words above
  have hputc : vmd8250UartPutc vmName uart readByte =
      if flushes uart readByte then
        ({ uart with
            outputBuffer :=
              if 0 < storeIndex uart + 1 ∧
                  (filledBuffer uart readByte)[(storeIndex uart + 1 - 1).toNat]? = some 0x0a then
                (filledBuffer uart readByte).setIfInBounds (storeIndex uart + 1 - 1).toNat 0
              else (filledBuffer uart readByte).setIfInBounds (storeIndex uart + 1).toNat 0
            outputBufferSize := 0 },
          [.uartLine vmName uart.portName (cString
            (if 0 < storeIndex uart + 1 ∧
                (filledBuffer uart readByte)[(storeIndex uart + 1 - 1).toNat]? = some 0x0a then
              (filledBuffer uart readByte).setIfInBounds (storeIndex uart + 1 - 1).toNat 0
            else (filledBuffer uart readByte).setIfInBounds (storeIndex uart + 1).toNat 0))])
      else
        ({ uart with
            outputBuffer := filledBuffer uart readByte
            outputBufferSize := storeIndex uart + 1 }, []) := rfl
  have hterminated : (if 0 < storeIndex uart + 1 ∧
        (filledBuffer uart readByte)[(storeIndex uart + 1 - 1).toNat]? = some 0x0a then
      (filledBuffer uart readByte).setIfInBounds (storeIndex uart + 1 - 1).toNat 0
    else (filledBuffer uart readByte).setIfInBounds (storeIndex uart + 1).toNat 0) =
      (filledBuffer uart readByte).setIfInBounds (terminatorIndex uart readByte).toNat 0 := by
    rw [terminatorIndex]
    split <;> rfl
  rw [hputc, hterminated, putcStores]
  split
  · rfl
  · rfl

/-! ## The invariant -/

/-- Between accesses there is room for one more byte and the terminator. -/
def HasRoom (uart : Vmd8250Uart) : Prop := uart.outputBufferSize.toNat ≤ 126

/-- What a call of `vmd_8250uart_putc` is to do: it drops no pending bytes, its
stores lie in the buffer, and the text that it prints ends in the buffer. -/
structure PutcSafe (vmName : String) (uart : Vmd8250Uart) (readByte : BitVec 8) : Prop where
  keeps : ¬discards uart
  stores : ∀ store ∈ putcStores uart readByte, store.1.toNat < vmd8250UartOutputBufferCapacity
  buffer : (vmd8250UartPutc vmName uart readByte).1.outputBuffer =
    storeAt uart.outputBuffer (putcStores uart readByte)
  terminated : ∀ event ∈ (vmd8250UartPutc vmName uart readByte).2,
    event = .uartLine vmName uart.portName
        (cString (vmd8250UartPutc vmName uart readByte).1.outputBuffer) ∧
      ∃ i < vmd8250UartOutputBufferCapacity,
        (vmd8250UartPutc vmName uart readByte).1.outputBuffer[i]? = some 0

theorem lastIndex_toNat : lastIndex.toNat = 127 := rfl

theorem HasRoom.not_discards (h : HasRoom uart) : ¬discards uart := by
  rw [HasRoom] at h
  rw [discards, BitVec.le_def, lastIndex_toNat]
  omega

/-- The byte is stored behind the pending ones. -/
theorem HasRoom.storeIndex_eq (h : HasRoom uart) : storeIndex uart = uart.outputBufferSize :=
  if_neg h.not_discards

theorem HasRoom.next_toNat (h : HasRoom uart) :
    (storeIndex uart + 1).toNat = uart.outputBufferSize.toNat + 1 := by
  have hone : (1 : Word).toNat = 1 := rfl
  have hroom : uart.outputBufferSize.toNat ≤ 126 := h
  rw [h.storeIndex_eq, BitVec.toNat_add, hone]
  omega

/-- The terminator is the byte that was stored or lies directly behind it. -/
theorem HasRoom.terminatorIndex_lt (h : HasRoom uart) (readByte : BitVec 8) :
    (terminatorIndex uart readByte).toNat < 128 := by
  have hnext := h.next_toNat
  have hroom : uart.outputBufferSize.toNat ≤ 126 := h
  rw [terminatorIndex]
  split
  · rw [BitVec.add_sub_cancel, h.storeIndex_eq]
    omega
  · rw [hnext]
    omega

/-- A call from a buffer with room does what it is to do. -/
theorem HasRoom.putcSafe (h : HasRoom uart) (vmName : String) (readByte : BitVec 8) :
    PutcSafe vmName uart readByte := by
  have hroom : uart.outputBufferSize.toNat ≤ 126 := h
  have hcapacity : vmd8250UartOutputBufferCapacity = 128 := rfl
  have hterminator := h.terminatorIndex_lt readByte
  refine
    { keeps := h.not_discards
      stores := fun store hstore => ?_
      buffer := by rw [putc_eq]
      terminated := fun event hevent => ?_ }
  · rw [hcapacity]
    rw [putcStores] at hstore
    cases List.mem_cons.mp hstore with
    | inl hbyte =>
      rw [hbyte, h.storeIndex_eq]
      exact Nat.lt_of_le_of_lt hroom (by decide)
    | inr hrest =>
      split at hrest
      · rw [List.mem_singleton.mp hrest]
        exact hterminator
      · cases hrest
  · rw [putc_eq] at hevent ⊢
    dsimp only at hevent ⊢
    split at hevent
    · rename_i hflush
      refine ⟨List.mem_singleton.mp hevent, (terminatorIndex uart readByte).toNat, hterminator, ?_⟩
      rw [putcStores, if_pos hflush, storeAt, List.foldl_cons, List.foldl_cons, List.foldl_nil]
      exact Vector.getElem?_setIfInBounds_self_of_lt hterminator
    · cases hevent

/-- A call leaves room: a full line is flushed. -/
theorem HasRoom.putc (h : HasRoom uart) (vmName : String) (readByte : BitVec 8) :
    HasRoom (vmd8250UartPutc vmName uart readByte).1 := by
  have hnext := h.next_toNat
  rw [putc_eq, HasRoom]
  dsimp only
  split
  · exact Nat.zero_le _
  · rename_i hflush
    rw [flushes, not_or, BitVec.le_def, lastIndex_toNat, hnext] at hflush
    rw [hnext]
    omega

/-- Every access is served and leaves room. -/
theorem HasRoom.access (h : HasRoom uart) (vmName : String) (access : RegisterAccess) :
    ∃ uart' lines, registerAccess vmName uart access = .ok (uart', lines) ∧ HasRoom uart' := by
  cases access with
  | read register => exact ⟨uart, [], registerAccess_read vmName uart register, h⟩
  | write register value =>
    by_cases hdlab : register = .data → dlab uart = true
    · refine ⟨_, _, registerAccess_write hdlab value, ?_⟩
      rw [HasRoom, (writtenUart_buffer uart value register).2]
      exact h
    · obtain ⟨rfl, hlatch⟩ := Classical.not_imp.mp hdlab
      rw [Bool.not_eq_true] at hlatch
      exact ⟨_, _, registerAccess_data hlatch value, h.putc vmName value⟩

/-- Every run of accesses is served and leaves room. -/
theorem HasRoom.run (h : HasRoom uart) (vmName : String) (accesses : List RegisterAccess) :
    ∃ uart', performAccesses vmName uart accesses = .ok uart' ∧ HasRoom uart' := by
  induction accesses generalizing uart with
  | nil => exact ⟨uart, rfl, h⟩
  | cons access rest ih =>
    obtain ⟨uart₁, lines, haccess, h₁⟩ := h.access vmName access
    obtain ⟨uart', hrest, h'⟩ := ih h₁
    refine ⟨uart', ?_, h'⟩
    rw [performAccesses, haccess]
    exact hrest

/-- After every sequence of accesses from creation on the buffer has at most 126
pending bytes, and the next byte is stored without losing any, with all stores and
the end of the printed text inside the buffer. -/
theorem uartBuffer_safe (vmName portName : String) (portBase : BitVec 16)
    (accesses : List RegisterAccess) :
    ∃ uart, performAccesses vmName (newUart portBase portName) accesses = .ok uart ∧
      uart.outputBufferSize.toNat ≤ 126 ∧ ∀ readByte, PutcSafe vmName uart readByte := by
  have hnew : HasRoom (newUart portBase portName) := Nat.zero_le 126
  obtain ⟨uart, hrun, hroom⟩ := hnew.run vmName accesses
  exact ⟨uart, hrun, hroom, hroom.putcSafe vmName⟩

end Rkhv.UartBuffer
