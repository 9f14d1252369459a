import Rkhv.UartRegisters

/-!
# The output of a serial port

Bytes that a guest writes are collected in a line buffer, which is printed at a
newline or when it is full. The buffer is printed as a string that ends at its
first NUL. Without NULs the printed lines and the pending bytes are what was
written; a NUL in a line that is printed takes the rest of the line with it.
-/

namespace Rkhv.UartOutput

open ByteMemory HostTypes HostState Vmd8250Uart UartRegisters

/-! ## What was written and printed -/

/-- A UART with the bytes written to its data register and the text it printed. -/
structure Transcript where
  uart : Vmd8250Uart
  written : List (BitVec 8)
  printed : List (BitVec 8)

/-- What an access writes to the line buffer. -/
def dataWritten (uart : Vmd8250Uart) : RegisterAccess → List (BitVec 8)
  | .write .data value => if dlab uart then [] else [value]
  | _ => []

/-- The newline that an access wrote. -/
def newlineWritten : RegisterAccess → List (BitVec 8)
  | .write .data value => if value = 0x0a then [0x0a] else []
  | _ => []

/-- The text of a printed line, and the newline if it caused the flush. -/
def flushedText (access : RegisterAccess) : ConsoleEvent → List (BitVec 8)
  | .uartLine _ _ text => text ++ newlineWritten access
  | _ => []

/-- Perform accesses and keep the transcript. -/
def transcribe (vmName : String) : Transcript → List RegisterAccess → Except String Transcript
  | t, [] => .ok t
  | t, access :: rest =>
    match registerAccess vmName t.uart access with
    | .error message => .error message
    | .ok (uart', lines) =>
      transcribe vmName
        { uart := uart'
          written := t.written ++ dataWritten t.uart access
          printed := t.printed ++ lines.flatMap (flushedText access) } rest

/-- The bytes in the line buffer. -/
def pending (uart : Vmd8250Uart) : List (BitVec 8) :=
  uart.outputBuffer.toList.take uart.outputBufferSize.toNat

/-! ## Lines of a byte stream -/

/-- One more byte: a line ends with a newline or at 127 bytes. -/
def lineStep (line : List (BitVec 8)) (byte : BitVec 8) : List (BitVec 8) :=
  if byte = 0x0a ∨ line.length + 1 = 127 then [] else line ++ [byte]

/-- The line that a stream ends in. -/
def pendingLine (bytes : List (BitVec 8)) : List (BitVec 8) := bytes.foldl lineStep []

/-- The bytes of all complete lines. -/
def completeLines (bytes : List (BitVec 8)) : List (BitVec 8) :=
  bytes.take (bytes.length - (pendingLine bytes).length)

variable {line bytes : List (BitVec 8)} {byte : BitVec 8} {vmName : String} {uart : Vmd8250Uart}

theorem pendingLine_snoc (bytes : List (BitVec 8)) (byte : BitVec 8) :
    pendingLine (bytes ++ [byte]) = lineStep (pendingLine bytes) byte := List.foldl_concat ..

/-- A line that has not ended is short. -/
theorem lineStep_length (h : line.length < 127) : (lineStep line byte).length < 127 := by
  rw [lineStep]
  split_ifs with hend
  · exact Nat.zero_lt_succ _
  · rw [List.length_append, List.length_singleton]
    omega

/-! ## The line buffer -/

/-- A byte stored behind the others. -/
theorem take_set_succ {n : ℕ} {buffer : List (BitVec 8)} (h : n < buffer.length)
    (byte : BitVec 8) : (buffer.set n byte).take (n + 1) = buffer.take n ++ [byte] := by
  rw [List.take_add_one, List.take_set_of_le (Nat.le_refl n), List.getElem?_set_self h]
  rfl

/-- A string ends at the first NUL. -/
theorem takeWhile_terminated (text rest : List (BitVec 8)) :
    (text ++ 0 :: rest).takeWhile (· ≠ 0) = text.takeWhile (· ≠ 0) := by
  induction text with
  | nil => rfl
  | cons byte text ih =>
    rw [List.cons_append, List.takeWhile_cons, List.takeWhile_cons, ih]

/-- The string in a buffer whose text is followed by a NUL. -/
theorem cString_eq {buffer : Vector (BitVec 8) 128} {text : List (BitVec 8)}
    (h : buffer.toList.take (text.length + 1) = text ++ [0]) :
    cString buffer = text.takeWhile (· ≠ 0) := by
  have hsplit := List.take_append_drop (text.length + 1) buffer.toList
  rw [h, List.append_assoc] at hsplit
  rw [cString, ← hsplit]
  exact takeWhile_terminated text _

/-- The text of a line that ends with a byte: a newline is no part of it. -/
def lineText (line : List (BitVec 8)) (byte : BitVec 8) : List (BitVec 8) :=
  if byte = 0x0a then line else line ++ [byte]

/-- A byte ends the line and prints its text up to the first NUL, or is appended. -/
theorem putc_spec (hpending : pending uart = line) (hsize : uart.outputBufferSize.toNat = line.length)
    (hshort : line.length < 127) (byte : BitVec 8) :
    pending (vmd8250UartPutc vmName uart byte).1 = lineStep line byte ∧
      (vmd8250UartPutc vmName uart byte).1.outputBufferSize.toNat = (lineStep line byte).length ∧
      (vmd8250UartPutc vmName uart byte).2 =
        if byte = 0x0a ∨ line.length + 1 = 127 then
          [.uartLine vmName uart.portName ((lineText line byte).takeWhile (· ≠ 0))]
        else [] := by
  have hcap : (BitVec.ofNat 64 vmd8250UartOutputBufferCapacity - 1 : Word) = 127 := rfl
  have h127 : (127 : Word).toNat = 127 := rfl
  have hone : (1 : Word).toNat = 1 := rfl
  have hstart : ¬(127 : Word) ≤ uart.outputBufferSize := by
    rw [BitVec.le_def, hsize, h127]
    omega
  have hnext : (uart.outputBufferSize + 1).toNat = line.length + 1 := by
    rw [BitVec.toNat_add, hsize, hone]
    omega
  have hfull : (127 : Word) ≤ uart.outputBufferSize + 1 ↔ line.length + 1 = 127 := by
    rw [BitVec.le_def, hnext, h127]
    omega
  have hlast : (uart.outputBufferSize + 1 - 1).toNat = line.length := by
    rw [BitVec.add_sub_cancel, hsize]
  have hbuffer : ∀ b, ((uart.outputBuffer.setIfInBounds line.length b).toList.take
      (line.length + 1)) = line ++ [b] := by
    intro b
    have hlen : line.length < uart.outputBuffer.toList.length := by
      rw [Vector.length_toList]
      omega
    rw [Vector.toList_setIfInBounds, take_set_succ hlen]
    rw [pending, hsize] at hpending
    rw [hpending]
  have hthere : ∀ b, (uart.outputBuffer.setIfInBounds line.length b)[line.length]? = some b := by
    intro b
    rw [Vector.getElem?_setIfInBounds_self_of_lt (by omega)]
  simp only [vmd8250UartPutc, hcap, if_neg hstart, hfull, hlast, hsize, hthere]
  by_cases hend : byte = 0x0a ∨ line.length + 1 = 127
  · simp only [if_pos hend, lineStep]
    refine ⟨rfl, rfl, congrArg (fun text => [ConsoleEvent.uartLine vmName uart.portName text]) ?_⟩
    refine cString_eq ?_
    by_cases hnewline : byte = 0x0a
    · -- the newline itself is overwritten
      have hcond : 0 < uart.outputBufferSize + 1 ∧ some byte = some 0x0a :=
        ⟨BitVec.lt_def.mpr (by rw [hnext]; exact Nat.zero_lt_succ _), congrArg some hnewline⟩
      have htext : lineText line byte = line := if_pos hnewline
      rw [if_pos hcond, htext, Vector.toList_setIfInBounds, Vector.toList_setIfInBounds,
        List.set_set, ← Vector.toList_setIfInBounds]
      exact hbuffer 0
    · -- the buffer is full and has one byte left
      have hcond : ¬(0 < uart.outputBufferSize + 1 ∧ some byte = some 0x0a) :=
        fun hc => hnewline (Option.some.inj hc.2)
      have htext : lineText line byte = line ++ [byte] := if_neg hnewline
      have hlen : (line ++ [byte]).length = line.length + 1 := List.length_append
      have hroom : line.length + 1 < (uart.outputBuffer.setIfInBounds line.length byte).toList.length := by
        rw [Vector.length_toList]
        omega
      rw [if_neg hcond, htext, hnext, hlen, Vector.toList_setIfInBounds, take_set_succ hroom,
        hbuffer byte]
  · simp only [if_neg hend, lineStep]
    refine ⟨?_, ?_, trivial⟩
    · rw [pending, hnext]
      exact hbuffer byte
    · rw [hnext, List.length_append]
      rfl

/-! ## Whole runs -/

/-- The transcript follows the lines of the stream: what was printed are the complete
lines unless one of them holds a NUL; then some of their bytes are missing. -/
structure Follows (t : Transcript) : Prop where
  pending : pending t.uart = pendingLine t.written
  size : t.uart.outputBufferSize.toNat = (pendingLine t.written).length
  short : (pendingLine t.written).length < 127
  split : t.written = completeLines t.written ++ pendingLine t.written
  whole : 0 ∉ completeLines t.written → t.printed = completeLines t.written
  cut : 0 ∈ completeLines t.written → t.printed.length < (completeLines t.written).length

/-- Nothing is printed that was not written. -/
theorem Follows.length_le {t : Transcript} (h : Follows t) :
    t.printed.length ≤ (completeLines t.written).length := by
  by_cases hnul : 0 ∈ completeLines t.written
  · exact (h.cut hnul).le
  · rw [h.whole hnul]

/-- A text without a NUL is a string. -/
theorem takeWhile_of_not_mem {text : List (BitVec 8)} (h : 0 ∉ text) :
    text.takeWhile (· ≠ 0) = text :=
  List.takeWhile_eq_self_iff.mpr fun _ hbyte => decide_eq_true (ne_of_mem_of_not_mem hbyte h)

/-- A NUL cuts a text short. -/
theorem takeWhile_length_lt {text : List (BitVec 8)} (h : 0 ∈ text) :
    (text.takeWhile (· ≠ 0)).length < text.length := by
  have hle := (List.takeWhile_prefix (fun byte : BitVec 8 => decide (byte ≠ 0)) (l := text)).length_le
  refine lt_of_le_of_ne hle fun heq => ?_
  have hsame := (List.takeWhile_prefix (fun byte : BitVec 8 => decide (byte ≠ 0))).eq_of_length heq
  have hnul := List.takeWhile_eq_self_iff.mp hsame 0 h
  exact of_decide_eq_true hnul rfl

/-- A newline is no NUL. -/
theorem nul_not_mem_newline (access : RegisterAccess) : (0 : BitVec 8) ∉ newlineWritten access := by
  unfold newlineWritten
  split
  · split_ifs with hnewline
    · exact fun h => absurd (List.mem_singleton.mp h) (by decide)
    · exact List.not_mem_nil
  · exact List.not_mem_nil

/-- The bytes of the complete lines are determined by the split. -/
theorem completeLines_eq {front : List (BitVec 8)} (h : bytes = front ++ pendingLine bytes) :
    completeLines bytes = front := by
  have hlen : bytes.length - (pendingLine bytes).length = front.length := by
    have := congrArg List.length h
    rw [List.length_append] at this
    omega
  rw [completeLines, hlen]
  conv_lhs => rw [h]
  exact List.take_left

/-- A byte that goes elsewhere does not matter. -/
theorem Follows.other {t : Transcript} (h : Follows t) {uart' : Vmd8250Uart}
    (hbuffer : uart'.outputBuffer = t.uart.outputBuffer)
    (hsize : uart'.outputBufferSize = t.uart.outputBufferSize) :
    Follows ⟨uart', t.written ++ [], t.printed ++ []⟩ := by
  rw [List.append_nil, List.append_nil]
  exact ⟨by rw [UartOutput.pending, hbuffer, hsize]; exact h.pending, by rw [hsize]; exact h.size,
    h.short, h.split, h.whole, h.cut⟩

/-- A byte for the line buffer is appended to the line, or ends it. -/
theorem Follows.data {t : Transcript} (h : Follows t) (vmName : String) (byte : BitVec 8) :
    Follows ⟨(vmd8250UartPutc vmName t.uart byte).1, t.written ++ [byte],
      t.printed ++ (vmd8250UartPutc vmName t.uart byte).2.flatMap
        (flushedText (.write .data byte))⟩ := by
  obtain ⟨hpending, hsize, hlines⟩ := @putc_spec _ vmName _ h.pending h.size h.short byte
  have hsnoc := pendingLine_snoc t.written byte
  have hshort : (lineStep (pendingLine t.written) byte).length < 127 := lineStep_length h.short
  have hsplit := h.split
  by_cases hend : byte = 0x0a ∨ (pendingLine t.written).length + 1 = 127
  · -- the line is printed
    have hnone : lineStep (pendingLine t.written) byte = [] := if_pos hend
    rw [hnone] at hpending hsize hsnoc hshort
    rw [if_pos hend] at hlines
    have hcomplete : completeLines (t.written ++ [byte]) = t.written ++ [byte] := by
      refine completeLines_eq ?_
      rw [hsnoc, List.append_nil]
    have hwritten : t.written ++ [byte] =
        completeLines t.written ++ (lineText (pendingLine t.written) byte ++
          newlineWritten (.write .data byte)) := by
      conv_lhs => rw [hsplit]
      rw [List.append_assoc, lineText, newlineWritten]
      split_ifs with hnewline
      · rw [hnewline]
      · rw [List.append_nil]
    have hprinted : (vmd8250UartPutc vmName t.uart byte).2.flatMap (flushedText (.write .data byte)) =
        (lineText (pendingLine t.written) byte).takeWhile (· ≠ 0) ++
          newlineWritten (.write .data byte) := by
      rw [hlines, List.flatMap_singleton]
      rfl
    refine
      { pending := hpending.trans hsnoc.symm
        size := by rw [hsnoc]; exact hsize
        short := by rw [hsnoc]; exact hshort
        split := by rw [hsnoc, hcomplete, List.append_nil]
        whole := fun hnul => ?_
        cut := fun hnul => ?_ }
    · rw [hcomplete, hwritten] at hnul ⊢
      simp only [List.mem_append, not_or] at hnul
      rw [hprinted, h.whole hnul.1, takeWhile_of_not_mem hnul.2.1]
    · rw [hcomplete, hwritten] at hnul ⊢
      rw [hprinted]
      simp only [List.length_append]
      have hle := h.length_le
      have htext := (List.takeWhile_prefix (fun byte : BitVec 8 => decide (byte ≠ 0))
        (l := lineText (pendingLine t.written) byte)).length_le
      cases List.mem_append.mp hnul with
      | inl hbefore =>
        have hcut := h.cut hbefore
        omega
      | inr hnew =>
        cases List.mem_append.mp hnew with
        | inl hline =>
          have hcut := takeWhile_length_lt hline
          omega
        | inr hnewline => exact absurd hnewline (nul_not_mem_newline _)
  · -- the line goes on
    have hmore : lineStep (pendingLine t.written) byte = pendingLine t.written ++ [byte] := if_neg hend
    rw [if_neg hend] at hlines
    have hcomplete : completeLines (t.written ++ [byte]) = completeLines t.written := by
      refine completeLines_eq ?_
      rw [hsnoc, hmore, ← List.append_assoc, ← hsplit]
    refine
      { pending := hpending.trans hsnoc.symm
        size := by rw [hsnoc]; exact hsize
        short := by rw [hsnoc]; exact hshort
        split := by rw [hsnoc, hcomplete, hmore, ← List.append_assoc, ← hsplit]
        whole := fun hnul => ?_
        cut := fun hnul => ?_ }
    · rw [hcomplete] at hnul ⊢
      rw [hlines, List.flatMap_nil, List.append_nil]
      exact h.whole hnul
    · rw [hcomplete] at hnul ⊢
      rw [hlines, List.flatMap_nil, List.append_nil]
      exact h.cut hnul

/-- Every access is served and followed. -/
theorem Follows.access {t : Transcript} (h : Follows t) (vmName : String) (access : RegisterAccess) :
    ∃ uart' lines, registerAccess vmName t.uart access = .ok (uart', lines) ∧
      Follows ⟨uart', t.written ++ dataWritten t.uart access,
        t.printed ++ lines.flatMap (flushedText access)⟩ := by
  cases access with
  | read register =>
    exact ⟨t.uart, [], registerAccess_read vmName t.uart register, h.other rfl rfl⟩
  | write register value =>
    by_cases hdata : register = .data ∧ dlab t.uart = false
    · obtain ⟨rfl, hdlab⟩ := hdata
      have hwritten : dataWritten t.uart (.write .data value) = [value] := by
        rw [dataWritten, hdlab]
        rfl
      refine ⟨_, _, registerAccess_data hdlab value, ?_⟩
      rw [hwritten]
      exact h.data vmName value
    · have hdlab : register = .data → dlab t.uart = true := fun hr => by
        rw [← Bool.not_eq_false]
        exact fun hf => hdata ⟨hr, hf⟩
      have hwritten : dataWritten t.uart (.write register value) = [] := by
        cases register with
        | data => rw [dataWritten, hdlab rfl, if_pos rfl]
        | _ => rfl
      refine ⟨_, _, registerAccess_write hdlab value, ?_⟩
      obtain ⟨hbuffer, hsize⟩ := writtenUart_buffer t.uart value register
      rw [hwritten]
      exact h.other hbuffer hsize

/-- Every run of accesses is served and followed. -/
theorem Follows.run {t : Transcript} (h : Follows t) (vmName : String)
    (accesses : List RegisterAccess) : ∃ t', transcribe vmName t accesses = .ok t' ∧ Follows t' := by
  induction accesses generalizing t with
  | nil => exact ⟨t, rfl, h⟩
  | cons access rest ih =>
    obtain ⟨uart₁, lines, haccess, h₁⟩ := h.access vmName access
    obtain ⟨t', hrest, h'⟩ := ih h₁
    refine ⟨t', ?_, h'⟩
    rw [transcribe, haccess]
    exact hrest

/-- Nothing is written or printed yet. -/
def newTranscript (portBase : BitVec 16) (portName : String) : Transcript :=
  ⟨newUart portBase portName, [], []⟩

/-- From creation on, the printed lines and the pending bytes are what was written
exactly when no complete line holds a NUL. -/
theorem output_whole_iff (vmName portName : String) (portBase : BitVec 16)
    (accesses : List RegisterAccess) :
    ∃ t, transcribe vmName (newTranscript portBase portName) accesses = .ok t ∧
      (t.printed ++ pending t.uart = t.written ↔ 0 ∉ completeLines t.written) := by
  have hnew : Follows (newTranscript portBase portName) :=
    ⟨rfl, rfl, Nat.zero_lt_succ _, rfl, fun _ => rfl, fun hnul => absurd hnul List.not_mem_nil⟩
  obtain ⟨t, hrun, h⟩ := hnew.run vmName accesses
  refine ⟨t, hrun, ?_⟩
  rw [h.pending]
  constructor
  · intro heq hnul
    have hcut := h.cut hnul
    have hsame := heq.trans h.split
    rw [List.append_left_inj] at hsame
    rw [hsame] at hcut
    exact lt_irrefl _ hcut
  · intro hnul
    rw [h.whole hnul]
    exact h.split.symm

/-- After a NUL the rest of the line is lost. -/
theorem output_cut :
    ∃ t, transcribe "guest" (newTranscript 0x3f8 "com1")
        [.write .data 0x41, .write .data 0, .write .data 0x42, .write .data 0x0a] = .ok t ∧
      t.written = [0x41, 0, 0x42, 0x0a] ∧ t.printed ++ pending t.uart = [0x41, 0x0a] ∧
      t.printed ++ pending t.uart ≠ t.written := by
  have hrun : (match transcribe "guest" (newTranscript 0x3f8 "com1")
      [.write .data 0x41, .write .data 0, .write .data 0x42, .write .data 0x0a] with
      | .ok t => decide (t.written = [0x41, 0, 0x42, 0x0a] ∧
          t.printed ++ pending t.uart = [0x41, 0x0a] ∧ t.printed ++ pending t.uart ≠ t.written)
      | .error _ => false) = true := by
    decide +kernel
  split at hrun
  · rename_i t htranscribe
    exact ⟨t, htranscribe, of_decide_eq_true hrun⟩
  · cases hrun

end Rkhv.UartOutput
