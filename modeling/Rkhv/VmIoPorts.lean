import Rkhv.Vmd8250Uart

/-!
# Port accesses of a machine

`vm_out*` and `vm_in*` of `vm_ioports.c` give an access to the first device in
the machine's list that has the port and a handler of the access's width. An
access that no device takes is printed and otherwise ignored, and reads zero.
-/

namespace Rkhv.VmIoPorts

open ByteMemory HostTypes HostState StateOutcome

/-- The walk of a lookup along `next`: the first device with the port and a
handler. A walk longer than the number of devices goes round in a circle. -/
def deviceLookup (devices : List VmDevice) (port : BitVec 16) (hasHandler : VmDevice → Bool) :
    ℕ → Option ℕ → Except Fault (Option ℕ)
  | _, none => .ok none
  | 0, some _ => .error .hang
  | fuel + 1, some d =>
    match devices[d]? with
    | none => .error .nullPointer
    | some device =>
      if port ∈ device.ports ∧ hasHandler device then .ok (some d)
      else deviceLookup devices port hasHandler fuel device.next

/-- Store what a handler left in the device's data and print its lines. -/
def finishHandler {α : Type} (d : ℕ) (result : HandlerResult α) : HvM α :=
  match result with
  | .error message => panicWith message
  | .ok (value, uart, lines) => do
    modify fun s => { s with
      deviceList := s.deviceList.modify d fun device => { device with deviceData := uart }
      console := lines.reverse ++ s.console }
    return value

/-- Print one line. -/
def logLine (line : ConsoleEvent) : HvM Unit := modify fun s => { s with console := line :: s.console }

/-- `VM_OUT_DEVICE_LOOKUP(size, type)`, for the handlers of one width. -/
def vmOutDeviceLookup {w : ℕ} (handler : VmDevice → Option (OutHandler w)) (vm : Word)
    (port : BitVec 16) (value : BitVec w) : HvM Unit := do
  let s ← get
  match deviceLookup s.deviceList port (fun device => (handler device).isSome)
      s.deviceList.length (s.vmAt vm).devices with
  | .error e => throw e
  | .ok none => logLine (.unexpectedOut (s.vmAt vm).name (w / 8) port (value.zeroExtend 32))
  | .ok (some d) =>
    match s.deviceList[d]? with
    | none => throw .nullPointer
    | some device =>
      match handler device with
      | none => throw .nullPointer
      | some run => finishHandler d (run (s.vmAt vm).name device.deviceData port value)

/-- `VM_IN_DEVICE_LOOKUP(size, type)`, for the handlers of one width. -/
def vmInDeviceLookup {w : ℕ} (handler : VmDevice → Option (InHandler w)) (vm : Word)
    (port : BitVec 16) : HvM (BitVec w) := do
  let s ← get
  match deviceLookup s.deviceList port (fun device => (handler device).isSome)
      s.deviceList.length (s.vmAt vm).devices with
  | .error e => throw e
  | .ok none =>
    logLine (.unexpectedIn (s.vmAt vm).name (w / 8) port)
    return 0
  | .ok (some d) =>
    match s.deviceList[d]? with
    | none => throw .nullPointer
    | some device =>
      match handler device with
      | none => throw .nullPointer
      | some run => finishHandler d (run (s.vmAt vm).name device.deviceData port)

/-- `vm_outb` -/
def vmOutb (vm : Word) (port : BitVec 16) (value : BitVec 8) : HvM Unit :=
  vmOutDeviceLookup VmDevice.outbHandler vm port value

/-- `vm_outw` -/
def vmOutw (vm : Word) (port : BitVec 16) (value : BitVec 16) : HvM Unit :=
  vmOutDeviceLookup VmDevice.outwHandler vm port value

/-- `vm_outd` -/
def vmOutd (vm : Word) (port : BitVec 16) (value : BitVec 32) : HvM Unit :=
  vmOutDeviceLookup VmDevice.outdHandler vm port value

/-- `vm_inb` -/
def vmInb (vm : Word) (port : BitVec 16) : HvM (BitVec 8) :=
  vmInDeviceLookup VmDevice.inbHandler vm port

/-- `vm_inw` -/
def vmInw (vm : Word) (port : BitVec 16) : HvM (BitVec 16) :=
  vmInDeviceLookup VmDevice.inwHandler vm port

/-- `vm_ind` -/
def vmInd (vm : Word) (port : BitVec 16) : HvM (BitVec 32) :=
  vmInDeviceLookup VmDevice.indHandler vm port

/-- `vm_manager_register_device` -/
def vmManagerRegisterDevice (vm : Word) (d : ℕ) : HvM Unit := do
  let s ← get
  match s.deviceList[d]? with
  | none => throw .nullPointer
  | some device =>
    if device.next ≠ none then
      panicWith "Registering a device that is probably already registered"
    else
      modify fun s => { s with
        deviceList := s.deviceList.modify d fun device =>
          { device with next := (s.vmAt vm).devices }
        vmAt := Function.update s.vmAt vm { s.vmAt vm with devices := some d } }

/-- An access of a machine to a port. -/
inductive PortAccess where
  | outb (port : BitVec 16) (value : BitVec 8)
  | outw (port : BitVec 16) (value : BitVec 16)
  | outd (port : BitVec 16) (value : BitVec 32)
  | inb (port : BitVec 16)
  | inw (port : BitVec 16)
  | ind (port : BitVec 16)
  deriving DecidableEq

/-- The port of an access. -/
def PortAccess.port : PortAccess → BitVec 16
  | outb port _ => port
  | outw port _ => port
  | outd port _ => port
  | inb port => port
  | inw port => port
  | ind port => port

/-- Perform an access; what an `in` reads is extended with zeros. -/
def portAccess (vm : Word) : PortAccess → HvM (Option (BitVec 32))
  | .outb port value => do
    vmOutb vm port value
    return none
  | .outw port value => do
    vmOutw vm port value
    return none
  | .outd port value => do
    vmOutd vm port value
    return none
  | .inb port => do
    let value ← vmInb vm port
    return some (value.zeroExtend 32)
  | .inw port => do
    let value ← vmInw vm port
    return some (value.zeroExtend 32)
  | .ind port => do
    let value ← vmInd vm port
    return some value

/-- An access together with the lines that it prints, oldest first. -/
def shownAccess (vm : Word) (access : PortAccess) : HvM (Option (BitVec 32) × List ConsoleEvent) := do
  let before ← get
  let value ← portAccess vm access
  let after ← get
  return (value, (after.console.take (after.console.length - before.console.length)).reverse)

end Rkhv.VmIoPorts
