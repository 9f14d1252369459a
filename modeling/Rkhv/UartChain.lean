import Rkhv.VmIoPorts

/-!
# A machine with a chain of serial ports

A machine's device list is a chain of UARTs whose eight-port windows do not
meet. An access to a port of one of them reaches that one only, and any other
access reaches none and is printed.
-/

namespace Rkhv.UartChain

open ByteMemory HostTypes HostState StateOutcome Vmd8250Uart VmIoPorts

/-! ## The list of devices -/

/-- A UART in a machine's list: its device and what it was created with. -/
structure UartSlot where
  device : ℕ
  portBase : BitVec 16
  portName : String
  deriving DecidableEq

/-- No port lies in both windows. -/
def WindowsDisjoint (portBase portBase' : BitVec 16) : Prop :=
  ∀ port, InWindow portBase port → ¬InWindow portBase' port

/-- The list that starts with `first` has the given devices, in this order. -/
def DeviceChain (devices : List VmDevice) : Option ℕ → List ℕ → Prop
  | first, [] => first = none
  | first, d :: rest =>
    first = some d ∧ ∃ device, devices[d]? = some device ∧ DeviceChain devices device.next rest

/-- The devices of a chain are devices. -/
theorem lt_of_mem_chain {devices : List VmDevice} {first : Option ℕ} {chain : List ℕ} {d : ℕ}
    (hchain : DeviceChain devices first chain) (hd : d ∈ chain) : d < devices.length := by
  induction chain generalizing first with
  | nil => cases hd
  | cons e rest ih =>
    obtain ⟨_, device, hdevice, hrest⟩ := hchain
    cases List.mem_cons.mp hd with
    | inl he => exact he ▸ (List.getElem?_eq_some_iff.mp hdevice).1
    | inr hmem => exact ih hrest hmem

/-- Without repetitions a chain is no longer than the number of devices. -/
theorem chain_length_le {devices : List VmDevice} {first : Option ℕ} {chain : List ℕ}
    (hchain : DeviceChain devices first chain) (hnodup : chain.Nodup) :
    chain.length ≤ devices.length := by
  have hsub : chain ⊆ List.range devices.length := fun d hd =>
    List.mem_range.mpr (lt_of_mem_chain hchain hd)
  have hlen := (hnodup.subperm hsub).length_le
  rwa [List.length_range] at hlen

/-- The devices of a machine are UARTs with disjoint windows. -/
structure UartsOn (s : Hv) (vm : Word) (uarts : List UartSlot) : Prop where
  chain : DeviceChain s.deviceList (s.vmAt vm).devices (uarts.map UartSlot.device)
  uart : ∀ u ∈ uarts, ∃ next data, s.deviceList[u.device]? = some (uartDevice next data) ∧
    data.portBase = u.portBase ∧ data.portName = u.portName
  apart : uarts.Pairwise fun u v => WindowsDisjoint u.portBase v.portBase

/-- The data of a device. -/
def uartAt (s : Hv) (d : ℕ) : Option Vmd8250Uart := s.deviceList[d]?.map VmDevice.deviceData

theorem inWindow_self (portBase : BitVec 16) : InWindow portBase portBase := by
  rw [InWindow, BitVec.sub_self]
  decide

theorem WindowsDisjoint.symm {b b' : BitVec 16} (h : WindowsDisjoint b b') :
    WindowsDisjoint b' b := fun port hport hport' => h port hport' hport

/-- Two entries of the list are the same, or their windows are disjoint. -/
theorem UartsOn.disjoint {s : Hv} {vm : Word} {uarts : List UartSlot} (h : UartsOn s vm uarts)
    {u v : UartSlot} (hu : u ∈ uarts) (hv : v ∈ uarts) (hne : u ≠ v) :
    WindowsDisjoint u.portBase v.portBase :=
  haveI : Std.Symm fun u v : UartSlot => WindowsDisjoint u.portBase v.portBase :=
    ⟨fun _ _ => WindowsDisjoint.symm⟩
  h.apart.forall hu hv hne

/-- A device serves one entry of the list. -/
theorem UartsOn.device_inj {s : Hv} {vm : Word} {uarts : List UartSlot} (h : UartsOn s vm uarts)
    {u v : UartSlot} (hu : u ∈ uarts) (hv : v ∈ uarts) (heq : u.device = v.device) : u = v := by
  by_contra hne
  obtain ⟨_, data, hdev, hbase, _⟩ := h.uart u hu
  obtain ⟨_, data', hdev', hbase', _⟩ := h.uart v hv
  rw [heq, hdev'] at hdev
  have hdata : data' = data := congrArg VmDevice.deviceData (Option.some.inj hdev)
  have hsame : u.portBase = v.portBase := by rw [← hbase, ← hbase', hdata]
  have hwin := h.disjoint hu hv hne u.portBase (inWindow_self _)
  rw [hsame] at hwin
  exact hwin (inWindow_self _)

theorem UartsOn.nodup {s : Hv} {vm : Word} {uarts : List UartSlot} (h : UartsOn s vm uarts) :
    (uarts.map UartSlot.device).Nodup := by
  have hnodup : uarts.Nodup := by
    refine h.apart.imp fun {u v} hwin heq => ?_
    exact hwin u.portBase (inWindow_self _) (heq ▸ inWindow_self _)
  exact hnodup.map_on fun u hu v hv heq => h.device_inj hu hv heq

/-- The list is no longer than the number of devices. -/
theorem UartsOn.length_le {s : Hv} {vm : Word} {uarts : List UartSlot} (h : UartsOn s vm uarts) :
    uarts.length ≤ s.deviceList.length := by
  have hlen := chain_length_le h.chain h.nodup
  rwa [List.length_map] at hlen

/-! ## The lookup -/

/-- Whether a device that a UART serves has the port and a handler. -/
def serving (has : Bool) (port : BitVec 16) (u : UartSlot) : Bool :=
  decide (InWindow u.portBase port) && has

/-- The walk along a chain of UARTs finds the first one with the port. -/
theorem deviceLookup_chain {devices : List VmDevice} {port : BitVec 16} {hasHandler : VmDevice → Bool}
    {has : Bool} (hhas : ∀ next data, hasHandler (uartDevice next data) = has)
    (uarts : List UartSlot) {first : Option ℕ} {fuel : ℕ} (hfuel : uarts.length ≤ fuel)
    (hchain : DeviceChain devices first (uarts.map UartSlot.device))
    (huart : ∀ u ∈ uarts, ∃ next data, devices[u.device]? = some (uartDevice next data) ∧
      data.portBase = u.portBase) :
    deviceLookup devices port hasHandler fuel first =
      .ok ((uarts.find? (serving has port)).map UartSlot.device) := by
  induction uarts generalizing first fuel with
  | nil =>
    rw [List.map_nil, DeviceChain] at hchain
    rw [hchain, deviceLookup]
    rfl
  | cons u rest ih =>
    cases fuel with
    | zero => exact absurd hfuel (Nat.not_succ_le_zero _)
    | succ fuel =>
      rw [List.map_cons, DeviceChain] at hchain
      obtain ⟨hfirst, device, hdevice, hrest⟩ := hchain
      obtain ⟨next, data, hdata, hbase⟩ := huart u List.mem_cons_self
      have heq : device = uartDevice next data := Option.some.inj (hdevice.symm.trans hdata)
      rw [hfirst, deviceLookup, hdevice]
      have hmem : port ∈ device.ports ↔ InWindow u.portBase port := by
        rw [heq, ← hbase]
        exact mem_uartPorts
      have hhandler : hasHandler device = has := by rw [heq, hhas]
      have hnext := ih (Nat.le_of_succ_le_succ hfuel) hrest
        (fun v hv => huart v (List.mem_cons_of_mem u hv))
      by_cases hserve : serving has port u = true
      · rw [List.find?_cons_of_pos hserve]
        rw [serving, Bool.and_eq_true, decide_eq_true_eq] at hserve
        exact if_pos ⟨hmem.mpr hserve.1, by rw [hhandler, hserve.2]⟩
      · rw [List.find?_cons_of_neg hserve]
        rw [serving, Bool.and_eq_true, decide_eq_true_eq] at hserve
        have hskip : ¬(port ∈ device.ports ∧ hasHandler device = true) := by
          rwa [hmem, hhandler]
        exact (if_neg hskip).trans hnext

/-- What the lookup of one width finds in a machine of UARTs. -/
theorem UartsOn.lookup {s : Hv} {vm : Word} {uarts : List UartSlot} (h : UartsOn s vm uarts)
    (port : BitVec 16) (hasHandler : VmDevice → Bool) {has : Bool}
    (hhas : ∀ next data, hasHandler (uartDevice next data) = has) :
    deviceLookup s.deviceList port hasHandler s.deviceList.length (s.vmAt vm).devices =
      .ok ((uarts.find? (serving has port)).map UartSlot.device) :=
  deviceLookup_chain hhas uarts h.length_le h.chain fun u hu => by
    obtain ⟨next, data, hdev, hbase, _⟩ := h.uart u hu
    exact ⟨next, data, hdev, hbase⟩

/-- Only the UART whose window holds the port is found. -/
theorem UartsOn.find {s : Hv} {vm : Word} {uarts : List UartSlot} (h : UartsOn s vm uarts)
    {port : BitVec 16} {u : UartSlot} (hu : u ∈ uarts) (hport : InWindow u.portBase port) :
    uarts.find? (serving true port) = some u := by
  cases hfind : uarts.find? (serving true port) with
  | none =>
    have hnot := List.find?_eq_none.mp hfind u hu
    simp only [serving, hport, decide_true, Bool.and_self, not_true_eq_false] at hnot
  | some v =>
    have hv : v ∈ uarts := List.mem_of_find?_eq_some hfind
    have hserve := List.find?_some hfind
    rw [serving, Bool.and_true, decide_eq_true_eq] at hserve
    by_contra hne
    have hwin := h.disjoint hu hv (fun heq => hne (heq ▸ rfl)) port hport
    exact hwin hserve

theorem find_none {port : BitVec 16} {uarts : List UartSlot} {has : Bool}
    (h : has = true → ∀ u ∈ uarts, ¬InWindow u.portBase port) :
    uarts.find? (serving has port) = none := by
  refine List.find?_eq_none.mpr fun u hu hserve => ?_
  rw [serving, Bool.and_eq_true, decide_eq_true_eq] at hserve
  exact h hserve.2 u hu hserve.1

/-! ## One access -/

/-- The line that an access prints that no device takes. -/
def missedLine (vmName : String) : PortAccess → ConsoleEvent
  | .outb port value => .unexpectedOut vmName 1 port (value.zeroExtend 32)
  | .outw port value => .unexpectedOut vmName 2 port (value.zeroExtend 32)
  | .outd port value => .unexpectedOut vmName 4 port (value.zeroExtend 32)
  | .inb port => .unexpectedIn vmName 1 port
  | .inw port => .unexpectedIn vmName 2 port
  | .ind port => .unexpectedIn vmName 4 port

/-- What an access reads that no device takes. -/
def missedValue : PortAccess → Option (BitVec 32)
  | .outb .. | .outw .. | .outd .. => none
  | .inb _ | .inw _ | .ind _ => some 0

/-- What a UART answers to an access to its window: bytes go to its handlers,
and it has no handlers for wider accesses. -/
def uartAnswer (vmName : String) (uart : Vmd8250Uart) :
    PortAccess → HandlerResult (Option (BitVec 32))
  | .outb port value => (vmd8250UartOutbHandler vmName uart port value).map fun answer =>
    (none, answer.2)
  | .inb port => (vmd8250UartInbHandler vmName uart port).map fun answer =>
    (some (answer.1.zeroExtend 32), answer.2)
  | access => .ok (missedValue access, uart, [missedLine vmName access])

/-- The state after a device was left with new data and lines were printed. -/
def servedState (s : Hv) (d : ℕ) (uart : Vmd8250Uart) (lines : List ConsoleEvent) : Hv :=
  { s with
    deviceList := s.deviceList.modify d fun device => { device with deviceData := uart }
    console := lines.reverse ++ s.console }

/-- Storing the data that a device already has changes nothing. -/
theorem modify_same {devices : List VmDevice} {d : ℕ} {next : Option ℕ} {data : Vmd8250Uart}
    (h : devices[d]? = some (uartDevice next data)) :
    devices.modify d (fun device => { device with deviceData := data }) = devices := by
  refine List.ext_getElem? fun e => ?_
  rw [List.getElem?_modify]
  by_cases he : d = e
  · rw [← he, h]
    simp only [if_true, Option.map_eq_map, Option.map_some, uartDevice]
  · simp only [he, if_false, Option.map_eq_map, Option.map_id']

/-- A wide access, or one to a port of no UART, is printed. -/
theorem vmOutDeviceLookup_missed {w : ℕ} {handler : VmDevice → Option (OutHandler w)} {s : Hv}
    {vm : Word} {uarts : List UartSlot} (h : UartsOn s vm uarts) (has : Bool) {port : BitVec 16}
    (hhas : ∀ next data, (handler (uartDevice next data)).isSome = has)
    (hport : has = true → ∀ u ∈ uarts, ¬InWindow u.portBase port) (value : BitVec w) :
    vmOutDeviceLookup handler vm port value s =
      logLine (.unexpectedOut (s.vmAt vm).name (w / 8) port (value.zeroExtend 32)) s := by
  have hlookup := h.lookup port (fun device => (handler device).isSome) hhas
  rw [find_none hport, Option.map_none] at hlookup
  rw [vmOutDeviceLookup, bind_of_ok (get_eq_ok.mpr ⟨rfl, rfl⟩), hlookup]

theorem vmInDeviceLookup_missed {w : ℕ} {handler : VmDevice → Option (InHandler w)} {s : Hv}
    {vm : Word} {uarts : List UartSlot} (h : UartsOn s vm uarts) (has : Bool) {port : BitVec 16}
    (hhas : ∀ next data, (handler (uartDevice next data)).isSome = has)
    (hport : has = true → ∀ u ∈ uarts, ¬InWindow u.portBase port) :
    vmInDeviceLookup handler vm port s =
      (do
        logLine (.unexpectedIn (s.vmAt vm).name (w / 8) port)
        return 0) s := by
  have hlookup := h.lookup port (fun device => (handler device).isSome) hhas
  rw [find_none hport, Option.map_none] at hlookup
  rw [vmInDeviceLookup, bind_of_ok (get_eq_ok.mpr ⟨rfl, rfl⟩), hlookup]

/-- The state after a line was printed. -/
def loggedState (s : Hv) (line : ConsoleEvent) : Hv := { s with console := line :: s.console }

/-- The result of an access that no device takes. -/
theorem portAccess_missed {s : Hv} {vm : Word} {uarts : List UartSlot} (h : UartsOn s vm uarts)
    {access : PortAccess} (hport : ∀ u ∈ uarts, ¬InWindow u.portBase access.port) :
    portAccess vm access s =
      .ok (missedValue access) (loggedState s (missedLine (s.vmAt vm).name access)) := by
  cases access with
  | outb port value =>
    have hout := @vmOutDeviceLookup_missed _ VmDevice.outbHandler _ _ _ h true port
      (fun _ _ => rfl) (fun _ => hport) value
    exact (bind_of_ok hout).trans rfl
  | outw port value =>
    have hout := @vmOutDeviceLookup_missed _ VmDevice.outwHandler _ _ _ h false port
      (fun _ _ => rfl) (fun hf => by cases hf) value
    exact (bind_of_ok hout).trans rfl
  | outd port value =>
    have hout := @vmOutDeviceLookup_missed _ VmDevice.outdHandler _ _ _ h false port
      (fun _ _ => rfl) (fun hf => by cases hf) value
    exact (bind_of_ok hout).trans rfl
  | inb port =>
    have hin := @vmInDeviceLookup_missed _ VmDevice.inbHandler _ _ _ h true port
      (fun _ _ => rfl) (fun _ => hport)
    exact (bind_of_ok hin).trans rfl
  | inw port =>
    have hin := @vmInDeviceLookup_missed _ VmDevice.inwHandler _ _ _ h false port
      (fun _ _ => rfl) (fun hf => by cases hf)
    exact (bind_of_ok hin).trans rfl
  | ind port =>
    have hin := @vmInDeviceLookup_missed _ VmDevice.indHandler _ _ _ h false port
      (fun _ _ => rfl) (fun hf => by cases hf)
    exact (bind_of_ok hin).trans rfl

/-- An access to a window that its UART has a handler for. -/
theorem vmOutDeviceLookup_served {w : ℕ} {handler : VmDevice → Option (OutHandler w)} {s : Hv}
    {vm : Word} {uarts : List UartSlot} (h : UartsOn s vm uarts) {run : OutHandler w}
    (hrun : ∀ next data, handler (uartDevice next data) = some run) {u : UartSlot} (hu : u ∈ uarts)
    {port : BitVec 16} (hport : InWindow u.portBase port) {next : Option ℕ} {data : Vmd8250Uart}
    (hdev : s.deviceList[u.device]? = some (uartDevice next data)) (value : BitVec w) :
    vmOutDeviceLookup handler vm port value s =
      finishHandler u.device (run (s.vmAt vm).name data port value) s := by
  have hlookup := h.lookup port (fun device => (handler device).isSome) (fun next data => by
    rw [hrun next data, Option.isSome_some])
  rw [h.find hu hport, Option.map_some] at hlookup
  rw [vmOutDeviceLookup, bind_of_ok (get_eq_ok.mpr ⟨rfl, rfl⟩), hlookup]
  dsimp only
  rw [hdev]
  dsimp only
  rw [hrun]
  rfl

theorem vmInDeviceLookup_served {w : ℕ} {handler : VmDevice → Option (InHandler w)} {s : Hv}
    {vm : Word} {uarts : List UartSlot} (h : UartsOn s vm uarts) {run : InHandler w}
    (hrun : ∀ next data, handler (uartDevice next data) = some run) {u : UartSlot} (hu : u ∈ uarts)
    {port : BitVec 16} (hport : InWindow u.portBase port) {next : Option ℕ} {data : Vmd8250Uart}
    (hdev : s.deviceList[u.device]? = some (uartDevice next data)) :
    vmInDeviceLookup handler vm port s =
      finishHandler u.device (run (s.vmAt vm).name data port) s := by
  have hlookup := h.lookup port (fun device => (handler device).isSome) (fun next data => by
    rw [hrun next data, Option.isSome_some])
  rw [h.find hu hport, Option.map_some] at hlookup
  rw [vmInDeviceLookup, bind_of_ok (get_eq_ok.mpr ⟨rfl, rfl⟩), hlookup]
  dsimp only
  rw [hdev]
  dsimp only
  rw [hrun]
  rfl

/-- What follows a handler can be done to the value it returned. -/
theorem finishHandler_map {α β : Type} (d : ℕ) (result : HandlerResult α) (f : α → β) (s : Hv) :
    (finishHandler d result >>= fun value => pure (f value)) s =
      finishHandler d (result.map fun answer => (f answer.1, answer.2)) s := by
  cases result <;> rfl

/-- The result of an access to the window of a UART. -/
theorem portAccess_served {s : Hv} {vm : Word} {uarts : List UartSlot} (h : UartsOn s vm uarts)
    {u : UartSlot} (hu : u ∈ uarts) {access : PortAccess} (hport : InWindow u.portBase access.port)
    {next : Option ℕ} {data : Vmd8250Uart}
    (hdev : s.deviceList[u.device]? = some (uartDevice next data)) :
    portAccess vm access s =
      finishHandler u.device (uartAnswer (s.vmAt vm).name data access) s := by
  have hlogged : ∀ line, loggedState s line = servedState s u.device data [line] := fun line => by
    rw [loggedState, servedState, modify_same hdev]
    rfl
  cases access with
  | outb port value =>
    have hout := @vmOutDeviceLookup_served _ VmDevice.outbHandler _ _ _ h _ (fun _ _ => rfl) _ hu
      _ hport _ _ hdev value
    exact (bind_of_eq hout).trans (finishHandler_map _ _ (fun _ => none) s)
  | outw port value =>
    have hout := @vmOutDeviceLookup_missed _ VmDevice.outwHandler _ _ _ h false port
      (fun _ _ => rfl) (fun hf => by cases hf) value
    exact (bind_of_ok hout).trans (congrArg _ (hlogged _))
  | outd port value =>
    have hout := @vmOutDeviceLookup_missed _ VmDevice.outdHandler _ _ _ h false port
      (fun _ _ => rfl) (fun hf => by cases hf) value
    exact (bind_of_ok hout).trans (congrArg _ (hlogged _))
  | inb port =>
    have hin := @vmInDeviceLookup_served _ VmDevice.inbHandler _ _ _ h _ (fun _ _ => rfl) _ hu
      _ hport _ _ hdev
    exact (bind_of_eq hin).trans
      (finishHandler_map _ _ (fun value : BitVec 8 => some (value.zeroExtend 32)) s)
  | inw port =>
    have hin := @vmInDeviceLookup_missed _ VmDevice.inwHandler _ _ _ h false port
      (fun _ _ => rfl) (fun hf => by cases hf)
    exact (bind_of_ok hin).trans (congrArg _ (hlogged _))
  | ind port =>
    have hin := @vmInDeviceLookup_missed _ VmDevice.indHandler _ _ _ h false port
      (fun _ _ => rfl) (fun hf => by cases hf)
    exact (bind_of_ok hin).trans (congrArg _ (hlogged _))

/-- The answer of a UART that was created with the slot's base and name. -/
structure Answered (vmName : String) (access : PortAccess) (u : UartSlot) (data data' : Vmd8250Uart)
    (value : Option (BitVec 32)) (lines : List ConsoleEvent) : Prop where
  answer : uartAnswer vmName data access = .ok (value, data', lines)
  base : data'.portBase = u.portBase
  name : data'.portName = u.portName
  lines : ∀ line ∈ lines, consolePort line = some u.portName ∨ consolePort line = none

/-- Every access to the window is answered: the handlers reach no panic. -/
theorem answered (vmName : String) {access : PortAccess} {u : UartSlot} {data : Vmd8250Uart}
    (hbase : data.portBase = u.portBase) (hname : data.portName = u.portName)
    (hport : InWindow u.portBase access.port) :
    ∃ value data' lines, Answered vmName access u data data' value lines := by
  rw [← hbase] at hport
  have hmissed : ∀ access', uartAnswer vmName data access' =
      .ok (missedValue access', data, [missedLine vmName access']) →
      ∃ value data' lines, Answered vmName access' u data data' value lines := fun access' ha => by
    refine ⟨_, _, _, ha, hbase, hname, fun line hline => ?_⟩
    rw [List.mem_singleton.mp hline]
    cases access' <;> exact .inr rfl
  cases access with
  | outb port value =>
    have hserves := serves_outb hport vmName value
    obtain ⟨_, data', lines, hresult, hbase', hname', hlines⟩ := hserves
    refine ⟨none, data', lines, ?_, hbase'.trans hbase, hname'.trans hname,
      fun line hline => .inl ((hlines line hline).trans (congrArg some hname))⟩
    exact congrArg (Except.map _) hresult
  | inb port =>
    have hserves := serves_inb hport vmName
    obtain ⟨value, data', lines, hresult, hbase', hname', hlines⟩ := hserves
    refine ⟨some (value.zeroExtend 32), data', lines, ?_, hbase'.trans hbase, hname'.trans hname,
      fun line hline => .inl ((hlines line hline).trans (congrArg some hname))⟩
    exact congrArg (Except.map _) hresult
  | outw port value => exact hmissed _ rfl
  | outd port value => exact hmissed _ rfl
  | inw port => exact hmissed _ rfl
  | ind port => exact hmissed _ rfl

/-! ## The list after an access -/

/-- A chain depends on the links of its devices only. -/
theorem DeviceChain.congr {devices devices' : List VmDevice} {first : Option ℕ} {chain : List ℕ}
    (hsame : ∀ d ∈ chain, (devices'[d]?).map VmDevice.next = (devices[d]?).map VmDevice.next)
    (h : DeviceChain devices first chain) : DeviceChain devices' first chain := by
  induction chain generalizing first with
  | nil => exact h
  | cons d rest ih =>
    obtain ⟨hfirst, device, hdevice, hrest⟩ := h
    have hnext := hsame d List.mem_cons_self
    rw [hdevice, Option.map_some, Option.map_eq_some_iff] at hnext
    obtain ⟨device', hdevice', hnext'⟩ := hnext
    refine ⟨hfirst, device', hdevice', ?_⟩
    rw [hnext']
    exact ih (fun e he => hsame e (List.mem_cons_of_mem d he)) hrest

theorem servedState_same (s : Hv) {d : ℕ} {next : Option ℕ} {data : Vmd8250Uart}
    (hdev : s.deviceList[d]? = some (uartDevice next data)) {data' : Vmd8250Uart}
    (hbase : data'.portBase = data.portBase) (lines : List ConsoleEvent) :
    (servedState s d data' lines).deviceList[d]? = some (uartDevice next data') := by
  rw [servedState, List.getElem?_modify_eq, hdev, Option.map_eq_map, Option.map_some, uartDevice,
    uartDevice, hbase]

theorem servedState_other (s : Hv) {d e : ℕ} (hne : d ≠ e) (data : Vmd8250Uart)
    (lines : List ConsoleEvent) :
    (servedState s d data lines).deviceList[e]? = s.deviceList[e]? :=
  List.getElem?_modify_ne _ _ hne

/-- An answered access keeps the list. -/
theorem UartsOn.served {s : Hv} {vm : Word} {uarts : List UartSlot} (h : UartsOn s vm uarts)
    {u : UartSlot} (hu : u ∈ uarts) {next : Option ℕ} {data data' : Vmd8250Uart}
    (hdev : s.deviceList[u.device]? = some (uartDevice next data))
    (hdata : data.portBase = u.portBase) (hbase : data'.portBase = u.portBase)
    (hname : data'.portName = u.portName) (lines : List ConsoleEvent) :
    UartsOn (servedState s u.device data' lines) vm uarts := by
  have hsame := servedState_same s hdev (hbase.trans hdata.symm) lines
  refine ⟨h.chain.congr fun d _ => ?_, fun v hv => ?_, h.apart⟩
  · by_cases hd : u.device = d
    · rw [← hd, hsame, hdev]
      rfl
    · rw [servedState_other s hd]
  · by_cases hd : u.device = v.device
    · obtain rfl := h.device_inj hu hv hd
      exact ⟨next, data', hsame, hbase, hname⟩
    · rw [servedState_other s hd]
      exact h.uart v hv

theorem UartsOn.logged {s : Hv} {vm : Word} {uarts : List UartSlot} (h : UartsOn s vm uarts)
    (line : ConsoleEvent) : UartsOn (loggedState s line) vm uarts := ⟨h.chain, h.uart, h.apart⟩

/-- An access shows its value and the lines it added to the console. -/
theorem shownAccess_of {vm : Word} {access : PortAccess} {s t : Hv} {value : Option (BitVec 32)}
    {lines : List ConsoleEvent} (h : portAccess vm access s = .ok value t)
    (hlines : t.console = lines.reverse ++ s.console) :
    shownAccess vm access s = .ok (value, lines) t := by
  have hnew : t.console.take (t.console.length - s.console.length) = lines.reverse := by
    rw [hlines, List.length_append, Nat.add_sub_cancel, List.take_left']
    rfl
  rw [shownAccess, bind_of_ok (get_eq_ok.mpr ⟨rfl, rfl⟩), bind_of_ok h,
    bind_of_ok (get_eq_ok.mpr ⟨rfl, rfl⟩), hnew, List.reverse_reverse]
  rfl

/-- An access to the window of a UART is answered by it. -/
theorem shownAccess_served {s : Hv} {vm : Word} {uarts : List UartSlot} (h : UartsOn s vm uarts)
    {u : UartSlot} (hu : u ∈ uarts) {access : PortAccess}
    (hport : InWindow u.portBase access.port) :
    ∃ data data' value lines, uartAt s u.device = some data ∧
      Answered (s.vmAt vm).name access u data data' value lines ∧
      shownAccess vm access s = .ok (value, lines) (servedState s u.device data' lines) ∧
      UartsOn (servedState s u.device data' lines) vm uarts ∧
      uartAt (servedState s u.device data' lines) u.device = some data' := by
  obtain ⟨next, data, hdev, hbase, hname⟩ := h.uart u hu
  obtain ⟨value, data', lines, ha⟩ := answered (s.vmAt vm).name hbase hname hport
  refine ⟨data, data', value, lines, ?_, ha, ?_, h.served hu hdev hbase ha.base ha.name lines, ?_⟩
  · rw [uartAt, hdev]
    rfl
  · refine shownAccess_of ?_ rfl
    rw [portAccess_served h hu hport hdev, ha.answer]
    rfl
  · rw [uartAt, servedState_same s hdev (ha.base.trans hbase.symm)]
    rfl

/-- Any other access is printed. -/
theorem shownAccess_missed {s : Hv} {vm : Word} {uarts : List UartSlot} (h : UartsOn s vm uarts)
    {access : PortAccess} (hport : ∀ u ∈ uarts, ¬InWindow u.portBase access.port) :
    shownAccess vm access s = .ok (missedValue access, [missedLine (s.vmAt vm).name access])
      (loggedState s (missedLine (s.vmAt vm).name access)) :=
  shownAccess_of (portAccess_missed h hport) rfl

end Rkhv.UartChain
