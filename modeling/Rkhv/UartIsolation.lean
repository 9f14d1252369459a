import Rkhv.ComponentRuns
import Rkhv.HostRuns
import Rkhv.UartChain

/-!
# Serial ports of one machine do not interfere

Each UART of a machine, with the accesses to its window, is a separate component
of the machine. For two UARTs that are created and registered in either order,
every run of accesses then looks to each of them like the run of its own ones.
-/

namespace Rkhv.UartIsolation

open ByteMemory HostTypes HostState StateOutcome ComponentRuns Vmd8250Uart VmIoPorts UartChain
open FreePages Arenas HostRuns

/-- Whether an access is to the window of a UART. -/
def ownAccess (u : UartSlot) (access : PortAccess) : Bool :=
  decide (InWindow u.portBase access.port)

/-- The printed lines under a port's name. -/
def linesOf (portName : String) (console : List ConsoleEvent) : List ConsoleEvent :=
  console.filter fun line => consolePort line = some portName

/-- What a UART sees of a machine: its data and, where its name is its own, the
lines printed under that name. -/
def uartView (u : UartSlot) (named : Bool) (s : Hv) : Option Vmd8250Uart × List ConsoleEvent :=
  (uartAt s u.device, if named then linesOf u.portName s.console else [])

/-- Lines of other ports do not count. -/
theorem linesOf_append_foreign {portName : String} {lines console : List ConsoleEvent}
    (h : ∀ line ∈ lines, consolePort line ≠ some portName) :
    linesOf portName (lines.reverse ++ console) = linesOf portName console := by
  have hnone : linesOf portName lines.reverse = [] := by
    refine List.filter_eq_nil_iff.mpr fun line hline => ?_
    rw [decide_eq_true_eq]
    exact h line (List.mem_reverse.mp hline)
  rw [linesOf, List.filter_append]
  exact congrArg (· ++ linesOf portName console) hnone

theorem consolePort_missedLine (vmName : String) (access : PortAccess) :
    consolePort (missedLine vmName access) = none := by
  cases access <;> rfl

/-- A UART on a machine is a separate component. -/
theorem uart_separate {vm : Word} {uarts : List UartSlot} {u : UartSlot} (hu : u ∈ uarts)
    {vmName : String} {named : Bool}
    (hnamed : named = true → ∀ v ∈ uarts, v ≠ u → v.portName ≠ u.portName) :
    Separate (shownAccess vm) (fun s => UartsOn s vm uarts ∧ (s.vmAt vm).name = vmName)
      (ownAccess u) (uartView u named) where
  returns access s hs := by
    by_cases hport : ∃ v ∈ uarts, InWindow v.portBase access.port
    · obtain ⟨v, hv, hin⟩ := hport
      obtain ⟨_, _, _, _, _, _, hrun, hkept, _⟩ := shownAccess_served hs.1 hv hin
      exact ⟨_, _, hrun, hkept, hs.2⟩
    · have hmissed := @shownAccess_missed _ _ _ hs.1 access
        (fun v hv hin => hport ⟨v, hv, hin⟩)
      exact ⟨_, _, hmissed, hs.1.logged _, hs.2⟩
  foreign access s shown t hs hown hrun := by
    rw [ownAccess, decide_eq_false_iff_not] at hown
    by_cases hport : ∃ v ∈ uarts, InWindow v.portBase access.port
    · obtain ⟨v, hv, hin⟩ := hport
      obtain ⟨data, data', value, lines, _, ha, hserved, _⟩ := shownAccess_served hs.1 hv hin
      rw [hserved] at hrun
      cases hrun
      have hne : v ≠ u := fun heq => hown (heq ▸ hin)
      have hdevice : v.device ≠ u.device := fun heq => hne (hs.1.device_inj hv hu heq)
      have hdata : uartAt (servedState s v.device data' lines) u.device = uartAt s u.device := by
        rw [uartAt, servedState_other s hdevice]
        rfl
      rw [uartView, uartView, hdata]
      congr 1
      cases hn : named with
      | false => rfl
      | true =>
        refine linesOf_append_foreign fun line hline hname => ?_
        have hport := ha.lines line hline
        rw [hname] at hport
        cases hport with
        | inl hsame => exact hnamed hn v hv hne (Option.some.inj hsame).symm
        | inr hnone => cases hnone
    · have hmissed := @shownAccess_missed _ _ _ hs.1 access
        (fun v hv hin => hport ⟨v, hv, hin⟩)
      rw [hmissed] at hrun
      cases hrun
      rw [uartView, uartView]
      congr 1
      cases named with
      | false => rfl
      | true =>
        refine @linesOf_append_foreign _ [missedLine (s.vmAt vm).name access] _ fun line hline => ?_
        rw [List.mem_singleton.mp hline, consolePort_missedLine]
        exact fun hf => by cases hf
  owned access s s' shown shown' t t' hs hs' hview hown hrun hrun' := by
    rw [ownAccess, decide_eq_true_eq] at hown
    obtain ⟨data, d, value, lines, hdata, ha, hserved, _, hend⟩ := shownAccess_served hs.1 hu hown
    obtain ⟨data', d', value', lines', hdata', ha', hserved', _, hend'⟩ :=
      shownAccess_served hs'.1 hu hown
    rw [uartView, uartView, Prod.mk.injEq, hdata, hdata', Option.some.injEq] at hview
    obtain ⟨hsame, hconsole⟩ := hview
    have hanswer := ha.answer
    rw [hs.2, hsame, ← hs'.2, ha'.answer, Except.ok.injEq, Prod.mk.injEq, Prod.mk.injEq] at hanswer
    obtain ⟨hvalue, hd, hlines⟩ := hanswer
    rw [hserved] at hrun
    cases hrun
    rw [hserved'] at hrun'
    cases hrun'
    refine ⟨by rw [hvalue, hlines], ?_⟩
    rw [uartView, uartView, hend, hend', hd]
    congr 1
    cases named with
    | false => rfl
    | true =>
      rw [if_pos rfl, if_pos rfl] at hconsole
      rw [if_pos rfl, if_pos rfl]
      have hsplit : ∀ old, linesOf u.portName (lines.reverse ++ old) =
          linesOf u.portName lines.reverse ++ linesOf u.portName old := fun old =>
        List.filter_append _ _
      have hleft := hsplit s.console
      have hright := hsplit s'.console
      rw [hconsole, ← hright] at hleft
      rw [hlines]
      exact hleft

/-! ## Creation and registration -/

/-- Arenas hold neither the devices nor the machines of the model. -/
theorem arenaAllocate_returned {arena : Option Word} {size p : Word} {s s' : Hv}
    (h : arenaAllocate arena size s = .ok p s') :
    s'.deviceList = s.deviceList ∧ s'.vmAt = s.vmAt := by
  have hspec : Ensures (arenaAllocate arena size) s
      (fun _ t => t.deviceList = s.deviceList ∧ t.vmAt = s.vmAt) (fun _ _ => True) := by
    rw [ensures_arenaAllocate]
    cases arena with
    | none => exact trivial
    | some page => exact ⟨fun _ => trivial, fun _ => ⟨rfl, rfl⟩⟩
  exact hspec.of_ok h

theorem vmdGetDeviceArena_returned {s s' : Hv} {arena : Option Word}
    (h : vmdGetDeviceArena s = .ok arena s') :
    s'.deviceList = s.deviceList ∧ s'.vmAt = s.vmAt := by
  have hcreate : Ensures arenaCreate s
      (fun _ t => t.deviceList = s.deviceList ∧ t.vmAt = s.vmAt) (fun _ _ => True) := by
    simp only [arenaCreate, ensures_bind, ensures_modify, ensures_pure]
    refine Ensures.intro (fun _ _ hpage => ?_) fun _ _ _ => trivial
    obtain ⟨_, _, rfl⟩ := mmGetFreePage_returned hpage
    exact ⟨rfl, rfl⟩
  have hspec : Ensures vmdGetDeviceArena s
      (fun _ t => t.deviceList = s.deviceList ∧ t.vmAt = s.vmAt) (fun _ _ => True) := by
    simp only [vmdGetDeviceArena, ensures_bind, ensures_get, ensures_ite, ensures_modify,
      ensures_pure]
    exact ⟨fun _ => hcreate, fun _ => ⟨trivial, trivial⟩⟩
  exact hspec.of_ok h

/-- A creation that returned has appended the new device. -/
theorem vmd8250UartCreate_returned {portBase : BitVec 16} {portName : String} {s s' : Hv} {d : ℕ}
    (h : vmd8250UartCreate portBase portName s = .ok d s') :
    d = s.deviceList.length ∧ s'.vmAt = s.vmAt ∧
      s'.deviceList = s.deviceList ++ [uartDevice none (newUart portBase portName)] := by
  simp only [vmd8250UartCreate, bind_eq_ok, get_eq_ok, modify_eq_ok, pure_eq_ok] at h
  obtain ⟨_, s₁, h₁, _, s₂, h₂, _, s₃, h₃, _, t, h₄, _, _, ⟨rfl, rfl⟩, _, _, rfl, rfl, rfl⟩ := h
  have hlist : t.deviceList = s.deviceList :=
    (arenaAllocate_returned h₄).1.trans ((vmdGetDeviceArena_returned h₃).1.trans
      ((arenaAllocate_returned h₂).1.trans (vmdGetDeviceArena_returned h₁).1))
  have hvm : t.vmAt = s.vmAt :=
    (arenaAllocate_returned h₄).2.trans ((vmdGetDeviceArena_returned h₃).2.trans
      ((arenaAllocate_returned h₂).2.trans (vmdGetDeviceArena_returned h₁).2))
  refine ⟨congrArg List.length hlist, hvm, ?_⟩
  dsimp only
  rw [hlist]

/-- Devices that are appended belong to no machine. -/
theorem uartsOn_appended {s s' : Hv} {vm : Word} {uarts : List UartSlot} (h : UartsOn s vm uarts)
    (hvm : s'.vmAt = s.vmAt) {devices : List VmDevice}
    (hlist : s'.deviceList = s.deviceList ++ devices) : UartsOn s' vm uarts := by
  have hsame : ∀ u ∈ uarts, s'.deviceList[u.device]? = s.deviceList[u.device]? := fun u hu => by
    obtain ⟨_, _, hdev, _⟩ := h.uart u hu
    rw [hlist, List.getElem?_append_left (List.getElem?_eq_some_iff.mp hdev).1]
  refine ⟨?_, fun u hu => ?_, h.apart⟩
  · rw [hvm]
    refine h.chain.congr fun d hd => ?_
    obtain ⟨u, hu, rfl⟩ := List.mem_map.mp hd
    rw [hsame u hu]
  · rw [hsame u hu]
    exact h.uart u hu

/-- Registering a new UART puts it in front of the machine's list. -/
theorem uartsOn_register {s s' : Hv} {vm : Word} {uarts : List UartSlot} (h : UartsOn s vm uarts)
    {d : ℕ} {data : Vmd8250Uart} (hdev : s.deviceList[d]? = some (uartDevice none data))
    (hnew : d ∉ uarts.map UartSlot.device)
    (hapart : ∀ u ∈ uarts, WindowsDisjoint data.portBase u.portBase)
    (hrun : vmManagerRegisterDevice vm d s = .ok () s') :
    UartsOn s' vm (⟨d, data.portBase, data.portName⟩ :: uarts) ∧
      ∀ e, e ≠ d → s'.deviceList[e]? = s.deviceList[e]? := by
  rw [vmManagerRegisterDevice, bind_of_ok (get_eq_ok.mpr ⟨rfl, rfl⟩), hdev] at hrun
  cases hrun
  have hother : ∀ e, e ≠ d → (s.deviceList.modify d fun device =>
      { device with next := (s.vmAt vm).devices })[e]? = s.deviceList[e]? := fun e he =>
    List.getElem?_modify_ne _ _ (Ne.symm he)
  have hself : (s.deviceList.modify d fun device =>
      { device with next := (s.vmAt vm).devices })[d]? =
      some (uartDevice (s.vmAt vm).devices data) := by
    rw [List.getElem?_modify_eq, hdev]
    rfl
  have hne : ∀ u ∈ uarts, u.device ≠ d := fun u hu heq =>
    hnew (heq ▸ List.mem_map_of_mem hu)
  refine ⟨⟨?_, fun u hu => ?_, List.Pairwise.cons hapart h.apart⟩, hother⟩
  · dsimp only
    rw [Function.update_self]
    refine ⟨rfl, _, hself, ?_⟩
    refine h.chain.congr fun e he => ?_
    rw [hother e fun heq => hnew (heq ▸ he)]
  · cases List.mem_cons.mp hu with
    | inl heq =>
      rw [heq]
      exact ⟨_, data, hself, rfl, rfl⟩
    | inr hold =>
      dsimp only
      rw [hother _ (hne u hold)]
      exact h.uart u hold

/-- Create two UARTs and register them on a machine, in either order. -/
def registerTwoUarts (vm : Word) (portBase portBase' : BitVec 16) (portName portName' : String)
    (secondFirst : Bool) : HvM (ℕ × ℕ) := do
  let d ← vmd8250UartCreate portBase portName
  let d' ← vmd8250UartCreate portBase' portName'
  if secondFirst then
    vmManagerRegisterDevice vm d'
    vmManagerRegisterDevice vm d
  else
    vmManagerRegisterDevice vm d
    vmManagerRegisterDevice vm d'
  return (d, d')

/-- The machine of two registered UARTs is one with a chain of UARTs. -/
theorem registerTwoUarts_returned {s s' : Hv} {vm : Word} {portBase portBase' : BitVec 16}
    {portName portName' : String} {secondFirst : Bool} {d d' : ℕ} {others : List UartSlot}
    (hothers : UartsOn s vm others) (hapart : WindowsDisjoint portBase portBase')
    (hfree : ∀ u ∈ others, WindowsDisjoint portBase u.portBase ∧
      WindowsDisjoint portBase' u.portBase)
    (hrun : registerTwoUarts vm portBase portBase' portName portName' secondFirst s =
      .ok (d, d') s') :
    ∃ uarts, UartsOn s' vm uarts ∧
      uarts.Perm (⟨d, portBase, portName⟩ :: ⟨d', portBase', portName'⟩ :: others) := by
  rw [registerTwoUarts, bind_eq_ok] at hrun
  obtain ⟨c, s₁, hfirst, hrest⟩ := hrun
  rw [bind_eq_ok] at hrest
  obtain ⟨c', s₂, hsecond, hregister⟩ := hrest
  obtain ⟨hc, hvm, hlist⟩ := vmd8250UartCreate_returned hfirst
  obtain ⟨hc', hvm', hlist'⟩ := vmd8250UartCreate_returned hsecond
  have hon : UartsOn s₂ vm others := uartsOn_appended (uartsOn_appended hothers hvm hlist) hvm' hlist'
  have hlen : s₁.deviceList.length = s.deviceList.length + 1 := by
    rw [hlist, List.length_append, List.length_singleton]
  have hne : c ≠ c' := by omega
  have hget : s₂.deviceList[c]? = some (uartDevice none (newUart portBase portName)) := by
    rw [hlist', hlist, hc, List.getElem?_append_left (by rw [← hlist]; omega),
      List.getElem?_append_right (Nat.le_refl _), Nat.sub_self]
    rfl
  have hget' : s₂.deviceList[c']? = some (uartDevice none (newUart portBase' portName')) := by
    rw [hlist', hc', List.getElem?_append_right (Nat.le_refl _), Nat.sub_self]
    rfl
  have hold : ∀ u ∈ others, u.device < c := fun u hu => by
    obtain ⟨_, _, hdev, _⟩ := hothers.uart u hu
    rw [hc]
    exact (List.getElem?_eq_some_iff.mp hdev).1
  have hnew : ∀ e, c ≤ e → e ∉ others.map UartSlot.device := fun e he hmem => by
    obtain ⟨u, hu, heq⟩ := List.mem_map.mp hmem
    have hlt := hold u hu
    omega
  have hcons : ∀ e f name base, e ≠ f → c ≤ e →
      e ∉ ((⟨f, base, name⟩ : UartSlot) :: others).map UartSlot.device :=
    fun e f name base hef hle hmem => by
      cases List.mem_cons.mp hmem with
      | inl heq => exact hef heq
      | inr hmem => exact hnew e hle hmem
  cases secondFirst with
  | true =>
    rw [if_pos rfl, bind_eq_ok] at hregister
    obtain ⟨_, t, hreg', hrest⟩ := hregister
    rw [bind_eq_ok] at hrest
    obtain ⟨_, t', hreg, hpure⟩ := hrest
    cases hpure
    have hon' := uartsOn_register hon hget' (hnew d' (by omega)) (fun u hu => (hfree u hu).2) hreg'
    have hboth := uartsOn_register hon'.1 ((hon'.2 d hne).trans hget)
      (hcons d d' _ _ hne (Nat.le_refl _)) (fun u hu => by
        cases List.mem_cons.mp hu with
        | inl heq => exact heq ▸ hapart
        | inr hmem => exact (hfree u hmem).1) hreg
    exact ⟨_, hboth.1, List.Perm.refl _⟩
  | false =>
    rw [if_neg Bool.false_ne_true, bind_eq_ok] at hregister
    obtain ⟨_, t, hreg', hrest⟩ := hregister
    rw [bind_eq_ok] at hrest
    obtain ⟨_, t', hreg, hpure⟩ := hrest
    cases hpure
    have hon' := uartsOn_register hon hget (hnew d (Nat.le_refl _)) (fun u hu => (hfree u hu).1) hreg'
    have hboth := uartsOn_register hon'.1 ((hon'.2 d' hne.symm).trans hget')
      (hcons d' d _ _ hne.symm (by omega)) (fun u hu => by
        cases List.mem_cons.mp hu with
        | inl heq => exact heq ▸ hapart.symm
        | inr hmem => exact (hfree u hmem).2) hreg
    exact ⟨_, hboth.1, List.Perm.swap _ _ _⟩

/-- What a run of accesses shows of a UART when only its own accesses are run
is what the whole run shows of it. -/
def RunsAlone (s : Hv) (vm : Word) (u : UartSlot) (distinct : Prop) (accesses : List PortAccess) :
    Prop :=
  ∃ shown t shown' t', observe (shownAccess vm) accesses s = .ok shown t ∧
    observe (shownAccess vm) (accesses.filter (ownAccess u)) s = .ok shown' t' ∧
    shown.filter (fun entry => ownAccess u entry.1) = shown' ∧
    uartAt t u.device = uartAt t' u.device ∧
    (distinct → linesOf u.portName t.console = linesOf u.portName t'.console)

/-- Any UART of a machine runs as if it was alone. -/
theorem uartsOn_runsAlone {s : Hv} {vm : Word} {uarts : List UartSlot} (h : UartsOn s vm uarts)
    {u : UartSlot} (hu : u ∈ uarts) (accesses : List PortAccess) :
    RunsAlone s vm u (∀ v ∈ uarts, v ≠ u → v.portName ≠ u.portName) accesses := by
  by_cases hdistinct : ∀ v ∈ uarts, v ≠ u → v.portName ≠ u.portName
  · have hseparate := @uart_separate vm uarts u hu (s.vmAt vm).name true fun _ => hdistinct
    obtain ⟨shown, t, shown', t', hrun, hrun', hsame, hview, _⟩ :=
      hseparate.run accesses ⟨h, rfl⟩ ⟨h, rfl⟩ rfl
    rw [uartView, uartView, Prod.mk.injEq] at hview
    exact ⟨shown, t, shown', t', hrun, hrun', hsame, hview.1, fun _ => hview.2⟩
  · have hseparate := @uart_separate vm uarts u hu (s.vmAt vm).name false fun hf => by cases hf
    obtain ⟨shown, t, shown', t', hrun, hrun', hsame, hview, _⟩ :=
      hseparate.run accesses ⟨h, rfl⟩ ⟨h, rfl⟩ rfl
    rw [uartView, uartView, Prod.mk.injEq] at hview
    exact ⟨shown, t, shown', t', hrun, hrun', hsame, hview.1, fun hd => absurd hd hdistinct⟩

/-- Two UARTs with disjoint windows that are created and registered on one
machine in either order, next to any others, do not interfere: in every sequence
of accesses each shows the values and lines, and ends with the data, of the run
of its own accesses, and no access stops. -/
theorem uarts_do_not_interfere {s s' : Hv} {vm : Word} {portBase portBase' : BitVec 16}
    {portName portName' : String} {secondFirst : Bool} {d d' : ℕ} {others : List UartSlot}
    (hothers : UartsOn s vm others) (hapart : WindowsDisjoint portBase portBase')
    (hfree : ∀ u ∈ others, WindowsDisjoint portBase u.portBase ∧
      WindowsDisjoint portBase' u.portBase)
    (hrun : registerTwoUarts vm portBase portBase' portName portName' secondFirst s =
      .ok (d, d') s') (accesses : List PortAccess) :
    RunsAlone s' vm ⟨d, portBase, portName⟩
      (portName' ≠ portName ∧ ∀ u ∈ others, u.portName ≠ portName) accesses ∧
    RunsAlone s' vm ⟨d', portBase', portName'⟩
      (portName ≠ portName' ∧ ∀ u ∈ others, u.portName ≠ portName') accesses := by
  obtain ⟨uarts, hon, hperm⟩ := registerTwoUarts_returned hothers hapart hfree hrun
  have hmem : ∀ u, u ∈ uarts ↔ u = ⟨d, portBase, portName⟩ ∨ u = ⟨d', portBase', portName'⟩ ∨
      u ∈ others := fun u => by
    rw [hperm.mem_iff, List.mem_cons, List.mem_cons]
  constructor
  · have halone := uartsOn_runsAlone hon ((hmem _).mpr (.inl rfl)) accesses
    obtain ⟨shown, t, shown', t', hfull, hown, hsame, hdata, hlines⟩ := halone
    refine ⟨shown, t, shown', t', hfull, hown, hsame, hdata, fun hnames => hlines fun v hv hne => ?_⟩
    cases (hmem v).mp hv with
    | inl heq => exact absurd heq hne
    | inr hrest =>
      cases hrest with
      | inl heq => exact heq ▸ hnames.1
      | inr hother => exact hnames.2 v hother
  · have halone := uartsOn_runsAlone hon ((hmem _).mpr (.inr (.inl rfl))) accesses
    obtain ⟨shown, t, shown', t', hfull, hown, hsame, hdata, hlines⟩ := halone
    refine ⟨shown, t, shown', t', hfull, hown, hsame, hdata, fun hnames => hlines fun v hv hne => ?_⟩
    cases (hmem v).mp hv with
    | inl heq => exact heq ▸ hnames.1
    | inr hrest =>
      cases hrest with
      | inl heq => exact absurd heq hne
      | inr hother => exact hnames.2 v hother

/-- Windows on both sides of the last port, on a machine without other devices. -/
theorem uarts_do_not_interfere_wrapped : ∃ d d' s',
    registerTwoUarts firstVm 0xfffc 4 "COM1" "COM2" true (smallHost 1) = .ok (d, d') s' ∧
      RunsAlone s' firstVm ⟨d, 0xfffc, "COM1"⟩
        ("COM2" ≠ "COM1" ∧ ∀ u ∈ ([] : List UartSlot), u.portName ≠ "COM1")
        [.outb 0xffff 0x80, .outb 2 0x41, .inb 0xfffd, .outb 4 0x0a, .inw 0xfffc] := by
  have hreturned : (match registerTwoUarts firstVm 0xfffc 4 "COM1" "COM2" true (smallHost 1) with
      | .ok devices _ => devices == (0, 1)
      | .error _ _ => false) = true := by
    decide +kernel
  have hapart : WindowsDisjoint 0xfffc 4 := fun port => by
    simp only [InWindow, comPortsLen]
    bv_omega
  cases hrun : registerTwoUarts firstVm 0xfffc 4 "COM1" "COM2" true (smallHost 1) with
  | ok devices s' =>
    have hnone : UartsOn (smallHost 1) firstVm [] :=
      ⟨rfl, fun u hu => absurd hu List.not_mem_nil, List.Pairwise.nil⟩
    have halone := @uarts_do_not_interfere (smallHost 1) s' firstVm 0xfffc 4 "COM1" "COM2" true
      devices.1 devices.2 [] hnone hapart (fun u hu => absurd hu List.not_mem_nil) hrun
    exact ⟨devices.1, devices.2, s', rfl, (halone _).1⟩
  | error _ _ =>
    rw [hrun] at hreturned
    cases hreturned

end Rkhv.UartIsolation
