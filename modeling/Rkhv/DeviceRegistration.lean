import Rkhv.HostRuns
import Rkhv.UartChain

/-!
# Registering devices

`vm_manager_register_device` takes a device for registered when its link is not
null, but the link of the device that was registered first is null as well.
While that one is not registered again, every call panics or puts a new device
in front of a list without repetitions, and lookups end. Registering it again
closes the list to a circle.
-/

namespace Rkhv.DeviceRegistration

open ByteMemory HostTypes HostState StateOutcome Vmd8250Uart VmIoPorts UartChain HostRuns

/-- Register devices one after the other on one machine. -/
def registerAll (vm : Word) : List ℕ → HvM Unit
  | [] => pure ()
  | d :: rest => do
    vmManagerRegisterDevice vm d
    registerAll vm rest

/-- The machine's list ends and holds every registered device once. -/
def WellFormed (s : Hv) (vm : Word) (registered : List ℕ) : Prop :=
  ∃ chain, DeviceChain s.deviceList (s.vmAt vm).devices chain ∧ chain.Nodup ∧
    ∀ d, d ∈ chain ↔ d ∈ registered

/-- No access to a port hangs. -/
def AccessesEnd (s : Hv) (vm : Word) : Prop :=
  ∀ access e s', portAccess vm access s = .error e s' → e ≠ .hang

/-- The machine has no devices yet, and those to be registered were zeroed at creation. -/
structure Unregistered (s : Hv) (vm : Word) (calls : List ℕ) : Prop where
  empty : (s.vmAt vm).devices = none
  zeroed : ∀ d ∈ calls, ∃ device, s.deviceList[d]? = some device ∧ device.next = none

/-- After some of the calls the machine's list is in order, or one of them panicked. -/
def OrderedOrPanicked (s : Hv) (vm : Word) (made : List ℕ) : Prop :=
  (∃ s', registerAll vm made s = .ok () s' ∧ WellFormed s' vm made ∧ AccessesEnd s' vm) ∨
    ∃ message s', registerAll vm made s = .error (.panic message) s'

/-- No device is registered again that was the first one, as long as no other was
registered twice. -/
def FirstOnce (calls : List ℕ) : Prop :=
  ∀ made d, made ++ [d] <+: calls → made.Nodup → made.head? ≠ some d

variable {s s' t : Hv} {vm : Word} {calls made chain : List ℕ} {d : ℕ} {first : Option ℕ}
  {devices : List VmDevice}

/-! ## Lookups in a list that ends -/

/-- A walk along a list that ends does not hang. -/
theorem deviceLookup_ne_hang {port : BitVec 16} {hasHandler : VmDevice → Bool} {fuel : ℕ}
    (hchain : DeviceChain devices first chain) (hfuel : chain.length ≤ fuel) :
    deviceLookup devices port hasHandler fuel first ≠ .error .hang := by
  induction chain generalizing first fuel with
  | nil =>
    obtain rfl : first = none := hchain
    rw [deviceLookup]
    exact fun h => by cases h
  | cons d rest ih =>
    obtain ⟨rfl, device, hdevice, hrest⟩ := hchain
    cases fuel with
    | zero => exact absurd hfuel (Nat.not_succ_le_zero _)
    | succ fuel =>
      rw [deviceLookup, hdevice]
      dsimp only
      split_ifs with hfound
      · exact fun h => by cases h
      · exact ih hrest (Nat.le_of_succ_le_succ hfuel)

/-- Handlers do not hang. -/
theorem finishHandler_ends {α : Type} (d : ℕ) (result : HandlerResult α) :
    Ensures (finishHandler d result) s (fun _ _ => True) (fun e _ => e ≠ .hang) := by
  cases result with
  | error message => exact fun h => by cases h
  | ok answer => exact trivial

/-- An `out` does not hang when its lookup does not. -/
theorem vmOutDeviceLookup_ends {w : ℕ} {handler : VmDevice → Option (OutHandler w)}
    {port : BitVec 16} {value : BitVec w}
    (hlookup : deviceLookup s.deviceList port (fun device => (handler device).isSome)
      s.deviceList.length (s.vmAt vm).devices ≠ .error .hang) :
    Ensures (vmOutDeviceLookup handler vm port value) s (fun _ _ => True) (fun e _ => e ≠ .hang) := by
  rw [vmOutDeviceLookup, ensures_bind, ensures_get]
  split
  · rename_i e he
    rw [ensures_throw]
    exact fun heq => hlookup (he.trans (congrArg Except.error heq))
  · exact trivial
  · split
    · exact fun h => by cases h
    · split
      · exact fun h => by cases h
      · exact finishHandler_ends _ _

/-- An `in` does not hang when its lookup does not. -/
theorem vmInDeviceLookup_ends {w : ℕ} {handler : VmDevice → Option (InHandler w)} {port : BitVec 16}
    (hlookup : deviceLookup s.deviceList port (fun device => (handler device).isSome)
      s.deviceList.length (s.vmAt vm).devices ≠ .error .hang) :
    Ensures (vmInDeviceLookup handler vm port) s (fun _ _ => True) (fun e _ => e ≠ .hang) := by
  rw [vmInDeviceLookup, ensures_bind, ensures_get]
  split
  · rename_i e he
    rw [ensures_throw]
    exact fun heq => hlookup (he.trans (congrArg Except.error heq))
  · exact trivial
  · split
    · exact fun h => by cases h
    · split
      · exact fun h => by cases h
      · exact finishHandler_ends _ _

/-- In a list that ends without repetitions every access ends. -/
theorem accessesEnd_of_chain (hchain : DeviceChain s.deviceList (s.vmAt vm).devices chain)
    (hnodup : chain.Nodup) : AccessesEnd s vm := by
  have hlookup : ∀ port hasHandler, deviceLookup s.deviceList port hasHandler s.deviceList.length
      (s.vmAt vm).devices ≠ .error .hang := fun port hasHandler =>
    deviceLookup_ne_hang hchain (chain_length_le hchain hnodup)
  intro access e s' hrun
  have hends : Ensures (portAccess vm access) s (fun _ _ => True) (fun e _ => e ≠ .hang) := by
    cases access with
    | outb port value =>
      rw [portAccess, ensures_bind]
      exact (vmOutDeviceLookup_ends (hlookup _ _)).mono (fun _ _ _ => trivial) fun _ _ h => h
    | outw port value =>
      rw [portAccess, ensures_bind]
      exact (vmOutDeviceLookup_ends (hlookup _ _)).mono (fun _ _ _ => trivial) fun _ _ h => h
    | outd port value =>
      rw [portAccess, ensures_bind]
      exact (vmOutDeviceLookup_ends (hlookup _ _)).mono (fun _ _ _ => trivial) fun _ _ h => h
    | inb port =>
      rw [portAccess, ensures_bind]
      exact (vmInDeviceLookup_ends (hlookup _ _)).mono (fun _ _ _ => trivial) fun _ _ h => h
    | inw port =>
      rw [portAccess, ensures_bind]
      exact (vmInDeviceLookup_ends (hlookup _ _)).mono (fun _ _ _ => trivial) fun _ _ h => h
    | ind port =>
      rw [portAccess, ensures_bind]
      exact (vmInDeviceLookup_ends (hlookup _ _)).mono (fun _ _ _ => trivial) fun _ _ h => h
  exact hends.of_error hrun

/-! ## Links inside a list -/

/-- The link of a device of a list is null for the last one only, and leads to
another device of the list otherwise. -/
theorem next_of_chain (hchain : DeviceChain devices first chain) (hnodup : chain.Nodup)
    (hd : d ∈ chain) {device : VmDevice} (hdevice : devices[d]? = some device) :
    (chain.getLast? = some d ∧ device.next = none) ∨
      (chain.getLast? ≠ some d ∧ ∃ e ∈ chain, device.next = some e) := by
  induction chain generalizing first with
  | nil => cases hd
  | cons c rest ih =>
    obtain ⟨_, device', hdevice', hrest⟩ := hchain
    obtain ⟨hc, hnodupRest⟩ := List.nodup_cons.mp hnodup
    cases rest with
    | nil =>
      obtain rfl := List.mem_singleton.mp hd
      obtain rfl := Option.some.inj (hdevice.symm.trans hdevice')
      exact .inl ⟨rfl, hrest⟩
    | cons c' rest =>
      rw [List.getLast?_cons_cons]
      cases List.mem_cons.mp hd with
      | inl he =>
        subst he
        obtain rfl := Option.some.inj (hdevice.symm.trans hdevice')
        refine .inr ⟨fun hlast => hc (List.mem_of_getLast? hlast), c', ?_, hrest.1⟩
        exact List.mem_cons_of_mem _ List.mem_cons_self
      | inr hmem =>
        cases ih hrest hnodupRest hmem with
        | inl hlast => exact .inl hlast
        | inr hnext =>
          obtain ⟨hlast, e, he, hnext⟩ := hnext
          exact .inr ⟨hlast, e, List.mem_cons_of_mem _ he, hnext⟩

/-- Links that never leave some devices do not end. -/
theorem not_chain_of_closed {circle : List ℕ} (hclosed : ∀ e ∈ circle, ∀ device,
      devices[e]? = some device → ∃ e' ∈ circle, device.next = some e')
    (hd : d ∈ circle) : ¬DeviceChain devices (some d) chain := by
  induction chain generalizing d with
  | nil => exact fun h => by cases h
  | cons c rest ih =>
    intro hchain
    obtain ⟨hc, device, hdevice, hrest⟩ := hchain
    obtain rfl : d = c := Option.some.inj hc
    obtain ⟨e', he', hnext⟩ := hclosed d hd device hdevice
    rw [hnext] at hrest
    exact ih he' hrest

/-! ## One registration -/

/-- The state after a device was put in front of a machine's list. -/
def registered (s : Hv) (vm : Word) (d : ℕ) : Hv :=
  { s with
    deviceList := s.deviceList.modify d fun device => { device with next := (s.vmAt vm).devices }
    vmAt := Function.update s.vmAt vm { s.vmAt vm with devices := some d } }

theorem registered_devices (s : Hv) (vm : Word) (d : ℕ) :
    ((registered s vm d).vmAt vm).devices = some d := by
  have hself : (registered s vm d).vmAt vm = { s.vmAt vm with devices := some d } :=
    Function.update_self ..
  rw [hself]

/-- A device without a link is registered, one with a link panics. -/
theorem register_eq {device : VmDevice} (hdevice : s.deviceList[d]? = some device) :
    vmManagerRegisterDevice vm d s =
      if device.next ≠ none then
        .error (.panic "Registering a device that is probably already registered") s
      else .ok () (registered s vm d) := by
  rw [vmManagerRegisterDevice, bind_of_ok (get_eq_ok.mpr ⟨rfl, rfl⟩), hdevice]
  dsimp only
  split_ifs with hnext
  · rfl
  · rfl

/-- Devices registered once each are in the list, the newest first. -/
structure Registered (s s' : Hv) (vm : Word) (made : List ℕ) : Prop where
  chain : DeviceChain s'.deviceList (s'.vmAt vm).devices made.reverse
  others : ∀ d, d ∉ made → s'.deviceList[d]? = s.deviceList[d]?

theorem Registered.snoc (h : Registered s s' vm made) {device : VmDevice}
    (hdevice : s'.deviceList[d]? = some device) (hnew : d ∉ made) :
    Registered s (registered s' vm d) vm (made ++ [d]) := by
  have hself : (registered s' vm d).deviceList[d]? =
      some { device with next := (s'.vmAt vm).devices } := by
    rw [registered, List.getElem?_modify_eq, hdevice]
    rfl
  have hother : ∀ e, e ≠ d → (registered s' vm d).deviceList[e]? = s'.deviceList[e]? :=
    fun e he => List.getElem?_modify_ne _ _ he.symm
  have hhead := registered_devices s' vm d
  constructor
  · rw [List.reverse_append, hhead]
    refine ⟨rfl, _, hself, h.chain.congr fun e he => ?_⟩
    rw [hother e (ne_of_mem_of_not_mem (List.mem_reverse.mp he) hnew)]
  · intro e he
    rw [List.mem_append, not_or, List.mem_singleton] at he
    rw [hother e he.2]
    exact h.others e he.1

/-! ## Whole runs -/

theorem registerAll_append (vm : Word) (made rest : List ℕ) :
    registerAll vm (made ++ rest) = registerAll vm made >>= fun _ => registerAll vm rest := by
  induction made with
  | nil => rw [List.nil_append, registerAll, pure_bind]
  | cons d made ih => rw [List.cons_append, registerAll, ih, registerAll, bind_assoc]

/-- One more call after calls that returned. -/
theorem registerAll_snoc (h : registerAll vm made s = .ok () s') (d : ℕ) :
    registerAll vm (made ++ [d]) s = vmManagerRegisterDevice vm d s' := by
  rw [registerAll_append, bind_of_ok h, registerAll, registerAll]
  exact congrFun (bind_pure (vmManagerRegisterDevice vm d)) s'

/-- Calls after one that panicked are not made. -/
theorem registerAll_panicked {e : Fault} (h : registerAll vm made s = .error e s') (rest : List ℕ) :
    registerAll vm (made ++ rest) s = .error e s' := by
  rw [registerAll_append]
  exact bind_of_error h

/-- Devices that are registered once each are in the list afterwards. -/
theorem registerAll_nodup (h : Unregistered s vm made) (hnodup : made.Nodup) :
    ∃ s', registerAll vm made s = .ok () s' ∧ Registered s s' vm made := by
  induction made using List.reverseRecOn with
  | nil => exact ⟨s, rfl, h.empty, fun _ _ => rfl⟩
  | append_singleton made d ih =>
    obtain ⟨hmade, _, hapart⟩ := List.nodup_append.mp hnodup
    have hnew : d ∉ made := fun hd => hapart d hd d (List.mem_singleton_self d) rfl
    obtain ⟨s', hrun, hreg⟩ := ih ⟨h.empty, fun e he => h.zeroed e (List.mem_append_left _ he)⟩ hmade
    obtain ⟨device, hdevice, hnext⟩ := h.zeroed d (List.mem_append_right _ (List.mem_singleton_self d))
    have hthere : s'.deviceList[d]? = some device := (hreg.others d hnew).trans hdevice
    refine ⟨registered s' vm d, ?_, hreg.snoc hthere hnew⟩
    rw [registerAll_snoc hrun, register_eq hthere, if_neg (not_not.mpr hnext)]

/-- The device of a registered one, with its link. -/
theorem Registered.next (h : Registered s s' vm made) (hnodup : made.Nodup) (hd : d ∈ made) :
    ∃ device, s'.deviceList[d]? = some device ∧
      ((made.head? = some d ∧ device.next = none) ∨
        (made.head? ≠ some d ∧ ∃ e ∈ made, device.next = some e)) := by
  have hmem : d ∈ made.reverse := List.mem_reverse.mpr hd
  have hlt := lt_of_mem_chain h.chain hmem
  have hlinks := next_of_chain h.chain (List.nodup_reverse.mpr hnodup) hmem
    (List.getElem?_eq_getElem hlt)
  rw [List.getLast?_reverse] at hlinks
  simp only [List.mem_reverse] at hlinks
  exact ⟨_, List.getElem?_eq_getElem hlt, hlinks⟩

/-- Calls that were not all different repeat a device after different ones. -/
theorem exists_repeated (h : ¬made.Nodup) :
    ∃ front d rest, made = front ++ d :: rest ∧ front.Nodup ∧ d ∈ front := by
  induction made using List.reverseRecOn with
  | nil => exact absurd List.nodup_nil h
  | append_singleton made d ih =>
    by_cases hmade : made.Nodup
    · refine ⟨made, d, [], rfl, hmade, ?_⟩
      by_contra hnew
      refine h (List.nodup_append.mpr ⟨hmade, List.nodup_singleton d, fun e he e' he' => ?_⟩)
      rw [List.mem_singleton.mp he']
      exact ne_of_mem_of_not_mem he hnew
    · obtain ⟨front, e, rest, rfl, hfront, he⟩ := ih hmade
      exact ⟨front, e, rest ++ [d], by rw [List.append_assoc, List.cons_append], hfront, he⟩

theorem Unregistered.front (h : Unregistered s vm calls) (hmade : made <+: calls) :
    Unregistered s vm made :=
  ⟨h.empty, fun d hd => h.zeroed d (hmade.subset hd)⟩

/-- While the first device is not registered again, calls end well or panic. -/
theorem orderedOrPanicked_of_firstOnce (h : Unregistered s vm calls) (hfirst : FirstOnce calls)
    (hmade : made <+: calls) : OrderedOrPanicked s vm made := by
  by_cases hnodup : made.Nodup
  · obtain ⟨s', hrun, hreg⟩ := registerAll_nodup (h.front hmade) hnodup
    have hrev := List.nodup_reverse.mpr hnodup
    exact .inl ⟨s', hrun, ⟨_, hreg.chain, hrev, fun _ => List.mem_reverse⟩,
      accessesEnd_of_chain hreg.chain hrev⟩
  · obtain ⟨front, d, rest, rfl, hfront, hd⟩ := exists_repeated hnodup
    have hprefix : front ++ [d] <+: calls :=
      List.IsPrefix.trans ⟨rest, by rw [List.append_assoc]; rfl⟩ hmade
    obtain ⟨s', hrun, hreg⟩ :=
      registerAll_nodup (h.front ((List.prefix_append front [d]).trans hprefix)) hfront
    obtain ⟨device, hdevice, hnext⟩ := hreg.next hfront hd
    have hlinked : device.next ≠ none := by
      cases hnext with
      | inl hlast => exact absurd hlast.1 (hfirst front d hprefix hfront)
      | inr hmore =>
        obtain ⟨_, e, _, he⟩ := hmore
        rw [he]
        exact Option.some_ne_none e
    have hpanic : registerAll vm (front ++ [d]) s =
        .error (.panic "Registering a device that is probably already registered") s' := by
      rw [registerAll_snoc hrun, register_eq hdevice, if_pos hlinked]
    have hall := registerAll_panicked hpanic rest
    rw [List.append_assoc] at hall
    exact .inr ⟨_, s', hall⟩

/-- Registering the first device again closes the list to a circle. -/
theorem not_wellFormed_of_first (h : Unregistered s vm (made ++ [d])) (hnodup : made.Nodup)
    (hfirst : made.head? = some d) : ¬OrderedOrPanicked s vm (made ++ [d]) := by
  have hd : d ∈ made := List.mem_of_head? hfirst
  obtain ⟨s', hrun, hreg⟩ := registerAll_nodup (h.front (List.prefix_append made [d])) hnodup
  obtain ⟨device, hdevice, hnext⟩ := hreg.next hnodup hd
  have hnone : device.next = none := by
    cases hnext with
    | inl hlast => exact hlast.2
    | inr hmore => exact absurd hfirst hmore.1
  have hall : registerAll vm (made ++ [d]) s = .ok () (registered s' vm d) := by
    rw [registerAll_snoc hrun, register_eq hdevice, if_neg (not_not.mpr hnone)]
  have hnewest : ∃ e ∈ made, (s'.vmAt vm).devices = some e := by
    have hchain := hreg.chain
    cases hrev : made.reverse with
    | nil =>
      rw [List.reverse_eq_nil_iff.mp hrev] at hd
      cases hd
    | cons e rest =>
      rw [hrev] at hchain
      exact ⟨e, List.mem_reverse.mp (hrev ▸ List.mem_cons_self), hchain.1⟩
  have hclosed : ∀ e ∈ made, ∀ changed, (registered s' vm d).deviceList[e]? = some changed →
      ∃ e' ∈ made, changed.next = some e' := by
    intro e he changed hchanged
    by_cases hed : e = d
    · rw [hed, registered, List.getElem?_modify_eq, hdevice] at hchanged
      obtain rfl := Option.some.inj hchanged
      exact hnewest
    · have hkept : (registered s' vm d).deviceList[e]? = s'.deviceList[e]? :=
        List.getElem?_modify_ne _ _ (Ne.symm hed)
      obtain ⟨old, hold, hlink⟩ := hreg.next hnodup he
      obtain rfl := Option.some.inj (hold.symm.trans (hkept.symm.trans hchanged))
      cases hlink with
      | inl hlast => exact absurd (Option.some.inj (hlast.1.symm.trans hfirst)) hed
      | inr hmore => exact hmore.2
  intro hordered
  cases hordered with
  | inl hgood =>
    obtain ⟨s'', hrun', ⟨chain, hchain, _⟩, _⟩ := hgood
    rw [hall] at hrun'
    cases hrun'
    rw [registered_devices] at hchain
    exact not_chain_of_closed hclosed hd hchain
  | inr hpanicked =>
    obtain ⟨message, s'', hrun'⟩ := hpanicked
    rw [hall] at hrun'
    cases hrun'

/-- Every call panics or leaves an ordered list, and accesses end, exactly when the
device registered first is not registered again. -/
theorem orderedOrPanicked_iff (h : Unregistered s vm calls) :
    (∀ made, made <+: calls → OrderedOrPanicked s vm made) ↔ FirstOnce calls := by
  constructor
  · intro hordered made d hmade hnodup hfirst
    exact not_wellFormed_of_first (h.front hmade) hnodup hfirst (hordered _ hmade)
  · intro hfirst made hmade
    exact orderedOrPanicked_of_firstOnce h hfirst hmade

/-- Different devices are in order. -/
theorem firstOnce_of_nodup (h : calls.Nodup) : FirstOnce calls := by
  intro made d hmade _ hfirst
  have hnodup := hmade.sublist.nodup h
  exact (List.nodup_append.mp hnodup).2.2 d (List.mem_of_head? hfirst) d (List.mem_singleton_self d) rfl

/-- A host with two new serial ports. -/
def twoUarts : Hv :=
  { smallHost 4 with deviceList :=
    [uartDevice none (newUart 0x3f8 "com1"), uartDevice none (newUart 0x2f8 "com2")] }

theorem unregistered_twoUarts : Unregistered twoUarts 0 [0, 1] := by
  refine ⟨rfl, fun d hd => ?_⟩
  cases List.mem_cons.mp hd with
  | inl hzero => exact ⟨_, by rw [hzero]; rfl, rfl⟩
  | inr hone => exact ⟨_, by rw [List.mem_singleton.mp hone]; rfl, rfl⟩

theorem orderedOrPanicked_twoUarts : OrderedOrPanicked twoUarts 0 [0, 1] :=
  (orderedOrPanicked_iff unregistered_twoUarts).mpr (firstOnce_of_nodup (by decide)) [0, 1]
    List.prefix_rfl

/-- A new serial port that is registered twice makes an access to an unclaimed port hang. -/
theorem register_twice_hangs : ∃ s', registerAll 0 [0, 0] twoUarts = .ok () s' ∧
    ¬OrderedOrPanicked twoUarts 0 [0, 0] ∧ ∃ s'', vmOutb 0 0x80 1 s' = .error .hang s'' := by
  have hunregistered : Unregistered twoUarts 0 ([0] ++ [0]) := by
    refine ⟨rfl, fun d hd => ?_⟩
    cases List.mem_cons.mp hd with
    | inl hzero => exact ⟨_, by rw [hzero]; rfl, rfl⟩
    | inr hzero => exact ⟨_, by rw [List.mem_singleton.mp hzero]; rfl, rfl⟩
  have hcircle := not_wellFormed_of_first hunregistered (List.nodup_singleton 0) rfl
  exact ⟨_, rfl, hcircle, _, rfl⟩

end Rkhv.DeviceRegistration
