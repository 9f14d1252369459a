import Rkhv.WalkReads
import Rkhv.VmexitEffects

/-!
# Repeated string instructions on ports

A repeated OUTS or INS runs its round once for each unit of RCX. The devices
neither see nor touch the memory, so that the rounds of OUTS hand the elements
of the guest's string over one by one; the rounds of INS store what the devices
answer, and as long as they keep off the tables that translate the string, every
round writes where the first translations say.
-/

namespace Rkhv.PortStrings

open ByteMemory HostTypes HostState StateOutcome TableReads VmxMsr VmGuestPaging VmIoPorts
open VmEmulatedInstructions GuestAccess WalkReads VmexitEffects HostRuns

/-! ## Devices and memory -/

/-- The state with another memory. -/
def withMemory (s : Hv) (m : Memory) : Hv := { s with memory := m }

/-- An access of the devices does the same with any memory, which it keeps. -/
def DeviceOnly {α : Type} (f : HvM α) : Prop :=
  ∀ s a s', f s = .ok a s' → s'.memory = s.memory ∧ s'.vmAt = s.vmAt ∧
    ∀ m, f (withMemory s m) = .ok a (withMemory s' m)

theorem finishHandler_deviceOnly {α : Type} (d : ℕ) (result : HandlerResult α) :
    DeviceOnly (finishHandler d result) := by
  intro s a s' h
  cases result with
  | error message => cases h
  | ok answer =>
    cases h
    exact ⟨rfl, rfl, fun _ => rfl⟩

theorem deviceOnly_pure {α : Type} (a : α) : DeviceOnly (pure a) := by
  intro s b s' h
  cases h
  exact ⟨rfl, rfl, fun _ => rfl⟩

theorem deviceOnly_throw {α : Type} (e : Fault) : DeviceOnly (throw e : HvM α) :=
  fun _ _ _ h => absurd h throw_ne_ok

theorem deviceOnly_logLine (line : ConsoleEvent) : DeviceOnly (logLine line) := by
  intro s a s' h
  cases h
  exact ⟨rfl, rfl, fun _ => rfl⟩

theorem DeviceOnly.bind {α β : Type} {f : HvM α} {g : α → HvM β} (hf : DeviceOnly f)
    (hg : ∀ a, DeviceOnly (g a)) : DeviceOnly (f >>= g) := by
  intro s b s'' h
  obtain ⟨a, s', hfirst, hrest⟩ := bind_eq_ok.mp h
  obtain ⟨hmemory, hvm, hany⟩ := hf s a s' hfirst
  obtain ⟨hmemory', hvm', hany'⟩ := hg a s' b s'' hrest
  refine ⟨hmemory'.trans hmemory, hvm'.trans hvm, fun m => ?_⟩
  rw [bind_of_ok (hany m), hany' m]

/-- A function that looks at the state first, but not at its memory. -/
theorem DeviceOnly.get {α : Type} {f : Hv → HvM α} (hf : ∀ s, DeviceOnly (f s))
    (hblind : ∀ s m, f (withMemory s m) = f s) : DeviceOnly (get >>= f) := by
  intro s a s' h
  rw [bind_of_ok (get_eq_ok.mpr ⟨rfl, rfl⟩)] at h
  obtain ⟨hmemory, hvm, hany⟩ := hf s s a s' h
  refine ⟨hmemory, hvm, fun m => ?_⟩
  rw [bind_of_ok (get_eq_ok.mpr ⟨rfl, rfl⟩), hblind]
  exact hany m

theorem vmOutDeviceLookup_deviceOnly {w : ℕ} (handler : VmDevice → Option (OutHandler w)) (vm : Word)
    (port : BitVec 16) (value : BitVec w) :
    DeviceOnly (vmOutDeviceLookup handler vm port value) := by
  refine .get (fun s => ?_) fun _ _ => rfl
  split
  · exact deviceOnly_throw _
  · exact deviceOnly_logLine _
  · split
    · exact deviceOnly_throw _
    · split
      · exact deviceOnly_throw _
      · exact finishHandler_deviceOnly _ _

theorem vmInDeviceLookup_deviceOnly {w : ℕ} (handler : VmDevice → Option (InHandler w)) (vm : Word)
    (port : BitVec 16) : DeviceOnly (vmInDeviceLookup handler vm port) := by
  refine .get (fun s => ?_) fun _ _ => rfl
  split
  · exact deviceOnly_throw _
  · exact (deviceOnly_logLine _).bind fun _ => deviceOnly_pure _
  · split
    · exact deviceOnly_throw _
    · split
      · exact deviceOnly_throw _
      · exact finishHandler_deviceOnly _ _

/-! ## Elements of a guest's string -/

/-- The bytes that are read as one value. -/
theorem readBytes_extract (m : Memory) (a : Word) {n j : ℕ} (hj : j < n) :
    (readBytes m a n).extractLsb' (8 * j) 8 = m (a + BitVec.ofNat 64 j) := by
  induction n with
  | zero => omega
  | succ n ih =>
    apply BitVec.eq_of_getLsbD_eq
    intro i hi
    rw [readBytes, BitVec.getLsbD_extractLsb', BitVec.getLsbD_setWidth, BitVec.getLsbD_append]
    by_cases hlast : j = n
    · have hhigh : ¬8 * j + i < 8 * n := by omega
      have hback : 8 * j + i - 8 * n = i := by omega
      have hwidth : 8 * j + i < 8 * (n + 1) := by omega
      rw [hlast] at *
      simp only [hi, hhigh, hback, hwidth, decide_true, Bool.true_and, if_false]
    · have hlow : 8 * j + i < 8 * n := by omega
      have hwidth : 8 * j + i < 8 * (n + 1) := by omega
      have hbyte := congrArg (fun b : BitVec 8 => b.getLsbD i) (ih (by omega))
      rw [BitVec.getLsbD_extractLsb'] at hbyte
      simpa only [hi, hlow, hwidth, decide_true, Bool.true_and, if_true] using hbyte

/-- The bytes that are written as one value. -/
theorem writeBytes_extract (m : Memory) (a : Word) {n j : ℕ} (hj : j < n) (hn : n < 2 ^ 64)
    (value : BitVec (8 * n)) :
    writeBytes m a n value (a + BitVec.ofNat 64 j) = value.extractLsb' (8 * j) 8 := by
  have hoffset : (a + BitVec.ofNat 64 j - a).toNat = j := by
    rw [BitVec.add_comm, BitVec.add_sub_cancel, BitVec.toNat_ofNat]
    omega
  rw [writeBytes, hoffset, if_pos hj]

/-- A guest linear address holds a value: every byte of it lies behind the walks of
its own address. -/
def GuestElement (m : Memory) (v : Vm) (guestCr3 la : Word) (bytes : ℕ) (value : BitVec (8 * bytes)) :
    Prop :=
  ∀ j < bytes, ∃ p, guestHostva m v guestCr3 (la + BitVec.ofNat 64 j) = some p ∧
    m (v2pIdentityMap p) = value.extractLsb' (8 * j) 8

/-- A pointer to data on one page gives the element. -/
theorem guestElement_of_pointer {m : Memory} {v : Vm} {guestCr3 la p : Word} {bytes : ℕ}
    {value : BitVec (8 * bytes)} (hp : guestHostva m v guestCr3 la = some p)
    (hpage : p.toNat % 4096 + bytes ≤ 4096)
    (hvalue : ∀ j < bytes, m (v2pIdentityMap p + BitVec.ofNat 64 j) = value.extractLsb' (8 * j) 8) :
    GuestElement m v guestCr3 la bytes value := by
  intro j hj
  refine ⟨p + BitVec.ofNat 64 j, (guestHostva_paged m v guestCr3).add hp (by omega), ?_⟩
  have hphysical : v2pIdentityMap (p + BitVec.ofNat 64 j) =
      v2pIdentityMap p + BitVec.ofNat 64 j := BitVec.sub_add_comm.symm
  rw [hphysical, hvalue j hj]

/-- Where the `i`-th element of a string starts. -/
def elementAt (index step : Word) (i : ℕ) : Word := index + BitVec.ofNat 64 i * step

theorem elementAt_zero (index step : Word) : elementAt index step 0 = index := by
  rw [elementAt, BitVec.zero_mul, BitVec.add_zero]

theorem elementAt_succ (index step : Word) (i : ℕ) :
    elementAt (index + step) step i = elementAt index step (i + 1) := by
  rw [elementAt, elementAt, BitVec.ofNat_add, BitVec.add_mul, BitVec.one_mul, BitVec.add_assoc,
    BitVec.add_comm step]

/-! ## OUTS -/

section Rounds

variable {bytes : ℕ} {vmOut : VmOut bytes} {vmIn : VmIn bytes} {vmState vmState' : VmxVmexitState}
  {port : BitVec 16} {s s' : Hv}

/-- A pointer that was returned for data of a few bytes is one to a page that holds them. -/
theorem pointer_returned {gva p : Word} (hpos : 1 ≤ bytes) (hfew : bytes ≤ 4096)
    (h : vmGuestPagingGetHostVirtualAddressDuringVmexit vmState gva (BitVec.ofNat 64 bytes) s =
      .ok p s') :
    s' = s ∧ guestHostva s.memory (s.vmAt vmState.vm) vmState.cr3 gva = some p ∧
      p.toNat % 4096 + bytes ≤ 4096 := by
  obtain ⟨hpointer, hcheck⟩ := hostVirtualAddress_returned h
  have hsize : (BitVec.ofNat 64 bytes).toNat = bytes := by
    rw [BitVec.toNat_ofNat]
    omega
  have hpage := offset_add_size_le (by omega) hcheck (by omega)
  rw [hsize] at hpage
  exact ⟨(hostVirtualAddress_effect vmState gva _ s).of_ok h, hpointer, hpage⟩

/-- One OUTS hands the element at RSI over and moves RSI. -/
theorem outStr_returned (hpos : 1 ≤ bytes) (hfew : bytes ≤ 4096)
    (h : vmEmulatedInstructionOutStr bytes vmOut vmState port s = .ok vmState' s') :
    ∃ value, GuestElement s.memory (s.vmAt vmState.vm) vmState.cr3 vmState.regState.rsi bytes value ∧
      vmOut vmState.vm port value s = .ok () s' ∧
      vmState' = { vmState with regState := { vmState.regState with
        rsi := vmState.regState.rsi + stringStep vmState bytes } } := by
  obtain ⟨p, t, hpointer, hrest⟩ := bind_eq_ok.mp h
  obtain ⟨rfl, hp, hpage⟩ := pointer_returned hpos hfew hpointer
  obtain ⟨u, u', hget, hrest⟩ := bind_eq_ok.mp hrest
  obtain ⟨rfl, rfl⟩ := get_eq_ok.mp hget
  obtain ⟨a, u'', hout, hrest⟩ := bind_eq_ok.mp hrest
  obtain ⟨hstate, rfl⟩ := pure_eq_ok.mp hrest
  refine ⟨_, guestElement_of_pointer hp hpage fun j hj => ?_, hout, hstate.symm⟩
  exact (readBytes_extract t.memory (v2pIdentityMap p) hj).symm

/-- The rounds of a repeated OUTS hand the elements over in order. -/
theorem repeatOuts_returned (hpos : 1 ≤ bytes) (hfew : bytes ≤ 4096)
    (hout : ∀ vm port value, DeviceOnly (vmOut vm port value)) (rounds : ℕ)
    (hrounds : vmState.regState.rcx.toNat = rounds)
    (h : repeatString (vmEmulatedInstructionOutStr bytes vmOut) rounds vmState port s =
      .ok vmState' s') :
    ∃ values : List (BitVec (8 * bytes)), values.length = rounds ∧
      (∀ i (hi : i < values.length), GuestElement s.memory (s.vmAt vmState.vm) vmState.cr3
        (elementAt vmState.regState.rsi (stringStep vmState bytes) i) bytes values[i]) ∧
      (values.forM (vmOut vmState.vm port)) s = .ok () s' ∧ s'.memory = s.memory ∧
      vmState' = { vmState with regState := { vmState.regState with
        rcx := 0
        rsi := elementAt vmState.regState.rsi (stringStep vmState bytes) rounds } } := by
  induction rounds generalizing vmState s with
  | zero =>
    have hzero : vmState.regState.rcx = 0 := BitVec.eq_of_toNat_eq hrounds
    rw [repeatString, if_pos hzero] at h
    obtain ⟨hstate, rfl⟩ := pure_eq_ok.mp h
    refine ⟨[], rfl, fun i hi => absurd hi (Nat.not_lt_zero i), rfl, rfl, ?_⟩
    rw [elementAt_zero, ← hzero, ← hstate]
  | succ rounds ih =>
    have hne : vmState.regState.rcx ≠ 0 := fun hzero => by
      rw [hzero] at hrounds
      cases hrounds
    rw [repeatString, if_neg hne] at h
    obtain ⟨next, t, hround, hrest⟩ := bind_eq_ok.mp h
    obtain ⟨value, helement, hvalue, rfl⟩ := outStr_returned hpos hfew hround
    obtain ⟨hmemory, hvm, -⟩ := hout _ _ _ _ _ _ hvalue
    have hless : (vmState.regState.rcx - 1).toNat = rounds := by bv_omega
    obtain ⟨values, hlength, helements, hvalues, hkept, hstate⟩ := ih hless hrest
    refine ⟨value :: values, congrArg (· + 1) hlength, fun i hi => ?_, ?_, hkept.trans hmemory, ?_⟩
    · cases i with
      | zero =>
        rw [elementAt_zero]
        exact helement
      | succ i =>
        have htail := helements i (Nat.lt_of_succ_lt_succ hi)
        rw [hmemory, hvm] at htail
        rw [← elementAt_succ]
        exact htail
    · exact (bind_of_ok hvalue).trans hvalues
    · rw [hstate, ← elementAt_succ]
      rfl

/-! ## INS -/

/-- One INS stores what the devices answer behind RDI and moves RDI. -/
theorem inStr_returned (hpos : 1 ≤ bytes) (hfew : bytes ≤ 4096)
    (h : vmEmulatedInstructionInStr bytes vmIn vmState port s = .ok vmState' s') :
    ∃ p value t, guestHostva s.memory (s.vmAt vmState.vm) vmState.cr3 vmState.regState.rdi = some p ∧
      p.toNat % 4096 + bytes ≤ 4096 ∧ vmIn vmState.vm port s = .ok value t ∧
      s' = withMemory t (writeBytes t.memory (v2pIdentityMap p) bytes value) ∧
      vmState' = { vmState with regState := { vmState.regState with
        rdi := vmState.regState.rdi + stringStep vmState bytes } } := by
  obtain ⟨p, u, hpointer, hrest⟩ := bind_eq_ok.mp h
  obtain ⟨rfl, hp, hpage⟩ := pointer_returned hpos hfew hpointer
  obtain ⟨value, t, hin, hrest⟩ := bind_eq_ok.mp hrest
  obtain ⟨a, t', hstore, hrest⟩ := bind_eq_ok.mp hrest
  cases hstore
  obtain ⟨hstate, rfl⟩ := pure_eq_ok.mp hrest
  exact ⟨p, value, t, hp, hpage, hin, rfl, hstate.symm⟩

/-- What the devices answer to some reads of a port in a row. -/
def readPort (vmIn : VmIn bytes) (vm : Word) (port : BitVec 16) : ℕ → HvM (List (BitVec (8 * bytes)))
  | 0 => pure []
  | n + 1 => do
    let value ← vmIn vm port
    let values ← readPort vmIn vm port n
    return value :: values

theorem readPort_deviceOnly (hin : ∀ vm port, DeviceOnly (vmIn vm port)) (vm : Word)
    (port : BitVec 16) (n : ℕ) : DeviceOnly (readPort vmIn vm port n) := by
  induction n with
  | zero => exact deviceOnly_pure _
  | succ n ih => exact (hin vm port).bind fun value => ih.bind fun values => deviceOnly_pure _

/-- Store values behind pointers, one after the other. -/
def storeAll (m : Memory) : List (Word × BitVec (8 * bytes)) → Memory
  | [] => m
  | (p, value) :: stores => storeAll (writeBytes m (v2pIdentityMap p) bytes value) stores

/-- The address is one of the bytes behind a pointer. -/
def Behind (bytes : ℕ) (p a : Word) : Prop := ∃ j < bytes, a = v2pIdentityMap p + BitVec.ofNat 64 j

theorem writeBytes_of_not_behind {m : Memory} {p a : Word} {value : BitVec (8 * bytes)}
    (h : ¬Behind bytes p a) : writeBytes m (v2pIdentityMap p) bytes value a = m a := by
  refine writeBytes_apply_of_le (Nat.le_of_not_lt fun hlt => h ⟨_, hlt, ?_⟩)
  rw [BitVec.ofNat_toNat, BitVec.setWidth_eq, BitVec.add_comm, BitVec.sub_add_cancel]

/-- Only the bytes behind the pointers change. -/
theorem storeAll_of_not_behind (stores : List (Word × BitVec (8 * bytes))) {a : Word} {m : Memory}
    (h : ∀ store ∈ stores, ¬Behind bytes store.1 a) : storeAll m stores a = m a := by
  induction stores generalizing m with
  | nil => rfl
  | cons store stores ih =>
    obtain ⟨p, value⟩ := store
    rw [List.forall_mem_cons] at h
    rw [storeAll, ih h.2, writeBytes_of_not_behind h.1]

/-- A stored value stays where no later one is stored over it. -/
theorem storeAll_byte (hbytes : bytes < 2 ^ 64) {stores : List (Word × BitVec (8 * bytes))} {i j : ℕ}
    (hi : i < stores.length) (hj : j < bytes) {m : Memory}
    (hlater : ∀ k (hk : k < stores.length), i < k →
      ¬Behind bytes stores[k].1 (v2pIdentityMap stores[i].1 + BitVec.ofNat 64 j)) :
    storeAll m stores (v2pIdentityMap stores[i].1 + BitVec.ofNat 64 j) =
      stores[i].2.extractLsb' (8 * j) 8 := by
  induction stores generalizing i m with
  | nil => cases hi
  | cons store stores ih =>
    obtain ⟨p, value⟩ := store
    cases i with
    | zero =>
      rw [storeAll, storeAll_of_not_behind stores, List.getElem_cons_zero,
        writeBytes_extract m _ hj hbytes]
      intro store hstore
      obtain ⟨k, hk, rfl⟩ := List.getElem_of_mem hstore
      exact hlater (k + 1) (Nat.succ_lt_succ hk) (Nat.succ_pos k)
    | succ i =>
      rw [storeAll]
      refine ih (Nat.lt_of_succ_lt_succ hi) fun k hk hik => ?_
      exact hlater (k + 1) (Nat.succ_lt_succ hk) (Nat.succ_lt_succ hik)

/-- No element of a string lies in a page-table page that translates one of its
elements. -/
def OffTables (m : Memory) (v : Vm) (guestCr3 : Word) (bytes n : ℕ) (la : ℕ → Word) : Prop :=
  ∀ i < n, ∀ k < n, ∀ p, guestHostva m v guestCr3 (la i) = some p →
    ∀ table ∈ tablesUsed m v guestCr3 (la k), ∀ a, InTable table a → ¬Behind bytes p a

/-- Storing one element of such a string keeps the translations of all of them. -/
theorem OffTables.store {m : Memory} {v : Vm} {guestCr3 p : Word} {n i : ℕ} {la : ℕ → Word}
    (h : OffTables m v guestCr3 bytes n la) (hi : i < n)
    (hp : guestHostva m v guestCr3 (la i) = some p) (value : BitVec (8 * bytes)) {k : ℕ} (hk : k < n) :
    guestHostva (writeBytes m (v2pIdentityMap p) bytes value) v guestCr3 (la k) =
        guestHostva m v guestCr3 (la k) ∧
      tablesUsed (writeBytes m (v2pIdentityMap p) bytes value) v guestCr3 (la k) =
        tablesUsed m v guestCr3 (la k) :=
  guestHostva_congr fun table htable a ha =>
    writeBytes_of_not_behind (h i hi k hk p hp table htable a ha)

/-- One round of a repeated INS. -/
theorem repeatIns_round (hpos : 1 ≤ bytes) (hfew : bytes ≤ 4096)
    (hin : ∀ vm port, DeviceOnly (vmIn vm port)) {rounds : ℕ}
    (hrounds : vmState.regState.rcx.toNat = rounds + 1)
    (h : repeatString (vmEmulatedInstructionInStr bytes vmIn) (rounds + 1) vmState port s =
      .ok vmState' s') :
    ∃ p value t after, guestHostva s.memory (s.vmAt vmState.vm) vmState.cr3
        vmState.regState.rdi = some p ∧ p.toNat % 4096 + bytes ≤ 4096 ∧
      vmIn vmState.vm port s = .ok value t ∧ t.vmAt = s.vmAt ∧ t.memory = s.memory ∧
      after = { vmState with regState := { vmState.regState with
        rcx := vmState.regState.rcx - 1
        rdi := vmState.regState.rdi + stringStep vmState bytes } } ∧
      repeatString (vmEmulatedInstructionInStr bytes vmIn) rounds after port
        (withMemory t (writeBytes s.memory (v2pIdentityMap p) bytes value)) = .ok vmState' s' := by
  have hne : vmState.regState.rcx ≠ 0 := fun hzero => by
    rw [hzero] at hrounds
    cases hrounds
  rw [repeatString, if_neg hne] at h
  obtain ⟨next, s₁, hround, hrest⟩ := bind_eq_ok.mp h
  obtain ⟨p, value, t, hp, hpage, hvalue, rfl, rfl⟩ := inStr_returned hpos hfew hround
  obtain ⟨hmemory, hvm, -⟩ := hin _ _ _ _ _ hvalue
  rw [hmemory] at hrest
  exact ⟨p, value, t, _, hp, hpage, hvalue, hvm, hmemory, rfl, hrest⟩

/-- The rounds of a repeated INS store the answers in order, where the first
translations say. -/
theorem repeatIns_returned (hpos : 1 ≤ bytes) (hfew : bytes ≤ 4096)
    (hin : ∀ vm port, DeviceOnly (vmIn vm port)) (rounds : ℕ)
    (hrounds : vmState.regState.rcx.toNat = rounds)
    (hoff : OffTables s.memory (s.vmAt vmState.vm) vmState.cr3 bytes rounds
      (elementAt vmState.regState.rdi (stringStep vmState bytes)))
    (h : repeatString (vmEmulatedInstructionInStr bytes vmIn) rounds vmState port s =
      .ok vmState' s') :
    ∃ (stores : List (Word × BitVec (8 * bytes))) (t : Hv), stores.length = rounds ∧
      readPort vmIn vmState.vm port rounds s = .ok (stores.map Prod.snd) t ∧
      s' = withMemory t (storeAll s.memory stores) ∧
      (∀ i (hi : i < stores.length),
        guestHostva s.memory (s.vmAt vmState.vm) vmState.cr3
          (elementAt vmState.regState.rdi (stringStep vmState bytes) i) = some stores[i].1 ∧
        stores[i].1.toNat % 4096 + bytes ≤ 4096) ∧
      vmState' = { vmState with regState := { vmState.regState with
        rcx := 0
        rdi := elementAt vmState.regState.rdi (stringStep vmState bytes) rounds } } := by
  induction rounds generalizing vmState s with
  | zero =>
    have hzero : vmState.regState.rcx = 0 := BitVec.eq_of_toNat_eq hrounds
    rw [repeatString, if_pos hzero] at h
    obtain ⟨hstate, rfl⟩ := pure_eq_ok.mp h
    refine ⟨[], s, rfl, rfl, rfl, fun i hi => absurd hi (Nat.not_lt_zero i), ?_⟩
    rw [elementAt_zero, ← hzero, ← hstate]
  | succ rounds ih =>
    obtain ⟨p, value, t, after, hp, hpage, hvalue, hvm, hmemory, hafter, hrest⟩ :=
      repeatIns_round hpos hfew hin hrounds h
    have hvmAfter : after.vm = vmState.vm := by rw [hafter]
    have hcr3 : after.cr3 = vmState.cr3 := by rw [hafter]
    have hstep : stringStep after bytes = stringStep vmState bytes := by rw [hafter]; rfl
    have hrdi : after.regState.rdi = vmState.regState.rdi + stringStep vmState bytes := by
      rw [hafter]
    have hless : after.regState.rcx.toNat = rounds := by
      rw [hafter]
      bv_omega
    have hfirst : guestHostva s.memory (s.vmAt vmState.vm) vmState.cr3
        (elementAt vmState.regState.rdi (stringStep vmState bytes) 0) = some p := by
      rw [elementAt_zero]
      exact hp
    have hkept := fun k (hk : k < rounds + 1) => hoff.store (Nat.succ_pos rounds) hfirst value hk
    generalize hs₁ : withMemory t (writeBytes s.memory (v2pIdentityMap p) bytes value) = s₁ at hrest
    have hmemory₁ : s₁.memory = writeBytes s.memory (v2pIdentityMap p) bytes value := by rw [← hs₁]; rfl
    have hvm₁ : s₁.vmAt = s.vmAt := by rw [← hs₁, ← hvm]; rfl
    -- the rest of the string is off the tables of the stored memory
    have hoff' : OffTables s₁.memory (s₁.vmAt after.vm) after.cr3 bytes rounds
        (elementAt after.regState.rdi (stringStep after bytes)) := by
      rw [hmemory₁, hvm₁, hvmAfter, hcr3, hrdi, hstep]
      intro i hi k hk q hq table htable
      rw [elementAt_succ, (hkept (i + 1) (Nat.succ_lt_succ hi)).1] at hq
      rw [elementAt_succ, (hkept (k + 1) (Nat.succ_lt_succ hk)).2] at htable
      exact hoff (i + 1) (Nat.succ_lt_succ hi) (k + 1) (Nat.succ_lt_succ hk) q hq table htable
    obtain ⟨stores, t', hlength, hvalues, hstored, hpointers, hstate⟩ := ih hless hoff' hrest
    rw [hmemory₁, hvm₁, hvmAfter, hcr3, hrdi, hstep] at hpointers
    rw [hmemory₁] at hstored
    rw [hvmAfter] at hvalues
    have hdevices := (readPort_deviceOnly hin _ _ _ _ _ _ hvalues).2.2 t.memory
    have hsame : withMemory s₁ t.memory = t := by rw [← hs₁]; rfl
    rw [hsame] at hdevices
    refine ⟨(p, value) :: stores, withMemory t' t.memory, congrArg (· + 1) hlength, ?_, hstored,
      fun i hi => ?_, ?_⟩
    · rw [readPort, bind_of_ok hvalue, bind_of_ok hdevices]
      rfl
    · cases i with
      | zero => exact ⟨hfirst, hpage⟩
      | succ i =>
        have htail := hpointers i (Nat.lt_of_succ_lt_succ hi)
        have hbound : i + 1 < rounds + 1 := by
          rw [← hlength]
          exact hi
        rw [elementAt_succ, (hkept (i + 1) hbound).1] at htail
        exact htail
    · rw [hstate, hrdi, hstep, elementAt_succ, hafter]

/-- All stores of a string off the tables keep its translations. -/
theorem OffTables.storeAll {m : Memory} {v : Vm} {guestCr3 : Word} {n : ℕ} {la : ℕ → Word}
    (h : OffTables m v guestCr3 bytes n la) {stores : List (Word × BitVec (8 * bytes))}
    (hstores : ∀ store ∈ stores, ∃ i < n, guestHostva m v guestCr3 (la i) = some store.1) {k : ℕ}
    (hk : k < n) :
    guestHostva (storeAll m stores) v guestCr3 (la k) = guestHostva m v guestCr3 (la k) := by
  refine (guestHostva_congr fun table htable a ha => ?_).1
  refine storeAll_of_not_behind stores fun store hstore => ?_
  obtain ⟨i, hi, hp⟩ := hstores store hstore
  exact h i hi k hk store.1 hp table htable a ha

end Rounds

/-! ## The repeated instructions -/

/-- The `size` of the macros. -/
inductive IoSize where
  | b
  | w
  | d
  deriving DecidableEq

/-- `sizeof(type)` -/
def IoSize.bytes : IoSize → ℕ
  | .b => 1
  | .w => 2
  | .d => 4

/-- `vm_out##size` -/
def IoSize.vmOut : (size : IoSize) → VmOut size.bytes
  | .b => vmOutb
  | .w => vmOutw
  | .d => vmOutd

/-- `vm_in##size` -/
def IoSize.vmIn : (size : IoSize) → VmIn size.bytes
  | .b => vmInb
  | .w => vmInw
  | .d => vmInd

/-- `vm_emulated_instruction_rep_outs##size` -/
def IoSize.repOuts : IoSize → EmulatedIo
  | .b => vmEmulatedInstructionRepOutsb
  | .w => vmEmulatedInstructionRepOutsw
  | .d => vmEmulatedInstructionRepOutsd

/-- `vm_emulated_instruction_rep_ins##size` -/
def IoSize.repIns : IoSize → EmulatedIo
  | .b => vmEmulatedInstructionRepInsb
  | .w => vmEmulatedInstructionRepInsw
  | .d => vmEmulatedInstructionRepInsd

theorem IoSize.repOuts_eq (size : IoSize) :
    size.repOuts = vmEmulatedInstructionIoStrrep (vmEmulatedInstructionOutStr size.bytes size.vmOut) := by
  cases size <;> rfl

theorem IoSize.repIns_eq (size : IoSize) :
    size.repIns = vmEmulatedInstructionIoStrrep (vmEmulatedInstructionInStr size.bytes size.vmIn) := by
  cases size <;> rfl

theorem IoSize.bytes_few (size : IoSize) : 1 ≤ size.bytes ∧ size.bytes ≤ 4096 := by
  cases size <;> decide

theorem IoSize.vmOut_deviceOnly (size : IoSize) (vm : Word) (port : BitVec 16)
    (value : BitVec (8 * size.bytes)) : DeviceOnly (size.vmOut vm port value) := by
  cases size <;> exact vmOutDeviceLookup_deviceOnly _ _ _ _

theorem IoSize.vmIn_deviceOnly (size : IoSize) (vm : Word) (port : BitVec 16) :
    DeviceOnly (size.vmIn vm port) := by
  cases size <;> exact vmInDeviceLookup_deviceOnly _ _ _

/-- The closed forms of REP OUTS and REP INS, for RCX elements of a size. OUTS hands
the guest's elements to the devices in order and keeps the memory. INS, while no
element lies in a table that translates the string, stores the answers in order
behind the translations of its elements: an element holds its answer unless a
later one was stored over it, and no other byte changes. -/
theorem repeated_strings_closed_form (size : IoSize) (vmState vmState' : VmxVmexitState)
    (port : BitVec 16) (s s' : Hv) :
    (size.repOuts vmState port s = .ok vmState' s' →
      ∃ values : List (BitVec (8 * size.bytes)), values.length = vmState.regState.rcx.toNat ∧
        (∀ i (hi : i < values.length), GuestElement s.memory (s.vmAt vmState.vm) vmState.cr3
          (elementAt vmState.regState.rsi (stringStep vmState size.bytes) i) size.bytes values[i]) ∧
        (values.forM (size.vmOut vmState.vm port)) s = .ok () s' ∧ s'.memory = s.memory ∧
        vmState' = { vmState with regState := { vmState.regState with
          rcx := 0
          rsi := vmState.regState.rsi + vmState.regState.rcx * stringStep vmState size.bytes } }) ∧
    (OffTables s.memory (s.vmAt vmState.vm) vmState.cr3 size.bytes vmState.regState.rcx.toNat
        (elementAt vmState.regState.rdi (stringStep vmState size.bytes)) →
      size.repIns vmState port s = .ok vmState' s' →
      ∃ (stores : List (Word × BitVec (8 * size.bytes))) (t : Hv),
        stores.length = vmState.regState.rcx.toNat ∧
        readPort size.vmIn vmState.vm port vmState.regState.rcx.toNat s =
          .ok (stores.map Prod.snd) t ∧
        s' = withMemory t s'.memory ∧
        (∀ i (hi : i < stores.length), guestHostva s.memory (s.vmAt vmState.vm) vmState.cr3
          (elementAt vmState.regState.rdi (stringStep vmState size.bytes) i) = some stores[i].1) ∧
        (∀ i (hi : i < stores.length),
          (∀ k (hk : k < stores.length), i < k → ∀ a, Behind size.bytes stores[i].1 a →
            ¬Behind size.bytes stores[k].1 a) →
          GuestElement s'.memory (s'.vmAt vmState.vm) vmState.cr3
            (elementAt vmState.regState.rdi (stringStep vmState size.bytes) i) size.bytes
            stores[i].2) ∧
        (∀ a, (∀ store ∈ stores, ¬Behind size.bytes store.1 a) → s'.memory a = s.memory a) ∧
        vmState' = { vmState with regState := { vmState.regState with
          rcx := 0
          rdi := vmState.regState.rdi + vmState.regState.rcx * stringStep vmState size.bytes } }) := by
  obtain ⟨hpos, hfew⟩ := size.bytes_few
  have hend : ∀ index step : Word, elementAt index step vmState.regState.rcx.toNat =
      index + vmState.regState.rcx * step := fun index step => by
    rw [elementAt, BitVec.ofNat_toNat, BitVec.setWidth_eq]
  constructor
  · intro hrun
    rw [size.repOuts_eq] at hrun
    have hclosed := repeatOuts_returned hpos hfew size.vmOut_deviceOnly _ rfl hrun
    rwa [hend] at hclosed
  · intro hoff hrun
    rw [size.repIns_eq] at hrun
    obtain ⟨stores, t, hlength, hvalues, hstored, hpointers, hstate⟩ :=
      repeatIns_returned hpos hfew size.vmIn_deviceOnly _ rfl hoff hrun
    rw [hend] at hstate
    have hmemory : s'.memory = storeAll s.memory stores := by rw [hstored]; rfl
    have hvm : s'.vmAt = s.vmAt := by
      have hdevices := (readPort_deviceOnly size.vmIn_deviceOnly _ _ _ _ _ _ hvalues).2.1
      rw [hstored, ← hdevices]
      rfl
    have htargets : ∀ store ∈ stores, ∃ i < vmState.regState.rcx.toNat,
        guestHostva s.memory (s.vmAt vmState.vm) vmState.cr3
          (elementAt vmState.regState.rdi (stringStep vmState size.bytes) i) = some store.1 := by
      intro store hstore
      obtain ⟨i, hi, rfl⟩ := List.getElem_of_mem hstore
      exact ⟨i, hlength ▸ hi, (hpointers i hi).1⟩
    refine ⟨stores, t, hlength, hvalues, ?_, fun i hi => (hpointers i hi).1, fun i hi hlater => ?_,
      fun a ha => ?_, hstate⟩
    · rw [hmemory]
      exact hstored
    · obtain ⟨hp, hpage⟩ := hpointers i hi
      have hkept := hoff.storeAll htargets (hlength ▸ hi)
      rw [hmemory, hvm]
      refine guestElement_of_pointer (hkept.trans hp) hpage fun j hj => ?_
      have hbytes : size.bytes < 2 ^ 64 := lt_of_le_of_lt hfew (by decide)
      exact storeAll_byte hbytes hi hj fun k hk hik => hlater k hk hik _ ⟨j, hj, rfl⟩
    · rw [hmemory]
      exact storeAll_of_not_behind stores ha

/-- Two doublewords at 0x5008 of a guest with large pages. -/
def twoElements : VmxVmexitState :=
  { longModeState with regState := { longModeState.regState with
    rcx := 2
    rsi := 0x5008
    rdi := 0x5008 } }

/-- They are off the tables. -/
theorem twoElements_offTables : OffTables largePagesHost.memory (largePagesHost.vmAt firstVm) 0 4 2
    (elementAt 0x5008 4) := by
  have htables : ∀ k < 2, tablesUsed largePagesHost.memory (largePagesHost.vmAt firstVm) 0
      (elementAt 0x5008 4 k) = [0, 0x7878787878000, 0x7878780000000, 0, 0x7878787878000,
        0x7878787878000, 0, 0x7878787878000] := by
    decide +kernel
  have hpointers : ∀ i < 2, guestHostva largePagesHost.memory (largePagesHost.vmAt firstVm) 0
      (elementAt 0x5008 4 i) = some (largePagesPointer + 0x5000 + 4 * BitVec.ofNat 64 i) := by
    decide +kernel
  intro i hi k hk p hp table htable a ha hbehind
  rw [hpointers i hi, Option.some.injEq] at hp
  obtain ⟨j, hj, rfl⟩ := hbehind
  have hpage : ∀ i < 2, ∀ j < 4, ¬InTable 0 (v2pIdentityMap (largePagesPointer + 0x5000 +
        4 * BitVec.ofNat 64 i) + BitVec.ofNat 64 j) ∧
      ¬InTable 0x7878787878000 (v2pIdentityMap (largePagesPointer + 0x5000 +
        4 * BitVec.ofNat 64 i) + BitVec.ofNat 64 j) ∧
      ¬InTable 0x7878780000000 (v2pIdentityMap (largePagesPointer + 0x5000 +
        4 * BitVec.ofNat 64 i) + BitVec.ofNat 64 j) := by
    decide +kernel
  obtain ⟨hzero, hpdpt, hpml4⟩ := hpage i hi j hj
  rw [← hp] at ha
  rw [htables k hk] at htable
  simp only [List.mem_cons, List.not_mem_nil, or_false] at htable
  rcases htable with rfl | rfl | rfl | rfl | rfl | rfl | rfl | rfl
  · exact hzero ha
  · exact hpdpt ha
  · exact hpml4 ha
  · exact hzero ha
  · exact hpdpt ha
  · exact hpdpt ha
  · exact hzero ha
  · exact hpdpt ha

/-- A call that is seen to return has a result. -/
theorem exists_of_returns {α : Type} {r : EStateM.Result Fault Hv α}
    (h : (match r with | .ok _ _ => true | .error _ _ => false) = true) : ∃ a s', r = .ok a s' := by
  cases r with
  | ok a s' => exact ⟨a, s', rfl⟩
  | error _ _ => cases h

/-- A repeated OUTSD and a repeated INSD of two elements, with no device on the port. -/
theorem repeated_strings_closed_form_two :
    (∃ (values : List (BitVec (8 * IoSize.d.bytes))) (s' : Hv),
      values.length = twoElements.regState.rcx.toNat ∧
      values.forM (IoSize.d.vmOut twoElements.vm 0x3f8) largePagesHost = .ok () s' ∧
      s'.memory = largePagesHost.memory) ∧
    ∃ (stores : List (Word × BitVec (8 * IoSize.d.bytes))) (s' : Hv),
      stores.length = twoElements.regState.rcx.toNat ∧
      ∀ a, (∀ store ∈ stores, ¬Behind IoSize.d.bytes store.1 a) →
        s'.memory a = largePagesHost.memory a := by
  obtain ⟨r, s', houts⟩ := exists_of_returns
    (r := IoSize.repOuts .d twoElements 0x3f8 largePagesHost) (by decide +kernel)
  obtain ⟨t, t', hins⟩ := exists_of_returns
    (r := IoSize.repIns .d twoElements 0x3f8 largePagesHost) (by decide +kernel)
  obtain ⟨values, hlength, -, hvalues, hmemory, -⟩ :=
    (repeated_strings_closed_form .d twoElements r 0x3f8 largePagesHost s').1 houts
  obtain ⟨stores, -, hlength', -, -, -, -, hkept, -⟩ :=
    (repeated_strings_closed_form .d twoElements t 0x3f8 largePagesHost t').2
      twoElements_offTables hins
  exact ⟨⟨values, s', hlength, hvalues, hmemory⟩, stores, t', hlength', hkept⟩

end Rkhv.PortStrings
