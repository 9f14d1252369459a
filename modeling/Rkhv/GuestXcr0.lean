import Rkhv.VmexitFrame

/-!
# XCR0 values that a guest can have stored

The exit stub loads the XCR0 that a guest asked for in the host's own context,
where an invalid value faults. The emulated XSETBV checks bit 0, the host's bits
and the pair of SSE and AVX, but none of the other rules of the architecture, so
that the stored value is valid on every host exactly when the host has none of
the features that these rules are about.
-/

namespace Rkhv.GuestXcr0

open ByteMemory HostTypes HostState StateOutcome Arenas VmxInstructions VmManager VmxMsr
open VmEmulatedInstructions VmxVmexit VmexitFrame HostRuns

/-- XCR0 values that the architecture allows: x87 always, AVX with SSE, the two
MPX bits together, the three AVX-512 bits together and with AVX, and the two AMX
bits together. -/
structure ValidXcr0 (xcr0 : Word) : Prop where
  x87 : xcr0.getLsbD 0 = true
  avx : xcr0.getLsbD 2 = true → xcr0.getLsbD 1 = true
  mpx : xcr0.getLsbD 3 = xcr0.getLsbD 4
  opmask : xcr0.getLsbD 5 = xcr0.getLsbD 6
  zmm : xcr0.getLsbD 6 = xcr0.getLsbD 7
  avx512 : xcr0.getLsbD 5 = true → xcr0.getLsbD 2 = true
  amx : xcr0.getLsbD 17 = xcr0.getLsbD 18

instance (xcr0 : Word) : Decidable (ValidXcr0 xcr0) :=
  decidable_of_iff (xcr0.getLsbD 0 = true ∧ (xcr0.getLsbD 2 = true → xcr0.getLsbD 1 = true) ∧
      xcr0.getLsbD 3 = xcr0.getLsbD 4 ∧ xcr0.getLsbD 5 = xcr0.getLsbD 6 ∧
      xcr0.getLsbD 6 = xcr0.getLsbD 7 ∧ (xcr0.getLsbD 5 = true → xcr0.getLsbD 2 = true) ∧
      xcr0.getLsbD 17 = xcr0.getLsbD 18)
    ⟨fun ⟨h₁, h₂, h₃, h₄, h₅, h₆, h₇⟩ => ⟨h₁, h₂, h₃, h₄, h₅, h₆, h₇⟩,
      fun ⟨h₁, h₂, h₃, h₄, h₅, h₆, h₇⟩ => ⟨h₁, h₂, h₃, h₄, h₅, h₆, h₇⟩⟩

/-- Values that XSETBV accepts on a host: valid ones within the host's own. -/
def AcceptedByHost (hostXcr0 xcr0 : Word) : Prop := ValidXcr0 xcr0 ∧ xcr0 &&& ~~~hostXcr0 = 0

/-- The bits of MPX, AVX-512 and AMX. -/
def groupedBits : Word := 0x600f8

/-- Runs of a machine on a host with a given XCR0: it is created, its VM exits and
those of other machines are handled, and whatever else happens keeps its stored
value. -/
inductive XsetbvRun (hw : Hardware) (vm hostXcr0 : Word) : Hv → Prop where
  | created {name : String} {s s' : Hv} (h : vmManagerCreateVmxMachine name s = .ok vm s') :
      XsetbvRun hw vm hostXcr0 s'
  | other {s t : Hv} (h : XsetbvRun hw vm hostXcr0 s) (ht : (t.vmAt vm).xcr0 = (s.vmAt vm).xcr0) :
      XsetbvRun hw vm hostXcr0 t
  | exit {s s' : Hv} {reg reg' : VmxVmexitRegState} {current : Word}
      (h : XsetbvRun hw vm hostXcr0 s) (hhost : s.xsaveHostXcr0 = hostXcr0)
      (hrun : vmxVmexitHandler hw reg s = .ok (reg', current) s') : XsetbvRun hw vm hostXcr0 s'

/-- A new machine has only the x87 bit. -/
theorem vmManagerCreateVmxMachine_record {name : String} {vm : Word} {s s' : Hv}
    (h : vmManagerCreateVmxMachine name s = .ok vm s') : s'.vmAt vm = newVm name := by
  have hrest : ∀ t, (do
      let s ← get
      let result ← arenaAllocate s.vmManagerArena sizeofVm
      modify fun s => { s with
        vmAt := Function.update s.vmAt result (newVm name)
        vmManagerVmList := result :: s.vmManagerVmList }
      return result : HvM Word) t = .ok vm s' → s'.vmAt vm = newVm name := fun t ht => by
    rw [bind_of_ok (get_eq_ok.mpr ⟨rfl, rfl⟩), bind_eq_ok] at ht
    obtain ⟨result, t', _, ht⟩ := ht
    cases ht
    exact Function.update_self vm (newVm name) t'.vmAt
  rw [vmManagerCreateVmxMachine, bind_of_ok (get_eq_ok.mpr ⟨rfl, rfl⟩)] at h
  split at h
  · rw [bind_eq_ok] at h
    obtain ⟨_, t, _, h⟩ := h
    rw [bind_eq_ok] at h
    obtain ⟨_, t', _, h⟩ := h
    exact hrest _ h
  · exact hrest _ h

/-- A handled exit keeps the stored value of a machine, or replaces it by one
that the emulated XSETBV accepts. -/
theorem vmxVmexitHandler_xcr0 {hw : Hardware} {s s' : Hv} {reg reg' : VmxVmexitRegState}
    {current : Word} (h : vmxVmexitHandler hw reg s = .ok (reg', current) s') (vm : Word) :
    (s'.vmAt vm).xcr0 = (s.vmAt vm).xcr0 ∨ AcceptedXcr0 s.xsaveHostXcr0 (s'.vmAt vm).xcr0 := by
  obtain ⟨vmState, vmState', t, t', hcall, hcall', hcall'', _, _⟩ := vmxVmexitHandler_stages h
  have hread := readVmState_returned hcall
  have hhandled := handleExit_returned hcall'
  have hwritten := writeVmState_returned hcall''
  have hfinal : s'.vmAt = t'.vmAt := by rw [hwritten.host]
  have hstart : t.vmAt = s.vmAt := by rw [hread.host]
  have hhost : t.xsaveHostXcr0 = s.xsaveHostXcr0 := by rw [hread.host]
  rw [hfinal, hhandled.vmAt, hstart]
  split
  · rename_i hreason
    by_cases hvm : vm = vmState.vm
    · right
      rw [hvm, Function.update_self, ← hhost]
      exact hhandled.xcr0 hreason
    · left
      rw [Function.update_of_ne hvm]
  · exact .inl rfl

/-- In every run the stored value is the first one or one that was accepted. -/
theorem XsetbvRun.stored {hw : Hardware} {vm hostXcr0 : Word} {s : Hv}
    (h : XsetbvRun hw vm hostXcr0 s) :
    (s.vmAt vm).xcr0 = 1 ∨ AcceptedXcr0 hostXcr0 (s.vmAt vm).xcr0 := by
  induction h with
  | created hcreate =>
    rw [vmManagerCreateVmxMachine_record hcreate]
    exact .inl rfl
  | other _ ht ih => rwa [ht]
  | exit _ hhost hrun ih =>
    cases vmxVmexitHandler_xcr0 hrun vm with
    | inl hkept => rwa [hkept]
    | inr haccepted => exact .inr (hhost ▸ haccepted)

/-! ## Hosts without grouped features -/

/-- A bit that is in a masked word of zero is not in the word. -/
theorem getLsbD_of_and_zero {x mask : Word} (h : x &&& mask = 0) {i : ℕ}
    (hmask : mask.getLsbD i = true) : x.getLsbD i = false := by
  have hbit := congrArg (fun w : Word => w.getLsbD i) h
  simpa only [BitVec.getLsbD_and, hmask, Bool.and_true, BitVec.ofNat_eq_ofNat,
    BitVec.getLsbD_zero] using hbit

/-- An accepted value has no bit that the host does not have. -/
theorem AcceptedXcr0.bit {hostXcr0 xcr0 : Word} (h : AcceptedXcr0 hostXcr0 xcr0) {i : ℕ}
    (hi : i < 64) (hhost : hostXcr0.getLsbD i = false) : xcr0.getLsbD i = false :=
  getLsbD_of_and_zero h.2.1 (by rw [BitVec.getLsbD_not, hhost, Bool.not_false, decide_eq_true hi]; rfl)

theorem acceptedXcr0_avx {hostXcr0 xcr0 : Word} (h : AcceptedXcr0 hostXcr0 xcr0)
    (havx : xcr0.getLsbD 2 = true) : xcr0.getLsbD 1 = true := by
  by_contra hsse
  have hmask : (0x6 : Word) = BitVec.twoPow 64 1 ||| BitVec.twoPow 64 2 := by decide
  refine h.2.2 ?_
  rw [hmask, BitVec.and_or_distrib_left, BitVec.and_twoPow, BitVec.and_twoPow, if_neg hsse,
    if_pos havx]
  decide

/-- Without grouped features on the host, the checks of the emulated XSETBV are
enough. -/
theorem acceptedByHost {hostXcr0 xcr0 : Word} (h : AcceptedXcr0 hostXcr0 xcr0)
    (hgrouped : hostXcr0 &&& groupedBits = 0) : AcceptedByHost hostXcr0 xcr0 := by
  have hclear : ∀ i < 64, groupedBits.getLsbD i = true → xcr0.getLsbD i = false := fun i hi hbit =>
    AcceptedXcr0.bit h hi (getLsbD_of_and_zero hgrouped hbit)
  have h3 := hclear 3 (by decide) (by decide)
  have h4 := hclear 4 (by decide) (by decide)
  have h5 := hclear 5 (by decide) (by decide)
  have h6 := hclear 6 (by decide) (by decide)
  have h7 := hclear 7 (by decide) (by decide)
  have h17 := hclear 17 (by decide) (by decide)
  have h18 := hclear 18 (by decide) (by decide)
  refine ⟨⟨?_, acceptedXcr0_avx h, h3.trans h4.symm, h5.trans h6.symm, h6.trans h7.symm, ?_,
    h17.trans h18.symm⟩, h.2.1⟩
  · have hbit := congrArg (fun w : Word => w.getLsbD 0) h.1
    simpa using hbit
  · rw [h5]
    exact fun hf => by cases hf

/-! ## Hosts with grouped features -/

/-- Fields of an exit for an XSETBV. -/
def xsetbvExit (field : Word) : Word :=
  if field = vmcsExitReason then vmexitReasonXsetbv
  else if field = vmcsVmExitInstructionLength then 3
  else 0

/-- A host at the exit of its guest for an XSETBV. -/
def xsetbvHost (hostXcr0 : Word) : Hv :=
  { exitingHost xsetbvExit with
    xsaveHostXcr0 := hostXcr0
    vmAt := fun _ => { (default : Vm) with vmcsRegion := 0x5000, xcr0 := 1 } }

/-- An accepted value is stored. -/
theorem vmEmulatedInstructionXsetbv_accepted {vmState : VmxVmexitState} {s : Hv}
    (hrcx : vmState.regState.rcx = 0)
    (h : AcceptedXcr0 s.xsaveHostXcr0 (newXcr0 vmState.regState)) :
    vmEmulatedInstructionXsetbv vmState s = .ok () { s with
      vmAt := Function.update s.vmAt vmState.vm
        { s.vmAt vmState.vm with xcr0 := newXcr0 vmState.regState } } := by
  have hbit : ¬newXcr0 vmState.regState &&& 1 ≠ 1 := not_not.mpr h.1
  have hbits : ¬(newXcr0 vmState.regState &&& ~~~s.xsaveHostXcr0 ≠ 0 ∨
      newXcr0 vmState.regState &&& 0x6 = 0x4) := fun hor => hor.elim (fun hne => hne h.2.1) h.2.2
  rw [vmEmulatedInstructionXsetbv, if_neg (not_not.mpr hrcx),
    bind_of_ok (get_eq_ok.mpr ⟨rfl, rfl⟩)]
  dsimp only
  rw [if_neg hbit, if_neg hbits]
  rfl

/-- The exit for an XSETBV with an accepted value is handled. -/
theorem vmxVmexitHandler_xsetbv {hostXcr0 : Word} {reg : VmxVmexitRegState} (hrcx : reg.rcx = 0)
    (h : AcceptedXcr0 hostXcr0 (newXcr0 reg)) : ∃ result s',
    vmxVmexitHandler obedientHardware reg (xsetbvHost hostXcr0) = .ok result s' ∧
      (s'.vmAt firstVm).xcr0 = newXcr0 reg := by
  have hread : ∃ vmState t, readVmState obedientHardware reg (xsetbvHost hostXcr0) =
      .ok vmState t := ⟨_, _, rfl⟩
  obtain ⟨vmState, t, hread⟩ := hread
  have hstate := readVmState_returned hread
  have hreg : vmState.regState = reg := hstate.regState
  have hvm : vmState.vm = firstVm := (Option.some.inj hstate.vm).symm
  have hhost : t.xsaveHostXcr0 = hostXcr0 := by rw [hstate.host]; rfl
  have hxsetbv := @vmEmulatedInstructionXsetbv_accepted vmState t (hreg ▸ hrcx)
    (by rw [hhost, hreg]; exact h)
  have hhandle : ∃ t', handleExit obedientHardware vmexitReasonXsetbv 0 3 vmState t =
      .ok (skipInstruction 3 vmState) t' ∧ (t'.vmAt firstVm).xcr0 = newXcr0 reg := by
    refine ⟨{ t with
      vmAt := Function.update t.vmAt vmState.vm
        { t.vmAt vmState.vm with xcr0 := newXcr0 vmState.regState } }, ?_, ?_⟩
    · rw [handleExit, if_neg (by decide), if_neg (by decide), if_neg (by decide),
        if_neg (by decide), if_neg (by decide), if_pos rfl, bind_of_ok hxsetbv]
      rfl
    · dsimp only
      rw [hvm, Function.update_self, hreg]
  obtain ⟨t', hhandle, hstored⟩ := hhandle
  have hwrite : ∃ s', writeVmState obedientHardware (skipInstruction 3 vmState) t' = .ok () s' :=
    ⟨_, rfl⟩
  obtain ⟨s', hwrite⟩ := hwrite
  have hfinal := writeVmState_returned hwrite
  have hreason : ∀ expr field, vmreadAsserted obedientHardware expr field (xsetbvHost hostXcr0) =
      .ok (xsetbvExit field) (xsetbvHost hostXcr0) := fun _ _ => rfl
  refine ⟨((skipInstruction 3 vmState).regState, (skipInstruction 3 vmState).vm), s', ?_, ?_⟩
  · rw [vmxVmexitHandler, bind_of_ok (hreason _ _), bind_of_ok (hreason _ _),
      bind_of_ok (hreason _ _), bind_of_ok hread]
    exact (bind_of_ok hhandle).trans ((bind_of_ok hwrite).trans rfl)
  · rw [hfinal.host]
    exact hstored

/-- Any accepted value is stored by some run. -/
theorem exists_run_storing {hostXcr0 : Word} {reg : VmxVmexitRegState} (hrcx : reg.rcx = 0)
    (h : AcceptedXcr0 hostXcr0 (newXcr0 reg)) :
    ∃ s, XsetbvRun obedientHardware firstVm hostXcr0 s ∧ (s.vmAt firstVm).xcr0 = newXcr0 reg := by
  have hcreate : ∃ s, vmManagerCreateVmxMachine "guest" (smallHost 4) = .ok firstVm s := by
    have hreturned : (match vmManagerCreateVmxMachine "guest" (smallHost 4) with
        | .ok vm _ => vm == firstVm
        | .error _ _ => false) = true := by
      decide +kernel
    cases hrun : vmManagerCreateVmxMachine "guest" (smallHost 4) with
    | ok vm s =>
      rw [hrun] at hreturned
      exact ⟨s, by rw [beq_iff_eq.mp hreturned]⟩
    | error _ _ =>
      rw [hrun] at hreturned
      cases hreturned
  obtain ⟨s, hcreate⟩ := hcreate
  have hcreated : XsetbvRun obedientHardware firstVm hostXcr0 s := .created hcreate
  have hexiting : XsetbvRun obedientHardware firstVm hostXcr0 (xsetbvHost hostXcr0) := by
    refine .other hcreated ?_
    rw [vmManagerCreateVmxMachine_record hcreate]
    rfl
  obtain ⟨⟨reg', current⟩, s', hrun, hstored⟩ := vmxVmexitHandler_xsetbv hrcx h
  exact ⟨s', .exit hexiting rfl hrun, hstored⟩

/-- The registers of a guest that asks for the x87 bit and one other low bit. -/
def oneBitRequest (i : ℕ) : VmxVmexitRegState :=
  { (default : VmxVmexitRegState) with rax := 1 ||| BitVec.twoPow 64 i }

/-- A bit of the host can be asked for alone. -/
theorem oneBitRequest_accepted {hostXcr0 : Word} {i : ℕ} (hx87 : hostXcr0.getLsbD 0 = true)
    (hi : hostXcr0.getLsbD i = true) (hvalue : newXcr0 (oneBitRequest i) = 1 ||| BitVec.twoPow 64 i)
    (hone : (1 ||| BitVec.twoPow 64 i) &&& 1 = (1 : Word))
    (hsse : (1 ||| BitVec.twoPow 64 i) &&& 0x6 ≠ (0x4 : Word)) :
    AcceptedXcr0 hostXcr0 (newXcr0 (oneBitRequest i)) := by
  rw [hvalue]
  refine ⟨hone, ?_, hsse⟩
  have hbit : ∀ k, hostXcr0.getLsbD k = true → BitVec.twoPow 64 k &&& ~~~hostXcr0 = 0 := by
    intro k hk
    rw [BitVec.and_comm, BitVec.and_twoPow, BitVec.getLsbD_not, hk, Bool.not_true, Bool.and_false,
      if_neg Bool.false_ne_true]
    rfl
  have hfirst := hbit 0 hx87
  have hpow : BitVec.twoPow 64 0 = 1 := by decide
  rw [hpow] at hfirst
  rw [BitVec.and_comm, BitVec.and_or_distrib_left, BitVec.and_comm _ 1, hfirst, BitVec.and_comm,
    hbit i hi]
  rfl

/-- A valid host value with a grouped feature has the lowest bit of a group. -/
theorem grouped_bit {hostXcr0 : Word} (hvalid : ValidXcr0 hostXcr0)
    (h : hostXcr0 &&& groupedBits ≠ 0) : hostXcr0.getLsbD 3 = true ∨ hostXcr0.getLsbD 5 = true ∨
      hostXcr0.getLsbD 17 = true := by
  by_contra hnone
  rw [not_or, not_or, Bool.not_eq_true, Bool.not_eq_true, Bool.not_eq_true] at hnone
  obtain ⟨h3, h5, h17⟩ := hnone
  have h4 := hvalid.mpx.symm.trans h3
  have h6 := hvalid.opmask.symm.trans h5
  have h7 := hvalid.zmm.symm.trans h6
  have h18 := hvalid.amx.symm.trans h17
  have hsplit : groupedBits = BitVec.twoPow 64 3 ||| BitVec.twoPow 64 4 ||| BitVec.twoPow 64 5 |||
      BitVec.twoPow 64 6 ||| BitVec.twoPow 64 7 ||| BitVec.twoPow 64 17 |||
      BitVec.twoPow 64 18 := by decide
  refine h ?_
  rw [hsplit]
  simp only [BitVec.and_or_distrib_left, BitVec.and_twoPow, h3, h4, h5, h6, h7, h17, h18,
    Bool.false_eq_true, if_false]
  decide

/-- On a host with a valid XCR0, every value that a run stores is accepted by the
stub's XSETBV if and only if the host has no grouped feature. -/
theorem stored_xcr0_accepted_iff {hostXcr0 : Word} (hvalid : ValidXcr0 hostXcr0) :
    (∀ hw vm s, XsetbvRun hw vm hostXcr0 s → AcceptedByHost hostXcr0 (s.vmAt vm).xcr0) ↔
      hostXcr0 &&& groupedBits = 0 := by
  constructor
  · intro hall
    by_contra hgrouped
    have hrefuted : ∀ i, hostXcr0.getLsbD i = true →
        newXcr0 (oneBitRequest i) = 1 ||| BitVec.twoPow 64 i →
        (1 ||| BitVec.twoPow 64 i) &&& 1 = (1 : Word) →
        (1 ||| BitVec.twoPow 64 i) &&& 0x6 ≠ (0x4 : Word) →
        ¬ValidXcr0 (1 ||| BitVec.twoPow 64 i) → False := fun i hi hvalue hone hsse hinvalid => by
      have haccepted := oneBitRequest_accepted hvalid.x87 hi hvalue hone hsse
      obtain ⟨s, hrun, hstored⟩ := exists_run_storing rfl haccepted
      have hstoredValid := (hall obedientHardware firstVm s hrun).1
      rw [hstored, hvalue] at hstoredValid
      exact hinvalid hstoredValid
    have hbit := grouped_bit hvalid hgrouped
    cases hbit with
    | inl h3 => exact hrefuted 3 h3 (by decide) (by decide) (by decide) (by decide)
    | inr hrest =>
      cases hrest with
      | inl h5 => exact hrefuted 5 h5 (by decide) (by decide) (by decide) (by decide)
      | inr h17 => exact hrefuted 17 h17 (by decide) (by decide) (by decide) (by decide)
  · intro hgrouped hw vm s hrun
    cases hrun.stored with
    | inl hone =>
      rw [hone]
      refine ⟨by decide, ?_⟩
      rw [BitVec.and_comm]
      have hpow : (1 : Word) = BitVec.twoPow 64 0 := by decide
      rw [hpow, BitVec.and_twoPow, BitVec.getLsbD_not, hvalid.x87, Bool.not_true, Bool.and_false,
        if_neg Bool.false_ne_true]
      rfl
    | inr haccepted => exact acceptedByHost haccepted hgrouped

/-- On a host with x87, SSE and AVX alone every stored value is accepted. -/
theorem stored_xcr0_accepted_avx :
    (∀ hw vm s, XsetbvRun hw vm 7 s → AcceptedByHost 7 (s.vmAt vm).xcr0) ↔
      7 &&& groupedBits = 0 :=
  stored_xcr0_accepted_iff (by decide)

/-- On a host with MPX a guest can have one of the two MPX bits stored alone. -/
theorem stored_xcr0_mpx : ValidXcr0 0x1f ∧ ∃ s, XsetbvRun obedientHardware firstVm 0x1f s ∧
    (s.vmAt firstVm).xcr0 = 9 ∧ ¬AcceptedByHost 0x1f (s.vmAt firstVm).xcr0 := by
  have haccepted : AcceptedXcr0 0x1f (newXcr0 (oneBitRequest 3)) :=
    ⟨by decide, by decide, by decide⟩
  obtain ⟨s, hrun, hstored⟩ := exists_run_storing rfl haccepted
  have hvalue : (s.vmAt firstVm).xcr0 = 9 := hstored.trans (by decide)
  refine ⟨by decide, s, hrun, hvalue, ?_⟩
  rw [hvalue]
  exact fun h => absurd h.1 (by decide)

end Rkhv.GuestXcr0
