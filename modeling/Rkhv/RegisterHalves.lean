import Rkhv.VmexitEffects
import Rkhv.VmexitFrame

/-!
# Register halves of CPUID and XSETBV

CPUID and XSETBV read the low halves of their registers, while the emulation
compares whole registers: the filter of hypervisor leaves looks at all of RAX
and the check of the register number at all of RCX. Two guests with the same low
halves are treated alike exactly when these two comparisons cannot tell them
apart.
-/

namespace Rkhv.RegisterHalves

open ByteMemory HostTypes HostState StateOutcome VmxMsr VmEmulatedInstructions VmexitFrame

/-- The half of a register that CPUID and XSETBV read. -/
def lowHalf (x : Word) : BitVec 32 := x.setWidth 32

/-- The half that they ignore. -/
def highHalf (x : Word) : BitVec 32 := x.extractLsb' 32 32

/-- The leaves that `vm_emulated_instruction_cpuid` is to suppress. -/
def HypervisorLeaf (eax : BitVec 32) : Prop := 0x40000000 ≤ eax ∧ eax ≤ 0x4fffffff

instance (eax : BitVec 32) : Decidable (HypervisorLeaf eax) := inferInstanceAs (Decidable (_ ∧ _))

/-- The emulation leaves the registers alone, whatever the processor is. -/
def HidesLeaf (vmState : VmxVmexitState) : Prop :=
  ∀ hw, vmEmulatedInstructionCpuid hw vmState = vmState

/-- The emulation returns what the processor has for a leaf and a subleaf. -/
def ExecutesLeaf (vmState : VmxVmexitState) (eax ecx : BitVec 32) : Prop :=
  ∀ hw, vmEmulatedInstructionCpuid hw vmState = { vmState with regState := { vmState.regState with
    rax := (hw.cpuid eax ecx).eax.setWidth 64
    rbx := (hw.cpuid eax ecx).ebx.setWidth 64
    rcx := (hw.cpuid eax ecx).ecx.setWidth 64
    rdx := (hw.cpuid eax ecx).edx.setWidth 64 } }

/-- The emulation panics. -/
def XsetbvPanics (vmState : VmxVmexitState) (s : Hv) : Prop :=
  ∃ message, vmEmulatedInstructionXsetbv vmState s = .error (.panic message) s

/-- The emulation stores a value in the machine of the exit. -/
def XsetbvStores (vmState : VmxVmexitState) (s : Hv) (xcr0 : Word) : Prop :=
  vmEmulatedInstructionXsetbv vmState s = .ok () { s with
    vmAt := Function.update s.vmAt vmState.vm { s.vmAt vmState.vm with xcr0 := xcr0 } }

/-- Two exits, in registers with the same low halves, are emulated alike. -/
structure EmulatedAlike (v w : VmxVmexitState) (s : Hv) : Prop where
  filter : HypervisorLeaf (lowHalf v.regState.rax) → HidesLeaf v ∧ HidesLeaf w
  leaf : (HidesLeaf v ∧ HidesLeaf w) ∨ ∃ eax ecx, ExecutesLeaf v eax ecx ∧ ExecutesLeaf w eax ecx
  xsetbv : (XsetbvPanics v s ∧ XsetbvPanics w s) ∨
    ∃ xcr0, XsetbvStores v s xcr0 ∧ XsetbvStores w s xcr0

/-- Registers whose low halves of RAX, RCX and RDX are the same. -/
structure SameLowHalves (reg reg' : VmxVmexitRegState) : Prop where
  rax : lowHalf reg.rax = lowHalf reg'.rax
  rcx : lowHalf reg.rcx = lowHalf reg'.rcx
  rdx : lowHalf reg.rdx = lowHalf reg'.rdx

/-! ## Halves -/

theorem toNat_halves (x : Word) : x.toNat = (highHalf x).toNat * 2 ^ 32 + (lowHalf x).toNat := by
  rw [highHalf, lowHalf, BitVec.extractLsb'_toNat, BitVec.toNat_setWidth, Nat.shiftRight_eq_div_pow]
  have hlt := x.isLt
  omega

theorem eq_zero_iff_halves (x : Word) : x = 0 ↔ highHalf x = 0 ∧ lowHalf x = 0 := by
  have hx := toNat_halves x
  simp only [← BitVec.toNat_inj, BitVec.ofNat_eq_ofNat, BitVec.toNat_ofNat]
  omega

/-- A whole register in the range of the filter has a leaf of the range and
nothing above it. -/
theorem filtered_iff (x : Word) : (0x40000000 ≤ x ∧ x ≤ 0x4fffffff) ↔
    highHalf x = 0 ∧ HypervisorLeaf (lowHalf x) := by
  have hx := toNat_halves x
  have hlow := (lowHalf x).isLt
  simp only [HypervisorLeaf, BitVec.le_def, ← BitVec.toNat_inj, BitVec.ofNat_eq_ofNat,
    BitVec.toNat_ofNat]
  omega

/-- XCR0 is put together from low halves. -/
theorem newXcr0_eq (reg : VmxVmexitRegState) :
    newXcr0 reg = lowHalf reg.rdx ++ lowHalf reg.rax := by
  apply BitVec.eq_of_getLsbD_eq
  intro i hi
  have hmask : (0xffffffff : Word) = WordFields.fieldMask 0 32 := by decide
  rw [newXcr0, hmask]
  simp only [BitVec.getLsbD_or, BitVec.getLsbD_shiftLeft, BitVec.getLsbD_and,
    WordFields.getLsbD_fieldMask, BitVec.getLsbD_append, lowHalf, BitVec.getLsbD_setWidth]
  grind

/-! ## CPUID -/

theorem hidesLeaf_of_filtered {v : VmxVmexitState}
    (h : highHalf v.regState.rax = 0 ∧ HypervisorLeaf (lowHalf v.regState.rax)) : HidesLeaf v := by
  intro hw
  rw [vmEmulatedInstructionCpuid]
  exact if_pos ((filtered_iff _).mpr h)

theorem executesLeaf_of_not_filtered {v : VmxVmexitState}
    (h : ¬(highHalf v.regState.rax = 0 ∧ HypervisorLeaf (lowHalf v.regState.rax))) :
    ExecutesLeaf v (lowHalf v.regState.rax) (lowHalf v.regState.rcx) := by
  intro hw
  rw [vmEmulatedInstructionCpuid]
  exact if_neg (mt (filtered_iff _).mp h)

/-- A processor whose CPUID returns one value in all registers. -/
def constantCpuid (value : BitVec 32) : Hardware :=
  { HostRuns.obedientHardware with cpuid := fun _ _ => ⟨value, value, value, value⟩ }

/-- A leaf is hidden only by the filter: two processors with different values
cannot both leave RAX alone. -/
theorem filtered_of_hidesLeaf {v : VmxVmexitState} (h : HidesLeaf v) :
    highHalf v.regState.rax = 0 ∧ HypervisorLeaf (lowHalf v.regState.rax) := by
  by_contra hfilter
  have hexecutes := executesLeaf_of_not_filtered hfilter
  have hrax : ∀ value : BitVec 32, v.regState.rax = value.setWidth 64 := fun value =>
    congrArg (fun u : VmxVmexitState => u.regState.rax)
      ((h (constantCpuid value)).symm.trans (hexecutes (constantCpuid value)))
  exact absurd ((hrax 0).symm.trans (hrax 1)) (by decide)

/-! ## XSETBV -/

/-- What the emulated XSETBV does, from the halves of its registers. -/
theorem xsetbv_stores {v : VmxVmexitState} {s : Hv} (hrcx : v.regState.rcx = 0)
    (h : AcceptedXcr0 s.xsaveHostXcr0 (newXcr0 v.regState)) :
    XsetbvStores v s (newXcr0 v.regState) := by
  have hbit : ¬newXcr0 v.regState &&& 1 ≠ 1 := not_not.mpr h.1
  have hbits : ¬(newXcr0 v.regState &&& ~~~s.xsaveHostXcr0 ≠ 0 ∨
      newXcr0 v.regState &&& 0x6 = 0x4) := fun hor => hor.elim (fun hne => hne h.2.1) h.2.2
  rw [XsetbvStores, vmEmulatedInstructionXsetbv, if_neg (not_not.mpr hrcx),
    bind_of_ok (get_eq_ok.mpr ⟨rfl, rfl⟩)]
  dsimp only
  rw [if_neg hbit, if_neg hbits]
  rfl

theorem xsetbv_panics {v : VmxVmexitState} {s : Hv}
    (h : v.regState.rcx = 0 → ¬AcceptedXcr0 s.xsaveHostXcr0 (newXcr0 v.regState)) :
    XsetbvPanics v s := by
  rw [XsetbvPanics, vmEmulatedInstructionXsetbv]
  by_cases hrcx : v.regState.rcx = 0
  · rw [if_neg (not_not.mpr hrcx), bind_of_ok (get_eq_ok.mpr ⟨rfl, rfl⟩)]
    by_cases hbit : newXcr0 v.regState &&& 1 ≠ 1
    · rw [if_pos hbit]
      exact ⟨_, rfl⟩
    · have hbits : newXcr0 v.regState &&& ~~~s.xsaveHostXcr0 ≠ 0 ∨
          newXcr0 v.regState &&& 0x6 = 0x4 := by
        by_contra hnone
        rw [not_or, not_not] at hnone
        exact h hrcx ⟨not_not.mp hbit, hnone.1, hnone.2⟩
      rw [if_neg hbit, if_pos hbits]
      exact ⟨_, rfl⟩
  · rw [if_pos hrcx]
    exact ⟨_, rfl⟩

/-- The condition under which the emulated XSETBV does not see the high half of RCX. -/
def XsetbvBlind (v w : VmxVmexitState) (s : Hv) : Prop :=
  lowHalf v.regState.rcx = 0 → AcceptedXcr0 s.xsaveHostXcr0 (newXcr0 v.regState) →
    (highHalf v.regState.rcx = 0 ↔ highHalf w.regState.rcx = 0)

theorem not_xsetbv_panics_of_stores {v : VmxVmexitState} {s : Hv} {xcr0 : Word}
    (h : XsetbvStores v s xcr0) : ¬XsetbvPanics v s := by
  rintro ⟨message, hpanic⟩
  rw [XsetbvStores, hpanic] at h
  cases h

theorem SameLowHalves.newXcr0 {reg reg' : VmxVmexitRegState} (h : SameLowHalves reg reg') :
    newXcr0 reg' = newXcr0 reg := by
  rw [newXcr0_eq, newXcr0_eq, h.rdx, h.rax]

/-- A value that is addressed and accepted is stored exactly without a high half of RCX. -/
theorem xsetbv_outcome {v : VmxVmexitState} {s : Hv} (hrcx : lowHalf v.regState.rcx = 0)
    (h : AcceptedXcr0 s.xsaveHostXcr0 (newXcr0 v.regState)) :
    (highHalf v.regState.rcx = 0 → XsetbvStores v s (newXcr0 v.regState)) ∧
      (highHalf v.regState.rcx ≠ 0 → XsetbvPanics v s) := by
  refine ⟨fun hhigh => xsetbv_stores ((eq_zero_iff_halves _).mpr ⟨hhigh, hrcx⟩) h, fun hhigh => ?_⟩
  exact xsetbv_panics fun hzero => absurd ((eq_zero_iff_halves _).mp hzero).1 hhigh

/-- Nothing is stored for another register or a value that is not accepted. -/
theorem xsetbv_refused {v : VmxVmexitState} {s : Hv} (h : ¬(lowHalf v.regState.rcx = 0 ∧
    AcceptedXcr0 s.xsaveHostXcr0 (newXcr0 v.regState))) : XsetbvPanics v s :=
  xsetbv_panics fun hzero haccepted => h ⟨((eq_zero_iff_halves _).mp hzero).2, haccepted⟩

/-- The emulated XSETBV treats two exits alike when it does not see the high half
of RCX. -/
theorem xsetbv_alike_iff {v w : VmxVmexitState} {s : Hv}
    (h : SameLowHalves v.regState w.regState) : ((XsetbvPanics v s ∧ XsetbvPanics w s) ∨
      ∃ xcr0, XsetbvStores v s xcr0 ∧ XsetbvStores w s xcr0) ↔ XsetbvBlind v w s := by
  by_cases hstores : lowHalf v.regState.rcx = 0 ∧ AcceptedXcr0 s.xsaveHostXcr0 (newXcr0 v.regState)
  · obtain ⟨hrcx, haccepted⟩ := hstores
    have haccepted' : AcceptedXcr0 s.xsaveHostXcr0 (newXcr0 w.regState) := by
      rw [h.newXcr0]
      exact haccepted
    obtain ⟨hstoresV, hpanicsV⟩ := xsetbv_outcome hrcx haccepted
    obtain ⟨hstoresW, hpanicsW⟩ := xsetbv_outcome (h.rcx.symm.trans hrcx) haccepted'
    rw [h.newXcr0] at hstoresW
    have hblind : XsetbvBlind v w s ↔
        (highHalf v.regState.rcx = 0 ↔ highHalf w.regState.rcx = 0) :=
      ⟨fun hb => hb hrcx haccepted, fun hb _ _ => hb⟩
    rw [hblind]
    by_cases hv : highHalf v.regState.rcx = 0
    · by_cases hw : highHalf w.regState.rcx = 0
      · exact iff_of_true (.inr ⟨_, hstoresV hv, hstoresW hw⟩) (iff_of_true hv hw)
      · refine iff_of_false ?_ fun hb => hw (hb.mp hv)
        rintro (hboth | ⟨_, _, hstored⟩)
        · exact not_xsetbv_panics_of_stores (hstoresV hv) hboth.1
        · exact not_xsetbv_panics_of_stores hstored (hpanicsW hw)
    · by_cases hw : highHalf w.regState.rcx = 0
      · refine iff_of_false ?_ fun hb => hv (hb.mpr hw)
        rintro (hboth | ⟨_, hstored, _⟩)
        · exact not_xsetbv_panics_of_stores (hstoresW hw) hboth.2
        · exact not_xsetbv_panics_of_stores hstored (hpanicsV hv)
      · exact iff_of_true (.inl ⟨hpanicsV hv, hpanicsW hw⟩) (iff_of_false hv hw)
  · have hpanics' : XsetbvPanics w s := xsetbv_refused fun hw => hstores <| by
      rw [h.newXcr0] at hw
      exact ⟨h.rcx.trans hw.1, hw.2⟩
    exact iff_of_true (.inl ⟨xsetbv_refused hstores, hpanics'⟩)
      fun hrcx haccepted => absurd ⟨hrcx, haccepted⟩ hstores

/-! ## Both -/

/-- Two exits in registers with the same low halves are emulated alike if and only
if no hypervisor leaf has a high half and the high halves of RCX agree on being
zero whenever XCR0 is addressed with an acceptable value. -/
theorem emulatedAlike_iff {v w : VmxVmexitState} {s : Hv}
    (h : SameLowHalves v.regState w.regState) : EmulatedAlike v w s ↔
    (HypervisorLeaf (lowHalf v.regState.rax) →
      highHalf v.regState.rax = 0 ∧ highHalf w.regState.rax = 0) ∧ XsetbvBlind v w s := by
  constructor
  · intro halike
    refine ⟨fun hleaf => ?_, (xsetbv_alike_iff h).mp halike.xsetbv⟩
    have hhidden := halike.filter hleaf
    exact ⟨(filtered_of_hidesLeaf hhidden.1).1, (filtered_of_hidesLeaf hhidden.2).1⟩
  · intro hcondition
    have hhides : HypervisorLeaf (lowHalf v.regState.rax) → HidesLeaf v ∧ HidesLeaf w := by
      intro hleaf
      have hhigh := hcondition.1 hleaf
      have hleaf' : HypervisorLeaf (lowHalf w.regState.rax) := by rwa [← h.rax]
      exact ⟨hidesLeaf_of_filtered ⟨hhigh.1, hleaf⟩, hidesLeaf_of_filtered ⟨hhigh.2, hleaf'⟩⟩
    refine ⟨hhides, ?_, (xsetbv_alike_iff h).mpr hcondition.2⟩
    by_cases hleaf : HypervisorLeaf (lowHalf v.regState.rax)
    · exact .inl (hhides hleaf)
    · have hleaf' : ¬HypervisorLeaf (lowHalf w.regState.rax) := by rwa [← h.rax]
      have hv := executesLeaf_of_not_filtered (v := v) fun hf => hleaf hf.2
      have hw := executesLeaf_of_not_filtered (v := w) fun hf => hleaf' hf.2
      rw [← h.rax, ← h.rcx] at hw
      exact .inr ⟨_, _, hv, hw⟩

/-- An exit of a guest with a value in RAX. -/
def raxExit (rax : Word) : VmxVmexitState :=
  { (default : VmxVmexitState) with regState := { (default : VmxVmexitRegState) with rax := rax } }

/-- Ordinary leaves are executed alike, whatever the high half of RAX is. -/
theorem emulatedAlike_iff_ordinary_leaf : EmulatedAlike (raxExit 1) (raxExit 0x100000001) (HostRuns.smallHost 1) ↔
    (HypervisorLeaf 1 → highHalf 1 = 0 ∧ highHalf 0x100000001 = 0) ∧
      XsetbvBlind (raxExit 1) (raxExit 0x100000001) (HostRuns.smallHost 1) :=
  emulatedAlike_iff ⟨by decide, by decide, by decide⟩

/-- A guest slips past the filter with a bit in the high half of RAX. -/
theorem emulatedAlike_hypervisor_leaf :
    SameLowHalves (raxExit 0x40000000).regState (raxExit 0x140000000).regState ∧
      ¬EmulatedAlike (raxExit 0x40000000) (raxExit 0x140000000)
        (HostRuns.smallHost 1) := by
  refine ⟨⟨by decide, by decide, by decide⟩, fun halike => ?_⟩
  have hhidden := (halike.filter (by decide)).2
  exact absurd (filtered_of_hidesLeaf hhidden).1 (by decide)

end Rkhv.RegisterHalves
