import Rkhv.VmxVmexit

/-!
# What an emulated instruction changes

Of the guest's registers an instruction changes a fixed list, given by the exit
and its qualification. Of the host's state a port instruction changes the
memory, the devices and the console, and the others only the VMCS or the
machine's XCR0.
-/

namespace Rkhv.VmexitEffects

open ByteMemory HostTypes HostState StateOutcome VmxInstructions Vmcs VmxMsr VmGuestPaging
open VmIoPorts VmEmulatedInstructions VmxVmexit

/-! ## Port accesses -/

/-- Only the memory, the devices and the console differ. -/
def IoEffect (s s' : Hv) : Prop :=
  s' = { s with memory := s'.memory, deviceList := s'.deviceList, console := s'.console }

theorem IoEffect.refl (s : Hv) : IoEffect s s := rfl

theorem IoEffect.trans {s s' s'' : Hv} (h : IoEffect s s') (h' : IoEffect s' s'') :
    IoEffect s s'' := by
  rw [IoEffect] at *
  rw [h', h]

theorem finishHandler_effect {α : Type} (d : ℕ) (result : HandlerResult α) (s : Hv) :
    Ensures (finishHandler d result) s (fun _ s' => IoEffect s s') (fun _ _ => True) := by
  cases result with
  | error message => trivial
  | ok answer => exact rfl

theorem vmOutDeviceLookup_effect {w : ℕ} (handler : VmDevice → Option (OutHandler w)) (vm : Word)
    (port : BitVec 16) (value : BitVec w) (s : Hv) :
    Ensures (vmOutDeviceLookup handler vm port value) s (fun _ s' => IoEffect s s')
      (fun _ _ => True) := by
  simp only [vmOutDeviceLookup, ensures_bind, ensures_get]
  split
  · trivial
  · exact rfl
  · split
    · trivial
    · split
      · trivial
      · exact finishHandler_effect _ _ _

theorem vmInDeviceLookup_effect {w : ℕ} (handler : VmDevice → Option (InHandler w)) (vm : Word)
    (port : BitVec 16) (s : Hv) :
    Ensures (vmInDeviceLookup handler vm port) s (fun _ s' => IoEffect s s')
      (fun _ _ => True) := by
  simp only [vmInDeviceLookup, ensures_bind, ensures_get]
  split
  · trivial
  · exact rfl
  · split
    · trivial
    · split
      · trivial
      · exact finishHandler_effect _ _ _

/-- Finding a pointer to guest data changes nothing. -/
theorem hostVirtualAddress_effect (vmState : VmxVmexitState) (gva size : Word) (s : Hv) :
    Ensures (vmGuestPagingGetHostVirtualAddressDuringVmexit vmState gva size) s
      (fun _ s' => s' = s) (fun _ _ => True) := by
  unfold vmGuestPagingGetHostVirtualAddressDuringVmexit
  rw [ensures_ite]
  refine ⟨fun _ => trivial, fun _ => ?_⟩
  simp only [ensures_bind, ensures_get]
  split
  · trivial
  · split
    · trivial
    · rw [ensures_ite]
      exact ⟨fun _ => trivial, fun _ => rfl⟩

/-! ## Guest registers -/

/-- The general registers of a guest in the numbering of the architecture. -/
def guestGpr (reg : VmxVmexitRegState) (rsp : Word) : Vector Word 16 :=
  #v[reg.rax, reg.rcx, reg.rdx, reg.rbx, rsp, reg.rbp, reg.rsi, reg.rdi,
    reg.r8, reg.r9, reg.r10, reg.r11, reg.r12, reg.r13, reg.r14, reg.r15]

/-- Registers outside a list are the same. -/
def GprFrame (changed : List (Fin 16)) (gpr gpr' : Vector Word 16) : Prop :=
  ∀ i : Fin 16, i ∉ changed → gpr'[i] = gpr[i]

theorem GprFrame.refl (changed : List (Fin 16)) (gpr : Vector Word 16) :
    GprFrame changed gpr gpr := fun _ _ => rfl

theorem GprFrame.trans {changed : List (Fin 16)} {gpr gpr' gpr'' : Vector Word 16}
    (h : GprFrame changed gpr gpr') (h' : GprFrame changed gpr' gpr'') :
    GprFrame changed gpr gpr'' := fun i hi => (h' i hi).trans (h i hi)

theorem GprFrame.mono {changed changed' : List (Fin 16)} {gpr gpr' : Vector Word 16}
    (h : GprFrame changed gpr gpr') (hsub : ∀ i ∈ changed, i ∈ changed') :
    GprFrame changed' gpr gpr' := fun i hi => h i fun hmem => hi (hsub i hmem)

theorem gprFrame_rax (reg : VmxVmexitRegState) (rsp value : Word) :
    GprFrame [0] (guestGpr reg rsp) (guestGpr { reg with rax := value } rsp) := by
  intro i hi
  fin_cases i <;> first | rfl | exact absurd (by decide) hi

theorem gprFrame_rcx (reg : VmxVmexitRegState) (rsp value : Word) :
    GprFrame [1] (guestGpr reg rsp) (guestGpr { reg with rcx := value } rsp) := by
  intro i hi
  fin_cases i <;> first | rfl | exact absurd (by decide) hi

theorem gprFrame_rsi (reg : VmxVmexitRegState) (rsp value : Word) :
    GprFrame [6] (guestGpr reg rsp) (guestGpr { reg with rsi := value } rsp) := by
  intro i hi
  fin_cases i <;> first | rfl | exact absurd (by decide) hi

theorem gprFrame_rdi (reg : VmxVmexitRegState) (rsp value : Word) :
    GprFrame [7] (guestGpr reg rsp) (guestGpr { reg with rdi := value } rsp) := by
  intro i hi
  fin_cases i <;> first | rfl | exact absurd (by decide) hi

theorem gprFrame_cpuid (reg : VmxVmexitRegState) (rsp eax ebx ecx edx : Word) :
    GprFrame [0, 1, 2, 3] (guestGpr reg rsp)
      (guestGpr { reg with rax := eax, rbx := ebx, rcx := ecx, rdx := edx } rsp) := by
  intro i hi
  fin_cases i <;> first | rfl | exact absurd (by decide) hi

/-- Writing one register through its pointer changes that one. -/
theorem gprFrame_withGprs (vmState : VmxVmexitState) (index : Fin 16) (value : Word) :
    let vmState' := withGprs vmState ((possibleGpr vmState).setIfInBounds index value)
    GprFrame [index] (guestGpr vmState.regState vmState.rsp)
        (guestGpr vmState'.regState vmState'.rsp) ∧
      (guestGpr vmState'.regState vmState'.rsp)[index] = value := by
  have hgprs : ∀ gpr : Vector Word 16,
      guestGpr (withGprs vmState gpr).regState (withGprs vmState gpr).rsp = gpr := fun gpr => by
    ext i hi
    have hlt : i < 16 := hi
    interval_cases i <;> rfl
  have hpossible : possibleGpr vmState = guestGpr vmState.regState vmState.rsp := rfl
  dsimp only
  rw [hgprs, hpossible]
  constructor
  · intro i hi
    have hne : (index : ℕ) ≠ i := fun heq => hi (List.mem_singleton.mpr (Fin.ext heq.symm))
    exact Vector.getElem_setIfInBounds_ne _ hne
  · exact Vector.getElem_setIfInBounds_self _

/-! ## Port instructions -/

/-- A port instruction changes registers of a list and nothing else of `vm_state`. -/
structure IoDone (changed : List (Fin 16)) (vmState vmState' : VmxVmexitState) (s s' : Hv) :
    Prop where
  host : IoEffect s s'
  same : vmState' = { vmState with regState := vmState'.regState }
  gpr : GprFrame changed (guestGpr vmState.regState vmState.rsp)
    (guestGpr vmState'.regState vmState'.rsp)

theorem IoDone.trans {changed : List (Fin 16)} {v v' v'' : VmxVmexitState} {s s' s'' : Hv}
    (h : IoDone changed v v' s s') (h' : IoDone changed v' v'' s' s'') :
    IoDone changed v v'' s s'' := by
  refine ⟨h.host.trans h'.host, ?_, h.gpr.trans h'.gpr⟩
  have hsame := h'.same
  rw [h.same] at hsame
  rw [hsame]

/-- All that an `emulated_io_instruction_t` may do, wherever it starts. -/
def ChangesOnly (changed : List (Fin 16)) (instruction : EmulatedIo) : Prop :=
  ∀ vmState port s, Ensures (instruction vmState port) s
    (fun vmState' s' => IoDone changed vmState vmState' s s') (fun _ _ => True)

/-- A function of `vm_ioports.c` that only has the effect of an access. -/
def OutAccess {bytes : ℕ} (vmOut : VmOut bytes) : Prop :=
  ∀ vm port value s, Ensures (vmOut vm port value) s (fun _ s' => IoEffect s s') (fun _ _ => True)

def InAccess {bytes : ℕ} (vmIn : VmIn bytes) : Prop :=
  ∀ vm port s, Ensures (vmIn vm port) s (fun _ s' => IoEffect s s') (fun _ _ => True)

theorem outAccess_vmOutb : @OutAccess 1 vmOutb := vmOutDeviceLookup_effect _
theorem outAccess_vmOutw : @OutAccess 2 vmOutw := vmOutDeviceLookup_effect _
theorem outAccess_vmOutd : @OutAccess 4 vmOutd := vmOutDeviceLookup_effect _
theorem inAccess_vmInb : @InAccess 1 vmInb := vmInDeviceLookup_effect _
theorem inAccess_vmInw : @InAccess 2 vmInw := vmInDeviceLookup_effect _
theorem inAccess_vmInd : @InAccess 4 vmInd := vmInDeviceLookup_effect _

variable {bytes : ℕ} {vmOut : VmOut bytes} {vmIn : VmIn bytes}

theorem changesOnly_outSingle (h : OutAccess vmOut) :
    ChangesOnly [] (vmEmulatedInstructionOutSingle bytes vmOut) := by
  intro vmState port s
  simp only [vmEmulatedInstructionOutSingle, ensures_bind, ensures_pure]
  exact (h _ _ _ _).mono (fun _ _ hio => ⟨hio, rfl, GprFrame.refl _ _⟩) fun _ _ _ => trivial

theorem changesOnly_inSingle (h : InAccess vmIn) (mask : Word) :
    ChangesOnly [0] (vmEmulatedInstructionInSingle bytes vmIn mask) := by
  intro vmState port s
  simp only [vmEmulatedInstructionInSingle, ensures_bind, ensures_pure]
  exact (h _ _ _).mono (fun _ _ hio => ⟨hio, rfl, gprFrame_rax _ _ _⟩) fun _ _ _ => trivial

theorem changesOnly_outStr (h : OutAccess vmOut) :
    ChangesOnly [6] (vmEmulatedInstructionOutStr bytes vmOut) := by
  intro vmState port s
  simp only [vmEmulatedInstructionOutStr, ensures_bind, ensures_get, ensures_pure]
  refine (hostVirtualAddress_effect _ _ _ _).mono (fun _ t ht => ?_) fun _ _ _ => trivial
  rw [ht]
  exact (h _ _ _ _).mono (fun _ _ hio => ⟨hio, rfl, gprFrame_rsi _ _ _⟩) fun _ _ _ => trivial

theorem changesOnly_inStr (h : InAccess vmIn) :
    ChangesOnly [7] (vmEmulatedInstructionInStr bytes vmIn) := by
  intro vmState port s
  simp only [vmEmulatedInstructionInStr, ensures_bind, ensures_modifyMemory, ensures_pure]
  refine (hostVirtualAddress_effect _ _ _ _).mono (fun hostva t ht => ?_) fun _ _ _ => trivial
  rw [ht]
  refine (h _ _ _).mono (fun value t' hio => ?_) fun _ _ _ => trivial
  have hstore : IoEffect t' { t' with
      memory := writeBytes t'.memory (v2pIdentityMap hostva) bytes value } := rfl
  exact ⟨hio.trans hstore, rfl, gprFrame_rdi _ _ _⟩

/-- A repeated instruction changes RCX besides what each round changes. -/
theorem changesOnly_repeatString {changed : List (Fin 16)} {string : EmulatedIo}
    (h : ChangesOnly changed string) (rounds : ℕ) :
    ChangesOnly (1 :: changed) (repeatString string rounds) := by
  intro vmState port s
  induction rounds generalizing vmState s with
  | zero =>
    rw [repeatString, ensures_ite]
    exact ⟨fun _ => ⟨IoEffect.refl s, rfl, GprFrame.refl _ _⟩, fun _ => trivial⟩
  | succ rounds ih =>
    rw [repeatString, ensures_ite]
    refine ⟨fun _ => ⟨IoEffect.refl s, rfl, GprFrame.refl _ _⟩, fun _ => ?_⟩
    rw [ensures_bind]
    refine (h vmState port s).mono (fun vmState' s' hround => ?_) fun _ _ _ => trivial
    have hdecrement : IoDone (1 :: changed) vmState { vmState' with regState :=
        { vmState'.regState with rcx := vmState'.regState.rcx - 1 } } s s' := by
      refine ⟨hround.host, ?_, (hround.gpr.mono fun _ => List.mem_cons_of_mem 1).trans
        ((gprFrame_rcx _ _ _).mono fun i hi => ?_)⟩
      · rw [hround.same]
      · rw [List.mem_singleton.mp hi]
        exact List.mem_cons_self
    exact (ih _ s').mono (fun _ _ hrest => hdecrement.trans hrest) fun _ _ _ => trivial

/-- The loop ends with RCX zero, or stops as one of its rounds does: a round for
each unit of RCX is enough. -/
theorem repeatString_ends {changed : List (Fin 16)} {string : EmulatedIo}
    (h : ChangesOnly changed string) (hrcx : 1 ∉ changed) {E : Fault → Hv → Prop}
    (hstring : ∀ vmState port s, Ensures (string vmState port) s (fun _ _ => True) E)
    (rounds : ℕ) (vmState : VmxVmexitState) (port : BitVec 16) (s : Hv)
    (hrounds : vmState.regState.rcx.toNat ≤ rounds) :
    Ensures (repeatString string rounds vmState port) s (fun vmState' _ =>
      vmState'.regState.rcx = 0) E := by
  induction rounds generalizing vmState s with
  | zero =>
    rw [repeatString, ensures_ite]
    refine ⟨fun hzero => hzero, fun hne => absurd (BitVec.eq_of_toNat_eq ?_) hne⟩
    exact Nat.le_zero.mp hrounds
  | succ rounds ih =>
    rw [repeatString, ensures_ite]
    refine ⟨fun hzero => hzero, fun hne => ?_⟩
    rw [ensures_bind]
    refine ((h vmState port s).and (hstring vmState port s)).mono (fun vmState' s' hround => ?_)
      fun _ _ he => he.2
    refine ih _ s' ?_
    have hsame : vmState'.regState.rcx = vmState.regState.rcx := hround.1.gpr 1 hrcx
    have hpos : vmState.regState.rcx.toNat ≠ 0 := fun hz => hne (BitVec.eq_of_toNat_eq hz)
    dsimp only
    rw [hsame]
    bv_omega

/-- The registers that CPUID changes. -/
def cpuidGprs : List (Fin 16) := [0, 1, 2, 3]

/-- The registers that the instruction of an I/O exit changes. -/
def ioGprs (exitQualification : Word) : List (Fin 16) :=
  match vmexitQualificationIoString exitQualification,
      vmexitQualificationIoRep exitQualification with
  | false, _ => if vmexitQualificationIoDirection exitQualification = 0 then [] else [0]
  | true, rep =>
    let index : Fin 16 := if vmexitQualificationIoDirection exitQualification = 0 then 6 else 7
    if rep then [1, index] else [index]

theorem changesOnly_ioStrrep {changed : List (Fin 16)} {string : EmulatedIo}
    (h : ChangesOnly changed string) :
    ChangesOnly (1 :: changed) (vmEmulatedInstructionIoStrrep string) :=
  fun vmState port s => changesOnly_repeatString h _ vmState port s

/-- The registers that the forms of one width and direction change. -/
structure FormsDone (direction : Word) (forms : EmulatedIoForms) : Prop where
  single : ChangesOnly (if direction = 0 then [] else [0]) forms.single
  str : ChangesOnly [if direction = 0 then 6 else 7] forms.str
  strrep : ChangesOnly [1, if direction = 0 then 6 else 7] forms.strrep

theorem formsDone_out (h : OutAccess vmOut) : FormsDone 0
    ⟨vmEmulatedInstructionOutSingle bytes vmOut, vmEmulatedInstructionOutStr bytes vmOut,
      vmEmulatedInstructionIoStrrep (vmEmulatedInstructionOutStr bytes vmOut)⟩ :=
  ⟨changesOnly_outSingle h, changesOnly_outStr h, changesOnly_ioStrrep (changesOnly_outStr h)⟩

theorem formsDone_in {direction : Word} (hd : direction ≠ 0) (h : InAccess vmIn) (mask : Word) :
    FormsDone direction
      ⟨vmEmulatedInstructionInSingle bytes vmIn mask, vmEmulatedInstructionInStr bytes vmIn,
        vmEmulatedInstructionIoStrrep (vmEmulatedInstructionInStr bytes vmIn)⟩ := by
  refine ⟨?_, ?_, ?_⟩
  · rw [if_neg hd]
    exact changesOnly_inSingle h mask
  · rw [if_neg hd]
    exact changesOnly_inStr h
  · rw [if_neg hd]
    exact changesOnly_ioStrrep (changesOnly_inStr h)

theorem emulatedIoInstructions_done {direction size : Word} {forms : EmulatedIoForms}
    (h : emulatedIoInstructions direction size = some forms) : FormsDone direction forms := by
  unfold emulatedIoInstructions at h
  by_cases hd : direction = 0
  · rw [if_pos hd] at h
    rw [hd]
    split at h
    · cases h
      exact formsDone_out outAccess_vmOutb
    split at h
    · cases h
      exact formsDone_out outAccess_vmOutw
    split at h
    · cases h
      exact formsDone_out outAccess_vmOutd
    · cases h
  · rw [if_neg hd] at h
    split at h
    · cases h
      exact formsDone_in hd inAccess_vmInb _
    split at h
    · cases h
      exact formsDone_in hd inAccess_vmInw _
    split at h
    · cases h
      exact formsDone_in hd inAccess_vmInd _
    · cases h

/-- Every instruction of the table changes the registers of its exit. -/
theorem emulatedIoInstruction_changesOnly {exitQualification : Word} {instruction : EmulatedIo}
    (h : emulatedIoInstruction exitQualification = some instruction) :
    ChangesOnly (ioGprs exitQualification) instruction := by
  rw [emulatedIoInstruction, Option.bind_eq_some_iff] at h
  obtain ⟨forms, hforms, hchosen⟩ := h
  have hdone := emulatedIoInstructions_done hforms
  unfold ioGprs
  split at hchosen
  · rename_i hstring hrep
    cases hchosen
    rw [hstring]
    exact hdone.single
  · rename_i hstring hrep
    cases hchosen
    rw [hstring, hrep]
    exact hdone.str
  · rename_i hstring hrep
    cases hchosen
    rw [hstring, hrep]
    exact hdone.strrep
  · cases hchosen

end Rkhv.VmexitEffects
