import Rkhv.VmexitFrame

/-!
# The guest's view of CR4

The VMXE bit of the guest's CR4 is masked: the guest reads it from the read
shadow, and a write that differs from the shadow there makes the guest exit and
is emulated. Other writes change the unmasked bits in the processor. Through any
sequence of both the guest reads what it last wrote, and the real bit stays set.
-/

namespace Rkhv.Cr4Shadow

open ByteMemory HostTypes HostState StateOutcome FreePages VmxInstructions VmxPages Vmcs VmxMsr
open VmxVmexit VmexitEffects VmexitFrame HostRuns

/-- `VMCS_CF_CR4_GUEST_HOST_MASK` -/
def vmcsCfCr4GuestHostMask : Word := 0x6002

/-! ## The VMCS of a new machine -/

/-- The loop over the table leaves in a field the value of its only entry. -/
theorem writeVmcsFields_field {hw : Hardware} {field value : Word} {fields : List VmcsField}
    {s s' : Hv} (h : writeVmcsFields hw fields s = .ok () s')
    (hvalue : ∀ entry ∈ fields, entry.fieldEncoding = field → entry = ⟨field, value, 0⟩)
    (hfield : currentField s.cpu field = value ∨ ∃ entry ∈ fields, entry.fieldEncoding = field) :
    currentField s'.cpu field = value := by
  induction fields generalizing s with
  | nil =>
    cases h
    cases hfield with
    | inl hkept => exact hkept
    | inr hmem =>
      obtain ⟨_, hmem, _⟩ := hmem
      exact absurd hmem List.not_mem_nil
  | cons entry fields ih =>
    have hwrite : ∃ written t, (entry.allowedMsr = 0 → written = entry.value) ∧
        t = { s with cpu := cpuVmwrite s.cpu entry.fieldEncoding written } ∧
        writeVmcsFields hw fields t = .ok () s' := by
      rw [writeVmcsFields] at h
      split at h
      · rename_i hmsr
        rw [bind_eq_ok] at h
        obtain ⟨_, _, hread, h⟩ := h
        cases hread
        rw [bind_eq_ok] at h
        obtain ⟨written, _, hpure, h⟩ := h
        cases hpure
        rw [bind_eq_ok] at h
        obtain ⟨_, t, hwrite, hrest⟩ := h
        exact ⟨_, t, fun hzero => absurd hzero hmsr, vmwriteAsserted_returned hwrite, hrest⟩
      · rw [bind_eq_ok] at h
        obtain ⟨written, _, hpure, h⟩ := h
        cases hpure
        rw [bind_eq_ok] at h
        obtain ⟨_, t, hwrite, hrest⟩ := h
        exact ⟨_, t, fun _ => rfl, vmwriteAsserted_returned hwrite, hrest⟩
    obtain ⟨written, t, hwritten, ht, hrest⟩ := hwrite
    refine ih hrest (fun e he => hvalue e (List.mem_cons_of_mem entry he)) ?_
    rw [ht]
    dsimp only
    rw [currentField_cpuVmwrite]
    by_cases heq : field = entry.fieldEncoding
    · left
      have hentry := hvalue entry List.mem_cons_self heq.symm
      rw [if_pos heq, hwritten (by rw [hentry]), hentry]
    · rw [if_neg heq]
      cases hfield with
      | inl hkept => exact .inl hkept
      | inr hmem =>
        obtain ⟨e, he, hencoding⟩ := hmem
        cases List.mem_cons.mp he with
        | inl hhead => exact absurd (hencoding.symm.trans (congrArg _ hhead)) heq
        | inr htail => exact .inr ⟨e, htail, hencoding⟩

/-- Guest CR4, mask and shadow in the current VMCS. -/
def Cr4Fields (cpu : Cpu) (cr4 mask shadow : Word) : Prop :=
  currentField cpu vmcsGuestCr4 = cr4 ∧ currentField cpu vmcsCfCr4GuestHostMask = mask ∧
    currentField cpu vmcsCfCr4ReadShadow = shadow

/-- Fields of the table by encoding. -/
theorem defaultVmcsFields_nodup (hw : Hardware) (config : VmxInitialVmcsConfig)
    (msrBitmapsPage efer : Word) :
    ((defaultVmcsFields hw config msrBitmapsPage efer).map VmcsField.fieldEncoding).Nodup := by
  have hlist : (defaultVmcsFields hw config msrBitmapsPage efer).map VmcsField.fieldEncoding =
      (defaultVmcsFields obedientHardware default 0 0).map VmcsField.fieldEncoding := rfl
  rw [hlist]
  decide +kernel

/-- An entry without an allowed-bits register gives its field its value. -/
theorem writeDefaultVmcsFields_field {hw : Hardware} {config : VmxInitialVmcsConfig}
    {msrBitmapsPage efer field value : Word} {s s' : Hv}
    (h : writeVmcsFields hw (defaultVmcsFields hw config msrBitmapsPage efer) s = .ok () s')
    (hmem : ⟨field, value, 0⟩ ∈ defaultVmcsFields hw config msrBitmapsPage efer) :
    currentField s'.cpu field = value := by
  refine writeVmcsFields_field h (fun entry hentry hfield => ?_) (.inr ⟨_, hmem, rfl⟩)
  exact List.inj_on_of_nodup_map (defaultVmcsFields_nodup hw config msrBitmapsPage efer) hentry hmem
    hfield

theorem writeDefaultVmcsFields_cr4 {hw : Hardware} {config : VmxInitialVmcsConfig}
    {msrBitmapsPage efer : Word} {s s' : Hv}
    (h : writeVmcsFields hw (defaultVmcsFields hw config msrBitmapsPage efer) s = .ok () s') :
    Cr4Fields s'.cpu config.guestState.cr4 cr4Vmxe cr4Vmxe := by
  refine ⟨writeDefaultVmcsFields_field h ?_, writeDefaultVmcsFields_field h ?_,
    writeDefaultVmcsFields_field h ?_⟩
  · simp only [defaultVmcsFields, List.mem_cons, true_or, or_true]
  · simp only [defaultVmcsFields, List.mem_cons, vmcsCfCr4GuestHostMask, true_or, or_true]
  · simp only [defaultVmcsFields, List.mem_cons, true_or, or_true]

theorem vmxGetFreeVmcsRegion_vmAt {page : Word} {s s' : Hv}
    (h : vmxGetFreeVmcsRegion s = .ok page s') : s'.vmAt = s.vmAt := by
  rw [vmxGetFreeVmcsRegion, bind_eq_ok] at h
  obtain ⟨_, _, hpage, h⟩ := h
  obtain ⟨_, _, rfl⟩ := mmGetFreePage_returned hpage
  cases h
  rfl

theorem vmxGetMsrBitmapsPage_vmAt {page : Word} {s s' : Hv}
    (h : vmxGetMsrBitmapsPage s = .ok page s') : s'.vmAt = s.vmAt := by
  rw [vmxGetMsrBitmapsPage, bind_of_ok (get_eq_ok.mpr ⟨rfl, rfl⟩)] at h
  split at h
  · cases h
    rfl
  · rw [bind_eq_ok] at h
    obtain ⟨_, _, hpage, h⟩ := h
    obtain ⟨_, _, rfl⟩ := mmGetFreePage_returned hpage
    cases h
    rfl

theorem vmxAssert_returned {expr : String} {succeeded : Bool} {s s' : Hv}
    (h : vmxAssert expr succeeded s = .ok () s') : s' = s := by
  rw [vmxAssert] at h
  split at h
  · cases h
    rfl
  · cases h

/-- A new VMCS has the configured CR4, and masks and shadows its VMXE bit. -/
theorem vmxCreateInitializedVmcs_cr4 {hw : Hardware} {vm : Word} {s s' : Hv}
    (h : vmxCreateInitializedVmcs hw vm s = .ok () s') :
    Cr4Fields s'.cpu (s.vmAt vm).vmcsConfig.guestState.cr4 cr4Vmxe cr4Vmxe := by
  rw [vmxCreateInitializedVmcs, bind_of_ok (get_eq_ok.mpr ⟨rfl, rfl⟩)] at h
  split at h
  · cases h
  · rw [bind_eq_ok] at h
    obtain ⟨region, s₁, hregion, h⟩ := h
    rw [bind_eq_ok] at h
    obtain ⟨_, s₂, hmodify, h⟩ := h
    rw [bind_eq_ok] at h
    obtain ⟨_, s₃, hclear, h⟩ := h
    rw [bind_eq_ok] at h
    obtain ⟨_, s₄, hassert, h⟩ := h
    rw [bind_eq_ok] at h
    obtain ⟨_, s₅, hload, h⟩ := h
    rw [bind_eq_ok] at h
    obtain ⟨_, s₆, hassert', h⟩ := h
    rw [bind_eq_ok] at h
    obtain ⟨bitmaps, s₇, hbitmaps, h⟩ := h
    rw [bind_eq_ok] at h
    obtain ⟨efer, s₈, hefer, h⟩ := h
    rw [bind_eq_ok] at h
    obtain ⟨t, s₉, hget, h⟩ := h
    rw [bind_eq_ok] at h
    obtain ⟨_, s₁₀, hfields, h⟩ := h
    have ht := (get_eq_ok.mp hget).1
    have heferVm : s₈.vmAt = s₇.vmAt := by
      cases hefer
      rfl
    have hregionVm := vmxGetFreeVmcsRegion_vmAt hregion
    have hbitmapsVm := vmxGetMsrBitmapsPage_vmAt hbitmaps
    have hassertSame := vmxAssert_returned hassert
    have hassertSame' := vmxAssert_returned hassert'
    have hloadVm : s₅.vmAt = s₄.vmAt := by
      have hspec : Ensures (vmxVmptrld hw region) s₄ (fun _ t => t.vmAt = s₄.vmAt)
          (fun _ _ => True) := by
        simp only [vmxVmptrld, ensures_bind, ensures_get, ensures_ite, ensures_modify, ensures_pure,
          implies_true, and_self]
      exact hspec.of_ok hload
    have hclearSame : s₃ = s₂ := by
      cases hclear
      rfl
    have hconfig : (t.vmAt vm).vmcsConfig = (s.vmAt vm).vmcsConfig := by
      cases hmodify
      rw [← ht, heferVm, hbitmapsVm, hassertSame', hloadVm, hassertSame, hclearSame]
      dsimp only
      rw [Function.update_self, hregionVm]
    cases h
    have hcr4 := writeDefaultVmcsFields_cr4 hfields
    rw [hconfig] at hcr4
    exact hcr4

/-! ## Runs of a guest -/

/-- What the guest reads: CR4 outside the mask and the shadow inside it. -/
def guestReadsCr4 (cpu : Cpu) : Word :=
  (currentField cpu vmcsGuestCr4 &&& ~~~currentField cpu vmcsCfCr4GuestHostMask) |||
    (currentField cpu vmcsCfCr4ReadShadow &&& currentField cpu vmcsCfCr4GuestHostMask)

/-- A write makes the guest exit when it differs from the shadow in the mask. -/
def Cr4WriteExits (cpu : Cpu) (value : Word) : Prop :=
  (value ^^^ currentField cpu vmcsCfCr4ReadShadow) &&&
    currentField cpu vmcsCfCr4GuestHostMask ≠ 0

/-- CR4 after a write that does not exit: the processor keeps the masked bits. -/
def cr4AfterWrite (cpu : Cpu) (value : Word) : Word :=
  (currentField cpu vmcsGuestCr4 &&& currentField cpu vmcsCfCr4GuestHostMask) |||
    (value &&& ~~~currentField cpu vmcsCfCr4GuestHostMask)

/-- The value of the exit's general register, of the sixteen that it can name. -/
def movRegister (cpu cpu' : Cpu) (reg : VmxVmexitRegState) : Word :=
  (guestGpr reg (currentField cpu' vmcsGuestRsp))[crGpr (currentField cpu vmcsExitQualification)]

/-- The value that a MOV to a control register writes. -/
def movValue (cpu : Cpu) (reg : VmxVmexitRegState) : Word := movRegister cpu cpu reg

/-- Whether the current exit is that of a MOV to CR4. -/
def MovToCr4 (cpu : Cpu) : Prop :=
  MovToCr (currentField cpu vmcsExitReason) (currentField cpu vmcsExitQualification) 4

/-- Runs of a machine from its new VMCS on, with the value that the guest last
wrote to CR4. Whatever else happens between exits keeps CR4, mask and shadow. -/
inductive Cr4Run (hw : Hardware) : Hv → Word → Prop where
  | created {vm : Word} {s s' : Hv} (h : vmxCreateInitializedVmcs hw vm s = .ok () s')
      (hvmxe : (s.vmAt vm).vmcsConfig.guestState.cr4 &&& cr4Vmxe ≠ 0) :
      Cr4Run hw s' (s.vmAt vm).vmcsConfig.guestState.cr4
  | other {s t : Hv} {last cr4 mask shadow : Word} (h : Cr4Run hw s last)
      (hs : Cr4Fields s.cpu cr4 mask shadow) (ht : Cr4Fields t.cpu cr4 mask shadow) :
      Cr4Run hw t last
  | written {s t : Hv} {last value : Word} (h : Cr4Run hw s last)
      (hexit : ¬Cr4WriteExits s.cpu value)
      (ht : Cr4Fields t.cpu (cr4AfterWrite s.cpu value)
        (currentField s.cpu vmcsCfCr4GuestHostMask) (currentField s.cpu vmcsCfCr4ReadShadow)) :
      Cr4Run hw t value
  | emulated {s s' : Hv} {last : Word} {reg reg' : VmxVmexitRegState} {vm : Word}
      (h : Cr4Run hw s last) (hmov : MovToCr4 s.cpu)
      (hexit : Cr4WriteExits s.cpu (movValue s.cpu reg))
      (hrun : vmxVmexitHandler hw reg s = .ok (reg', vm) s') : Cr4Run hw s' (movValue s.cpu reg)
  | handled {s s' : Hv} {last : Word} {reg reg' : VmxVmexitRegState} {vm : Word}
      (h : Cr4Run hw s last) (hmov : ¬MovToCr4 s.cpu)
      (hrun : vmxVmexitHandler hw reg s = .ok (reg', vm) s') : Cr4Run hw s' last

/-- Mask, shadow and CR4 of a machine whose guest last wrote a value. -/
def Shadowed (cpu : Cpu) (last : Word) : Prop :=
  Cr4Fields cpu (last ||| cr4Vmxe) cr4Vmxe (last &&& cr4Vmxe)

theorem and_cr4Vmxe {x : Word} (h : x &&& cr4Vmxe ≠ 0) : x &&& cr4Vmxe = cr4Vmxe := by
  have hpow : cr4Vmxe = BitVec.twoPow 64 13 := by decide
  rw [hpow, BitVec.and_twoPow] at h ⊢
  split
  · rfl
  · rename_i hbit
    exact absurd (if_neg hbit) h

/-- A word with the bits of a mask inside it is the word with the mask set. -/
theorem or_of_and_eq {x mask : Word} (h : x &&& mask = mask) : x ||| mask = x := by
  rw [← h, BitVec.or_comm]
  apply BitVec.eq_of_getLsbD_eq
  intro i _
  simp only [BitVec.getLsbD_or, BitVec.getLsbD_and]
  cases x.getLsbD i <;> cases mask.getLsbD i <;> rfl

/-- Bits outside a mask, joined with the bits inside it. -/
theorem masked_parts (x mask : Word) :
    ((x ||| mask) &&& ~~~mask) ||| ((x &&& mask) &&& mask) = x := by
  apply BitVec.eq_of_getLsbD_eq
  intro i hi
  simp only [BitVec.getLsbD_or, BitVec.getLsbD_and, BitVec.getLsbD_not, hi, decide_true,
    Bool.true_and]
  cases x.getLsbD i <;> cases mask.getLsbD i <;> rfl

theorem written_parts (x value mask : Word) :
    ((x ||| mask) &&& mask) ||| (value &&& ~~~mask) = value ||| mask := by
  apply BitVec.eq_of_getLsbD_eq
  intro i hi
  simp only [BitVec.getLsbD_or, BitVec.getLsbD_and, BitVec.getLsbD_not, hi, decide_true,
    Bool.true_and]
  cases x.getLsbD i <;> cases mask.getLsbD i <;> cases value.getLsbD i <;> rfl

/-- A word that differs from masked bits nowhere in the mask has the same ones. -/
theorem and_eq_of_xor {x value mask : Word} (h : (value ^^^ (x &&& mask)) &&& mask = 0) :
    value &&& mask = x &&& mask := by
  apply BitVec.eq_of_getLsbD_eq
  intro i _
  have hbit := congrArg (fun w : Word => w.getLsbD i) h
  simp only [BitVec.getLsbD_and, BitVec.getLsbD_xor, BitVec.ofNat_eq_ofNat, BitVec.getLsbD_zero]
    at hbit
  rw [BitVec.getLsbD_and, BitVec.getLsbD_and]
  revert hbit
  cases x.getLsbD i <;> cases mask.getLsbD i <;> cases value.getLsbD i <;> decide

/-- What a handled exit does to CR4, mask and shadow. -/
theorem vmxVmexitHandler_cr4 {hw : Hardware} {s s' : Hv} {reg reg' : VmxVmexitRegState} {vm : Word}
    (h : vmxVmexitHandler hw reg s = .ok (reg', vm) s') :
    currentField s'.cpu vmcsCfCr4GuestHostMask = currentField s.cpu vmcsCfCr4GuestHostMask ∧
    (MovToCr4 s.cpu → currentField s'.cpu vmcsGuestCr4 = movValue s.cpu reg ||| cr4Vmxe ∧
      currentField s'.cpu vmcsCfCr4ReadShadow = movValue s.cpu reg &&& cr4Vmxe) ∧
    (¬MovToCr4 s.cpu → currentField s'.cpu vmcsGuestCr4 = currentField s.cpu vmcsGuestCr4 ∧
      currentField s'.cpu vmcsCfCr4ReadShadow = currentField s.cpu vmcsCfCr4ReadShadow) := by
  obtain ⟨vmState, vmState', t, t', hcall, hcall', hcall'', _, _⟩ := vmxVmexitHandler_stages h
  have hread := readVmState_returned hcall
  have hhandled := handleExit_returned hcall'
  have hwritten := writeVmState_returned hcall''
  have hexit : ∀ field, currentField t.cpu field = currentField s.cpu field := fun field => by
    rw [hread.host]
    rfl
  have hvalue : (possibleGpr vmState)[crGpr (currentField s.cpu vmcsExitQualification)] =
      movValue s.cpu reg := by
    rw [movValue, movRegister, ← hread.rsp, ← hread.regState]
    rfl
  have hmask : currentField s'.cpu vmcsCfCr4GuestHostMask =
      currentField t'.cpu vmcsCfCr4GuestHostMask :=
    hwritten.other _ (fun entry => by cases entry <;> decide) (by decide)
  have hshadow : currentField s'.cpu vmcsCfCr4ReadShadow =
      currentField t'.cpu vmcsCfCr4ReadShadow :=
    hwritten.other _ (fun entry => by cases entry <;> decide) (by decide)
  have hcpu := hhandled.cpu
  have hcr4 := hhandled.cr4
  rw [hvalue] at hcpu hcr4
  by_cases hmov : MovToCr4 s.cpu
  · have hmov' : MovToCr _ _ 4 := hmov
    rw [if_pos hmov'] at hcpu hcr4
    rw [hcpu, currentField_cpuVmwrite, if_neg (by decide), hexit] at hmask
    rw [hcpu, currentField_cpuVmwrite, if_pos rfl] at hshadow
    exact ⟨hmask, fun _ => ⟨hwritten.cr4.trans hcr4, hshadow⟩, fun hn => absurd hmov hn⟩
  · have hmov' : ¬MovToCr _ _ 4 := hmov
    rw [if_neg hmov'] at hcpu hcr4
    rw [hcpu, hexit] at hmask hshadow
    exact ⟨hmask, fun hm => absurd hm hmov,
      fun _ => ⟨hwritten.cr4.trans (hcr4.trans hread.cr4), hshadow⟩⟩

/-- Every step of a run keeps the relation of CR4, mask and shadow. -/
theorem Cr4Run.shadowed {hw : Hardware} {s : Hv} {last : Word} (h : Cr4Run hw s last) :
    Shadowed s.cpu last := by
  induction h with
  | created hcreate hvmxe =>
    have hset := and_cr4Vmxe hvmxe
    have hfields := vmxCreateInitializedVmcs_cr4 hcreate
    rw [Shadowed, or_of_and_eq hset, hset]
    exact hfields
  | other _ hs ht ih =>
    refine ⟨?_, ?_, ?_⟩
    · rw [ht.1, ← hs.1, ih.1]
    · rw [ht.2.1, ← hs.2.1, ih.2.1]
    · rw [ht.2.2, ← hs.2.2, ih.2.2]
  | written _ hexit ht ih =>
    rw [Cr4WriteExits, not_not, ih.2.2, ih.2.1] at hexit
    rw [cr4AfterWrite, ih.1, ih.2.1, ih.2.2, written_parts, ← and_eq_of_xor hexit] at ht
    exact ht
  | emulated _ hmov _ hrun ih =>
    have hcr4 := vmxVmexitHandler_cr4 hrun
    exact ⟨(hcr4.2.1 hmov).1, hcr4.1.trans ih.2.1, (hcr4.2.1 hmov).2⟩
  | handled _ hmov hrun ih =>
    have hcr4 := vmxVmexitHandler_cr4 hrun
    exact ⟨(hcr4.2.2 hmov).1.trans ih.1, hcr4.1.trans ih.2.1, (hcr4.2.2 hmov).2.trans ih.2.2⟩

/-- In every run the guest reads from CR4 what it last wrote to it, and the
guest's real CR4 has VMXE set. -/
theorem cr4_shadow_transparent {hw : Hardware} {s : Hv} {last : Word} (h : Cr4Run hw s last) :
    guestReadsCr4 s.cpu = last ∧ currentField s.cpu vmcsGuestCr4 &&& cr4Vmxe ≠ 0 := by
  have hshadowed := h.shadowed
  constructor
  · rw [guestReadsCr4, hshadowed.1, hshadowed.2.1, hshadowed.2.2, masked_parts]
  · rw [hshadowed.1, BitVec.or_comm]
    have habsorb : (cr4Vmxe ||| last) &&& cr4Vmxe = cr4Vmxe := by
      apply BitVec.eq_of_getLsbD_eq
      intro i _
      simp only [BitVec.getLsbD_or, BitVec.getLsbD_and]
      cases last.getLsbD i <;> cases cr4Vmxe.getLsbD i <;> rfl
    rw [habsorb]
    decide

/-- The host and machine of a first VMCS whose guest starts with VMXE set. -/
def vmxeHost : Hv :=
  { smallHost 4 with
    vmAt := fun _ => { (default : Vm) with
      vmcsConfig := { (default : VmxInitialVmcsConfig) with
        guestState := { (default : InitialGuestState) with cr4 := 0x2020 } } } }

/-- A write that clears only unmasked bits does not exit and is read back. -/
theorem cr4_shadow_transparent_written : ∃ s, Cr4Run obedientHardware s 0x2000 ∧
    guestReadsCr4 s.cpu = 0x2000 ∧ currentField s.cpu vmcsGuestCr4 &&& cr4Vmxe ≠ 0 := by
  have hreturned : returnsWith (vmxCreateInitializedVmcs obedientHardware firstVm vmxeHost)
      (fun _ => true) = true := by
    decide +kernel
  obtain ⟨s, hcreate, _⟩ := exists_of_returnsWith hreturned
  have hvmxe : (vmxeHost.vmAt firstVm).vmcsConfig.guestState.cr4 &&& cr4Vmxe ≠ 0 := by decide
  have hcreated : Cr4Run obedientHardware s 0x2020 := .created hcreate hvmxe
  have hfields := vmxCreateInitializedVmcs_cr4 hcreate
  have hexit : ¬Cr4WriteExits s.cpu 0x2000 := by
    rw [Cr4WriteExits, hfields.2.2, hfields.2.1]
    decide
  have hwritten : Cr4Run obedientHardware { s with
      cpu := cpuVmwrite s.cpu vmcsGuestCr4 (cr4AfterWrite s.cpu 0x2000) } 0x2000 := by
    refine .written hcreated hexit ⟨?_, ?_, ?_⟩
    · rw [currentField_cpuVmwrite, if_pos rfl]
    · rw [currentField_cpuVmwrite, if_neg (by decide)]
    · rw [currentField_cpuVmwrite, if_neg (by decide)]
  exact ⟨_, hwritten, cr4_shadow_transparent hwritten⟩

end Rkhv.Cr4Shadow
