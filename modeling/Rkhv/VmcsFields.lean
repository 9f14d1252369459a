import Rkhv.Cr4Shadow
import Rkhv.MsrBitmaps

/-!
# What a new VMCS holds

`vmx_create_initialized_vmcs` writes a table of fields to a fresh region. Some
fields are adjusted first to what the processor allows: a register holds the
bits that must be set and those that may be. Every field of the table ends with
its adjusted value, and no other VMCS and no other page is changed.
-/

namespace Rkhv.VmcsFields

open ByteMemory WordFields HostTypes HostState StateOutcome FreePages FreePageSearch PageTracker VmxInstructions VmxPages Vmcs
  VmxMsr MsrBitmaps MachinePages MachineSteps HostPages HostSteps HostOperations FreePageContract
  Cr4Shadow

variable {hw : Hardware} {s s' : Hv} {vm : Word}

/-! ## Allowed bits -/

/-- The low half of the register has the bits that must be set, the high half
those that may be. -/
theorem getLsbD_vmxEnsureAllowedBits (msrValue : Word) (mask : BitVec 32) {i : ℕ} (hi : i < 32) :
    (vmxEnsureAllowedBits msrValue mask).getLsbD i =
      ((mask.getLsbD i || msrValue.getLsbD i) && msrValue.getLsbD (32 + i)) := by
  simp only [vmxEnsureAllowedBits, BitVec.getLsbD_and, BitVec.getLsbD_or, BitVec.getLsbD_setWidth,
    BitVec.getLsbD_ushiftRight, hi, decide_true, Bool.true_and]

/-- A capability register that forces no bit that it forbids. -/
def Capability (msrValue : Word) : Prop :=
  ∀ i < 32, msrValue.getLsbD i = true → msrValue.getLsbD (32 + i) = true

instance (msrValue : Word) : Decidable (Capability msrValue) :=
  inferInstanceAs (Decidable (∀ i < 32, _))

/-- The processor accepts a control field: forced bits are set and forbidden ones
are not. -/
def AllowedControl (msrValue : Word) (control : BitVec 32) : Prop :=
  ∀ i < 32, (msrValue.getLsbD i = true → control.getLsbD i = true) ∧
    (control.getLsbD i = true → msrValue.getLsbD (32 + i) = true)

/-- The adjusted value is accepted. It has the asked bits that are allowed, and
only asked or forced ones. -/
theorem vmxEnsureAllowedBits_allowed {msrValue : Word} (h : Capability msrValue)
    (mask : BitVec 32) : AllowedControl msrValue (vmxEnsureAllowedBits msrValue mask) ∧
      ∀ i < 32, (vmxEnsureAllowedBits msrValue mask).getLsbD i = true ↔
        msrValue.getLsbD i = true ∨ (mask.getLsbD i = true ∧ msrValue.getLsbD (32 + i) = true) := by
  refine ⟨fun i hi => ?_, fun i hi => ?_⟩
  · rw [getLsbD_vmxEnsureAllowedBits _ _ hi, Bool.and_eq_true, Bool.or_eq_true]
    exact ⟨fun hforced => ⟨Or.inr hforced, h i hi hforced⟩, And.right⟩
  · rw [getLsbD_vmxEnsureAllowedBits _ _ hi, Bool.and_eq_true, Bool.or_eq_true]
    constructor
    · rintro ⟨hasked | hforced, hallowed⟩
      · exact Or.inr ⟨hasked, hallowed⟩
      · exact Or.inl hforced
    · rintro (hforced | ⟨hasked, hallowed⟩)
      · exact ⟨Or.inr hforced, h i hi hforced⟩
      · exact ⟨Or.inl hasked, hallowed⟩

/-! ## The loop over the table -/

/-- What the loop writes for an entry. -/
def writtenValue (msr : BitVec 32 → Word) (entry : VmcsField) : Word :=
  if entry.allowedMsr ≠ 0 then
    (vmxEnsureAllowedBits (msr (entry.allowedMsr.setWidth 32)) (entry.value.setWidth 32)).setWidth 64
  else entry.value

/-- The processor after some fields of the current VMCS were written. -/
def writtenFields (msr : BitVec 32 → Word) (cpu : Cpu) (fields : List VmcsField) : Cpu :=
  fields.foldl (fun written entry =>
    cpuVmwrite written entry.fieldEncoding (writtenValue msr entry)) cpu

/-- Only fields of the current VMCS differ. -/
structure CurrentVmcsOnly (cpu cpu' : Cpu) : Prop where
  vmcsPointer : cpu'.vmcsPointer = cpu.vmcsPointer
  others : ∀ region, region ≠ cpu.vmcsPointer → cpu'.vmcs region = cpu.vmcs region

theorem CurrentVmcsOnly.refl (cpu : Cpu) : CurrentVmcsOnly cpu cpu := ⟨rfl, fun _ _ => rfl⟩

theorem CurrentVmcsOnly.trans {a b c : Cpu} (h : CurrentVmcsOnly a b) (h' : CurrentVmcsOnly b c) :
    CurrentVmcsOnly a c :=
  ⟨h'.vmcsPointer.trans h.vmcsPointer, fun region hne =>
    (h'.others region (h.vmcsPointer ▸ hne)).trans (h.others region hne)⟩

theorem currentVmcsOnly_cpuVmwrite (cpu : Cpu) (field value : Word) :
    CurrentVmcsOnly cpu (cpuVmwrite cpu field value) :=
  ⟨rfl, fun _ hne => Function.update_of_ne hne _ _⟩

/-- The loop changes the processor alone, entry by entry. -/
theorem writeVmcsFields_returned {fields : List VmcsField}
    (h : writeVmcsFields hw fields s = .ok () s') :
    s' = { s with cpu := writtenFields s.cpu.msr s.cpu fields } := by
  induction fields generalizing s with
  | nil =>
    cases h
    rfl
  | cons entry fields ih =>
    have hwrite : writeVmcsFields hw fields { s with
        cpu := cpuVmwrite s.cpu entry.fieldEncoding (writtenValue s.cpu.msr entry) } = .ok () s' := by
      rw [writeVmcsFields] at h
      rw [writtenValue]
      split at h
      · rename_i hmsr
        rw [bind_eq_ok] at h
        obtain ⟨_, _, hread, h⟩ := h
        cases hread
        rw [bind_eq_ok] at h
        obtain ⟨_, _, hvalue, h⟩ := h
        cases hvalue
        rw [bind_eq_ok] at h
        obtain ⟨_, _, hwrite, hrest⟩ := h
        rw [if_pos hmsr]
        rwa [vmwriteAsserted_returned hwrite] at hrest
      · rename_i hmsr
        rw [bind_eq_ok] at h
        obtain ⟨_, _, hvalue, h⟩ := h
        cases hvalue
        rw [bind_eq_ok] at h
        obtain ⟨_, _, hwrite, hrest⟩ := h
        rw [if_neg hmsr]
        rwa [vmwriteAsserted_returned hwrite] at hrest
    exact ih hwrite

/-- Of a table that names no field twice, every field has the value of its entry,
and the other fields are as before. -/
theorem currentField_writtenFields (msr : BitVec 32 → Word) (cpu : Cpu) {fields : List VmcsField}
    (hnodup : (fields.map VmcsField.fieldEncoding).Nodup) :
    (∀ entry ∈ fields, currentField (writtenFields msr cpu fields) entry.fieldEncoding =
      writtenValue msr entry) ∧
    ∀ field, field ∉ fields.map VmcsField.fieldEncoding →
      currentField (writtenFields msr cpu fields) field = currentField cpu field := by
  induction fields generalizing cpu with
  | nil => exact ⟨fun _ he => absurd he List.not_mem_nil, fun _ _ => rfl⟩
  | cons entry fields ih =>
    rw [List.map_cons, List.nodup_cons] at hnodup
    obtain ⟨hrest, hother⟩ := ih (cpuVmwrite cpu entry.fieldEncoding (writtenValue msr entry)) hnodup.2
    have hcons : writtenFields msr cpu (entry :: fields) =
        writtenFields msr (cpuVmwrite cpu entry.fieldEncoding (writtenValue msr entry)) fields := rfl
    rw [hcons]
    refine ⟨fun e he => ?_, fun field hfield => ?_⟩
    · rcases List.mem_cons.mp he with rfl | he
      · rw [hother _ hnodup.1, currentField_cpuVmwrite, if_pos rfl]
      · exact hrest e he
    · rw [List.map_cons, List.mem_cons, not_or] at hfield
      rw [hother field hfield.2, currentField_cpuVmwrite, if_neg hfield.1]

theorem currentVmcsOnly_writtenFields (msr : BitVec 32 → Word) (cpu : Cpu)
    (fields : List VmcsField) : CurrentVmcsOnly cpu (writtenFields msr cpu fields) ∧
      (writtenFields msr cpu fields).msr = cpu.msr := by
  induction fields generalizing cpu with
  | nil => exact ⟨CurrentVmcsOnly.refl cpu, rfl⟩
  | cons entry fields ih =>
    have hrest := ih (cpuVmwrite cpu entry.fieldEncoding (writtenValue msr entry))
    exact ⟨(currentVmcsOnly_cpuVmwrite cpu _ _).trans hrest.1, hrest.2⟩

/-! ## The bitmaps -/

/-- The bitmaps let the processor read every MSR and write the listed ones. -/
def BitmapsDenote (m : Memory) (page : Word) : Prop :=
  ∀ addr, MsrCovered addr → (wrmsrExits m page addr = true ↔ addr ∉ vmxMsrList) ∧
    rdmsrExits m page addr = false

/-- The initialised page denotes the list. -/
theorem bitmapsDenote_init (m : Memory) (page : Word) :
    BitmapsDenote (vmxMsrInitBitmaps m (p2vIdentityMap page)) page := by
  intro addr haddr
  have hlist : ∀ addr ∈ vmxMsrList, MsrCovered addr := by
    simp [vmxMsrList, MsrCovered]
  have hread := readBit_lt haddr
  have hwrite : writeBit addr = 2048 * 8 + readBit addr := rfl
  have hpage : v2pIdentityMap (p2vIdentityMap page) = page := v2p_p2v page
  have hbit : ∀ i, i < 4096 * 8 → bitAt (vmxMsrInitBitmaps m (p2vIdentityMap page)) page i =
      (decide (2048 * 8 ≤ i) && decide (i ∉ vmxMsrList.map writeBit)) := fun i hi => by
    have hallowed := bitAt_allowed m (p2vIdentityMap page) hlist hi
    rwa [hpage] at hallowed
  refine ⟨?_, ?_⟩
  · rw [wrmsrExits_eq, hbit _ (by omega), Bool.and_eq_true, decide_eq_true_eq, decide_eq_true_eq]
    constructor
    · rintro ⟨_, hnot⟩ hmem
      exact hnot (List.mem_map.mpr ⟨addr, hmem, rfl⟩)
    · refine fun hnot => ⟨by omega, fun hmem => hnot ?_⟩
      obtain ⟨other, hother, heq⟩ := List.mem_map.mp hmem
      have hsame : readBit other = readBit addr := by
        rw [writeBit, writeBit] at heq
        omega
      rwa [← readBit_inj (hlist other hother) haddr hsame]
  · rw [rdmsrExits_eq, hbit _ (by omega), decide_eq_false (by omega), Bool.false_and]

/-- The bits of a page depend on its bytes only. -/
theorem bitmapsDenote_of_same {m m' : Memory} {page : Word} (hpage : PageOk page)
    (hsame : SameFrame m m' (frameOf page)) (h : BitmapsDenote m page) : BitmapsDenote m' page := by
  have hbit : ∀ i, i < 4096 * 8 → bitAt m' page i = bitAt m page i := fun i hi => by
    have hin : InFrame (frameOf page) (page + BitVec.ofNat 64 (i / 8)) := by
      have hoffset := @inFrame_offset (frameOf page) (BitVec.ofNat 64 (i / 8))
        (by rw [BitVec.toNat_ofNat]; omega)
      rwa [frameAddress_frameOf hpage] at hoffset
    rw [bitAt, bitAt, hsame _ hin]
  intro addr haddr
  have hread := readBit_lt haddr
  have hwrite : writeBit addr = 2048 * 8 + readBit addr := rfl
  have hold := h addr haddr
  rw [wrmsrExits_eq, rdmsrExits_eq] at hold ⊢
  rw [hbit _ (by omega), hbit _ (by omega)]
  exact hold

/-! ## Creation -/

/-- What the creation of a VMCS leaves. -/
structure VmcsCreated (hw : Hardware) (s s' : Hv) (vm : Word) : Prop where
  /-- The machine had none before. -/
  unset : (s.vmAt vm).flags &&& vmTFlagVmcsInitialized = 0
  /-- The region is the current VMCS and was nobody's page. -/
  fresh : FreshPage s s'.cpu.vmcsPointer
  vmAt : s'.vmAt = Function.update s.vmAt vm { s.vmAt vm with
    vmcsRegion := s'.cpu.vmcsPointer
    flags := (s.vmAt vm).flags ||| vmTFlagVmcsInitialized }
  /-- Every field of the table has its value, adjusted to what is allowed. -/
  fields : ∀ entry ∈ defaultVmcsFields hw (s.vmAt vm).vmcsConfig s'.msrBitmapsPage
    (s.cpu.msr ia32Efer), currentField s'.cpu entry.fieldEncoding = writtenValue s.cpu.msr entry
  others : ∀ region, region ≠ s'.cpu.vmcsPointer → s'.cpu.vmcs region = s.cpu.vmcs region
  msr : s'.cpu.msr = s.cpu.msr
  bitmapsValid : s'.msrBitmapsPageValid = true
  /-- The bitmaps are those of before, or are initialised on a fresh page. -/
  bitmaps : (s.msrBitmapsPageValid = true ∧ s'.msrBitmapsPage = s.msrBitmapsPage) ∨
    (s.msrBitmapsPageValid = false ∧ PageOk s'.msrBitmapsPage ∧
      BitmapsDenote s'.memory s'.msrBitmapsPage)
  /-- No page that was held is written. -/
  memory : ∀ f, frameAddress f ∈ heldPages s → SameFrame s.memory s'.memory f
  host : s' = { s with
    lastReturnedRegionIndex := s'.lastReturnedRegionIndex
    lastReturnedPageIndex := s'.lastReturnedPageIndex
    mmReturned := s'.mmReturned, msrBitmapsPage := s'.msrBitmapsPage, msrBitmapsPageValid := true
    vmAt := s'.vmAt, memory := s'.memory, cpu := s'.cpu }

/-- The state in which the loop over the table starts. -/
structure RegionLoaded (s t : Hv) (vm page : Word) : Prop where
  vmAt : t.vmAt = Function.update s.vmAt vm { s.vmAt vm with vmcsRegion := page }
  cpu : t.cpu = { s.cpu with vmcsPointer := page }
  bitmapsValid : t.msrBitmapsPageValid = true
  bitmaps : (s.msrBitmapsPageValid = true ∧ t.msrBitmapsPage = s.msrBitmapsPage) ∨
    (s.msrBitmapsPageValid = false ∧ PageOk t.msrBitmapsPage ∧ BitmapsDenote t.memory t.msrBitmapsPage)
  memory : ∀ f, frameAddress f ∈ heldPages s → SameFrame s.memory t.memory f
  host : t = { s with
    lastReturnedRegionIndex := t.lastReturnedRegionIndex
    lastReturnedPageIndex := t.lastReturnedPageIndex
    mmReturned := t.mmReturned, msrBitmapsPage := t.msrBitmapsPage, msrBitmapsPageValid := true
    vmAt := t.vmAt, memory := t.memory, cpu := t.cpu }

/-- Writing the table and setting the flag ends the creation. -/
theorem RegionLoaded.created {t : Hv} {page : Word} {fields : List VmcsField}
    (h : RegionLoaded s t vm page) (hflag : (s.vmAt vm).flags &&& vmTFlagVmcsInitialized = 0)
    (hp : FreshPage s page) (hfields : fields = defaultVmcsFields hw (s.vmAt vm).vmcsConfig
      t.msrBitmapsPage (s.cpu.msr ia32Efer)) :
    Ensures (writeVmcsFields hw fields) t (fun _ t' => VmcsCreated hw s { t' with
      vmAt := Function.update t'.vmAt vm { t'.vmAt vm with
        flags := (t'.vmAt vm).flags ||| vmTFlagVmcsInitialized } } vm) (fun _ _ => True) := by
  refine Ensures.intro (fun _ t' hwritten => ?_) fun _ _ _ => trivial
  have hnodup : (fields.map VmcsField.fieldEncoding).Nodup := by
    rw [hfields]
    exact defaultVmcsFields_nodup hw _ _ _
  have hmsr : t.cpu.msr = s.cpu.msr := by rw [h.cpu]
  have hpointer : t.cpu.vmcsPointer = page := by rw [h.cpu]
  have hvmcs : t.cpu.vmcs = s.cpu.vmcs := by rw [h.cpu]
  have hvalues := (currentField_writtenFields t.cpu.msr t.cpu hnodup).1
  obtain ⟨honly, hsame⟩ := currentVmcsOnly_writtenFields t.cpu.msr t.cpu fields
  have hwritten := writeVmcsFields_returned hwritten
  generalize writtenFields t.cpu.msr t.cpu fields = cpu at *
  rw [hmsr, hfields] at hvalues
  obtain rfl := hwritten
  have hcurrent : cpu.vmcsPointer = page := honly.vmcsPointer.trans hpointer
  exact {
    unset := hflag
    fresh := hcurrent ▸ hp
    vmAt := by
      rw [hcurrent, h.vmAt, Function.update_self, Function.update_idem]
    fields := hvalues
    others := fun region hne => by
      rw [honly.others region fun he => hne (he.trans (hpointer.trans hcurrent.symm)), hvmcs]
    msr := hsame.trans hmsr
    bitmapsValid := h.bitmapsValid
    bitmaps := h.bitmaps
    memory := h.memory
    host := by
      rw [h.host] }

theorem vmxGetMsrBitmapsPage_returned {page : Word} (h : vmxGetMsrBitmapsPage s = .ok page s') :
    page = s'.msrBitmapsPage ∧ s'.msrBitmapsPageValid = true := by
  rw [vmxGetMsrBitmapsPage, bind_of_ok (get_eq_ok.mpr ⟨rfl, rfl⟩)] at h
  split at h
  · rename_i hvalid
    cases h
    exact ⟨rfl, hvalid⟩
  · rw [bind_eq_ok] at h
    obtain ⟨_, _, _, h⟩ := h
    cases h
    exact ⟨rfl, rfl⟩

/-- The bitmaps are in place after the region was loaded. -/
theorem regionLoaded_bitmaps {page : Word} {pos : Word × Word} (h : HostOk s)
    (hflag : (s.vmAt vm).flags &&& vmTFlagVmcsInitialized = 0) (hp : FreshPage s page)
    (hpos : ValidPosition (efiMmap s) pos) :
    Ensures vmxGetMsrBitmapsPage (vmcsLoaded s vm page pos { s.cpu with vmcsPointer := page })
      (fun bitmaps t => RegionLoaded s t vm page ∧ bitmaps = t.msrBitmapsPage) (fun _ _ => True) := by
  have hmemory : ∀ f, frameAddress f ∈ heldPages s → SameFrame s.memory
      (writeDword s.memory page (vmxGetVmcsRevisionIdentifier s.cpu)) f := fun f hf =>
    sameFrame_writeDword_page hp.ok fun he => hp.unheld (he ▸ hf)
  have hstep := @specialStep_vmcsLoaded _ _ _ _ { s.cpu with vmcsPointer := page } hp hpos hflag
  have hheld : heldPages (vmcsLoaded s vm page pos { s.cpu with vmcsPointer := page }) =
      heldPages s := by
    rw [heldPages, specialPages_vmcsLoaded hflag, heldPages, hstep.vmPages_eq]
  refine Ensures.intro (fun bitmaps t hcall => ?_) fun _ _ _ => trivial
  refine ⟨?_, (vmxGetMsrBitmapsPage_returned hcall).1⟩
  rcases (vmxGetMsrBitmapsPage_state (untouched_special h hp hstep).ok).of_ok hcall with
    ⟨hvalid, rfl⟩ | ⟨hvalid, q, qpos, hq, hqpos, rfl⟩
  · have hvalid' : s.msrBitmapsPageValid = true := hvalid
    exact ⟨rfl, rfl, hvalid, Or.inl ⟨hvalid, rfl⟩, hmemory, by rw [vmcsLoaded, taking, hvalid']⟩
  · have hinit := (specialStep_msrBitmapsTaken hvalid hq hqpos).memory
    exact ⟨rfl, rfl, rfl, Or.inr ⟨hvalid, hq.ok, bitmapsDenote_init (vmcsLoaded s vm page pos
      { s.cpu with vmcsPointer := page }).memory q⟩, fun f hf => (hmemory f hf).trans
      (hinit f (ne_of_mem_of_not_mem hf (hheld ▸ hq.unheld))), rfl⟩

/-- The creation of a VMCS writes the whole table to a fresh region and nothing to
a page or a VMCS that is in use. -/
theorem vmxCreateInitializedVmcs_created (h : HostOk s) :
    Ensures (vmxCreateInitializedVmcs hw vm) s (fun _ s' => VmcsCreated hw s s' vm)
      (fun _ _ => True) := by
  simp only [vmxCreateInitializedVmcs, vmxGetFreeVmcsRegion, vmxVmclear, vmxVmptrld, ensures_bind,
    ensures_get, ensures_ite, ensures_panicWith, ensures_modify, ensures_modifyVm, ensures_pure,
    ensures_vmxAssert, ensures_rdmsr, v2p_p2v]
  refine ⟨fun _ => trivial, fun hflag => ?_⟩
  rw [not_not] at hflag
  refine (hostGetFreePage_spec h).mono ?_ fun _ _ _ => trivial
  rintro page _ ⟨pos, hpos, rfl, hp⟩
  refine ⟨fun _ => ⟨fun _ => ⟨fun _ => ?_, fun hf => absurd hf (by decide)⟩,
    fun _ => ⟨fun hf => absurd hf (by decide), fun _ => trivial⟩⟩, fun _ => trivial⟩
  refine (regionLoaded_bitmaps h hflag hp hpos).mono ?_ fun _ _ _ => trivial
  rintro bitmaps t ⟨hloaded, rfl⟩
  refine hloaded.created hflag hp ?_
  rw [hloaded.vmAt, hloaded.cpu, Function.update_self]

end Rkhv.VmcsFields
