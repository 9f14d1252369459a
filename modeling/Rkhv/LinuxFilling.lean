import Rkhv.LinuxCmdline
import Rkhv.LinuxParameters

/-!
# The loader up to the kernel

Placing the command line and filling the page of boot parameters come before
the kernel is copied. Each of these stages returns, panics or reads outside the
image in cases that only depend on the size of the guest memory, the image and
the command line. What the last stage reads back places the kernel.
-/

namespace Rkhv.LinuxFilling

open ByteMemory ByteBlocks HostTypes HostState StateOutcome Ept GuestMemory GuestRam GuestSetup
  GuestIdentity GuestLinuxLoader LinuxPreparation LinuxCmdline LinuxParameters

variable {hw : Hardware} {s t : Hv} {vm : Word} {n : ℕ} {host : ℕ → Frame} {image : LinuxImage}
  {cmdline : List (BitVec 8)} {f : Frame}

/-! ## Stages before the kernel -/

/-- The header is accepted and the guest memory has room. -/
def Accepted (n : ℕ) (image : LinuxImage) : Prop := HeaderAccepted image ∧ ¬TooSmall n image

/-- The loader panics before it comes to the kernel. -/
def StopsEarly (n : ℕ) (image : LinuxImage) (cmdline : List (BitVec 8)) : Prop :=
  PreparationStops n image ∨
    Accepted n image ∧ image.reads hdrCmdlineSize 4 = true ∧ CmdlineTooLong image cmdline

/-- All that is read of the image before the kernel can be read. -/
structure Readable (image : LinuxImage) : Prop where
  cmdlineSize : image.reads hdrCmdlineSize 4 = true
  header : image.reads hdrSetupSects image.setupHeaderSize = true
  version : image.readsString (versionOffset image) = true

/-- The loader reads outside the image before it comes to the kernel. -/
def ReadsOutsideEarly (n : ℕ) (image : LinuxImage) (cmdline : List (BitVec 8)) : Prop :=
  514 ≤ n ∧ HeaderCut image ∨ Accepted n image ∧ (¬image.reads hdrCmdlineSize 4 = true ∨
    ¬CmdlineTooLong image cmdline ∧ ¬Readable image)

/-- The state in which the kernel is loaded. -/
structure KernelReady (s : Hv) (vm : Word) (n : ℕ) (host : ℕ → Frame) (image : LinuxImage)
    (cmdline : List (BitVec 8)) (t : Hv) : Prop where
  accepted : Accepted n image
  readable : Readable image
  short : ¬CmdlineTooLong image cmdline
  state : t = settingUp s vm t.memory (preparedRecord (s.vmAt vm) n)
  placement : ∀ o ∈ placementOffsets, t.memory (frameAddress (host (n - 515)) + o) = copied image o
  memory : ∃ m, WritesWithin host {j | n ≤ j + 514 ∧ j < n} s.memory m ∧
    ∀ a, ¬InFrame (host (n - 515)) a → t.memory a = placed m (host (n - 516)) cmdline a

/-- A rule for the loader: what holds from every state in which the kernel is
loaded, and of every early end, holds of all runs. -/
theorem ensures_vmGuestLinuxLoader {Q : Unit → Hv → Prop} {E : Fault → Hv → Prop}
    (h : Loadable s vm n host)
    (hkernel : ∀ t, KernelReady s vm n host image cmdline t →
      Ensures (do
        let guestpa ← loadProtectedKernel vm image (p2vIdentityMap (frameAddress (host (n - 515))))
        startLinux hw vm (guestPage (n - 515)) guestpa) t Q E)
    (hstops : ∀ e t, FaultIn (StopsEarly n image cmdline) (ReadsOutsideEarly n image cmdline) e →
      E e t) :
    Ensures (vmGuestLinuxLoader hw vm image cmdline) s Q E := by
  rw [vmGuestLinuxLoader, ensures_bind]
  refine (prepareLinux_spec h image).mono (fun setup t₁ hprepared => ?_) fun e t₁ he =>
    hstops e t₁ (he.mono Or.inl Or.inl)
  obtain rfl := hprepared.setup_eq
  have haccepted : Accepted n image := ⟨hprepared.header, hprepared.fits⟩
  have hcmdline : (preparedSetup image n host).cmdlinePage =
      p2vIdentityMap (frameAddress (host (n - 516))) := rfl
  have hzeropage : (preparedSetup image n host).zeropage =
      p2vIdentityMap (frameAddress (host (n - 515))) := rfl
  have hguestpa : (preparedSetup image n host).zeropageGuestpa = guestPage (n - 515) := rfl
  rw [ensures_bind, hcmdline]
  refine (placeCmdline_spec image cmdline t₁ (host (n - 516))).mono (fun _ t₂ hplaced => ?_)
    fun e t₂ he => hstops e t₂ (he.2.mono (fun hlong => Or.inr ⟨haccepted, hlong⟩)
      fun hcut => Or.inr ⟨haccepted, Or.inl hcut⟩)
  obtain ⟨rfl, hsize, hshort⟩ := hplaced
  rw [ensures_bind, hzeropage, hguestpa]
  refine (fillZeropage_spec vm _ rfl hzeropage).mono (fun _ t₃ hfilled => ?_) fun e t₃ he =>
    hstops e t₃ (he.mono False.elim fun hcut => Or.inr ⟨haccepted, Or.inr ⟨hshort, fun hreads => ?_⟩⟩)
  · obtain ⟨⟨hstate, hparameters⟩, hheader, hversion⟩ := hfilled
    refine hkernel t₃ ⟨haccepted, ⟨hsize, hheader, hversion⟩, hshort, ?_, hparameters.placement,
      t₁.memory, hprepared.writes, hparameters.elsewhere⟩
    rw [hstate, hprepared.state]
    rfl
  · obtain hheader | hversion := hcut
    · exact hheader hreads.header
    · exact hversion hreads.version

/-- An accepted header is neither rejected nor cut off. -/
theorem headerAccepted_excludes (h : HeaderAccepted image) :
    ¬HeaderRejected image ∧ ¬HeaderCut image := by
  constructor
  · rintro ⟨_, hmagic | hentry⟩
    · exact hmagic h.magic
    · exact hentry.2 h.entry64
  · rintro (hheader | hflags)
    · exact hheader h.header
    · exact hflags.2 h.xloadflags

theorem headerCut_excludes (h : HeaderCut image) : ¬HeaderRejected image := by
  rintro ⟨hheader, hmagic | hentry⟩
  · obtain hcut | hflags := h
    · exact hcut hheader
    · exact hmagic hflags.1
  · obtain hcut | hflags := h
    · exact hcut hheader
    · exact hflags.2 hentry.1

/-- With an accepted header and enough memory the preparation does not panic. -/
theorem Accepted.not_stops (h : Accepted n image) : ¬PreparationStops n image := by
  rintro (hsmall | hrejected | hfull)
  · exact h.2 (Or.inl (by omega))
  · exact (headerAccepted_excludes h.1).1 hrejected
  · exact h.2 hfull.2

/-- With a short command line the loader does not panic before the kernel. -/
theorem not_stopsEarly (h : Accepted n image) (hshort : ¬CmdlineTooLong image cmdline) :
    ¬StopsEarly n image cmdline := by
  rintro (hstops | hlong)
  · exact h.not_stops hstops
  · exact hshort hlong.2.2

/-- When all fields can be read it does not read outside the image before the kernel. -/
theorem not_readsOutsideEarly (h : Accepted n image) (hreadable : Readable image) :
    ¬ReadsOutsideEarly n image cmdline := by
  rintro (hcut | ⟨_, hcut | hcut⟩)
  · exact (headerAccepted_excludes h.1).2 hcut.2
  · exact hcut hreadable.cmdlineSize
  · exact hcut.2 hreadable

/-- A run that reads outside the image does not panic, and could not read all fields. -/
theorem readsOutsideEarly_excludes (h : ReadsOutsideEarly n image cmdline) :
    ¬StopsEarly n image cmdline ∧ ¬(Accepted n image ∧ Readable image) := by
  refine ⟨?_, fun hready => not_readsOutsideEarly hready.1 hready.2 h⟩
  obtain ⟨hroom, hcut⟩ | ⟨haccepted, hcut⟩ := h
  · rintro ((hsmall | hrejected | hfull) | hlong)
    · omega
    · exact headerCut_excludes hcut hrejected
    · exact (headerAccepted_excludes hfull.1).2 hcut
    · exact (headerAccepted_excludes hlong.1.1).2 hcut
  · rintro (hstops | ⟨_, hreads, hlong⟩)
    · exact haccepted.not_stops hstops
    · obtain hsize | ⟨hshort, _⟩ := hcut
      · exact hsize hreads
      · exact hshort hlong

/-- A run whose header is accepted and read, with a command line that is short
enough, comes to the kernel. -/
theorem ensures_of_readable {Q : Unit → Hv → Prop} {E : Fault → Hv → Prop}
    (h : Loadable s vm n host) (haccepted : Accepted n image) (hreadable : Readable image)
    (hshort : ¬CmdlineTooLong image cmdline)
    (hkernel : ∀ t, KernelReady s vm n host image cmdline t →
      Ensures (do
        let guestpa ← loadProtectedKernel vm image (p2vIdentityMap (frameAddress (host (n - 515))))
        startLinux hw vm (guestPage (n - 515)) guestpa) t Q E) :
    Ensures (vmGuestLinuxLoader hw vm image cmdline) s Q E :=
  ensures_vmGuestLinuxLoader h hkernel fun _ _ he => (faultIn_false
    (he.mono (not_stopsEarly haccepted hshort) (not_readsOutsideEarly haccepted hreadable))).elim

/-! ## Placing the kernel -/

/-- The state when a missing number of set-up sectors is replaced. -/
def defaulted (image : LinuxImage) (f : Frame) (t : Hv) : Hv :=
  if image.field hdrSetupSects 1 = 0#8 then
    { t with memory := storeAll t.memory (frameAddress f) [⟨hdrSetupSects, 1, 4#8⟩] }
  else t

/-- A field of the boot parameters holds what was copied. -/
theorem readParameter_copied {m : Memory} {offset : Word} {k : ℕ}
    (h : ∀ o ∈ placementOffsets, m (frameAddress f + o) = copied image o)
    (hfield : ∀ i < k, offset + BitVec.ofNat 64 i ∈ placementOffsets) :
    readBytes m (frameAddress f + offset) k = readBytes (copied image) offset k := by
  refine readBytes_congr fun i hi => ?_
  rw [BitVec.add_assoc]
  exact h _ (hfield i hi)

/-- Storing the number of set-up sectors reaches no other field that places the kernel. -/
theorem storeSetupSects_apply (m : Memory) {o : Word} (ho : o ≠ hdrSetupSects) :
    storeAll m (frameAddress f) [⟨hdrSetupSects, 1, 4#8⟩] (frameAddress f + o) =
      m (frameAddress f + o) := by
  refine storeAll_apply_of_untouched fun store hstore => ?_
  obtain rfl := List.mem_singleton.mp hstore
  have hdistance : frameAddress f + o - (frameAddress f + hdrSetupSects) = o - hdrSetupSects := by
    rw [add_sub_add_left_eq_sub]
  rw [hdistance]
  refine Nat.one_le_iff_ne_zero.mpr fun hzero => ho ?_
  exact sub_eq_zero.mp (BitVec.eq_of_toNat_eq hzero)

/-- The number that replaces it is read back. -/
theorem storeSetupSects_self (m : Memory) :
    readBytes (storeAll m (frameAddress f) [⟨hdrSetupSects, 1, 4#8⟩])
      (frameAddress f + hdrSetupSects) 1 = 4#8 := by
  have hself : ∀ a : Word, (a - a).toNat = 0 := fun a => by
    rw [BitVec.sub_self]
    rfl
  rw [readBytes, readBytes, storeAll, List.foldl_cons, List.foldl_nil, writeBytes, hself,
    if_pos Nat.one_pos]
  rfl

theorem placement_fields : (∀ i < 1, hdrSetupSects + BitVec.ofNat 64 i ∈ placementOffsets) ∧
    (∀ i < 4, hdrKernelAlignment + BitVec.ofNat 64 i ∈ placementOffsets ∧
      hdrKernelAlignment + BitVec.ofNat 64 i ≠ hdrSetupSects) ∧
    (∀ i < 8, hdrPrefAddress + BitVec.ofNat 64 i ∈ placementOffsets ∧
      hdrPrefAddress + BitVec.ofNat 64 i ≠ hdrSetupSects) := by decide

/-- `hdr.setup_sects` as it was copied. -/
theorem readSetupSects {m : Memory}
    (h : ∀ o ∈ placementOffsets, m (frameAddress f + o) = copied image o) :
    readBytes m (frameAddress f + hdrSetupSects) 1 = image.field hdrSetupSects 1 := by
  refine readBytes_congr fun i hi => ?_
  obtain rfl : i = 0 := by omega
  have hzero : ∀ a : Word, a + BitVec.ofNat 64 0 = a := fun a => BitVec.add_zero a
  rw [hzero, hzero, h hdrSetupSects (by decide), copied_setupSects]

/-- The fields that place the kernel, in the state in which it is loaded. -/
theorem defaulted_fields
    (h : ∀ o ∈ placementOffsets, t.memory (frameAddress f + o) = copied image o) :
    readBytes (defaulted image f t).memory (frameAddress f + hdrSetupSects) 1 = setupSects image ∧
      readBytes (defaulted image f t).memory (frameAddress f + hdrPrefAddress) 8 = prefAddress image ∧
      (readBytes (defaulted image f t).memory (frameAddress f + hdrKernelAlignment) 4).setWidth 64 =
        kernelAlignment image := by
  obtain ⟨_, halignment, hpref⟩ := placement_fields
  have hcopied : readBytes t.memory (frameAddress f + hdrPrefAddress) 8 = prefAddress image ∧
      (readBytes t.memory (frameAddress f + hdrKernelAlignment) 4).setWidth 64 =
        kernelAlignment image := by
    rw [prefAddress, kernelAlignment, readParameter_copied h fun i hi => (hpref i hi).1,
      readParameter_copied h fun i hi => (halignment i hi).1]
    exact ⟨rfl, rfl⟩
  rw [defaulted, setupSects]
  split
  · refine ⟨storeSetupSects_self _, ?_, ?_⟩
    · rw [← hcopied.1]
      refine readBytes_congr fun i hi => ?_
      rw [BitVec.add_assoc]
      exact storeSetupSects_apply _ (hpref i hi).2
    · rw [← hcopied.2]
      refine congrArg (BitVec.setWidth 64) (readBytes_congr fun i hi => ?_)
      rw [BitVec.add_assoc]
      exact storeSetupSects_apply _ (halignment i hi).2
  · exact ⟨readSetupSects h, hcopied⟩

/-- The number is replaced when none was copied. -/
theorem ensures_defaultSetupSects {Q : Unit → Hv → Prop} {E : Fault → Hv → Prop}
    (h : ∀ o ∈ placementOffsets, t.memory (frameAddress f + o) = copied image o) :
    Ensures (defaultSetupSects (p2vIdentityMap (frameAddress f))) t Q E ↔
      Q () (defaulted image f t) := by
  rw [defaultSetupSects, ensures_bind, ensures_readParameter, v2p_p2v_add, readSetupSects h,
    ensures_ite, ensures_storeParameters, ensures_pure, v2p_p2v, defaulted]
  split
  · rename_i hnone
    exact ⟨fun hq => hq.1 hnone, fun hq => ⟨fun _ => hq, fun hc => absurd hnone hc⟩⟩
  · rename_i hsome
    exact ⟨fun hq => hq.2 hsome, fun hq => ⟨fun hc => absurd hc hsome, fun _ => hq⟩⟩

/-- Replacing the number only writes the page of boot parameters. -/
theorem defaulted_frame (image : LinuxImage) (f : Frame) (t : Hv) :
    defaulted image f t = { t with memory := (defaulted image f t).memory } ∧
      ∀ a, ¬InFrame f a → (defaulted image f t).memory a = t.memory a := by
  rw [defaulted]
  split
  · refine ⟨rfl, fun a ha => storeAll_apply_of_le (Nat.le_of_not_lt ha) fun store hstore => ?_⟩
    obtain rfl := List.mem_singleton.mp hstore
    decide
  · exact ⟨rfl, fun _ _ => rfl⟩

/-- Up to the kernel a shorter command line only writes the pages of the setup. -/
theorem KernelReady.within (ht : KernelReady s vm n host image cmdline t)
    (hline : strStrlen cmdline < 4096) :
    WritesWithin host {j | n ≤ j + 516 ∧ j < n} s.memory
      (defaulted image (host (n - 515)) t).memory := by
  intro a ha
  obtain ⟨m, hm, hplaced⟩ := ht.memory
  have hlarge : 4096 < n := lt_of_fits ht.accepted.2
  have hzeropage : ¬InFrame (host (n - 515)) a := ha _ ⟨by omega, by omega⟩
  have hcmdline : ¬InFrame (host (n - 516)) a := ha _ ⟨by omega, by omega⟩
  calc (defaulted image (host (n - 515)) t).memory a = t.memory a := (defaulted_frame _ _ _).2 a hzeropage
    _ = placed m (host (n - 516)) cmdline a := hplaced a hzeropage
    _ = m a := (placedInPage hline).elsewhere a hcmdline
    _ = s.memory a := hm a fun j hj => ha j ⟨hj.1.trans (by omega), hj.2⟩

/-- The state in which the kernel is copied. -/
theorem KernelReady.settingUp (ht : KernelReady s vm n host image cmdline t) :
    defaulted image (host (n - 515)) t = settingUp s vm (defaulted image (host (n - 515)) t).memory
      (preparedRecord (s.vmAt vm) n) := by
  rw [(defaulted_frame image (host (n - 515)) t).1, ht.state]
  rfl

/-- With a shorter command line the guest memory stays mapped up to the kernel. -/
theorem KernelReady.guestMapped (ht : KernelReady s vm n host image cmdline t)
    (h : GuestMapped s vm n host) (hline : strStrlen cmdline < 4096) :
    GuestMapped (defaulted image (host (n - 515)) t) vm n host := by
  rw [ht.settingUp]
  exact guestMapped_settingUp h ⟨rfl, rfl, rfl⟩ ((ht.within hline).mono fun j hj => hj.2)

/-- The loop that copies the kernel. -/
def copyKernel (vm : Word) (image : LinuxImage) : HvM Unit :=
  forRange (kernelPages image).toNat (loadKernelPage vm image (kernelOffset image) (kernelSize image)
    (kernelPages image) (prefAddress image))

/-- `loadProtectedKernel` divides by the alignment, checks it and copies the kernel. -/
theorem ensures_loadProtectedKernel {Q : Word → Hv → Prop} {E : Fault → Hv → Prop}
    (h : ∀ o ∈ placementOffsets, t.memory (frameAddress f + o) = copied image o) :
    Ensures (loadProtectedKernel vm image (p2vIdentityMap (frameAddress f))) t Q E ↔
      (kernelAlignment image = 0 → E .divisionByZero (defaulted image f t)) ∧
      (¬kernelAlignment image = 0 →
        (prefAddress image % kernelAlignment image ≠ 0 →
          E (.panic "Kernel pref_address isn't aligned according to kernel_alignment")
            (defaulted image f t)) ∧
        (¬prefAddress image % kernelAlignment image ≠ 0 →
          Ensures (copyKernel vm image) (defaulted image f t) (fun _ => Q (prefAddress image)) E)) := by
  obtain ⟨hsects, hpref, halignment⟩ := defaulted_fields h
  simp only [loadProtectedKernel, ensures_bind, ensures_readParameter, v2p_p2v_add, ensures_remainder,
    ensures_panicIf, ensures_pure, ensures_defaultSetupSects h, hsects, hpref, halignment]
  rfl

end Rkhv.LinuxFilling
