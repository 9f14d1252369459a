import Rkhv.LinuxKernel

/-!
# What the loader reads of an image

The loader checks two fields of the header and then trusts all others. It stays
inside the image, and divides by no zero, only when it panics early or when all
fields that it uses lie in the image, the alignment is not zero, and the image
reaches to the kernel. An image that ends before the kernel is read outside as
soon as the first page of the kernel has a translation.
-/

namespace Rkhv.LinuxReads

open ByteMemory ByteBlocks WordFields HostTypes HostState StateOutcome PageTracker PageTrackerRuns
  RadixWalk Ept EptWalk EptAgreement MachinePages GuestMemory GuestRam GuestSetup GuestIdentity
  GuestLinuxLoader LinuxPreparation LinuxCmdline LinuxParameters LinuxFilling LinuxKernel HostRuns
  FreeRegion

variable {hw : Hardware} {s t : Hv} {vm : Word} {n : ℕ} {host : ℕ → Frame} {image : LinuxImage}
  {cmdline : List (BitVec 8)} {m m' : Memory} {f g : Frame}

/-! ## The terminator of the command line -/

/-- Where two memories agree the placed command line leaves them agreed. -/
theorem placed_congr {a : Word} (h : m' a = m a) : placed m' f cmdline a = placed m f cmdline a := by
  rw [placed, placed, writeBytes, writeBytes]
  split
  · rfl
  · rw [withLine, withLine, copyBytes, copyBytes, h]

/-- A quadword whose lowest byte is zero is no present entry. -/
theorem readQword_and_read {a : Word} (h : m a = 0) : readQword m a &&& eptPteRead = 0 := by
  have hone : eptPteRead = 1#64 := rfl
  rw [readQword, h, hone]
  refine BitVec.eq_of_getLsbD_eq fun i hi => ?_
  by_cases hi0 : i = 0
  · subst hi0
    simp only [BitVec.getLsbD_and, BitVec.getLsbD_append, Nat.zero_lt_succ, if_true]
    rfl
  · simp only [BitVec.getLsbD_and, BitVec.getLsbD_one, hi0, decide_false, Bool.and_false]
    exact BitVec.getLsbD_zero.symm

/-- In the tables of other frames the placed command line changes nothing, or its
terminator empties a slot. -/
theorem eptTables_placed (hg : g ≠ f) (hlen : strStrlen cmdline ≤ 4096) (level : ℕ) (i : Slot) :
    eptTables (placed m f cmdline) level g i = eptTables m level g i ∨
      eptTables (placed m f cmdline) level g i = .absent := by
  by_cases hslot : slotAddress g i = frameAddress f + BitVec.ofNat 64 (strStrlen cmdline)
  · have hnul : placed m f cmdline (slotAddress g i) = 0 := by
      rw [hslot]
      exact placed_nul m f cmdline
    right
    rw [eptTables, slotWord, eptDecode, if_pos (readQword_and_read hnul)]
  · left
    have hsame : slotWord (placed m f cmdline) g i = slotWord m g i := by
      refine readQword_congr fun k hk => ?_
      have hin := inFrame_slot g i hk
      have hout : ¬InFrame f (slotAddress g i + k) := fun hf => hg (hin.eq hf)
      have hne : slotAddress g i + k ≠ frameAddress f + BitVec.ofNat 64 (strStrlen cmdline) := by
        intro he
        -- the terminator starts a page, and a slot of a table never ends one
        have hwhole : strStrlen cmdline = 4096 := by
          rw [he, InFrame, offset_distance f _ (by omega)] at hout
          omega
        have hvalue := congrArg BitVec.toNat he
        have hg' := g.isLt
        have hf' := f.isLt
        have hi' := i.isLt
        rw [hwhole, BitVec.toNat_add, BitVec.toNat_add, toNat_slotAddress, toNat_frameAddress,
          BitVec.toNat_ofNat] at hvalue
        have hzero : k = 0 := BitVec.eq_of_toNat_eq (by
          have hnone : (0 : Word).toNat = 0 := rfl
          omega)
        rw [hzero, hwhole] at he
        rw [hwhole] at hslot
        exact hslot ((BitVec.add_zero _).symm.trans he)
      rw [placed_of_ne hne, withLine_outside hlen hout]
    rw [eptTables, eptTables, hsame]

/-! ## Translations up to the kernel -/

/-- A machine with guest pages has tables. -/
theorem hasEpt_of_mapped (h : GuestMapped s vm n host) (hpos : 0 < n) : hasEpt (s.vmAt vm) := by
  have hfirst := h.mapped 0 hpos
  rw [eptFollow] at hfirst
  by_contra hnone
  rw [if_neg hnone] at hfirst
  cases hfirst

/-- When the kernel is copied an address is translated as if only the command line
had been placed. -/
theorem KernelReady.walk_placed (h : GuestMapped s vm n host)
    (ht : KernelReady s vm n host image cmdline t) (gpa : Word) :
    vmxEptGetHostPhysicalAddress (defaulted image (host (n - 515)) t).memory
        ((defaulted image (host (n - 515)) t).vmAt vm) gpa =
      vmxEptGetHostPhysicalAddress (placed s.memory (host (n - 516)) cmdline) (s.vmAt vm) gpa := by
  have hlarge : 4096 < n := lt_of_fits ht.accepted.2
  have hlen : strStrlen cmdline ≤ 4096 := by
    have hshort := ht.short
    rw [CmdlineTooLong] at hshort
    omega
  have hhas := hasEpt_of_mapped h (by omega)
  have hok := h.ok.tree hhas
  obtain ⟨m, hm, hplaced⟩ := ht.memory
  have hsame : ∀ g, (frameAddress g, .ept, false) ∈ contents (trackedOf s vm) →
      SameFrame (placed s.memory (host (n - 516)) cmdline)
        (defaulted image (host (n - 515)) t).memory g := by
    intro g hg a ha
    have hguest := guestPage_ne_ept h hg
    have hout : ∀ j < n, ¬InFrame (host j) a := fun j hj hin => hguest j hj (hin.eq ha)
    rw [(defaulted_frame _ _ _).2 a (hout _ (by omega)), hplaced a (hout _ (by omega))]
    exact placed_congr (hm a fun j hj => hout j hj.2)
  have hfollow : follow (eptTables (defaulted image (host (n - 515)) t).memory) 0
        (frameOf (s.vmAt vm).vmcsConfig.eptp) (eptPath gpa) =
      follow (eptTables (placed s.memory (host (n - 516)) cmdline)) 0
        (frameOf (s.vmAt vm).vmcsConfig.eptp) (eptPath gpa) := by
    refine follow_congr_of_tables (D := 4) (fun p g hp hfollow d i => ?_) (by rfl)
    have hbefore : follow (eptTables s.memory) 0 (frameOf (s.vmAt vm).vmcsConfig.eptp) p = .table g := by
      refine follow_pruned (D := 4) (fun p' g' i' hp' hg' => ?_) hp.le hfollow
      refine eptTables_placed (fun hsame => ?_) hlen _ _
      exact guestPage_ne_ept h (hok.tables p' g' hp' hg') (n - 516) (by omega) hsame.symm
    exact eptTables_congr (hsame g (hok.tables p g hp hbefore)) d i
  rw [ht.settingUp, settingUp_memory, settingUp_vmAt]
  have hrecord : (preparedRecord (s.vmAt vm) n).flags = (s.vmAt vm).flags ∧
    (preparedRecord (s.vmAt vm) n).vmcsConfig.eptp = (s.vmAt vm).vmcsConfig.eptp := ⟨rfl, rfl⟩
  rw [vmxEptGetHostPhysicalAddress_eq (v := preparedRecord (s.vmAt vm) n) hhas hok.root.symm,
    vmxEptGetHostPhysicalAddress_eq hhas hok.root.symm, eptTranslate, eptTranslate, hfollow]

/-! ## Every run -/

/-- Whatever the image holds, the loader returns or panics: it never reads outside
the image and never divides by zero. -/
def OnlyPanics (hw : Hardware) (s : Hv) (vm : Word) (image : LinuxImage)
    (cmdline : List (BitVec 8)) : Prop :=
  Ensures (vmGuestLinuxLoader hw vm image cmdline) s (fun _ _ => True)
    (fun e _ => ∃ message, e = .panic message)

/-- The preferred address has no translation once the command line is placed. -/
def FirstPageUnmapped (s : Hv) (vm : Word) (n : ℕ) (image : LinuxImage)
    (cmdline : List (BitVec 8)) : Prop :=
  ∃ f, vmxEptGetHostPhysicalAddress s.memory (s.vmAt vm) (guestPage (n - 516)) =
      some (frameAddress f) ∧
    vmxEptGetHostPhysicalAddress (placed s.memory f cmdline) (s.vmAt vm) (prefAddress image) = none

/-- The division is defined, and the kernel lies in the image or is not copied. -/
def KernelSafe (s : Hv) (vm : Word) (n : ℕ) (image : LinuxImage) (cmdline : List (BitVec 8)) : Prop :=
  kernelAlignment image ≠ 0 ∧ (prefAddress image % kernelAlignment image ≠ 0 ∨
    kernelOffset image ≤ image.size ∨ FirstPageUnmapped s vm n image cmdline)

/-- The loader panics early, or all its reads before the kernel lie in the image and
the kernel is safe. -/
def LoaderSafe (s : Hv) (vm : Word) (n : ℕ) (image : LinuxImage) (cmdline : List (BitVec 8)) : Prop :=
  StopsEarly n image cmdline ∨ Accepted n image ∧ ¬CmdlineTooLong image cmdline ∧ Readable image ∧
    KernelSafe s vm n image cmdline

/-- An image that reaches to the kernel is not read outside while the kernel is copied. -/
theorem copyKernel_reads (h : kernelOffset image ≤ image.size) (t : Hv) :
    Ensures (copyKernel vm image) t (fun _ _ => True) (fun e _ => ∃ message, e = .panic message) := by
  refine ensures_forRange (fun _ _ => True) trivial fun page t hpage _ => ?_
  have hread := kernel_reads h hpage
  rw [ensures_loadKernelPage]
  split
  · exact ⟨_, rfl⟩
  · exact ⟨fun _ => trivial, fun hcut => absurd hread hcut⟩

/-- An image that ends before the kernel is read outside with its first page, unless
that page has no translation. -/
theorem copyKernel_cut (h : image.size < kernelOffset image) (hbehind : image.behind = false)
    {walked : Option Word}
    (hwalk : vmxEptGetHostPhysicalAddress t.memory (t.vmAt vm) (prefAddress image) = walked) :
    Ensures (copyKernel vm image) t (fun _ _ => False)
      (fun e _ => (∃ message, e = .panic message) ↔ walked = none) := by
  have hsize := toNat_kernelSize_of_lt h
  have hoffset := toNat_kernelOffset image
  have hmost := (setupSects image).isLt
  have hcount := toNat_kernelPages image
  obtain ⟨rest, hrest⟩ := Nat.exists_eq_add_of_lt (show 0 < (kernelPages image).toNat by omega)
  have hguestpa : kernelGuestpa image 0 = prefAddress image := BitVec.add_zero _
  have hfirst : imageOffset image 0 = kernelOffset image := BitVec.add_zero _
  rw [BitVec.lt_def] at h
  have hcut : ¬image.reads (imageOffset image 0) (kernelBytes image 0) = true := by
    rw [LinuxImage.reads, hbehind, Bool.false_or, decide_eq_true_iff, hfirst]
    omega
  rw [copyKernel, hrest, Nat.zero_add, forRange, forFrom, ensures_bind, ensures_loadKernelPage,
    hguestpa, hwalk]
  cases walked with
  | none => exact iff_of_true ⟨_, rfl⟩ rfl
  | some hostpa =>
    refine ⟨fun hread => absurd hread hcut, fun _ => iff_of_false ?_ (Option.some_ne_none _)⟩
    rintro ⟨message, hpanic⟩
    cases hpanic

/-- From where the kernel is loaded the loader returns or panics exactly when the
kernel is safe. -/
theorem kernelSafe_spec (h : Loadable s vm n host) (hbehind : image.behind = false)
    (ht : KernelReady s vm n host image cmdline t) :
    Ensures (do
        let guestpa ← loadProtectedKernel vm image (p2vIdentityMap (frameAddress (host (n - 515))))
        startLinux hw vm (guestPage (n - 515)) guestpa) t
      (fun _ _ => KernelSafe s vm n image cmdline)
      (fun e _ => (∃ message, e = .panic message) ↔ KernelSafe s vm n image cmdline) := by
  have hlarge : 4096 < n := lt_of_fits ht.accepted.2
  have hcmdline := walk_guestPage h.mapped (j := n - 516) (by omega)
  rw [ensures_bind, ensures_loadProtectedKernel ht.placement]
  refine ⟨fun hzero => iff_of_false nofun fun hs => hs.1 hzero, fun halign =>
    ⟨fun hmisaligned => iff_of_true ⟨_, rfl⟩ ⟨halign, Or.inl hmisaligned⟩, fun haligned => ?_⟩⟩
  by_cases hreach : kernelOffset image ≤ image.size
  · have hsafe : KernelSafe s vm n image cmdline := ⟨halign, Or.inr (Or.inl hreach)⟩
    refine (copyKernel_reads hreach _).mono (fun _ t' _ => ?_) fun e t' he => iff_of_true he hsafe
    exact Ensures.ok rfl hsafe
  · have hcopy := copyKernel_cut (BitVec.not_le.mp hreach) hbehind
      (KernelReady.walk_placed h.mapped ht (prefAddress image))
    refine hcopy.mono (fun _ _ hno => hno.elim) fun e t' he => he.trans ?_
    constructor
    · exact fun hnone => ⟨halign, Or.inr (Or.inr ⟨_, hcmdline, hnone⟩)⟩
    · rintro ⟨_, hmisaligned | hreach' | ⟨f, hf, hnone⟩⟩
      · exact absurd hmisaligned haligned
      · exact absurd hreach' hreach
      · rw [hcmdline, Option.some_inj, frameAddress_inj] at hf
        rwa [hf]

/-- A fault is a panic exactly in the cases for panics. -/
theorem faultIn_panic_iff {panics faults safe : Prop} {e : Fault} (h : FaultIn panics faults e)
    (hpanics : panics → safe) (hfaults : faults → ¬safe) : (∃ message, e = .panic message) ↔ safe := by
  cases e with
  | panic message => exact iff_of_true ⟨message, rfl⟩ (hpanics h)
  | outOfBounds index => exact iff_of_false nofun (hfaults h)
  | nullPointer => exact iff_of_false nofun (hfaults h)
  | divisionByZero => exact iff_of_false nofun (hfaults h)
  | hang => exact iff_of_false nofun (hfaults h)

/-- The loader returns or panics exactly when it panics before it comes to the
kernel, or can read all fields that it uses, has an alignment to divide by and
either reports a misaligned address, or has an image that reaches to the kernel,
or finds no translation for the first page of the kernel. -/
theorem vmGuestLinuxLoader_onlyPanics_iff {pages : Word} (h : Allocated hw s vm pages)
    (hbehind : image.behind = false) :
    OnlyPanics hw s vm image cmdline ↔ LoaderSafe s vm pages.toNat image cmdline := by
  obtain ⟨host, hload⟩ := loadable_of_allocated h
  have hspec : Ensures (vmGuestLinuxLoader hw vm image cmdline) s
      (fun _ _ => LoaderSafe s vm pages.toNat image cmdline)
      (fun e _ => (∃ message, e = .panic message) ↔ LoaderSafe s vm pages.toNat image cmdline) := by
    refine ensures_vmGuestLinuxLoader hload (fun t ht => ?_) fun e t he => ?_
    · have hsafe : KernelSafe s vm pages.toNat image cmdline ↔
          LoaderSafe s vm pages.toNat image cmdline :=
        ⟨fun hs => Or.inr ⟨ht.accepted, ht.short, ht.readable, hs⟩,
          fun hs => (hs.resolve_left (not_stopsEarly ht.accepted ht.short)).2.2.2⟩
      exact (kernelSafe_spec hload hbehind ht).mono (fun _ _ hs => hsafe.mp hs)
        fun _ _ he => he.trans hsafe
    · refine faultIn_panic_iff he Or.inl fun houtside hs => ?_
      obtain ⟨hstops, hready⟩ := readsOutsideEarly_excludes houtside
      obtain ⟨haccepted, _, hreadable, _⟩ := hs.resolve_left hstops
      exact hready ⟨haccepted, hreadable⟩
  constructor
  · intro honly
    cases hrun : vmGuestLinuxLoader hw vm image cmdline s with
    | ok _ s' => exact hspec.of_ok hrun
    | error e s' => exact (hspec.of_error hrun).mp (honly.of_error hrun)
  · exact fun hsafe => hspec.mono (fun _ _ _ => trivial) fun _ _ he => he.mpr hsafe

/-! ## Small images -/

/-- The checks before the kernel, for an image with one set-up sector. -/
theorem patchedImage_ready (alignment : BitVec 32) (pref : Word) :
    Accepted 4700 (patchedImage alignment pref 0 0x1400) ∧
      ¬CmdlineTooLong (patchedImage alignment pref 0 0x1400) [] ∧
      Readable (patchedImage alignment pref 0 0x1400) := by
  have hsize : (0x1400 : Word).toNat = 0x1400 := rfl
  refine ⟨⟨patchedImage_accepted (by omega), ?_⟩, ?_, patchedImage_readable (by omega)⟩
  · have hsmall : ¬(4700 ≤ 4096 ∨ 4612 ≤ 4700 ∧ 4700 - 4612 ≤ (0x1400 : Word).toNat / 4096) := by decide
    exact hsmall
  · rw [CmdlineTooLong, strStrlen]
    omega

/-- An image that reaches to its kernel, with an alignment, is loaded without a fault. -/
theorem vmGuestLinuxLoader_onlyPanics_aligned : ∃ s, OnlyPanics obedientHardware s firstOfMany
    (patchedImage 0x1000 0x1000000 0 0x1400) [] := by
  obtain ⟨s, hs⟩ := @exists_allocated 4700 (by decide) (by decide)
  obtain ⟨haccepted, hshort, hreadable⟩ := patchedImage_ready 0x1000 0x1000000
  refine ⟨s, (vmGuestLinuxLoader_onlyPanics_iff hs rfl).mpr
    (Or.inr ⟨haccepted, hshort, hreadable, ?_, Or.inr (Or.inl ?_)⟩)⟩
  · rw [kernelAlignment_patchedImage]
    decide
  · rw [kernelOffset_patchedImage]
    exact Nat.le_of_ble_eq_true rfl

/-- With an alignment of zero the loader divides by it. -/
theorem vmGuestLinuxLoader_divides_by_zero : ∃ s, Allocated obedientHardware s firstOfMany 4700 ∧
    ¬OnlyPanics obedientHardware s firstOfMany (patchedImage 0 0x1000000 0 0x1400) [] := by
  obtain ⟨s, hs⟩ := @exists_allocated 4700 (by decide) (by decide)
  obtain ⟨host, hload⟩ := loadable_of_allocated hs
  obtain ⟨haccepted, hshort, hreadable⟩ := patchedImage_ready 0 0x1000000
  refine ⟨s, hs, fun honly => ?_⟩
  have hspec : Ensures (vmGuestLinuxLoader obedientHardware firstOfMany
      (patchedImage 0 0x1000000 0 0x1400) []) s (fun _ _ => False)
      (fun e _ => e = .divisionByZero) := by
    refine ensures_of_readable hload haccepted hreadable hshort fun t ht => ?_
    rw [ensures_bind, ensures_loadProtectedKernel ht.placement]
    exact ⟨fun _ => rfl, fun halign => absurd kernelAlignment_patchedImage halign⟩
  cases hrun : vmGuestLinuxLoader obedientHardware firstOfMany (patchedImage 0 0x1000000 0 0x1400) []
      s with
  | ok _ s' => exact hspec.of_ok hrun
  | error e s' =>
    obtain rfl := hspec.of_error hrun
    obtain ⟨message, hpanic⟩ := honly.of_error hrun
    cases hpanic

end Rkhv.LinuxReads
