import Rkhv.LinuxCopy

/-!
# Where the kernel goes

The check of the guest memory is there to keep the kernel away from the pages at
the end that the setup used. For a kernel at 16 MiB it does so once the guest
memory has 4612 pages. With 4097 to 4611 pages its subtraction wraps, so that it
lets every image pass, and the first page of the kernel is a page of the setup.
-/

namespace Rkhv.LinuxLayout

open ByteMemory ByteBlocks HostTypes HostState StateOutcome Ept GuestMemory GuestRam GuestSetup
  GuestIdentity GuestLinuxLoader LinuxPreparation LinuxCmdline LinuxParameters LinuxFilling LinuxKernel
  LinuxCopy VmManager HostRuns FreeRegion

variable {hw : Hardware} {s s' : Hv} {vm : Word} {n : ℕ} {host : ℕ → Frame} {image : LinuxImage}
  {cmdline : List (BitVec 8)}

/-! ## Two sets of guest pages -/

/-- The guest pages that receive the kernel: those of the addresses that the loop
translates. -/
def kernelGuestPages (image : LinuxImage) : Set ℕ :=
  {j | ∃ page < (kernelPages image).toNat, pageNumber (kernelGuestpa image page) = j}

/-- The guest pages at the end of the guest memory that the setup used. -/
def setupPages (v : Vm) : Set ℕ :=
  {j | v.guestPhysicalPages.toNat ≤ j + v.guestPhysicalPagesUsedByInitialSetup.toNat ∧
    j < v.guestPhysicalPages.toNat}

/-- A run that returns used 516 pages: the tables, the boot parameters and the
command line. -/
theorem setupPages_of_ok (h : Loadable s vm n host)
    (hrun : vmGuestLinuxLoader hw vm image cmdline s = .ok () s') :
    setupPages (s'.vmAt vm) = {j | n ≤ j + 516 ∧ j < n} := by
  have hle := guestMapped_le h.mapped
  obtain ⟨t, t', hready, hend⟩ := kernelCopied_of_ok h hrun
  obtain ⟨v, hs', _, hpages, hused⟩ := hend.registers
  have hcopied := (copyKernel_frame vm image _).of_ok hend.copied
  have hrecord : t'.vmAt vm = preparedRecord (s.vmAt vm) n := by
    rw [hcopied, hready.settingUp, settingUp_vmAt]
  rw [hrecord] at hpages hused
  have hsize : v.guestPhysicalPages.toNat = n := by
    rw [hpages, preparedRecord, h.size, BitVec.toNat_ofNat]
    omega
  have hcount : v.guestPhysicalPagesUsedByInitialSetup.toNat = 516 := by
    rw [hused]
    rfl
  rw [hs', settingUp_vmAt, setupPages, hsize, hcount]

/-! ## The preferred address -/

/-- An image for 16 MiB whose copied header ends before the address is loaded at zero. -/
theorem prefAddress_of_field (hpref : image.field hdrPrefAddress 8 = 0x1000000) :
    prefAddress image =
      if (image.field hdrJump 2 >>> 8).toNat < 90 then guestPage 0 else guestPage 4096 := by
  have hfront : (hdrJump - hdrSetupSects).toNat = 15 := rfl
  have hfield : hdrPrefAddress.toNat = 0x258 := rfl
  have hstart : hdrSetupSects.toNat = 0x1f1 := rfl
  have hbytes : ∀ k < 8, (0x1000000#64).extractLsb' (8 * k) 8 = if k = 3 then 1#8 else 0#8 := by
    decide
  have hzero : ∀ k < 8, (guestPage 0).extractLsb' (8 * k) 8 = 0#8 := by decide
  have hmega : guestPage 4096 = 0x1000000#64 := by decide
  have hcopied : ∀ k < 8, copied image (hdrPrefAddress + BitVec.ofNat 64 k) =
      if k = 3 ∧ 90 ≤ (image.field hdrJump 2 >>> 8).toNat then 1#8 else 0#8 := by
    intro k hk
    have hbyte : image.byte (hdrPrefAddress + BitVec.ofNat 64 k) = if k = 3 then 1#8 else 0#8 := by
      rw [← hbytes k hk, ← extractLsb'_readBytes (m := image.byte) (a := hdrPrefAddress) hk]
      exact congrArg (BitVec.extractLsb' (8 * k) 8) hpref
    have hdistance : (hdrPrefAddress + BitVec.ofNat 64 k - hdrSetupSects).toNat = 103 + k := by
      rw [BitVec.toNat_sub, BitVec.toNat_add, BitVec.toNat_ofNat, hfield, hstart]
      omega
    have hsource : hdrSetupSects + (hdrPrefAddress + BitVec.ofNat 64 k - hdrSetupSects) =
        hdrPrefAddress + BitVec.ofNat 64 k := by
      rw [BitVec.add_comm, BitVec.sub_add_cancel]
    rw [copied, copyBytes, hdistance, hsource, hbyte, LinuxImage.setupHeaderSize, hfront]
    by_cases hthird : k = 3
    · subst hthird
      simp only [true_and, if_true]
      by_cases hlong : 90 ≤ (image.field hdrJump 2 >>> 8).toNat
      · rw [if_pos hlong, if_pos (by omega)]
      · rw [if_neg hlong, if_neg (by omega)]
        rfl
    · simp only [hthird, false_and, if_false]
      split <;> rfl
  rw [prefAddress]
  split
  · rename_i hshort
    refine readBytes_eq (n := 8) fun k hk => ?_
    rw [hcopied k hk, hzero k hk, if_neg (by omega)]
  · rename_i hlong
    refine readBytes_eq (n := 8) fun k hk => ?_
    rw [hcopied k hk, hmega, hbytes k hk]
    by_cases hthird : k = 3
    · rw [if_pos ⟨hthird, by omega⟩, if_pos hthird]
    · rw [if_neg (fun hc => hthird hc.1), if_neg hthird]

/-! ## Every run -/

/-- When the kernel stays away from the pages of the setup: it has no bytes, or
the guest memory has 4612 pages and the image reaches to the kernel, or the
copied header ends before the preferred address and the kernel, then at address
zero, is short enough. -/
def KernelApart (n : ℕ) (image : LinuxImage) : Prop :=
  image.size = kernelOffset image ∨ 4612 ≤ n ∧ kernelOffset image ≤ image.size ∨
    (image.field hdrJump 2 >>> 8).toNat < 90 ∧ (kernelPages image).toNat + 516 ≤ n

/-- Two ranges of pages, the first one counted around the guest addresses. -/
theorem disjoint_ranges_iff {base : ℕ} (hpref : prefAddress image = guestPage base)
    (hbase : base < 2 ^ 36) :
    Disjoint (kernelGuestPages image) {j | n ≤ j + 516 ∧ j < n} ↔
      ∀ page < (kernelPages image).toNat,
        ¬(n ≤ (base + page) % 2 ^ 36 + 516 ∧ (base + page) % 2 ^ 36 < n) := by
  have hnumber : ∀ page, pageNumber (kernelGuestpa image page) = (base + page) % 2 ^ 36 := by
    intro page
    rw [pageNumber_kernelGuestpa, hpref, pageNumber_guestPage hbase]
  rw [Set.disjoint_left]
  constructor
  · intro hdisjoint page hpage
    have hout := hdisjoint ⟨page, hpage, rfl⟩
    rwa [hnumber] at hout
  · rintro hout j ⟨page, hpage, rfl⟩
    have hapart := hout page hpage
    rwa [← hnumber] at hapart

/-- For every run that returns, of an image for 16 MiB: the guest pages that
receive the kernel are disjoint from the pages of the setup exactly when the
kernel is empty, or the guest memory has 4612 pages and the image reaches to the
kernel, or a short header moved a small enough kernel to address zero. -/
theorem kernelGuestPages_disjoint_iff {pages : Word} (h : Allocated hw s vm pages)
    (hpref : image.field hdrPrefAddress 8 = 0x1000000)
    (hrun : vmGuestLinuxLoader hw vm image cmdline s = .ok () s') :
    Disjoint (kernelGuestPages image) (setupPages (s'.vmAt vm)) ↔ KernelApart pages.toNat image := by
  obtain ⟨host, hload⟩ := loadable_of_allocated h
  obtain ⟨t, t', hready, _⟩ := kernelCopied_of_ok hload hrun
  have hfits := hready.accepted.2
  have hle := guestMapped_le hload.mapped
  have hoffset := toNat_kernelOffset image
  have hsects := setupSects_pos image
  have hmost := (setupSects image).isLt
  have hcount := toNat_kernelPages image
  have hempty : image.size = kernelOffset image ↔ image.size.toNat = (kernelOffset image).toNat :=
    BitVec.toNat_inj.symm
  have hsize : (kernelOffset image).toNat ≤ image.size.toNat → (kernelSize image).toNat =
      image.size.toNat - (kernelOffset image).toNat := fun hreach => toNat_kernelSize hreach
  have hwraps : image.size.toNat < (kernelOffset image).toNat → (kernelSize image).toNat =
      2 ^ 64 - (kernelOffset image).toNat + image.size.toNat := fun hcut => toNat_kernelSize_of_lt hcut
  have hbase := prefAddress_of_field hpref
  rw [TooSmall] at hfits
  rw [setupPages_of_ok hload hrun, KernelApart, hempty, BitVec.le_def]
  by_cases hshort : (image.field hdrJump 2 >>> 8).toNat < 90
  · rw [if_pos hshort] at hbase
    rw [disjoint_ranges_iff hbase (by decide)]
    constructor
    · intro hapart
      by_contra hnot
      exact hapart (pages.toNat - 516) (by omega) (by omega)
    · intro hwhen page hpage
      omega
  · rw [if_neg hshort] at hbase
    rw [disjoint_ranges_iff hbase (by decide)]
    constructor
    · intro hapart
      by_contra hnot
      have hfirst := hapart 0 (by omega)
      exact hapart (pages.toNat - 516 - 4096) (by omega) (by omega)
    · intro hwhen page hpage
      omega

/-- With 4700 guest pages the kernel stays away from the setup. -/
theorem kernelGuestPages_disjoint_4700 : ∃ s s',
    vmGuestLinuxLoader obedientHardware firstOfMany megaImage [] s = .ok () s' ∧
      Disjoint (kernelGuestPages megaImage) (setupPages (s'.vmAt firstOfMany)) := by
  have hfits : ¬TooSmall (4700 : Word).toNat megaImage := by
    rw [TooSmall]
    decide
  obtain ⟨s, s', hs, hrun⟩ := exists_loaded (by decide) hfits
  refine ⟨s, s', hrun, (kernelGuestPages_disjoint_iff hs megaImage_pref hrun).mpr ?_⟩
  exact Or.inr (Or.inl ⟨by decide, megaImage_reached⟩)

/-- With 4200 guest pages the kernel is loaded over pages of the setup. -/
theorem kernelGuestPages_overlap_4200 : ∃ s s',
    Allocated obedientHardware s firstOfMany 4200 ∧ megaImage.field hdrPrefAddress 8 = 0x1000000 ∧
      vmGuestLinuxLoader obedientHardware firstOfMany megaImage [] s = .ok () s' ∧
      ¬Disjoint (kernelGuestPages megaImage) (setupPages (s'.vmAt firstOfMany)) := by
  have hfits : ¬TooSmall (4200 : Word).toNat megaImage := by
    rw [TooSmall]
    decide
  obtain ⟨s, s', hs, hrun⟩ := exists_loaded (by decide) hfits
  obtain ⟨host, hload⟩ := loadable_of_allocated hs
  refine ⟨s, s', hs, megaImage_pref, hrun, Set.not_disjoint_iff.mpr ⟨4096, ⟨0, ?_, ?_⟩, ?_⟩⟩
  · rw [megaImage_pages]
    exact Nat.one_pos
  · have hpref : prefAddress megaImage = 0x1000000 := prefAddress_patchedImage
    rw [pageNumber_kernelGuestpa, hpref]
    rfl
  · rw [setupPages_of_ok hload hrun]
    decide

end Rkhv.LinuxLayout
