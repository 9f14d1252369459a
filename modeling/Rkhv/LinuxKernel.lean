import Rkhv.LinuxFilling

/-!
# Copying the kernel

The protected-mode kernel is what the image holds behind its set-up sectors. Its
pages go to the guest pages from the preferred address on, one at a time, the
last one in part. When the image ends before its set-up sectors do, the size of
the kernel wraps to almost all of the address space.
-/

namespace Rkhv.LinuxKernel

open ByteMemory ByteBlocks HostTypes HostState StateOutcome Ept GuestMemory GuestSetup
  GuestLinuxLoader LinuxPreparation LinuxParameters LinuxFilling

variable {hw : Hardware} {s s' t : Hv} {vm : Word} {n : ℕ} {host : ℕ → Frame} {image : LinuxImage}
  {cmdline : List (BitVec 8)} {page : ℕ}

/-! ## Sizes -/

/-- There is at least one set-up sector. -/
theorem setupSects_pos (image : LinuxImage) : 1 ≤ (setupSects image).toNat := by
  rw [setupSects]
  split
  · decide
  · rename_i hsome
    refine Nat.one_le_iff_ne_zero.mpr fun hzero => hsome ?_
    exact BitVec.eq_of_toNat_eq hzero

theorem toNat_kernelOffset (image : LinuxImage) :
    (kernelOffset image).toNat = ((setupSects image).toNat + 1) * 512 := by
  have hsects := (setupSects image).isLt
  have hone : (1 : Word).toNat = 1 := rfl
  have hsector : (512 : Word).toNat = 512 := rfl
  have hsum : ((setupSects image).setWidth 64 + 1).toNat = (setupSects image).toNat + 1 := by
    rw [BitVec.toNat_add, BitVec.toNat_setWidth, hone]
    omega
  rw [kernelOffset, BitVec.toNat_mul, hsum, hsector]
  omega

/-- Pages are counted up. -/
theorem toNat_kernelPageCount (w : Word) : (kernelPageCount w).toNat = (w.toNat + 4095) / 4096 := by
  have hlt := w.isLt
  have hpage : pageSize.toNat = 4096 := rfl
  have hone : (1 : Word).toNat = 1 := rfl
  have hzero : (0 : Word).toNat = 0 := rfl
  have hwhole : w % pageSize = 0 ↔ w.toNat % 4096 = 0 := by
    rw [← BitVec.toNat_inj, BitVec.toNat_umod, hpage, hzero]
  rw [kernelPageCount, BitVec.toNat_add, BitVec.toNat_udiv, hpage]
  split
  · rename_i hnone
    rw [hwhole] at hnone
    rw [hzero]
    omega
  · rename_i hsome
    rw [hwhole] at hsome
    rw [hone]
    omega

/-- Every page but the last one is whole. -/
theorem toNat_kernelPageBytes {w : Word} (hpage : page < (kernelPageCount w).toNat) :
    (kernelPageBytes w (kernelPageCount w) page).toNat = min 4096 (w.toNat - page * 4096) := by
  have hlt := w.isLt
  have hfull : pageSize.toNat = 4096 := rfl
  have hone : (1 : Word).toNat = 1 := rfl
  have hzero : (0 : Word).toNat = 0 := rfl
  have hcount := toNat_kernelPageCount w
  have hlast : (kernelPageCount w - 1).toNat = (kernelPageCount w).toNat - 1 := by
    rw [BitVec.toNat_sub, hone]
    omega
  have hnumber : (BitVec.ofNat 64 page).toNat = page := by
    rw [BitVec.toNat_ofNat]
    omega
  have hcases : BitVec.ofNat 64 page < kernelPageCount w - 1 ∨ w % pageSize = 0 ↔
      page < (kernelPageCount w).toNat - 1 ∨ w.toNat % 4096 = 0 := by
    rw [BitVec.lt_def, hlast, hnumber, ← BitVec.toNat_inj, BitVec.toNat_umod, hfull, hzero]
  rw [kernelPageBytes]
  split
  · rename_i hwhole
    rw [hcases] at hwhole
    omega
  · rename_i hpart
    rw [hcases] at hpart
    rw [BitVec.toNat_umod, hfull]
    omega

/-- The size of the kernel when the image reaches to it. -/
theorem toNat_kernelSize (h : kernelOffset image ≤ image.size) :
    (kernelSize image).toNat = image.size.toNat - (kernelOffset image).toNat :=
  BitVec.toNat_sub_of_le h

/-- The size of the kernel when the image ends before it. -/
theorem toNat_kernelSize_of_lt (h : image.size < kernelOffset image) :
    (kernelSize image).toNat = 2 ^ 64 - (kernelOffset image).toNat + image.size.toNat := by
  have hoffset := (kernelOffset image).isLt
  rw [BitVec.lt_def] at h
  rw [kernelSize, BitVec.toNat_sub]
  omega

theorem toNat_kernelPages (image : LinuxImage) :
    (kernelPages image).toNat = ((kernelSize image).toNat + 4095) / 4096 :=
  toNat_kernelPageCount (kernelSize image)

/-! ## One page -/

/-- Guest address of a page of the kernel. -/
def kernelGuestpa (image : LinuxImage) (page : ℕ) : Word :=
  prefAddress image + BitVec.ofNat 64 page * pageSize

/-- Offset of a page of the kernel in the image. -/
def imageOffset (image : LinuxImage) (page : ℕ) : Word :=
  kernelOffset image + BitVec.ofNat 64 page * pageSize

/-- Bytes of a page of the kernel. -/
def kernelBytes (image : LinuxImage) (page : ℕ) : ℕ :=
  (kernelPageBytes (kernelSize image) (kernelPages image) page).toNat

theorem kernelBytes_eq (hpage : page < (kernelPages image).toNat) :
    kernelBytes image page = min 4096 ((kernelSize image).toNat - page * 4096) :=
  toNat_kernelPageBytes hpage

/-- The bytes of a page lie in the image when the image reaches to the kernel. -/
theorem imageOffset_fits (h : kernelOffset image ≤ image.size)
    (hpage : page < (kernelPages image).toNat) :
    (imageOffset image page).toNat = (kernelOffset image).toNat + page * 4096 ∧
      (imageOffset image page).toNat + kernelBytes image page ≤ image.size.toNat := by
  have hsize := toNat_kernelSize h
  have himage := image.size.isLt
  have hcount := toNat_kernelPages image
  have hfull : pageSize.toNat = 4096 := rfl
  have hnumber : (BitVec.ofNat 64 page).toNat = page := by
    rw [BitVec.toNat_ofNat]
    omega
  rw [BitVec.le_def] at h
  have hoffset : (imageOffset image page).toNat = (kernelOffset image).toNat + page * 4096 := by
    rw [imageOffset, BitVec.toNat_add, BitVec.toNat_mul, hnumber, hfull]
    omega
  refine ⟨hoffset, ?_⟩
  rw [hoffset, kernelBytes_eq hpage]
  omega

/-- They can be read. -/
theorem kernel_reads (h : kernelOffset image ≤ image.size) (hpage : page < (kernelPages image).toNat) :
    image.reads (imageOffset image page) (kernelBytes image page) = true := by
  rw [LinuxImage.reads, Bool.or_eq_true, decide_eq_true_iff]
  exact Or.inr (imageOffset_fits h hpage).2

/-- The memory with a page of the kernel at an address. -/
def loadedAt (image : LinuxImage) (page : ℕ) (m : Memory) (hostpa : Word) : Memory :=
  copyBytes m hostpa image.byte (imageOffset image page) (kernelBytes image page)

/-- One round of the loop translates the address of the page, reads it from the
image and stores it behind the translation. -/
theorem ensures_loadKernelPage {Q : Unit → Hv → Prop} {E : Fault → Hv → Prop} (page : ℕ) :
    Ensures (loadKernelPage vm image (kernelOffset image) (kernelSize image) (kernelPages image)
        (prefAddress image) page) t Q E ↔
      match vmxEptGetHostPhysicalAddress t.memory (t.vmAt vm) (kernelGuestpa image page) with
      | none => E (.panic "Unable to walk EPT to get Linux protected kernel host physical address") t
      | some hostpa =>
        (image.reads (imageOffset image page) (kernelBytes image page) = true →
          Q () { t with memory := loadedAt image page t.memory hostpa }) ∧
        (¬image.reads (imageOffset image page) (kernelBytes image page) = true →
          E (.outOfBounds (imageOffset image page)) t) := by
  rw [loadKernelPage, ensures_bind, ensures_get]
  have hguestpa : prefAddress image + BitVec.ofNat 64 page * pageSize = kernelGuestpa image page := rfl
  rw [hguestpa]
  cases vmxEptGetHostPhysicalAddress t.memory (t.vmAt vm) (kernelGuestpa image page) with
  | none => exact Iff.rfl
  | some hostpa =>
    dsimp only
    rw [ensures_bind, ensures_touch, ensures_modifyMemory, v2p_p2v]
    exact Iff.rfl

/-- The loop only writes memory. -/
theorem copyKernel_frame (vm : Word) (image : LinuxImage) (t : Hv) :
    Ensures (copyKernel vm image) t (fun _ t' => t' = { t with memory := t'.memory })
      (fun _ _ => True) := by
  refine ensures_forRange (fun _ (t' : Hv) => t' = { t with memory := t'.memory }) rfl fun page t' _ ht' => ?_
  rw [ensures_loadKernelPage]
  split
  · trivial
  · refine ⟨fun _ => ?_, fun _ => trivial⟩
    rw [ht']

/-! ## Runs that return -/

/-- How a run that returns ends: the kernel is copied, and the registers are set. -/
structure KernelCopied (hw : Hardware) (vm : Word) (image : LinuxImage) (n : ℕ) (t t' s' : Hv) :
    Prop where
  aligned : kernelAlignment image ≠ 0 ∧ prefAddress image % kernelAlignment image = 0
  copied : copyKernel vm image t = .ok () t'
  started : startLinux hw vm (guestPage (n - 515)) (prefAddress image) t' = .ok () s'

/-- Setting the registers keeps the memory, the tables and the size of the guest memory. -/
theorem KernelCopied.registers {t' : Hv} (h : KernelCopied hw vm image n t t' s') :
    ∃ v, s' = settingUp t' vm t'.memory v ∧ SameTables (t'.vmAt vm) v ∧
      v.guestPhysicalPages = (t'.vmAt vm).guestPhysicalPages ∧
      v.guestPhysicalPagesUsedByInitialSetup = (t'.vmAt vm).guestPhysicalPagesUsedByInitialSetup := by
  have hstarted := h.started
  cases hstarted
  exact ⟨_, rfl, ⟨rfl, rfl, rfl⟩, rfl, rfl⟩

/-- A run that returns comes to the kernel, copies it and sets the registers. -/
theorem kernelCopied_of_ok (h : Loadable s vm n host)
    (hrun : vmGuestLinuxLoader hw vm image cmdline s = .ok () s') :
    ∃ t t', KernelReady s vm n host image cmdline t ∧
      KernelCopied hw vm image n (defaulted image (host (n - 515)) t) t' s' := by
  have hspec : Ensures (vmGuestLinuxLoader hw vm image cmdline) s
      (fun _ s' => ∃ t t', KernelReady s vm n host image cmdline t ∧
        KernelCopied hw vm image n (defaulted image (host (n - 515)) t) t' s') (fun _ _ => True) := by
    refine ensures_vmGuestLinuxLoader h (fun t ht => ?_) fun _ _ _ => trivial
    rw [ensures_bind, ensures_loadProtectedKernel ht.placement]
    refine ⟨fun _ => trivial, fun halign => ⟨fun _ => trivial, fun hmisaligned => ?_⟩⟩
    rw [not_not] at hmisaligned
    refine Ensures.intro (fun _ t' hcopied => ?_) fun _ _ _ => trivial
    refine Ensures.intro (fun _ s' hstarted => ?_) fun _ _ _ => trivial
    exact ⟨t, t', ht, ⟨halign, hmisaligned⟩, hcopied, hstarted⟩
  exact hspec.of_ok hrun

/-! ## Images with one set-up sector -/

/-- The bytes of the small image with another alignment, another preferred address
and a byte of the kernel. -/
def patchedBytes (alignment : BitVec 32) (pref : Word) (c : BitVec 8) : Memory :=
  writeBytes (writeBytes (writeBytes sampleBytes hdrKernelAlignment 4 alignment) hdrPrefAddress 8 pref)
    0x1200 1 c

/-- The image with these bytes. -/
def patchedImage (alignment : BitVec 32) (pref : Word) (c : BitVec 8) (size : Word) : LinuxImage :=
  ⟨patchedBytes alignment pref c, size, false⟩

section Patched

variable {alignment : BitVec 32} {pref : Word} {c : BitVec 8} {size offset : Word}

/-- Other bytes are those of the small image. -/
theorem patchedBytes_apply {a : Word} (halignment : 4 ≤ (a - hdrKernelAlignment).toNat)
    (hpref : 8 ≤ (a - hdrPrefAddress).toNat) (hc : 1 ≤ (a - 0x1200).toNat) :
    patchedBytes alignment pref c a = sampleBytes a := by
  rw [patchedBytes, writeBytes_apply_of_le hc, writeBytes_apply_of_le hpref,
    writeBytes_apply_of_le halignment]

/-- The byte of the kernel. -/
theorem patchedBytes_last (alignment : BitVec 32) (pref : Word) (c : BitVec 8) :
    patchedBytes alignment pref c 0x1200 = c := by
  have hself : ((0x1200 : Word) - 0x1200).toNat = 0 := rfl
  rw [patchedBytes, writeBytes, hself, if_pos Nat.one_pos]
  exact BitVec.extractLsb'_eq_self

/-- A field that none of the changes reaches. -/
theorem patchedImage_field {k : ℕ} (h : ∀ i < k, 4 ≤ (offset + BitVec.ofNat 64 i - hdrKernelAlignment).toNat ∧
      8 ≤ (offset + BitVec.ofNat 64 i - hdrPrefAddress).toNat ∧
      1 ≤ (offset + BitVec.ofNat 64 i - 0x1200).toNat) :
    (patchedImage alignment pref c size).field offset k = readBytes sampleBytes offset k :=
  readBytes_congr fun i hi => patchedBytes_apply (h i hi).1 (h i hi).2.1 (h i hi).2.2

/-- A number that was stored is read back. -/
theorem readBytes_writeBytes (m : Memory) (a : Word) {k : ℕ} (v : BitVec (8 * k)) (hk : k < 2 ^ 64) :
    readBytes (writeBytes m a k v) a k = v := by
  refine readBytes_eq fun i hi => ?_
  have hdistance : (a + BitVec.ofNat 64 i - a).toNat = i := by
    rw [BitVec.add_comm, BitVec.add_sub_cancel, BitVec.toNat_ofNat]
    omega
  rw [writeBytes, hdistance, if_pos hi]

theorem patchedImage_headerSize : (patchedImage alignment pref c size).setupHeaderSize = 0x7b := by
  have hjump : (patchedImage alignment pref c size).field hdrJump 2 = 0x6aeb#16 :=
    (patchedImage_field (by decide)).trans (by decide)
  rw [LinuxImage.setupHeaderSize, hjump]
  rfl

theorem prefAddress_patchedImage : prefAddress (patchedImage alignment pref c size) = pref := by
  have hheader := @patchedImage_headerSize alignment pref c size
  have hfield : hdrPrefAddress.toNat = 0x258 := rfl
  rw [prefAddress, readBytes_copied (by omega) (by omega)]
  refine (readBytes_congr fun i hi => ?_).trans
    (readBytes_writeBytes (writeBytes sampleBytes hdrKernelAlignment 4 alignment) hdrPrefAddress
      (k := 8) pref (by decide))
  have hplace : 1 ≤ (hdrPrefAddress + BitVec.ofNat 64 i - 0x1200).toNat := by
    have hbyte : (0x1200 : Word).toNat = 0x1200 := rfl
    rw [BitVec.toNat_sub, BitVec.toNat_add, BitVec.toNat_ofNat, hfield, hbyte]
    omega
  exact writeBytes_apply_of_le hplace

theorem kernelAlignment_patchedImage :
    kernelAlignment (patchedImage alignment pref c size) = alignment.setWidth 64 := by
  have hheader := @patchedImage_headerSize alignment pref c size
  have hfield : hdrKernelAlignment.toNat = 0x230 := rfl
  rw [kernelAlignment, readBytes_copied (by omega) (by omega)]
  refine congrArg (BitVec.setWidth 64) ((readBytes_congr fun i hi => ?_).trans
    (readBytes_writeBytes sampleBytes hdrKernelAlignment (k := 4) alignment (by decide)))
  have hplaces : ∀ i < 4, 8 ≤ (hdrKernelAlignment + BitVec.ofNat 64 i - hdrPrefAddress).toNat ∧
      1 ≤ (hdrKernelAlignment + BitVec.ofNat 64 i - 0x1200).toNat := by
    decide
  have hplace := hplaces i hi
  exact (writeBytes_apply_of_le hplace.2).trans (writeBytes_apply_of_le hplace.1)

theorem patchedImage_reads {k : ℕ} (h : offset.toNat + k ≤ size.toNat) :
    (patchedImage alignment pref c size).reads offset k = true := decide_eq_true h

theorem patchedImage_accepted (hsize : 0x238 ≤ size.toNat) :
    HeaderAccepted (patchedImage alignment pref c size) := by
  have hmagic : (patchedImage alignment pref c size).field hdrHeader 4 = 0x53726448#32 :=
    (patchedImage_field (by decide)).trans (by decide)
  have hentry : (patchedImage alignment pref c size).field hdrXloadflags 2 = 1#16 :=
    (patchedImage_field (by decide)).trans (by decide)
  have hheader : hdrHeader.toNat + 4 = 0x206 := rfl
  have hflags : hdrXloadflags.toNat + 2 = 0x238 := rfl
  refine ⟨patchedImage_reads (by omega), hmagic, patchedImage_reads (by omega), ?_⟩
  rw [hentry]
  rfl

theorem patchedImage_readable (hsize : 0x26c ≤ size.toNat) :
    Readable (patchedImage alignment pref c size) := by
  have hheader := @patchedImage_headerSize alignment pref c size
  have hcmdline : hdrCmdlineSize.toNat + 4 = 0x23c := rfl
  have hfirst : hdrSetupSects.toNat = 0x1f1 := rfl
  have hversion : readBytes (copied (patchedImage alignment pref c size)) hdrKernelVersion 2 = 0#16 := by
    have hfield : hdrKernelVersion.toNat = 0x20e := rfl
    rw [readBytes_copied (by omega) (by omega)]
    exact (patchedImage_field (by decide)).trans (by decide)
  have hoffset : versionOffset (patchedImage alignment pref c size) = 0x200 := by
    rw [versionOffset, hversion]
    rfl
  refine ⟨patchedImage_reads (by omega), patchedImage_reads (by omega), ?_⟩
  rw [hoffset, LinuxImage.readsString, Bool.or_eq_true, decide_eq_true_iff]
  -- the first NUL behind the magic
  refine Or.inr ⟨6, ?_, ?_⟩
  · have hstart : (0x200 : Word).toNat = 0x200 := rfl
    change 6 < size.toNat - _
    omega
  · have hnul : patchedBytes alignment pref c 0x206 = sampleBytes 0x206 :=
      patchedBytes_apply (by decide) (by decide) (by decide)
    exact hnul.trans (by decide)

theorem kernelOffset_patchedImage : kernelOffset (patchedImage alignment pref c size) = 0x400 := by
  have hsects : (patchedImage alignment pref c size).field hdrSetupSects 1 = 1#8 :=
    (patchedImage_field (by decide)).trans (by decide)
  rw [kernelOffset, setupSects, hsects]
  rfl

end Patched

end Rkhv.LinuxKernel
