import Rkhv.LinuxKernel

/-!
# What the copied kernel looks like to the guest

A page of the kernel is translated once and then written as a whole. As long as
what is written stays in the guest page that was translated, the loop only writes
guest memory, different pages of the kernel go to different guest pages, and in
the end the guest finds the kernel from its preferred address on. Otherwise the
rest of the page goes to the host page that follows, whatever it holds.
-/

namespace Rkhv.LinuxCopy

open ByteMemory ByteBlocks HostTypes HostState StateOutcome PageTracker PageTrackerRuns Ept GuestMemory GuestRam
  GuestSetup GuestIdentity GuestLinuxLoader LinuxPreparation LinuxCmdline LinuxParameters LinuxFilling
  LinuxKernel MachinePages PageRuns VmManager HostRuns DescendingPages FreeRegion

variable {hw : Hardware} {s s' t t' : Hv} {vm : Word} {n : ℕ} {host : ℕ → Frame} {image : LinuxImage}
  {cmdline : List (BitVec 8)} {page i k : ℕ}

/-! ## Guest pages of the kernel -/

/-- Guest pages follow each other, and start again behind the last one. -/
theorem pageNumber_add (gpa : Word) (page : ℕ) :
    pageNumber (gpa + BitVec.ofNat 64 page * pageSize) = (pageNumber gpa + page) % 2 ^ 36 := by
  have hfull : pageSize.toNat = 4096 := rfl
  have hlt := gpa.isLt
  rw [pageNumber, pageNumber, BitVec.toNat_add, BitVec.toNat_mul, BitVec.toNat_ofNat, hfull]
  omega

theorem pageNumber_kernelGuestpa (image : LinuxImage) (page : ℕ) :
    pageNumber (kernelGuestpa image page) = (pageNumber (prefAddress image) + page) % 2 ^ 36 :=
  pageNumber_add _ _

/-- Every page of the kernel starts at the same offset. -/
theorem kernelGuestpa_offset (image : LinuxImage) (page : ℕ) :
    (kernelGuestpa image page).toNat % 4096 = (prefAddress image).toNat % 4096 := by
  have hfull : pageSize.toNat = 4096 := rfl
  rw [kernelGuestpa, BitVec.toNat_add, BitVec.toNat_mul, BitVec.toNat_ofNat, hfull]
  omega

/-- The preferred address starts a page, or the kernel fits into the rest of its page. -/
def KernelInPages (image : LinuxImage) : Prop :=
  (prefAddress image).toNat % 4096 = 0 ∨
    (prefAddress image).toNat % 4096 + (kernelSize image).toNat ≤ 4096

/-- What is written of a page of the kernel stays in the guest page. -/
theorem KernelInPages.fits (h : KernelInPages image) (hpage : page < (kernelPages image).toNat) :
    (kernelGuestpa image page).toNat % 4096 + kernelBytes image page ≤ 4096 := by
  have hcount := toNat_kernelPages image
  rw [kernelGuestpa_offset, kernelBytes_eq hpage]
  rw [KernelInPages] at h
  omega

/-- A kernel that passed the check and has its first pages in the guest memory has
no more of them than the guest memory. -/
theorem resolved_le (hn : n ≤ 2 ^ 36) (hfits : ¬TooSmall n image)
    (hreach : kernelOffset image ≤ image.size) (hi : i ≤ (kernelPages image).toNat)
    (hresolved : ∀ page < i, pageNumber (kernelGuestpa image page) < n) : i ≤ n := by
  have hcount := toNat_kernelPages image
  have hsize := toNat_kernelSize hreach
  have hoffset := toNat_kernelOffset image
  have hsects := setupSects_pos image
  rw [TooSmall] at hfits
  rw [BitVec.le_def] at hreach
  by_contra hmany
  -- the page that would be the first one behind the guest memory
  have hfirst := hresolved 0 (by omega)
  have hlast := hresolved (n - pageNumber (prefAddress image)) (by omega)
  rw [pageNumber_kernelGuestpa] at hfirst hlast
  have hstart : pageNumber (prefAddress image) < 2 ^ 36 := by
    rw [pageNumber]
    omega
  omega

/-! ## One page after the other -/

/-- Some pages of the kernel are copied. -/
structure PagesCopied (vm : Word) (n : ℕ) (host : ℕ → Frame) (image : LinuxImage) (i : ℕ)
    (t t' : Hv) : Prop where
  state : t' = { t with memory := t'.memory }
  within : WritesWithin host {j | j < n} t.memory t'.memory
  resolved : ∀ page < i, pageNumber (kernelGuestpa image page) < n
  bytes : ∀ page < i, ∀ k < kernelBytes image page,
    t'.memory (frameAddress (host (pageNumber (kernelGuestpa image page))) +
      BitVec.ofNat 64 ((kernelGuestpa image page).toNat % 4096 + k)) =
        image.byte (imageOffset image page + BitVec.ofNat 64 k)

theorem PagesCopied.start (vm : Word) (n : ℕ) (host : ℕ → Frame) (image : LinuxImage) (t : Hv) :
    PagesCopied vm n host image 0 t t :=
  ⟨rfl, WritesWithin.refl host _ _, fun _ hp => absurd hp (Nat.not_lt_zero _),
    fun _ hp => absurd hp (Nat.not_lt_zero _)⟩

/-- The guest memory stays mapped. -/
theorem PagesCopied.guestMapped (h : GuestMapped t vm n host)
    (ht : PagesCopied vm n host image i t t') : GuestMapped t' vm n host := by
  have hstate : t' = settingUp t vm t'.memory (t.vmAt vm) := by
    rw [settingUp, Function.update_eq_self]
    exact ht.state
  rw [hstate]
  exact guestMapped_settingUp h ⟨rfl, rfl, rfl⟩ ht.within

/-- An offset inside a page reaches the frame of the page. -/
theorem inFrame_offset (f : Frame) (hk : k < 4096) :
    InFrame f (frameAddress f + BitVec.ofNat 64 k) := by
  rw [InFrame, offset_distance f k (by omega)]
  exact hk

/-- Distance of two offsets of a frame. -/
theorem offset_sub (f : Frame) (j k : ℕ) :
    frameAddress f + BitVec.ofNat 64 (j + k) - (frameAddress f + BitVec.ofNat 64 j) =
      BitVec.ofNat 64 k := by
  rw [BitVec.ofNat_add, add_sub_add_left_eq_sub, add_sub_cancel_left]

/-- One more page. -/
theorem PagesCopied.next (h : GuestMapped t vm n host) (hfits : ¬TooSmall n image)
    (hreach : kernelOffset image ≤ image.size) (hpages : KernelInPages image)
    (hi : i < (kernelPages image).toNat) (ht : PagesCopied vm n host image i t t') :
    Ensures (loadKernelPage vm image (kernelOffset image) (kernelSize image) (kernelPages image)
        (prefAddress image) i) t' (fun _ t'' => PagesCopied vm n host image (i + 1) t t'')
      (fun e _ => (∃ message, e = .panic message) ∧ n ≤ pageNumber (kernelGuestpa image i)) := by
  have hmapped := ht.guestMapped h
  have hle := guestMapped_le h
  have hstay := hpages.fits hi
  have hread := kernel_reads hreach hi
  rw [ensures_loadKernelPage]
  by_cases hin : pageNumber (kernelGuestpa image i) < n
  · have hresolved : ∀ page < i + 1, pageNumber (kernelGuestpa image page) < n := by
      intro page hp
      obtain hlt | rfl := Nat.lt_succ_iff_lt_or_eq.mp hp
      · exact ht.resolved page hlt
      · exact hin
    have hcount : i + 1 ≤ n := resolved_le hle hfits hreach hi hresolved
    rw [walk_page hmapped hin]
    refine ⟨fun _ => ?_, fun hcut => absurd hread hcut⟩
    -- the bytes of this page, by their distance from where it is stored
    have hinside : ∀ a : Word, (a - (frameAddress (host (pageNumber (kernelGuestpa image i))) +
        BitVec.ofNat 64 ((kernelGuestpa image i).toNat % 4096))).toNat < kernelBytes image i →
          InFrame (host (pageNumber (kernelGuestpa image i))) a := by
      intro a ha
      rw [sub_add_eq_sub_sub, BitVec.toNat_sub, BitVec.toNat_ofNat] at ha
      have hlt := (a - frameAddress (host (pageNumber (kernelGuestpa image i)))).isLt
      rw [InFrame]
      omega
    refine ⟨?_, ?_, hresolved, fun page hp k hk => ?_⟩
    · rw [ht.state]
    · refine ht.within.trans fun a ha => copyBytes_apply_of_le (Nat.le_of_not_lt fun hlt => ?_)
      exact ha _ hin (hinside a hlt)
    · obtain hlt | rfl := Nat.lt_succ_iff_lt_or_eq.mp hp
      · have hold := ht.bytes page hlt k hk
        have holdStay := hpages.fits (hlt.trans hi)
        have hpageIn := ht.resolved page hlt
        rw [← hold]
        refine copyBytes_apply_of_le (Nat.le_of_not_lt fun hnear => ?_)
        have hsame := (hinside _ hnear).eq (inFrame_offset _ (by omega))
        have hnumber := h.injective _ hin _ hpageIn hsame
        rw [pageNumber_kernelGuestpa, pageNumber_kernelGuestpa] at hnumber
        omega
      · have hdistance := offset_sub (host (pageNumber (kernelGuestpa image page)))
          ((kernelGuestpa image page).toNat % 4096) k
        have hlt : (BitVec.ofNat 64 k).toNat < kernelBytes image page := by
          rw [BitVec.toNat_ofNat]
          omega
        dsimp only
        rw [loadedAt, copyBytes_apply_of_lt (by rwa [hdistance]), hdistance]
  · rw [walk_outside hmapped (Nat.le_of_not_lt hin)]
    exact ⟨⟨_, rfl⟩, Nat.le_of_not_lt hin⟩

/-- The loop copies the whole kernel into guest memory, or panics where the guest
memory ends. -/
theorem copyKernel_spec (h : GuestMapped t vm n host) (hfits : ¬TooSmall n image)
    (hreach : kernelOffset image ≤ image.size) (hpages : KernelInPages image) :
    Ensures (copyKernel vm image) t
      (fun _ t' => PagesCopied vm n host image (kernelPages image).toNat t t')
      (fun e _ => (∃ message, e = .panic message) ∧
        ∃ page < (kernelPages image).toNat, n ≤ pageNumber (kernelGuestpa image page)) := by
  refine ensures_forRange (PagesCopied vm n host image · t) (.start vm n host image t)
    fun page t' hpage ht' => ?_
  refine (ht'.next h hfits hreach hpages hpage).mono (fun _ _ hnext => hnext) fun _ _ hstop => ?_
  exact ⟨hstop.1, page, hpage, hstop.2⟩

/-- A run whose image is read, whose kernel is aligned and stays in its guest
pages, and whose guest memory has these pages, returns. -/
theorem vmGuestLinuxLoader_returns (h : Loadable s vm n host) (haccepted : Accepted n image)
    (hreadable : Readable image) (hshort : ¬CmdlineTooLong image cmdline)
    (hline : strStrlen cmdline < 4096) (halign : kernelAlignment image ≠ 0)
    (haligned : prefAddress image % kernelAlignment image = 0)
    (hreach : kernelOffset image ≤ image.size) (hpages : KernelInPages image)
    (hroom : ∀ page < (kernelPages image).toNat, pageNumber (kernelGuestpa image page) < n) :
    ∃ s', vmGuestLinuxLoader hw vm image cmdline s = .ok () s' := by
  have hspec : Ensures (vmGuestLinuxLoader hw vm image cmdline) s (fun _ _ => True)
      (fun _ _ => False) := by
    refine ensures_of_readable h haccepted hreadable hshort fun t ht => ?_
    rw [ensures_bind, ensures_loadProtectedKernel ht.placement]
    refine ⟨fun hzero => halign hzero, fun _ => ⟨fun hmisaligned => hmisaligned haligned, fun _ => ?_⟩⟩
    refine (copyKernel_spec (ht.guestMapped h.mapped hline) haccepted.2 hreach hpages).mono ?_ ?_
    · exact fun _ t' _ => trivial
    · intro e t' ⟨_, page, hpage, hbeyond⟩
      exact absurd (hroom page hpage) (Nat.not_lt_of_le hbeyond)
  cases hrun : vmGuestLinuxLoader hw vm image cmdline s with
  | ok _ s' => exact ⟨s', rfl⟩
  | error e s' => exact (hspec.of_error hrun).elim

/-! ## A kernel of one page at 16 MiB -/

/-- An image with a kernel of one page for 16 MiB. -/
def megaImage : LinuxImage := patchedImage 0x1000 0x1000000 0 0x1400

theorem megaImage_pref : megaImage.field hdrPrefAddress 8 = 0x1000000 := by
  have hheader : megaImage.setupHeaderSize = 0x7b := patchedImage_headerSize
  have hfield : hdrPrefAddress.toNat = 0x258 := rfl
  rw [← readBytes_copied (by omega) (by omega)]
  exact prefAddress_patchedImage

theorem megaImage_inPages : KernelInPages megaImage := by
  have hpref : prefAddress megaImage = 0x1000000 := prefAddress_patchedImage
  rw [KernelInPages, hpref]
  exact Or.inl rfl

theorem megaImage_offset : kernelOffset megaImage = 0x400 := kernelOffset_patchedImage

theorem megaImage_reached : kernelOffset megaImage ≤ megaImage.size := by
  rw [megaImage_offset]
  exact Nat.le_of_ble_eq_true rfl

theorem megaImage_pages : (kernelPages megaImage).toNat = 1 := by
  rw [toNat_kernelPages, kernelSize, megaImage_offset]
  rfl

/-- Its loader returns with any guest memory that passes the check and fits into
the host with one large region. -/
theorem exists_loaded {count : Word} (hroom : (eptPages count).toNat + count.toNat ≤ 8191)
    (hfits : ¬TooSmall count.toNat megaImage) :
    ∃ s s', Allocated obedientHardware s firstOfMany count ∧
      vmGuestLinuxLoader obedientHardware firstOfMany megaImage [] s = .ok () s' := by
  have hlarge : 4096 < count.toNat := lt_of_fits hfits
  obtain ⟨s, hs⟩ := @exists_allocated count (by omega) hroom
  obtain ⟨host, hload⟩ := loadable_of_allocated hs
  have hline : strStrlen [] = 0 := rfl
  have hpref : prefAddress megaImage = 0x1000000 := prefAddress_patchedImage
  have halign : kernelAlignment megaImage = 0x1000 := kernelAlignment_patchedImage
  have hfirst : pageNumber (0x1000000 : Word) = 4096 := rfl
  have hsize : (0x1400 : Word).toNat = 0x1400 := rfl
  have haccepted : Accepted count.toNat megaImage := ⟨patchedImage_accepted (by omega), hfits⟩
  have hreadable : Readable megaImage := patchedImage_readable (by omega)
  have hshort : ¬CmdlineTooLong megaImage [] := by
    rw [CmdlineTooLong, hline]
    omega
  have hin : ∀ page < (kernelPages megaImage).toNat,
      pageNumber (kernelGuestpa megaImage page) < count.toNat := by
    intro page hpage
    rw [megaImage_pages] at hpage
    obtain rfl : page = 0 := by omega
    rw [pageNumber_kernelGuestpa, hpref, hfirst]
    omega
  have hreturns : ∃ s', vmGuestLinuxLoader obedientHardware firstOfMany megaImage [] s = .ok () s' :=
    vmGuestLinuxLoader_returns hload haccepted hreadable hshort (by rw [hline]; decide)
      (by rw [halign]; decide) (by rw [halign, hpref]; decide) megaImage_reached megaImage_inPages hin
  obtain ⟨s', hrun⟩ := hreturns
  exact ⟨s, s', hs, hrun⟩

/-! ## Every run -/

/-- Every byte that changed lies in a host page tracked as guest memory of the machine. -/
def Confined (s : Hv) (vm : Word) (m : Memory) : Prop :=
  ∀ a, m a ≠ s.memory a →
    ∃ f, InFrame f a ∧ (frameAddress f, .guestPhysical, false) ∈ contents (trackedOf s vm)

/-- Through the tables the guest finds the kernel from the preferred address on. -/
def KernelFound (s : Hv) (vm : Word) (image : LinuxImage) : Prop :=
  ∀ k < (kernelSize image).toNat, ∃ hostpa,
    vmxEptGetHostPhysicalAddress s.memory (s.vmAt vm) (prefAddress image + BitVec.ofNat 64 k) =
        some hostpa ∧
      s.memory hostpa = image.byte (kernelOffset image + BitVec.ofNat 64 k)

/-- What is written within the guest pages is confined. -/
theorem confined_of_within (h : GuestMapped s vm n host) {m : Memory}
    (hm : WritesWithin host {j | j < n} s.memory m) : Confined s vm m := by
  intro a ha
  obtain ⟨j, hj, hin⟩ := hm.exists_of_ne ha
  exact ⟨host j, hin, h.tracked j hj⟩

/-- An address of the kernel by its page. -/
theorem kernelGuestpa_add (image : LinuxImage) (page k : ℕ) :
    kernelGuestpa image page + BitVec.ofNat 64 k =
      prefAddress image + BitVec.ofNat 64 (page * 4096 + k) := by
  have hpage : BitVec.ofNat 64 page * pageSize = BitVec.ofNat 64 (page * 4096) := by
    rw [BitVec.ofNat_mul]
    rfl
  rw [kernelGuestpa, hpage, BitVec.add_assoc, ← BitVec.ofNat_add]

/-- A copied kernel is found. -/
theorem PagesCopied.kernelFound (h : GuestMapped s' vm n host) (hpages : KernelInPages image)
    (ht : PagesCopied vm n host image (kernelPages image).toNat t t') (hs' : s'.memory = t'.memory) :
    KernelFound s' vm image := by
  intro k hk
  have hcount := toNat_kernelPages image
  have hpage : k / 4096 < (kernelPages image).toNat := by omega
  have hsplit : k / 4096 * 4096 + k % 4096 = k := by omega
  have hinside : k % 4096 < kernelBytes image (k / 4096) := by
    rw [kernelBytes_eq hpage]
    omega
  have hstay := hpages.fits hpage
  have hbyte := ht.bytes _ hpage _ hinside
  have hresolved := ht.resolved _ hpage
  have haddress : prefAddress image + BitVec.ofNat 64 k =
      kernelGuestpa image (k / 4096) + BitVec.ofNat 64 (k % 4096) := by
    rw [kernelGuestpa_add, hsplit]
  have hoffset : kernelOffset image + BitVec.ofNat 64 k =
      imageOffset image (k / 4096) + BitVec.ofNat 64 (k % 4096) := by
    have hpageOffset : BitVec.ofNat 64 (k / 4096) * pageSize = BitVec.ofNat 64 (k / 4096 * 4096) := by
      rw [BitVec.ofNat_mul]
      rfl
    rw [imageOffset, hpageOffset, BitVec.add_assoc, ← BitVec.ofNat_add, hsplit]
  -- the byte lies in the page of its page of the kernel
  have hnumber : pageNumber (kernelGuestpa image (k / 4096) + BitVec.ofNat 64 (k % 4096)) =
        pageNumber (kernelGuestpa image (k / 4096)) ∧
      (kernelGuestpa image (k / 4096) + BitVec.ofNat 64 (k % 4096)).toNat % 4096 =
        (kernelGuestpa image (k / 4096)).toNat % 4096 + k % 4096 := by
    rw [pageNumber, pageNumber, BitVec.toNat_add, BitVec.toNat_ofNat]
    omega
  refine ⟨_, (congrArg _ haddress).trans (walk_page h (by rwa [hnumber.1])), ?_⟩
  rw [hs', hnumber.1, hnumber.2, hoffset]
  exact hbyte

/-- When the guest pages are one run of host pages, some guest page has the last of them. -/
theorem exists_last_frame (h : GuestMapped s vm n host) (hpos : 0 < n) {first : ℕ}
    (hrun : ∀ f, (frameAddress f, .guestPhysical, false) ∈ contents (trackedOf s vm) →
      first ≤ f.toNat ∧ f.toNat < first + n) :
    ∃ q < n, (host q).toNat + 1 = first + n := by
  have hsub : (Finset.range n).image (fun j => (host j).toNat) ⊆ Finset.Ico first (first + n) := by
    intro x hx
    obtain ⟨j, hj, rfl⟩ := Finset.mem_image.mp hx
    exact Finset.mem_Ico.mpr (hrun _ (h.tracked j (Finset.mem_range.mp hj)))
  have hcard : ((Finset.range n).image fun j => (host j).toNat).card = n := by
    rw [Finset.card_image_of_injOn, Finset.card_range]
    intro i hi j hj hij
    exact h.injective i (Finset.mem_range.mp hi) j (Finset.mem_range.mp hj) (BitVec.eq_of_toNat_eq hij)
  have hall : (Finset.range n).image (fun j => (host j).toNat) = Finset.Ico first (first + n) := by
    refine Finset.eq_of_subset_of_card_le hsub ?_
    rw [hcard, Nat.card_Ico]
    omega
  have hlast : first + n - 1 ∈ (Finset.range n).image fun j => (host j).toNat := by
    rw [hall, Finset.mem_Ico]
    omega
  obtain ⟨q, hq, hframe⟩ := Finset.mem_image.mp hlast
  exact ⟨q, Finset.mem_range.mp hq, by omega⟩

/-- Guest pages of a list with one entry for them. -/
theorem mem_guest_run {tables start pool page : Word} {count size empty : BitVec 56}
    (hlist : trackedOf s vm = [⟨tables, count, .ept, false⟩, ⟨start, size, .guestPhysical, false⟩,
      ⟨pool, empty, .ept, true⟩])
    (hpage : (page, .guestPhysical, false) ∈ contents (trackedOf s vm)) :
    page ∈ runPages start size.toNat := by
  rw [hlist] at hpage
  simp only [contents, List.flatMap_cons, List.flatMap_nil, entryContents, List.mem_append, List.mem_map,
    Prod.mk.injEq, List.not_mem_nil, or_false, reduceCtorEq, and_false, false_and, exists_false, false_or]
    at hpage
  obtain ⟨p, hp, rfl, _⟩ := hpage
  exact hp

/-- The guest pages of the host with one large region are one run of host pages. -/
theorem exists_loadable_run {size : Word} (hpos : 1 ≤ size.toNat)
    (hfits : (eptPages size).toNat + size.toNat ≤ 8191) :
    ∃ s host first, Allocated obedientHardware s firstOfMany size ∧
      Loadable s firstOfMany size.toNat host ∧
      ∀ f, (frameAddress f, .guestPhysical, false) ∈ contents (trackedOf s firstOfMany) →
        first ≤ f.toNat ∧ f.toNat < first + size.toNat := by
  obtain ⟨_, s, hs, hruns⟩ := exists_threeRuns hpos hfits
  obtain ⟨host, hload⟩ := loadable_of_allocated hs
  have hcount : (size.setWidth 56 : BitVec 56).toNat = size.toNat := by
    rw [BitVec.toNat_setWidth]
    omega
  have hlist := hruns.list
  generalize pageBelow (pageUnder ⟨0x10000, 8192, true⟩ 8191 0)
    ((eptPages size).toNat + size.toNat - 1) = start at hlist
  have hentry : EntryOk ⟨start, size.setWidth 56, .guestPhysical, false⟩ := by
    refine hload.mapped.ok.entries _ ?_
    rw [hlist]
    exact List.mem_cons_of_mem _ List.mem_cons_self
  have hstart : start.toNat % 4096 = 0 := hentry.1
  have hrun : RunFits start (size.setWidth 56 : BitVec 56).toNat := hentry.runFits
  refine ⟨s, host, start.toNat / 4096, hs, hload, fun f hf => ?_⟩
  have hpage := mem_guest_run hlist hf
  rw [mem_runPages hrun, toNat_frameAddress, hcount] at hpage
  omega

/-- A loop of one round. -/
theorem ensures_copyKernel_one (hone : (kernelPages image).toNat = 1) {Q : Unit → Hv → Prop}
    {E : Fault → Hv → Prop}
    (h : Ensures (loadKernelPage vm image (kernelOffset image) (kernelSize image) (kernelPages image)
      (prefAddress image) 0) t Q E) : Ensures (copyKernel vm image) t Q E := by
  rw [copyKernel, hone, forRange, forFrom, ensures_bind]
  exact h

/-- Where the one page of a kernel is stored: behind the translation of the preferred
address, as far as the kernel reaches, in whatever host pages that is. -/
theorem onePage_spec (h : Loadable s vm n host) (haccepted : Accepted n image)
    (hreadable : Readable image) (hshort : ¬CmdlineTooLong image cmdline)
    (hline : strStrlen cmdline < 4096) (halign : kernelAlignment image ≠ 0)
    (haligned : prefAddress image % kernelAlignment image = 0)
    (hreach : kernelOffset image ≤ image.size) (hone : (kernelPages image).toNat = 1)
    (hin : pageNumber (prefAddress image) < n) :
    Ensures (vmGuestLinuxLoader hw vm image cmdline) s
      (fun _ s' => ∀ k < (kernelSize image).toNat,
        s'.memory (frameAddress (host (pageNumber (prefAddress image))) +
          BitVec.ofNat 64 ((prefAddress image).toNat % 4096 + k)) =
            image.byte (kernelOffset image + BitVec.ofNat 64 k))
      (fun _ _ => False) := by
  refine ensures_of_readable h haccepted hreadable hshort fun t ht => ?_
  have hmapped := ht.guestMapped h.mapped hline
  have hguestpa : kernelGuestpa image 0 = prefAddress image := BitVec.add_zero _
  have hoffset : imageOffset image 0 = kernelOffset image := BitVec.add_zero _
  have hcount := toNat_kernelPages image
  have hbytes : kernelBytes image 0 = (kernelSize image).toNat := by
    rw [kernelBytes_eq (by omega)]
    omega
  rw [ensures_bind, ensures_loadProtectedKernel ht.placement]
  refine ⟨fun hzero => halign hzero, fun _ => ⟨fun hmisaligned => hmisaligned haligned, fun _ => ?_⟩⟩
  refine ensures_copyKernel_one hone ?_
  rw [ensures_loadKernelPage, hguestpa, walk_page hmapped hin]
  refine ⟨fun _ => ?_, fun hcut => hcut (kernel_reads hreach (by omega))⟩
  · refine Ensures.ok rfl fun k hk => ?_
    have hdistance := offset_sub (host (pageNumber (prefAddress image)))
      ((prefAddress image).toNat % 4096) k
    have hlt : (BitVec.ofNat 64 k).toNat < kernelBytes image 0 := by
      rw [BitVec.toNat_ofNat, hbytes]
      omega
    change loadedAt image 0 _ _ _ = _
    rw [loadedAt, copyBytes_apply_of_lt (by rwa [hdistance]), hdistance, hoffset]

end Rkhv.LinuxCopy
