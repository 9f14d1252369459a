import Rkhv.FreeRegion
import Rkhv.GuestIdentity
import Rkhv.GuestLinuxLoader

/-!
# Preparing a guest memory for Linux

Before it copies anything the loader sets up the identity tables, checks the
header of the image and takes two more pages from the end of the guest memory.
Each statement is specified with the cases in which it returns, in which it
panics and in which it reads behind the image.
-/

namespace Rkhv.LinuxPreparation

open ByteMemory ByteBlocks HostTypes HostState StateOutcome EptWalk EptAgreement MachinePages GuestMemory
  GuestRam GuestSetup GuestIdentity VmGuestPaging GuestLinuxLoader Ept

variable {hw : Hardware} {s t : Hv} {vm : Word} {n : ℕ} {host : ℕ → Frame} {image : LinuxImage}

/-! ## Outcomes -/

/-- A panic happens only in some cases, any other fault only in some others. -/
def FaultIn (panics faults : Prop) : Fault → Prop
  | .panic _ => panics
  | _ => faults

theorem FaultIn.mono {p f p' f' : Prop} {e : Fault} (h : FaultIn p f e) (hp : p → p')
    (hf : f → f') : FaultIn p' f' e := by
  cases e with
  | panic message => exact hp h
  | outOfBounds index => exact hf h
  | nullPointer => exact hf h
  | divisionByZero => exact hf h
  | hang => exact hf h

theorem faultIn_false {e : Fault} (h : FaultIn False False e) : False := by
  cases e <;> exact h

/-! ## Guest pages by number -/

/-- Number of the page that the walker resolves an address in. -/
def pageNumber (gpa : Word) : ℕ := gpa.toNat % 2 ^ 48 / 4096

theorem pageNumber_guestPage {j : ℕ} (hj : j < 2 ^ 36) : pageNumber (guestPage j) = j := by
  rw [pageNumber, toNat_guestPage hj]
  omega

/-- The byte behind an address of the guest memory. -/
theorem walk_page (h : GuestMapped s vm n host) {gpa : Word} (hin : pageNumber gpa < n) :
    vmxEptGetHostPhysicalAddress s.memory (s.vmAt vm) gpa =
      some (frameAddress (host (pageNumber gpa)) + BitVec.ofNat 64 (gpa.toNat % 4096)) := by
  have hle := guestMapped_le h
  have hpath : eptPath gpa = eptPath (guestPage (pageNumber gpa)) := by
    rw [← eptPath_low48, eptPath_eq_iff (guestPage_ok (by omega)) (by rw [toNat_low48]; omega),
      InPage, toNat_guestPage (by omega), toNat_low48, pageNumber]
    omega
  have hleaf := leafAddress_eptEntry (pageOk_frameAddress (host (pageNumber gpa))) gpa
  rw [linearAddressGetOffset_eq] at hleaf
  rw [walk_eq h.ok, hpath, h.mapped _ hin]
  exact congrArg some hleaf

/-- Behind the guest memory there is nothing. -/
theorem walk_outside (h : GuestMapped s vm n host) {gpa : Word} (hout : n ≤ pageNumber gpa) :
    vmxEptGetHostPhysicalAddress s.memory (s.vmAt vm) gpa = none := by
  have hbeyond := (GuestMapped.resolves_iff h (guestMapped_le h) gpa).not.mpr (by
    rw [pageNumber] at hout
    omega)
  exact Option.not_isSome_iff_eq_none.mp hbeyond

/-! ## The set-up header -/

/-- The header is readable and accepted. -/
structure HeaderAccepted (image : LinuxImage) : Prop where
  header : image.reads hdrHeader 4 = true
  magic : image.field hdrHeader 4 = 0x53726448
  xloadflags : image.reads hdrXloadflags 2 = true
  entry64 : image.field hdrXloadflags 2 &&& 1 = 1

/-- The header is rejected before anything behind the image is read. -/
def HeaderRejected (image : LinuxImage) : Prop :=
  image.reads hdrHeader 4 = true ∧ (image.field hdrHeader 4 ≠ 0x53726448 ∨
    image.reads hdrXloadflags 2 = true ∧ image.field hdrXloadflags 2 &&& 1 ≠ 1)

/-- A checked field of the header lies behind the image. -/
def HeaderCut (image : LinuxImage) : Prop :=
  ¬image.reads hdrHeader 4 = true ∨
    image.field hdrHeader 4 = 0x53726448 ∧ ¬image.reads hdrXloadflags 2 = true

/-- Bytes before readable bytes are readable. -/
theorem reads_of_le {offset offset' : Word} {k k' : ℕ} (h : image.reads offset k = true)
    (hle : offset'.toNat + k' ≤ offset.toNat + k) : image.reads offset' k' = true := by
  rw [LinuxImage.reads, Bool.or_eq_true, decide_eq_true_iff] at h ⊢
  exact h.imp id fun h => hle.trans h

theorem checkSetupHeader_spec (t : Hv) : Ensures (checkSetupHeader image) t
    (fun size t' => (size = image.setupHeaderSize ∧ t' = t) ∧ HeaderAccepted image)
    (fun e _ => FaultIn (HeaderRejected image) (HeaderCut image) e) := by
  simp only [checkSetupHeader, ensures_bind, ensures_readField, ensures_panicIf, ensures_pure]
  refine ⟨fun _ => ⟨fun hheader => ⟨fun hmagic => ⟨hheader, Or.inl hmagic⟩, fun hmagic => ?_⟩,
    fun hcut => Or.inl hcut⟩, fun hcut => Or.inl fun hheader => hcut ?_⟩
  · rw [not_not] at hmagic
    refine ⟨fun hflags => ⟨fun hentry => ⟨hheader, Or.inr ⟨hflags, hentry⟩⟩, fun hentry => ?_⟩,
      fun hcut => Or.inr ⟨hmagic, hcut⟩⟩
    rw [not_not] at hentry
    exact ⟨⟨rfl, trivial⟩, hheader, hmagic, hflags, hentry⟩
  · exact reads_of_le hheader (by decide)

/-! ## Pages from the end of the guest memory -/

/-- The record of a machine that the setup has used some pages of. -/
structure UsedPages (t : Hv) (vm : Word) (n : ℕ) (host : ℕ → Frame) (used : ℕ) : Prop where
  mapped : GuestMapped t vm n host
  size : (t.vmAt vm).guestPhysicalPages = BitVec.ofNat 64 n
  used : (t.vmAt vm).guestPhysicalPagesUsedByInitialSetup = BitVec.ofNat 64 used

/-- One more page is used. -/
def useOne (t : Hv) (vm : Word) (used : ℕ) : Hv :=
  settingUp t vm t.memory
    { t.vmAt vm with guestPhysicalPagesUsedByInitialSetup := BitVec.ofNat 64 (used + 1) }

theorem useOne_settingUp (s : Hv) (vm : Word) (m : Memory) (v : Vm) (used : ℕ) :
    useOne (settingUp s vm m v) vm used =
      settingUp s vm m { v with guestPhysicalPagesUsedByInitialSetup := BitVec.ofNat 64 (used + 1) } := by
  rw [useOne, settingUp_memory, settingUp_vmAt, settingUp_settingUp]

theorem UsedPages.useOne {used : ℕ} (h : UsedPages t vm n host used) :
    UsedPages (useOne t vm used) vm n host (used + 1) where
  mapped := guestMapped_settingUp h.mapped ⟨rfl, rfl, rfl⟩ (WritesWithin.refl host _ _)
  size := by rw [LinuxPreparation.useOne, settingUp_vmAt, h.size]
  used := by rw [LinuxPreparation.useOne, settingUp_vmAt]

theorem takeLastPage_spec {used : ℕ} (h : UsedPages t vm n host used) (hused : used ≤ n)
    (hlimit : used < 2 ^ 36) (message : String) :
    Ensures (takeLastPage vm message) t
      (fun page t' => used < n ∧ page = (guestPage (n - 1 - used),
        p2vIdentityMap (frameAddress (host (n - 1 - used)))) ∧ t' = useOne t vm used)
      (fun e _ => FaultIn (used = n) False e) := by
  have hle := guestMapped_le h.mapped
  have hcount : modifyVm vm (fun v => { v with
      guestPhysicalPagesUsedByInitialSetup := v.guestPhysicalPagesUsedByInitialSetup + 1 }) t =
        .ok () (useOne t vm used) := by
    have hmodify := modifyVm_settingUp t vm t.memory (t.vmAt vm) fun v => { v with
      guestPhysicalPagesUsedByInitialSetup := v.guestPhysicalPagesUsedByInitialSetup + 1 }
    rw [settingUp_self, h.used] at hmodify
    rw [hmodify, useOne, BitVec.ofNat_add]
    rfl
  rw [takeLastPage, ensures_bind, ensures_get, h.size, h.used, ensures_bind]
  refine Ensures.ok hcount ?_
  rw [ensures_bind, ensures_get]
  by_cases hroom : used < n
  · have hpage : (BitVec.ofNat 64 n - BitVec.ofNat 64 used - 1) * pageSize =
        guestPage (n - 1 - used) := by
      have hsplit : BitVec.ofNat 64 n = BitVec.ofNat 64 (n - 1 - used) + 1 + BitVec.ofNat 64 used := by
        have hsum : n = n - 1 - used + 1 + used := by omega
        conv_lhs => rw [hsum, BitVec.ofNat_add, BitVec.ofNat_add]
        rfl
      rw [hsplit, BitVec.add_sub_cancel, BitVec.add_sub_cancel, guestPage]
    rw [hpage, walk_guestPage h.useOne.mapped (by omega), ensures_pure]
    exact ⟨hroom, rfl, rfl⟩
  · have hfull : used = n := by omega
    have hbelow : (BitVec.ofNat 64 n - BitVec.ofNat 64 used - 1) * pageSize = -pageSize := by
      rw [hfull, BitVec.sub_self]
      rfl
    have hnone : vmxEptGetHostPhysicalAddress (useOne t vm used).memory
        ((useOne t vm used).vmAt vm) (-pageSize) = none := by
      refine Option.not_isSome_iff_eq_none.mp ((GuestMapped.resolves_iff h.useOne.mapped hle _).not.mpr ?_)
      have hvalue : (-pageSize).toNat % 2 ^ 48 = 2 ^ 48 - 4096 := by decide
      omega
    rw [hbelow, hnone]
    exact hfull

/-! ## The whole preparation -/

/-- A machine that nothing was set up for. -/
structure Loadable (s : Hv) (vm : Word) (n : ℕ) (host : ℕ → Frame) : Prop where
  mapped : GuestMapped s vm n host
  size : (s.vmAt vm).guestPhysicalPages = BitVec.ofNat 64 n
  unused : (s.vmAt vm).guestPhysicalPagesUsedByInitialSetup = 0
  cr3 : (s.vmAt vm).vmcsConfig.guestState.cr3 = 0

/-- Machines are loadable once their guest memory is allocated. -/
theorem loadable_of_allocated {pages : Word} (h : Allocated hw s vm pages) :
    ∃ host, Loadable s vm pages.toNat host := by
  obtain ⟨host, hmapped⟩ := h.guest.mapped
  obtain ⟨name, tracked, eptp, flags, hrecord⟩ := h.guest.record
  refine ⟨host, hmapped, ?_, ?_, ?_⟩
  · rw [h.guest.size, BitVec.ofNat_toNat, BitVec.setWidth_eq]
  · rw [hrecord]
    rfl
  · rw [hrecord]
    rfl

/-- The check of the guest memory fails: up to 16 MiB, and from where 516 used
pages and 16 MiB leave no more whole pages than the image has. In between the
subtraction wraps. -/
def TooSmall (n : ℕ) (image : LinuxImage) : Prop :=
  n ≤ 4096 ∨ 4612 ≤ n ∧ n - 4612 ≤ image.size.toNat / 4096

/-- The check asks for more than 16 MiB. -/
theorem lt_of_fits (h : ¬TooSmall n image) : 4096 < n := by
  by_contra hsmall
  exact h (Or.inl (Nat.le_of_not_lt hsmall))

theorem lacksMemory_iff {v : Vm} (hn : n ≤ 2 ^ 36) (hsize : v.guestPhysicalPages = BitVec.ofNat 64 n)
    (hused : v.guestPhysicalPagesUsedByInitialSetup = BitVec.ofNat 64 516) :
    lacksMemory v image.size ↔ TooSmall n image := by
  have hlimit : (0x1000000 / pageSize : Word).toNat = 4096 := by decide
  have hpage : pageSize.toNat = 4096 := rfl
  have hsub : (BitVec.ofNat 64 n - BitVec.ofNat 64 516 - 0x1000000 / pageSize).toNat =
      (n + 2 ^ 64 - 4612) % 2 ^ 64 := by
    rw [BitVec.toNat_sub, BitVec.toNat_sub, hlimit, BitVec.toNat_ofNat, BitVec.toNat_ofNat]
    omega
  have himage := image.size.isLt
  rw [lacksMemory, TooSmall, hsize, hused, BitVec.le_def, BitVec.le_def, hsub, hlimit,
    BitVec.toNat_udiv, hpage, BitVec.toNat_ofNat]
  omega

/-- The record after the setup of the tables. -/
def identityRecord (v : Vm) (n : ℕ) : Vm :=
  { v with
    guestPhysicalPagesUsedByInitialSetup := BitVec.ofNat 64 514
    vmcsConfig.guestState.cr3 := guestPage (n - 1) }

/-- The record after the preparation. -/
def preparedRecord (v : Vm) (n : ℕ) : Vm :=
  { v with
    guestPhysicalPagesUsedByInitialSetup := BitVec.ofNat 64 516
    vmcsConfig.guestState.cr3 := guestPage (n - 1) }

/-- What the loader knows after the preparation. -/
def preparedSetup (image : LinuxImage) (n : ℕ) (host : ℕ → Frame) : LinuxSetup where
  setupHeaderSize := image.setupHeaderSize
  zeropageGuestpa := guestPage (n - 515)
  zeropage := p2vIdentityMap (frameAddress (host (n - 515)))
  cmdlinePageGuestpa := guestPage (n - 516)
  cmdlinePage := p2vIdentityMap (frameAddress (host (n - 516)))

/-- The state after the preparation. -/
structure Prepared (s : Hv) (vm : Word) (n : ℕ) (host : ℕ → Frame) (image : LinuxImage)
    (setup : LinuxSetup) (t : Hv) : Prop where
  header : HeaderAccepted image
  fits : ¬TooSmall n image
  setup_eq : setup = preparedSetup image n host
  state : t = settingUp s vm t.memory (preparedRecord (s.vmAt vm) n)
  writes : WritesWithin host {j | n ≤ j + 514 ∧ j < n} s.memory t.memory
  tables : IdentityTables host n t.memory

theorem Prepared.guestMapped {setup : LinuxSetup} (h : Prepared s vm n host image setup t)
    (hs : GuestMapped s vm n host) : GuestMapped t vm n host := by
  rw [h.state]
  exact guestMapped_settingUp hs ⟨rfl, rfl, rfl⟩ (h.writes.mono fun j hj => hj.2)

/-- The preparation panics. -/
def PreparationStops (n : ℕ) (image : LinuxImage) : Prop :=
  n < 514 ∨ HeaderRejected image ∨ HeaderAccepted image ∧ TooSmall n image

/-- Without guest pages the setup of the tables panics. -/
theorem vmGuestPagingSetupIdentity_empty (hsize : (s.vmAt vm).guestPhysicalPages = 0)
    {Q : Word → Hv → Prop} :
    Ensures (vmGuestPagingSetupIdentity vm) s Q (fun e _ => FaultIn True False e) := by
  rw [vmGuestPagingSetupIdentity, ensures_bind, ensures_get, if_pos hsize]
  exact trivial

/-- The rest of the preparation, once the header is accepted. -/
theorem takePages_spec (h : Loadable s vm n host) {m : Memory}
    (hused : UsedPages (settingUp s vm m (identityRecord (s.vmAt vm) n)) vm n host 514)
    (hroom : 514 ≤ n) (hheader : HeaderAccepted image)
    (hwrites : WritesWithin host {j | n ≤ j + 514 ∧ j < n} s.memory m)
    (htables : IdentityTables host n m) (message message' : String) :
    Ensures (do
        let (zeropageGuestpa, zeropage) ← takeLastPage vm message
        let (cmdlinePageGuestpa, cmdlinePage) ← takeLastPage vm message'
        let s ← get
        panicIf (lacksMemory (s.vmAt vm) image.size)
          "Not enough guest physical memory to load the Linux kernel"
        return (⟨image.setupHeaderSize, zeropageGuestpa, zeropage, cmdlinePageGuestpa,
          cmdlinePage⟩ : LinuxSetup))
      (settingUp s vm m (identityRecord (s.vmAt vm) n))
      (Prepared s vm n host image)
      (fun e _ => FaultIn (PreparationStops n image) (514 ≤ n ∧ HeaderCut image) e) := by
  have hstops : n ≤ 515 → PreparationStops n image := fun hn =>
    Or.inr (Or.inr ⟨hheader, Or.inl (by omega)⟩)
  rw [ensures_bind]
  refine (takeLastPage_spec hused hroom (by decide) message).mono ?_ fun e _ he =>
    he.mono (fun hfull => hstops (by omega)) False.elim
  intro page t₁ ht₁
  obtain ⟨hfirst, rfl, rfl⟩ := ht₁
  rw [ensures_bind]
  refine (takeLastPage_spec hused.useOne hfirst (by decide) message').mono ?_ fun e _ he =>
    he.mono (fun hfull => hstops (by omega)) False.elim
  intro page t₂ ht₂
  obtain ⟨hsecond, rfl, rfl⟩ := ht₂
  have hlast := hused.useOne.useOne
  rw [ensures_bind, ensures_get, ensures_bind, ensures_panicIf,
    lacksMemory_iff (guestMapped_le h.mapped) hlast.size hlast.used]
  refine ⟨fun hsmall => Or.inr (Or.inr ⟨hheader, hsmall⟩), fun hfits => ?_⟩
  refine ⟨hheader, hfits, ?_, ?_, hwrites, htables⟩
  · rw [preparedSetup, Nat.sub_sub, Nat.sub_sub]
  · rw [useOne_settingUp, useOne_settingUp, settingUp_memory]
    rfl

theorem prepareLinux_spec (h : Loadable s vm n host) (image : LinuxImage) :
    Ensures (prepareLinux vm image) s (Prepared s vm n host image)
      (fun e _ => FaultIn (PreparationStops n image) (514 ≤ n ∧ HeaderCut image) e) := by
  have hle := guestMapped_le h.mapped
  rw [prepareLinux, ensures_bind, ensures_get, ensures_bind, ensures_panicIf]
  refine ⟨fun hcr3 => absurd h.cr3 hcr3, fun _ => ?_⟩
  rw [ensures_bind]
  obtain rfl | hpos := Nat.eq_zero_or_pos n
  · refine (vmGuestPagingSetupIdentity_empty h.size (Q := fun _ _ => False)).mono
      (fun _ _ hno => hno.elim) fun e _ he => ?_
    exact he.mono (fun _ => Or.inl (by decide)) False.elim
  refine (vmGuestPagingSetupIdentity_spec h.mapped hpos h.size h.unused).mono ?_ ?_
  · intro cr3 t₁ ht₁
    obtain ⟨rfl, htables⟩ := ht₁
    have hroom := htables.room
    have hmodify := modifyVm_settingUp s vm t₁.memory
      { s.vmAt vm with guestPhysicalPagesUsedByInitialSetup := BitVec.ofNat 64 514 }
      fun v => { v with vmcsConfig.guestState.cr3 := guestPage (n - 1) }
    rw [← identityState, ← htables.state] at hmodify
    rw [ensures_bind]
    refine Ensures.ok hmodify ?_
    rw [ensures_bind]
    refine (checkSetupHeader_spec _).mono ?_ ?_
    · intro size t₂ ht₂
      obtain ⟨⟨rfl, rfl⟩, hheader⟩ := ht₂
      have hwrites : WritesWithin host {j | j < n} s.memory t₁.memory :=
        htables.writes.mono fun j hj => hj.2
      have hused : UsedPages (settingUp s vm t₁.memory (identityRecord (s.vmAt vm) n)) vm n host 514 :=
        ⟨guestMapped_settingUp h.mapped ⟨rfl, rfl, rfl⟩ hwrites,
          by rw [settingUp_vmAt, identityRecord, h.size], by rw [settingUp_vmAt, identityRecord]⟩
      exact takePages_spec h hused hroom hheader htables.writes htables.tables _ _
    · intro e _ he
      exact he.mono (fun hrejected => Or.inr (Or.inl hrejected)) fun hcut => ⟨hroom, hcut⟩
  · intro e t₁ he
    obtain ⟨message, rfl⟩ := he.panics
    exact Or.inl he.small

/-- With an accepted header and enough memory the preparation returns. -/
theorem prepareLinux_returns (h : Loadable s vm n host) (hheader : HeaderAccepted image)
    (hfits : ¬TooSmall n image) :
    ∃ t, prepareLinux vm image s = .ok (preparedSetup image n host) t ∧
      Prepared s vm n host image (preparedSetup image n host) t := by
  have hspec := prepareLinux_spec h image
  cases hrun : prepareLinux vm image s with
  | ok setup t =>
    have hprepared := hspec.of_ok hrun
    obtain rfl := hprepared.setup_eq
    exact ⟨t, rfl, hprepared⟩
  | error e t =>
    have hstops : ¬PreparationStops n image := by
      rintro (hsmall | ⟨_, hmagic | hentry⟩ | hfull)
      · exact hfits (Or.inl (by omega))
      · exact hmagic hheader.magic
      · exact hentry.2 hheader.entry64
      · exact hfits hfull.2
    have hcut : ¬(514 ≤ n ∧ HeaderCut image) := by
      rintro ⟨_, hheaderCut | hflagsCut⟩
      · exact hheaderCut hheader.header
      · exact hflagsCut.2 hheader.xloadflags
    exact (faultIn_false ((hspec.of_error hrun).mono hstops hcut)).elim

/-! ## A small image -/

/-- Bytes of an image with one set-up sector and a header that is accepted: a
command line of up to 4096 bytes, an alignment of 4096 and a preferred address
of 16 MiB. -/
def sampleBytes : Memory := fun offset =>
  (List.lookup offset [(0x1f1, 1), (0x200, 0xeb), (0x201, 0x6a), (0x202, 0x48), (0x203, 0x64),
    (0x204, 0x72), (0x205, 0x53), (0x231, 0x10), (0x236, 1), (0x239, 0x10), (0x25b, 1)]).getD 0

/-- The image with these bytes. -/
def sampleImage (size : Word) : LinuxImage := ⟨sampleBytes, size, false⟩

theorem sampleImage_reads {size offset : Word} {k : ℕ} (h : offset.toNat + k ≤ size.toNat) :
    (sampleImage size).reads offset k = true := decide_eq_true h

theorem sampleImage_accepted {size : Word} (hsize : 0x238 ≤ size.toNat) :
    HeaderAccepted (sampleImage size) := by
  have hmagic : readBytes sampleBytes hdrHeader 4 = 0x53726448#32 := by decide
  have hentry : readBytes sampleBytes hdrXloadflags 2 &&& 1#16 = 1#16 := by decide
  have hheader : hdrHeader.toNat + 4 = 0x206 := rfl
  have hflags : hdrXloadflags.toNat + 2 = 0x238 := rfl
  exact ⟨sampleImage_reads (by omega), hmagic, sampleImage_reads (by omega), hentry⟩

end Rkhv.LinuxPreparation
