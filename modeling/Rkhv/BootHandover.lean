import Rkhv.BootAddressSpace

/-!
# What the bootloader hands over

When `efi_main` calls `chainload`, the hypervisor's sections lie in memory and
in the new address space, the chainload page describes them, the attachment and
the memory map, and all tables lie in recorded regions. It fails only with a
status of the firmware, on a processor without 4-level paging, or when the
firmware never lets it leave the boot services: the pool of sixteen regions
never runs over.
-/

namespace Rkhv.BootHandover

open ByteMemory WordFields HostTypes StateOutcome FreePages BootPagePool NestedWalk BootPaging
  BootWindow BootTables BootRuns MemoryMapImport BootLoading BootTablePages BootFiles BootSections
  BootAddressSpace

variable {firmware : Firmware} {b b' : Boot}

/-! ## After loading -/

/-- The chainload page once all files are loaded. -/
def loadedPage (page : Word) (addresses : List Word) (entry last : ChainloadAttachment) :
    ChainloadPage :=
  { emptyChainloadPage with
    rkhvSections := recordSections 0 bootSections addresses emptyChainloadPage.rkhvSections
    chainloadPage := page
    attachments := (emptyChainloadPage.attachments.setIfInBounds 0 entry).setIfInBounds 1 last }

/-- The sections and the attachment are in memory; no page table is. -/
structure Loaded (firmware : Firmware) (page : Word) (addresses : List Word)
    (entry last : ChainloadAttachment) (b : Boot) : Prop where
  pool : b.loader.pageTablePool = (bootStart b.loader.memory).loader.pageTablePool
  given : Given firmware.toBootServices 0 1 page
  calls : 0 < b.loader.allocateCalls
  sections : List.Forall₂ (SectionAt firmware b.loader.allocateCalls b.loader.memory) bootSections
    addresses
  attachment : AttachmentLoaded firmware b.loader.allocateCalls b.loader.memory
    "\\rkhv\\linux-bzImage" chainloadAttachmentLinuxBzimage entry
  ended : last.attachmentType = chainloadAttachmentEnd
  chainloadPage : b.chainloadPage = loadedPage page addresses entry last

/-- Sections stay where they are. -/
theorem sections_keep {calls calls' : ℕ} {m m' : Memory} {ss : List BootSection}
    {addresses : List Word} (h : List.Forall₂ (SectionAt firmware calls m) ss addresses)
    (hpages : FirmwarePages firmware.toBootServices) (hcalls : calls ≤ calls')
    (hkeeps : Keeps firmware.toBootServices calls m m') :
    List.Forall₂ (SectionAt firmware calls' m') ss addresses :=
  h.imp fun _ _ hs => hs.keep hpages hcalls hkeeps

/-- So do attachments. -/
theorem AttachmentLoaded.keep {calls calls' : ℕ} {m m' : Memory} {filename : String}
    {type : BitVec 8} {entry : ChainloadAttachment}
    (h : AttachmentLoaded firmware calls m filename type entry)
    (hpages : FirmwarePages firmware.toBootServices) (hcalls : calls ≤ calls')
    (hkeeps : Keeps firmware.toBootServices calls m m') :
    AttachmentLoaded firmware calls' m' filename type entry := by
  refine ⟨h.type, ?_⟩
  obtain hloaded | ⟨hsize, hmissing⟩ := h.loaded
  · obtain ⟨file, hfile, hat⟩ := hloaded
    exact Or.inl ⟨file, hfile, hat.keep hpages hcalls hkeeps⟩
  · obtain ⟨e, he, hnone⟩ := hmissing
    exact Or.inr ⟨hsize, e, he.mono hcalls, hnone⟩

/-- Both loops over files. -/
theorem loadFiles_spec {α : Type} {m : List Word → BootM α} {page : Word} {Q : α → Boot → Prop}
    {E : LoadStatus → Boot → Prop} (hpages : FirmwarePages firmware.toBootServices)
    (hgiven : Given firmware.toBootServices 0 1 page) (hcalls : b.loader.allocateCalls = 1)
    (hpool : b.loader.pageTablePool = (bootStart b.loader.memory).loader.pageTablePool)
    (hpage : b.chainloadPage = { emptyChainloadPage with chainloadPage := page })
    (he : ∀ e b', FirmwareFails firmware 6 e → E e b')
    (h : ∀ addresses entry last b', Loaded firmware page addresses entry last b' →
      b'.loader.allocateCalls ≤ 6 → Ensures (m addresses) b' Q E) :
    Ensures (do
      let addresses ← loadSections firmware 0 bootSections
      loadAttachments firmware 0 bootAttachments
      m addresses) b Q E := by
  have hsizes : ∀ s ∈ bootSections, s.sizeInPages.toNat ≤ 512 := by decide
  have hcount : bootSections.length = 4 := rfl
  rw [ensures_bind]
  refine (loadSections_spec hpages hsizes).mono (fun addresses b₁ hsections => ?_)
    fun e b' hfails => he e b' (hfails.mono (by omega))
  have hfew := hsections.step.few
  rw [ensures_bind]
  refine (loadAttachments_spec hpages).mono (fun _ b₂ hattachments => ?_)
    fun e b' hfails => he e b' (hfails.mono (by omega))
  obtain ⟨hstep, entry, last, hentry, hlast, hpage₂⟩ := hattachments
  have hall := hsections.step.trans hstep
  have hcalls₂ := hall.calls
  have hfew₂ := hall.few
  refine h addresses entry last b₂ ⟨?_, hgiven, by omega,
    sections_keep hsections.sections hpages hstep.calls hstep.memory, hentry, hlast, ?_⟩ (by omega)
  · rw [hall.pool, hpool]
    rfl
  · rw [hpage₂, hsections.page, hpage]
    rfl

/-! ## After the page tables -/

/-- The new address space, with all tables in recorded regions. -/
structure TablesReady (firmware : BootServices) (root : Frame) (placed : List (BootSection × Word))
    (l : Loader) : Prop where
  addressSpace : AddressSpace l.memory root placed
  recorded : ∀ va f, VisitsTable l.memory root va f → frameAddress f ∈ poolPages l
  fits : PoolFits l
  capacity : l.pageTablePool.capacity = rkhvMaxPageTableRegions

/-- All tables were given after the sections and the attachment, and no walk comes
back to the PML4. -/
structure TablesLast (firmware : Firmware) (n : ℕ) (addresses : List Word)
    (entry : ChainloadAttachment) (root : Frame) (m : Memory) : Prop where
  given : GivenBy firmware.toBootServices n root
  sections : ∀ p ∈ bootSections.zip addresses, ∃ k < n,
    Given firmware.toBootServices k p.1.sizeInPages p.2
  attachment : entry.size ≠ 0 → ∃ k < n, ∃ pages,
    Given firmware.toBootServices k pages entry.physicalAddress ∧ entry.size.toNat ≤ pages.toNat * 4096
  tables : ∀ va f, VisitsTable m root va f → ∃ k, n ≤ k ∧ GivenBy firmware.toBootServices k f
  below : ∀ va f, Visits m root va f → f ≠ root

/-- What was loaded before the PML4 was allocated. -/
theorem Loaded.tablesLast {page : Word} {addresses : List Word} {entry last : ChainloadAttachment}
    {root : Frame} {m : Memory} (h : Loaded firmware page addresses entry last b)
    (hroot : GivenBy firmware.toBootServices b.loader.allocateCalls root)
    (htables : ∀ va f, VisitsTable m root va f →
      ∃ k, b.loader.allocateCalls ≤ k ∧ GivenBy firmware.toBootServices k f)
    (hbelow : ∀ va f, Visits m root va f → f ≠ root) :
    TablesLast firmware b.loader.allocateCalls addresses entry root m where
  given := hroot
  sections := fun p hp => by
    obtain ⟨k, hk, hgiven⟩ := (List.forall₂_iff_zip.mp h.sections).2 hp |>.given
    exact ⟨k, hk, hgiven⟩
  attachment := fun hsize => by
    obtain ⟨file, _, hat⟩ | ⟨hempty, _⟩ := h.attachment.loaded
    · obtain ⟨k, hk, hgiven⟩ := hat.given
      have hle := le_attachmentPages file.fileSize
      rw [file.toNat_fileSize, ← hat.size] at hle
      exact ⟨k, hk, _, hgiven, hle⟩
    · exact absurd hempty hsize
  tables := htables
  below := hbelow

/-- Pages that calls before the PML4 gave are no tables. -/
theorem keeps_of_onlyTables {firmware : BootServices} {k : ℕ} {root : Frame} {m m' : Memory}
    (hpages : FirmwarePages firmware) (hroot : GivenBy firmware k root)
    (h : OnlyTables firmware (k + 1) root m m') : Keeps firmware k m m' := by
  intro j f hj hf
  refine h f ?_ fun i hi hc => ?_
  · rintro rfl
    have hsame := hpages.disjoint j k f hf hroot
    omega
  · have hsame := hpages.disjoint j i f hf hc
    omega

/-- Sections at addresses that the firmware gave are placed. -/
theorem placed_of_sections {calls : ℕ} {m : Memory} {addresses : List Word}
    (h : List.Forall₂ (SectionAt firmware calls m) bootSections addresses) :
    Placed firmware.toBootServices (bootSections.zip addresses) where
  fits := fun p hp => bootSections_fit.1 p.1 (List.of_mem_zip hp).1
  apart := by
    have hmap : (bootSections.zip addresses).map Prod.fst = bootSections :=
      List.map_fst_zip h.length_eq.le
    have hpairs := bootSections_fit.2
    rw [← hmap, List.pairwise_map] at hpairs
    exact hpairs
  given := fun p hp => by
    obtain ⟨k, _, hgiven⟩ := (List.forall₂_iff_zip.mp h).2 hp |>.given
    exact ⟨k, hgiven⟩

/-- The first of the frames that a call gives. -/
theorem givenBy_first {firmware : BootServices} (hpages : FirmwarePages firmware) {k : ℕ}
    {page : Word} (hgiven : Given firmware k 1 page) : GivenBy firmware k (frameOf page) := by
  have hone : (1 : Word).toNat = 1 := rfl
  have hpos : 0 < (1 : Word).toNat * 4096 := by decide
  obtain ⟨halign, hlimit⟩ := hpages.page _ _ _ hgiven
  rw [hone] at hlimit
  have hframe : frameAddress (frameOf page) = page :=
    MachinePages.frameAddress_frameOf ⟨halign, by omega⟩
  exact ⟨1, page, hgiven, by rw [hframe], by rw [hframe]; omega⟩

/-- How `efi_main` fails; it makes at most 21 calls of `AllocatePages`. -/
def StartFails (firmware : Firmware) (rounds : ℕ) (e : LoadStatus) : Prop :=
  FirmwareFails firmware 21 e ∨
    e = .efi .unsupported ∧ pagingCheckForSupportedLevel firmware = false ∨
    e = .refused ∧ ∀ k < rounds, (firmware.exitAttempt k).2 = false

/-- A pool without regions has enough of them. -/
theorem MapFails.fails {n rounds : ℕ} {l : Loader} {e : LoadStatus} (h : MapFails firmware n l e)
    (hpool : l.pageTablePool.pool = []) (hcapacity : l.pageTablePool.capacity = rkhvMaxPageTableRegions)
    (hcalls : l.allocateCalls ≤ 6) (hn : n ≤ 15) : StartFails firmware rounds e := by
  obtain h | ⟨_, hfull⟩ := h
  · exact Or.inl (h.mono (by omega))
  · rw [hpool, hcapacity, List.length_nil] at hfull
    exact absurd hfull (by change ¬16 < 0 + n; omega)

/-- Building the page tables: one region for the PML4, three for each section
and two for the window. -/
theorem buildTables_spec {α : Type} {m : Word → BootM α} {page : Word} {addresses : List Word}
    {entry last : ChainloadAttachment} {Q : α → Boot → Prop} {rounds : ℕ}
    (hpages : FirmwarePages firmware.toBootServices)
    (h : Loaded firmware page addresses entry last b) (hfew : b.loader.allocateCalls ≤ 6)
    (hm : ∀ root b', Loaded firmware page addresses entry last
        { b' with loader := { b'.loader with pageTablePool := b.loader.pageTablePool } } →
      TablesReady firmware.toBootServices root (bootSections.zip addresses) b'.loader →
      TablesLast firmware b.loader.allocateCalls addresses entry root b'.loader.memory →
      Ensures (m (frameAddress root)) b' Q fun e _ => StartFails firmware rounds e) :
    Ensures (do
      let pml4 ← onLoader (pagingAllocatePml4 firmware.toBootServices)
      mapSections firmware pml4 (bootSections.zip addresses)
      service firmware
      onLoader (pagingMapPhysical firmware.toBootServices pml4)
      m pml4) b Q (fun e _ => StartFails firmware rounds e) := by
  have hpool : b.loader.pageTablePool.pool = [] := by rw [h.pool]; rfl
  have hcapacity : b.loader.pageTablePool.capacity = rkhvMaxPageTableRegions := by rw [h.pool]; rfl
  have hfits : PoolFits b.loader := fun r hr => by
    rw [hpool] at hr
    cases hr
  have hfails : ∀ {n : ℕ} e, MapFails firmware n b.loader e → n ≤ 15 →
      StartFails firmware rounds e := fun e he hn => MapFails.fails he hpool hcapacity hfew hn
  have hplaced := placed_of_sections h.sections
  have hcount : (bootSections.zip addresses).length = 4 := by
    rw [List.length_zip, ← h.sections.length_eq]
    rfl
  -- the PML4
  have hfresh₀ := hpages.fresh (givenBy_first hpages h.given)
  rw [ensures_bind, ensures_onLoader, pagingAllocatePml4]
  refine ((pagingAllocatePage_recorded hfresh₀ h.calls hfits (Or.inl rfl)).and
    (pagingAllocatePage_spec hfresh₀ h.calls (by decide) (by decide))).mono (fun _ l₁ hpml4 => ?_)
    fun e _ he => hfails _ (mapFails_of_outOfPages he.1 (Nat.le_refl _)) (by decide)
  obtain ⟨hrecorded, root, rfl, hnew, _⟩ := hpml4
  have hroot := hnew.given root ⟨Nat.le_refl _, Nat.lt_succ_self _⟩
  have hfresh := hpages.fresh hroot
  have hstart := mapping_start hnew hrecorded
  rw [hnew.calls] at hstart
  -- the sections
  rw [ensures_bind]
  refine (mapSections_spec hfresh _ hplaced.fits hplaced.apart
    (fun _ _ _ _ _ _ _ hd => by cases hd) hstart).mono (fun _ b₂ hsections => ?_)
    fun e _ he => hfails _ he (by rw [hcount]; decide)
  obtain ⟨hpage, hmapping⟩ := hsections
  rw [hcount] at hmapping
  -- the window
  refine ensures_afterService (fun e he => Or.inl (he.mono (Nat.zero_le _))) ?_
  rw [ensures_bind, ensures_onLoader]
  obtain ⟨pages, hrecorded₂⟩ := hmapping.taken.recorded
  refine (pagingMapPhysical_taken hfresh hmapping.held.ok.calls hmapping.held.fits
    (mapping_slot_empty hmapping)).mono (fun _ l₃ hwindow => ?_)
    fun e _ he => hfails _ (mapFails_of_outOfPages (he.after hrecorded₂) (Nat.le_refl _)) (by decide)
  obtain ⟨pdpt, pds, hwindow⟩ := hwindow
  have htaken := hmapping.taken.trans hwindow.taken
  have hkeeps := keeps_of_onlyTables hpages hroot htaken.memory
  obtain ⟨pages', hrecorded₃⟩ := htaken.recorded
  refine hm root _ ⟨?_, h.given, h.calls.trans_le htaken.calls,
    sections_keep h.sections hpages htaken.calls hkeeps,
    AttachmentLoaded.keep h.attachment hpages htaken.calls hkeeps, h.ended, ?_⟩
    ⟨addressSpace_finished hfresh hpages hplaced hmapping hwindow,
      fun va f hf => visited_mem_poolPages hfresh hplaced hmapping hwindow hf, hrecorded₃.fits, ?_⟩
    (Loaded.tablesLast h hroot (fun va f hf => ?_) fun va f hf => ?_)
  · exact h.pool
  · rw [← h.chainloadPage, ← hpage]
  · rw [hrecorded₃.capacity, hcapacity]
  · obtain ⟨level, hvisit⟩ := hf
    obtain hpml4 | ⟨k, hk, _, hgiven⟩ := (visited_used hfresh hplaced hmapping hwindow hvisit).2
    · exact ⟨_, Nat.le_refl _, hpml4 ▸ hroot⟩
    · exact ⟨k, (Nat.le_succ _).trans hk, hgiven⟩
  · obtain ⟨level, hvisit⟩ := hf
    have hlevel := visited_tail_level hvisit
    exact (visited_used hfresh hplaced hmapping hwindow (List.mem_of_mem_tail hvisit)).1
      (Nat.lt_succ_of_le hlevel)

/-! ## Leaving the boot services -/

/-- The loop around `ExitBootServices` ends with the map that was accepted. -/
theorem exitBootServices_spec (rounds : ℕ) : ∀ {attempt : ℕ} {b : Boot},
    Ensures (exitBootServices firmware rounds attempt) b
      (fun mmap b' => b'.loader = b.loader ∧ b'.chainloadPage = b.chainloadPage ∧
        ∃ k, attempt ≤ k ∧ k < attempt + rounds ∧ firmware.exitAttempt k = (mmap, true))
      (fun e _ => FirmwareFails firmware 0 e ∨
        e = .refused ∧ ∀ k, attempt ≤ k → k < attempt + rounds → (firmware.exitAttempt k).2 = false) := by
  induction rounds with
  | zero => exact fun {attempt b} => Or.inr ⟨rfl, fun k hle hlt => absurd hlt (Nat.not_lt_of_le hle)⟩
  | succ rounds ih =>
    intro attempt b
    have he : ∀ e, FirmwareFails firmware 0 e → FirmwareFails firmware 0 e ∨ e = .refused ∧
        ∀ k, attempt ≤ k → k < attempt + (rounds + 1) → (firmware.exitAttempt k).2 = false :=
      fun _ => Or.inl
    rw [exitBootServices, ensures_bind, ensures_ignoredService]
    refine ensures_afterService he (ensures_afterService he ?_)
    rw [ensures_ite]
    refine ⟨fun haccepted => ?_, fun hrefused => ?_⟩
    · exact ⟨rfl, rfl, attempt, Nat.le_refl _, by omega, Prod.ext rfl haccepted⟩
    · refine ensures_afterService he (ensures_afterService he (ensures_afterService he ?_))
      refine ih.mono (fun mmap b' hend => ?_) fun e _ hfail => ?_
      · obtain ⟨hloader, hpage, k, hle, hlt, hk⟩ := hend
        exact ⟨hloader, hpage, k, by omega, by omega, hk⟩
      · refine hfail.imp_right fun hall => ⟨hall.1, fun k hle hlt => ?_⟩
        obtain rfl | hne := Nat.eq_or_lt_of_le hle
        · exact Bool.not_eq_true _ ▸ hrefused
        · exact hall.2 k hne (by omega)

/-! ## The whole bootloader -/

/-- What `chainload` finds in memory and in the chainload page. -/
structure HandedOver (firmware : Firmware) (rounds : ℕ) (page : Word) (addresses : List Word)
    (entry last : ChainloadAttachment) (root : Frame) (b : Boot) : Prop where
  given : Given firmware.toBootServices 0 1 page
  sections : List.Forall₂ (SectionAt firmware b.loader.allocateCalls b.loader.memory) bootSections
    addresses
  attachment : AttachmentLoaded firmware b.loader.allocateCalls b.loader.memory
    "\\rkhv\\linux-bzImage" chainloadAttachmentLinuxBzimage entry
  ended : last.attachmentType = chainloadAttachmentEnd
  tables : TablesReady firmware.toBootServices root (bootSections.zip addresses) b.loader
  tablesLast : ∃ n, TablesLast firmware n addresses entry root b.loader.memory
  page : ∃ k < rounds, ∃ mmap, firmware.exitAttempt k = (mmap, true) ∧ b.chainloadPage =
    { loadedPage page addresses entry last with efiMmapUsable := importMmap mmap }
  supported : pagingCheckForSupportedLevel firmware = true

/-- `efi_main` hands over, or fails as the firmware or the processor makes it. -/
theorem efiMain_spec (hpages : FirmwarePages firmware.toBootServices) (rounds : ℕ) (memory : Memory) :
    Ensures (efiMain firmware rounds) (bootStart memory)
      (fun r b => ∃ page addresses entry last root, r = (p2vIdentityMap page, frameAddress root) ∧
        HandedOver firmware rounds page addresses entry last root b)
      (fun e _ => StartFails firmware rounds e) := by
  have he : ∀ e, FirmwareFails firmware 0 e → StartFails firmware rounds e := fun _ h =>
    Or.inl (h.mono (Nat.zero_le _))
  refine ensures_afterService he (ensures_afterService he ?_)
  have hfirst : 0 + 1 ≤ 21 := by decide
  refine ensures_afterAllocate (Or.inl (by decide)) (fun _ h => Or.inl (h.mono hfirst))
    fun page hpage => ?_
  rw [ensures_bind, ensures_modifyMemory, ensures_bind, ensures_modifyPage, fsGetVolume]
  simp only [bind_assoc]
  refine ensures_afterService he (ensures_afterService he (ensures_afterService he ?_))
  refine loadFiles_spec hpages hpage rfl rfl rfl (fun _ _ h => Or.inl (h.mono (by decide))) ?_
  intro addresses entry last b₁ hloaded hfew
  refine ensures_afterService he ?_
  refine @buildTables_spec _ _ _ _ _ _ entry last _ _ hpages ⟨hloaded.pool, hloaded.given,
    hloaded.calls, hloaded.sections, hloaded.attachment, hloaded.ended, hloaded.chainloadPage⟩ hfew ?_
  intro root b₂ hkept hready hlast
  rw [ensures_ite]
  refine ⟨fun hsupported => ?_, fun hlevel => ?_⟩
  · refine ensures_afterService he ?_
    rw [ensures_bind]
    refine (exitBootServices_spec rounds).mono (fun mmap b₃ hexit => ?_) fun e _ hfail => ?_
    · obtain ⟨hloader, hpage₃, k, _, hk, hmmap⟩ := hexit
      rw [ensures_bind, ensures_modifyPage, ensures_pure]
      refine ⟨page, addresses, entry, last, root, rfl, hpage, ?_, ?_, hkept.ended, ?_, ?_,
        ⟨k, by omega, mmap, hmmap, ?_⟩, hsupported⟩
      · dsimp only
        rw [hloader]
        exact hkept.sections
      · dsimp only
        rw [hloader]
        exact hkept.attachment
      · dsimp only
        rw [hloader]
        exact hready
      · dsimp only
        rw [hloader]
        exact ⟨_, hlast⟩
      · dsimp only
        rw [hpage₃]
        exact congrArg (fun c : ChainloadPage => { c with efiMmapUsable := importMmap mmap })
          hkept.chainloadPage
    · obtain hfail | ⟨hrefused, hall⟩ := hfail
      · exact he _ hfail
      · exact Or.inr (Or.inr ⟨hrefused, fun k hk => hall k (Nat.zero_le k) (by omega)⟩)
  · refine ensures_afterService he ?_
    exact Or.inr (Or.inl ⟨rfl, Bool.not_eq_true _ ▸ hlevel⟩)

end Rkhv.BootHandover
