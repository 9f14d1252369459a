import Rkhv.BootHandover
import Rkhv.HostRuns
import Rkhv.VmcsFields

/-!
# What the hypervisor finds after the hand-over

The boot image is the chainload page, the sections of the hypervisor, the
attachment and the page tables. After `efi_main` every walk through the new
tables leads to the bytes that were loaded, `mm_get_attachment` finds the file of
the boot volume, and the hypervisor counts all frames of the image as used, so
that its allocator never gives one away.
-/

namespace Rkhv.BootReservation

open ByteMemory WordFields HostTypes HostState StateOutcome FreePages PageRuns BootPagePool NestedWalk
  BootPaging BootWindow BootTables MemoryMapImport BootLoading BootTablePages BootFiles BootSections
  BootAddressSpace BootHandover PageTracker HostPages HostRuns VmGuestPaging

variable {firmware : Firmware} {rounds : ℕ} {page : Word} {addresses : List Word}
  {entry last : ChainloadAttachment} {root f : Frame} {b : Boot}

/-! ## The chainload page -/

/-- The recorded section of each file, in the order of the array. -/
theorem recordSections_toList (haddresses : addresses.length = 4) :
    (recordSections 0 bootSections addresses emptyChainloadPage.rkhvSections).toList =
      (bootSections.zip addresses).map fun p => ⟨p.2, p.1.sizeInPages⟩ := by
  obtain ⟨rx, ro, rw', stack, rfl⟩ : ∃ a b c d, addresses = [a, b, c, d] :=
    List.length_eq_four.mp haddresses
  rfl

section Page

variable (h : HandedOver firmware rounds page addresses entry last root b)

include h

theorem HandedOver.length_addresses : addresses.length = 4 := h.sections.length_eq.symm

theorem HandedOver.rkhvSections :
    b.page.rkhvSections.toList = (bootSections.zip addresses).map fun p => ⟨p.2, p.1.sizeInPages⟩ := by
  obtain ⟨_, _, _, _, hpage⟩ := h.page
  rw [Boot.page, hpage]
  exact recordSections_toList (HandedOver.length_addresses h)

theorem HandedOver.chainloadPage : b.page.chainloadPage = page := by
  obtain ⟨_, _, _, _, hpage⟩ := h.page
  rw [Boot.page, hpage]
  rfl

theorem HandedOver.attachments :
    b.page.attachments.toList = [entry, last, ⟨0, 0, 0⟩, ⟨0, 0, 0⟩] := by
  obtain ⟨_, _, _, _, hpage⟩ := h.page
  rw [Boot.page, hpage]
  rfl

/-- A section and its entry in the chainload page. -/
theorem HandedOver.section_entry {p : BootSection × ChainloadRegion}
    (hp : p ∈ bootSections.zip b.page.rkhvSections.toList) :
    p.2.pages = p.1.sizeInPages ∧ (p.1, p.2.physicalAddress) ∈ bootSections.zip addresses := by
  rw [HandedOver.rkhvSections h] at hp
  obtain ⟨a₁, a₂, a₃, a₄, haddresses⟩ : ∃ a b c d, addresses = [a, b, c, d] :=
    List.length_eq_four.mp (HandedOver.length_addresses h)
  rw [haddresses] at hp ⊢
  simp only [bootSections, List.zip_cons_cons, List.zip_nil_right, List.map_cons, List.map_nil,
    List.mem_cons, List.not_mem_nil, or_false] at hp ⊢
  obtain rfl | rfl | rfl | rfl := hp
  all_goals exact ⟨rfl, by simp⟩

end Page

/-! ## The attachment -/

/-- The loop of `mm_get_attachment`, which stops at the first end mark and at an
empty attachment of the type. -/
def findAttachment (attachmentType : BitVec 8) : List ChainloadAttachment → Word × Word
  | [] => (0, 0)
  | iter :: rest =>
    if iter.attachmentType = chainloadAttachmentEnd then (0, 0)
    else if iter.attachmentType = attachmentType then
      if iter.size = 0 then (0, 0)
      else (p2vIdentityMap iter.physicalAddress, iter.size.setWidth 64)
    else findAttachment attachmentType rest

/-- `mm_get_attachment`: the pointer, which is `NULL` where nothing is found, and
`*attachment_size`. -/
def mmGetAttachment (c : ChainloadPage) (attachmentType : BitVec 8) : Word × Word :=
  findAttachment attachmentType c.attachments.toList

/-- The size of an attachment that fits the 56-bit field. -/
theorem AttachmentAt.fileSize {calls : ℕ} {m : Memory} {file : EfiFile}
    (h : AttachmentAt firmware calls m file entry) : entry.size.setWidth 64 = file.fileSize := by
  have hlt := entry.size.isLt
  apply BitVec.eq_of_toNat_eq
  rw [BitVec.toNat_setWidth, file.toNat_fileSize, ← h.size]
  omega

section Attachment

variable (h : HandedOver firmware rounds page addresses entry last root b)

include h

/-- The kernel is the first attachment. -/
theorem HandedOver.mmGetAttachment_eq :
    mmGetAttachment b.page chainloadAttachmentLinuxBzimage =
      if entry.size = 0 then (0, 0)
      else (p2vIdentityMap entry.physicalAddress, entry.size.setWidth 64) := by
  have hend : chainloadAttachmentLinuxBzimage ≠ chainloadAttachmentEnd := by decide
  rw [mmGetAttachment, HandedOver.attachments h, findAttachment, h.attachment.type, if_neg hend,
    if_pos rfl]

/-- Nothing but the kernel is found. -/
theorem HandedOver.mmGetAttachment_other {attachmentType : BitVec 8}
    (hother : attachmentType ≠ chainloadAttachmentLinuxBzimage) :
    mmGetAttachment b.page attachmentType = (0, 0) := by
  have hend : chainloadAttachmentLinuxBzimage ≠ chainloadAttachmentEnd := by decide
  rw [mmGetAttachment, HandedOver.attachments h, findAttachment, h.attachment.type, if_neg hend,
    if_neg hother.symm, findAttachment, h.ended, if_pos rfl]

end Attachment

/-- The bytes of a file, at a pointer into the window of physical memory. -/
structure FileAt (m : Memory) (root : Frame) (file : EfiFile) (pointer : Word) : Prop where
  bytes : ∀ j (hj : j < file.bytes.length),
    m (v2pIdentityMap pointer + BitVec.ofNat 64 j) = file.bytes[j]
  /-- Below the end of the window the hypervisor reads these bytes. -/
  walk : ∀ j < file.bytes.length, (v2pIdentityMap pointer).toNat + j < 2 ^ 39 →
    bootWalk m root (pointer + BitVec.ofNat 64 j) =
      .ok ⟨(v2pIdentityMap pointer + BitVec.ofNat 64 j).toNat, true, true⟩

/-- The virtual address of physical memory below the end of the window. -/
theorem bootWalk_p2v {m : Memory} {placed : List (BootSection × Word)} {pa : Word}
    (h : AddressSpace m root placed) (hpa : pa.toNat < 2 ^ 39) :
    bootWalk m root (p2vIdentityMap pa) = .ok ⟨pa.toNat, true, true⟩ := by
  have hbase : rkhvPhysicalMemoryBase.toNat = 2 ^ 40 := rfl
  have hva : (p2vIdentityMap pa).toNat = pa.toNat + 2 ^ 40 := by
    rw [p2vIdentityMap, BitVec.toNat_add, hbase]
    omega
  rw [h.window _ (Or.inr ⟨by omega, by omega⟩), hva]
  have hmod : (pa.toNat + 2 ^ 40) % 2 ^ 39 = pa.toNat := by omega
  rw [hmod]

/-- The attachment lies at its pointer. -/
theorem AttachmentAt.fileAt {calls : ℕ} {m : Memory} {file : EfiFile}
    {placed : List (BootSection × Word)} (h : AttachmentAt firmware calls m file entry)
    (hspace : AddressSpace m root placed) : FileAt m root file (p2vIdentityMap entry.physicalAddress) where
  bytes := fun j hj => by
    rw [v2p_p2v]
    exact h.bytes j hj
  walk := fun j hj hlimit => by
    rw [v2p_p2v] at hlimit ⊢
    have hlt := entry.physicalAddress.isLt
    have hsum : (entry.physicalAddress + BitVec.ofNat 64 j).toNat = entry.physicalAddress.toNat + j := by
      rw [BitVec.toNat_add, BitVec.toNat_ofNat]
      omega
    have hpointer : p2vIdentityMap entry.physicalAddress + BitVec.ofNat 64 j =
        p2vIdentityMap (entry.physicalAddress + BitVec.ofNat 64 j) := by
      rw [p2vIdentityMap, p2vIdentityMap, BitVec.add_assoc, BitVec.add_assoc,
        BitVec.add_comm rkhvPhysicalMemoryBase]
    rw [hpointer]
    exact bootWalk_p2v hspace (by omega)

/-! ## Reservation -/

/-- A frame of the boot image. -/
inductive ImageFrame (b : Boot) (root f : Frame) : Prop where
  /-- The frame of the chainload page. -/
  | chainloadPage (h : frameAddress f = b.page.chainloadPage)
  /-- A page of a section. -/
  | sectionPage (p : BootSection × ChainloadRegion)
      (hp : p ∈ bootSections.zip b.page.rkhvSections.toList)
      (hle : p.2.physicalAddress.toNat ≤ (frameAddress f).toNat)
      (hlt : (frameAddress f).toNat < p.2.physicalAddress.toNat + p.1.sizeInPages.toNat * 4096)
  /-- A page with bytes of the kernel. -/
  | attachment (pointer size : Word)
      (h : mmGetAttachment b.page chainloadAttachmentLinuxBzimage = (pointer, size))
      (hle : (v2pIdentityMap pointer).toNat ≤ (frameAddress f).toNat)
      (hlt : (frameAddress f).toNat < (v2pIdentityMap pointer).toNat + size.toNat)
  /-- A table that the walk of some address visits. -/
  | table (va : Word) (h : VisitsTable b.loader.memory root va f)

theorem frameAddress_aligned (f : Frame) : (frameAddress f).toNat % 4096 = 0 := by
  rw [toNat_frameAddress]
  exact Nat.mul_mod_left _ _

/-- Pages that the firmware gave form a range. -/
theorem rangeFits_given (hpages : FirmwarePages firmware.toBootServices) {k : ℕ}
    {pages address : Word} (hgiven : Given firmware.toBootServices k pages address) :
    RangeFits ⟨address, pages⟩ := by
  obtain ⟨halign, hlimit⟩ := hpages.page _ _ _ hgiven
  refine ⟨halign, ?_⟩
  dsimp only
  omega

/-- The range test accepts the frames that lie in pages of the firmware. -/
theorem regionUses_given (hpages : FirmwarePages firmware.toBootServices) {k : ℕ}
    {pages address : Word} (hgiven : Given firmware.toBootServices k pages address)
    (hle : address.toNat ≤ (frameAddress f).toNat)
    (hlt : (frameAddress f).toNat < address.toNat + pages.toNat * 4096) :
    regionUses (frameAddress f) address pages = true := by
  have hfits := rangeFits_given hpages hgiven
  exact regionUses_of_mem hfits
    ((mem_runPages hfits.runFits).mpr ⟨frameAddress_aligned f, hle, hlt⟩)

/-- A frame that one of the tests accepts is used. -/
theorem mmPageUsedByChainload_frame (c : ChainloadPage) (f : Frame) :
    mmPageUsedByChainload c (frameAddress f) = true ↔
      frameAddress f = c.chainloadPage ∨
      (∃ r ∈ c.rkhvSections.toList, regionUses (frameAddress f) r.physicalAddress r.pages = true) ∨
      attachmentsUse (frameAddress f) c.attachments.toList = true ∨
      ∃ r ∈ c.pageTableRegions.toList, regionUses (frameAddress f) r.physicalAddress r.pages = true := by
  rw [mmPageUsedByChainload, and_pageMask (frameAddress_aligned f)]
  simp only [Bool.or_eq_true, beq_iff_eq, List.any_eq_true, or_assoc]

section Reserved

variable (hpages : FirmwarePages firmware.toBootServices)
  (h : HandedOver firmware rounds page addresses entry last root b)

include h

/-- Tables lie in recorded regions. -/
theorem HandedOver.table_used {va : Word} (hf : VisitsTable b.loader.memory root va f) :
    ∃ r ∈ b.page.pageTableRegions.toList,
      regionUses (frameAddress f) r.physicalAddress r.pages = true := by
  have hmem := h.tables.recorded va f hf
  rw [poolPages, regionsPages, List.mem_flatMap] at hmem
  obtain ⟨r, hr, hpage⟩ := hmem
  exact ⟨r, PagingPageTablePool.mem_pageTableRegions h.tables.capacity hr,
    regionUses_of_mem (h.tables.fits r hr) hpage⟩

include hpages

/-- Sections lie in pages of the firmware. -/
theorem HandedOver.section_used {p : BootSection × ChainloadRegion}
    (hp : p ∈ bootSections.zip b.page.rkhvSections.toList)
    (hle : p.2.physicalAddress.toNat ≤ (frameAddress f).toNat)
    (hlt : (frameAddress f).toNat < p.2.physicalAddress.toNat + p.1.sizeInPages.toNat * 4096) :
    regionUses (frameAddress f) p.2.physicalAddress p.2.pages = true := by
  obtain ⟨hcount, hplaced⟩ := HandedOver.section_entry h hp
  obtain ⟨_, hat⟩ := List.forall₂_iff_zip.mp h.sections
  obtain ⟨k, _, hgiven⟩ := (hat hplaced).given
  rw [hcount]
  exact regionUses_given hpages hgiven hle hlt

/-- So does the kernel. -/
theorem HandedOver.attachment_used {pointer size : Word}
    (hget : mmGetAttachment b.page chainloadAttachmentLinuxBzimage = (pointer, size))
    (hle : (v2pIdentityMap pointer).toNat ≤ (frameAddress f).toNat)
    (hlt : (frameAddress f).toNat < (v2pIdentityMap pointer).toNat + size.toNat) :
    attachmentsUse (frameAddress f) b.page.attachments.toList = true := by
  have hend : chainloadAttachmentLinuxBzimage ≠ chainloadAttachmentEnd := by decide
  have hzero : (0 : Word).toNat = 0 := rfl
  rw [HandedOver.mmGetAttachment_eq h] at hget
  split at hget
  · obtain ⟨_, rfl⟩ := Prod.mk.inj hget
    omega
  · rename_i hsize
    obtain ⟨rfl, rfl⟩ := Prod.mk.inj hget
    rw [v2p_p2v] at hle hlt
    obtain hloaded | ⟨hempty, _⟩ := h.attachment.loaded
    · obtain ⟨file, _, hat⟩ := hloaded
      obtain ⟨k, _, hgiven⟩ := hat.given
      have hle' := le_attachmentPages file.fileSize
      have hcount := AttachmentAt.fileSize hat
      have huses : regionUses (frameAddress f) entry.physicalAddress
          (attachmentPages (entry.size.setWidth 64)) = true := by
        rw [hcount] at hlt ⊢
        exact regionUses_given hpages hgiven hle (by omega)
      have hpos : 0 < entry.size := by
        rw [BitVec.lt_def]
        exact Nat.pos_of_ne_zero fun hz => hsize (BitVec.eq_of_toNat_eq hz)
      rw [HandedOver.attachments h, attachmentsUse, h.attachment.type, if_neg hend,
        if_pos ⟨hpos, huses⟩]
    · exact absurd hempty hsize

/-- The whole image counts as used. -/
theorem HandedOver.image_used (hf : ImageFrame b root f) :
    mmPageUsedByChainload b.page (frameAddress f) = true := by
  rw [mmPageUsedByChainload_frame]
  cases hf with
  | chainloadPage hself => exact Or.inl hself
  | sectionPage p hp hle hlt =>
    exact Or.inr (Or.inl ⟨p.2, (List.of_mem_zip hp).2, HandedOver.section_used hpages h hp hle hlt⟩)
  | attachment pointer size hget hle hlt =>
    exact Or.inr (Or.inr (Or.inl (HandedOver.attachment_used hpages h hget hle hlt)))
  | table va hvisits => exact Or.inr (Or.inr (Or.inr (HandedOver.table_used h hvisits)))

end Reserved

/-! ## The hypervisor's runs -/

section Runs

variable {hw : Hardware} {s s' : Hv}

/-- No operation changes the chainload page. -/
theorem hostOp_chainloadPage (h : HostOk s) {op : HostOp} (hop : OnListed s op)
    (hcall : hostOp hw op s = .ok () s') : s'.mmChainloadPage = s.mmChainloadPage := by
  cases op with
  | createInitializedVmcs vm =>
    have hcreated := (VmcsFields.vmxCreateInitializedVmcs_created h).of_ok hcall
    rw [hcreated.host]
  | _ => exact hostOp_chainload h ⟨hop, trivial⟩ hcall

/-- The chainload page stays the one that the bootloader handed over. -/
theorem HostRun.chainloadPage {c : ChainloadPage} {memory : Memory} {cpu : Cpu}
    (hmap : PhysicalMap c.efiMmapUsable) (hrun : HostRun hw OnListed (bootState c memory cpu) s) :
    s.mmChainloadPage = c := by
  induction hrun with
  | start => rfl
  | step hrun hadmitted hcall ih =>
    have hok := HostRun.hostOk hrun (hostOk_boot hmap memory cpu) fun _ _ hp => hp
    exact (hostOp_chainloadPage hok hadmitted hcall).trans ih

end Runs

/-- `efi_main` hands over when nothing makes it fail. -/
theorem efiMain_returns {memory : Memory} (hpages : FirmwarePages firmware.toBootServices)
    (hnone : ∀ e, ¬StartFails firmware rounds e) : ∃ pointer root b,
      efiMain firmware rounds (bootStart memory) = .ok (pointer, frameAddress root) b := by
  have hspec := efiMain_spec hpages rounds memory
  cases hmain : efiMain firmware rounds (bootStart memory) with
  | ok r b =>
    obtain ⟨page, _, _, _, root, hresult, _⟩ := hspec.of_ok hmain
    rw [hresult]
    exact ⟨p2vIdentityMap page, root, b, rfl⟩
  | error e b => exact absurd (hspec.of_error hmain) (hnone e)

/-! ## Firmware with room -/

/-- Firmware with zones of 2 MiB for the calls of `AllocatePages`, and short files. -/
def roomyFirmware : Firmware where
  allocatePages := fun k n =>
    if n.toNat ≤ 512 ∧ k < 64 then .ok (BitVec.ofNat 64 ((k + 1) * 2 ^ 21)) else .error .outOfResources
  serviceError := fun _ => none
  file := fun _ => .ok ⟨[0x4d, 0x5a, 0x90], by decide⟩
  cr0 := cr0Pg
  cr4 := cr4Pae
  ia32Efer := ia32EferLme
  exitAttempt := fun _ => ([⟨.conventionalMemory, 0x10000, 4⟩], true)

theorem roomyFirmware_answers {k : ℕ} {n address : Word}
    (h : roomyFirmware.allocatePages k n = .ok address) :
    n.toNat ≤ 512 ∧ k < 64 ∧ address.toNat = (k + 1) * 2 ^ 21 := by
  rw [roomyFirmware] at h
  dsimp only at h
  split at h
  · rename_i hsmall
    obtain rfl := Except.ok.inj h
    refine ⟨hsmall.1, hsmall.2, ?_⟩
    rw [BitVec.toNat_ofNat]
    omega
  · cases h

theorem firmwarePages_roomy : FirmwarePages roomyFirmware.toBootServices where
  page := fun k n address h => by
    obtain ⟨hn, hk, haddress⟩ := roomyFirmware_answers h
    omega
  disjoint := fun j k f hj hk => by
    obtain ⟨n, address, hanswer, hle, hlt⟩ := hj
    obtain ⟨n', address', hanswer', hle', hlt'⟩ := hk
    obtain ⟨hn, _, haddress⟩ := roomyFirmware_answers hanswer
    obtain ⟨hn', _, haddress'⟩ := roomyFirmware_answers hanswer'
    omega

/-- It never makes `efi_main` fail. -/
theorem not_startFails_roomy (e : LoadStatus) : ¬StartFails roomyFirmware 1 e := by
  rintro (hfails | ⟨_, hlevel⟩ | ⟨_, hrefused⟩)
  · cases e with
    | efi e =>
      obtain ⟨k, hk, pages, a, hasks, hanswer, _⟩ := hfails
      have hsmall : pages.toNat ≤ 512 := by
        obtain hsmall | ⟨filename, file, hfile, rfl⟩ := hasks
        · exact hsmall
        · obtain rfl := Except.ok.inj hfile
          decide
      rw [roomyFirmware] at hanswer
      dsimp only at hanswer
      rw [if_pos ⟨hsmall, by omega⟩] at hanswer
      cases hanswer
    | service e =>
      obtain ⟨_, hservice⟩ | ⟨_, hfile⟩ := hfails
      · cases hservice
      · cases hfile
    | refused => exact hfails
  · exact absurd hlevel (by decide)
  · exact absurd (hrefused 0 Nat.zero_lt_one) (by decide)

/-- So it starts the hypervisor. -/
theorem efiMain_roomy (memory : Memory) : ∃ pointer root b,
    efiMain roomyFirmware 1 (bootStart memory) = .ok (pointer, frameAddress root) b :=
  efiMain_returns firmwarePages_roomy not_startFails_roomy

/-! ## After `efi_main` -/

section Main

variable {memory : Memory} {pointer : Word}

/-- What a returned call of `efi_main` handed over. -/
theorem efiMain_handedOver (hpages : FirmwarePages firmware.toBootServices)
    (h : efiMain firmware rounds (bootStart memory) = .ok (pointer, frameAddress root) b) :
    ∃ page addresses entry last, pointer = p2vIdentityMap page ∧
      HandedOver firmware rounds page addresses entry last root b := by
  obtain ⟨page, addresses, entry, last, root', hresult, hover⟩ :=
    (efiMain_spec hpages rounds memory).of_ok h
  obtain ⟨rfl, hroot⟩ := Prod.mk.inj hresult
  obtain rfl := frameAddress_injective hroot
  exact ⟨page, addresses, entry, last, rfl, hover⟩

/-- `efi_main` hands over an address space in which each section lies at its
virtual address, with its bytes and its permission, and physical memory in its
two windows; no other canonical address leads anywhere. -/
theorem efiMain_addressSpace {pml4 : Word} (hpages : FirmwarePages firmware.toBootServices)
    (h : efiMain firmware rounds (bootStart memory) = .ok (pointer, pml4) b) :
    pointer = p2vIdentityMap b.page.chainloadPage ∧ ∃ root, pml4 = frameAddress root ∧
      (∀ p ∈ bootSections.zip b.page.rkhvSections.toList, p.2.pages = p.1.sizeInPages ∧
        ∀ j < p.1.sizeInPages.toNat * 4096,
          bootWalk b.loader.memory root (p.1.virtualAddress + BitVec.ofNat 64 j) =
            .ok ⟨(p.2.physicalAddress + BitVec.ofNat 64 j).toNat, decide (p.1.permission = .rw),
              decide (p.1.permission = .rx)⟩ ∧
          b.loader.memory (p.2.physicalAddress + BitVec.ofNat 64 j) = sectionByte firmware p.1 j) ∧
      (∀ va, InWindow va → bootWalk b.loader.memory root va = .ok ⟨va.toNat % 2 ^ 39, true, true⟩) ∧
      ∀ va, Canonical va → ¬InWindow va → (∀ s ∈ bootSections, ¬InSection s va) →
        bootWalk b.loader.memory root va = .error .notPresent := by
  obtain ⟨page, addresses, entry, last, root, hresult, hover⟩ :=
    (efiMain_spec hpages rounds memory).of_ok h
  obtain ⟨hpointer, hroot⟩ := Prod.mk.inj hresult
  have hspace := hover.tables.addressSpace
  refine ⟨by rw [HandedOver.chainloadPage hover, hpointer], root, hroot, fun p hp => ?_, hspace.window,
    fun va hcanonical hout hnone => hspace.nothing va hcanonical hout fun s a hs =>
      hnone s (List.of_mem_zip hs).1⟩
  obtain ⟨hcount, hplaced⟩ := HandedOver.section_entry hover hp
  obtain ⟨_, hat⟩ := List.forall₂_iff_zip.mp hover.sections
  exact ⟨hcount, fun j hj => ⟨hspace.sections _ _ hplaced j hj, (hat hplaced).bytes j hj⟩⟩

theorem efiMain_addressSpace_roomy : ∃ pointer root b,
    efiMain roomyFirmware 1 (bootStart fun _ => 0) = .ok (pointer, frameAddress root) b ∧
      pointer = p2vIdentityMap b.page.chainloadPage := by
  obtain ⟨pointer, root, b, hmain⟩ := efiMain_roomy fun _ => 0
  exact ⟨pointer, root, b, hmain, (efiMain_addressSpace firmwarePages_roomy hmain).1⟩

/-- `efi_main` fails only as the firmware or the processor makes it: with a
status of a service, of a file or of one of the first 21 calls of `AllocatePages`,
without 4-level paging, or when the firmware never accepts a key. The pool of
sixteen regions never runs over. -/
theorem efiMain_startFails {e : LoadStatus} (hpages : FirmwarePages firmware.toBootServices)
    (h : efiMain firmware rounds (bootStart memory) = .error e b) :
    StartFails firmware rounds e ∧ e ≠ .efi .bufferTooSmall := by
  have hfails := (efiMain_spec hpages rounds memory).of_error h
  refine ⟨hfails, ?_⟩
  rintro rfl
  obtain hfirmware | ⟨hlevel, _⟩ | ⟨hrefused, _⟩ := hfails
  · obtain ⟨_, _, _, _, _, _, hstatus⟩ := hfirmware
    cases hstatus
  · cases hlevel
  · cases hrefused

/-- Firmware without any page to give. -/
def fullFirmware : Firmware :=
  { roomyFirmware with allocatePages := fun _ _ => .error .outOfResources }

theorem efiMain_startFails_full : ∃ e b,
    efiMain fullFirmware 1 (bootStart fun _ => 0) = .error e b ∧ e = .efi (.allocatePages .outOfResources) ∧
      StartFails fullFirmware 1 e := by
  have hpages : FirmwarePages fullFirmware.toBootServices := by
    constructor
    · intro _ _ _ hanswer
      cases hanswer
    · intro _ _ _ hgiven _
      obtain ⟨_, _, hanswer, _⟩ := hgiven
      cases hanswer
  have hmain : ∃ b, efiMain fullFirmware 1 (bootStart fun _ => 0) =
      .error (.efi (.allocatePages .outOfResources)) b := ⟨_, rfl⟩
  obtain ⟨b, hmain⟩ := hmain
  exact ⟨_, b, hmain, rfl, (efiMain_startFails hpages hmain).1⟩

/-- The hypervisor never holds a frame of the boot image, nor does its allocator
give one, in any run of operations on the page that `efi_main` handed over. -/
theorem efiMain_imageReserved {hw : Hardware} {m : Memory} {cpu : Cpu} {s : Hv}
    (hpages : FirmwarePages firmware.toBootServices)
    (h : efiMain firmware rounds (bootStart memory) = .ok (pointer, frameAddress root) b)
    (hmap : PhysicalMap b.page.efiMmapUsable)
    (hrun : HostRun hw OnListed (bootState b.page m cpu) s) (hf : ImageFrame b root f) :
    mmPageUsedByChainload s.mmChainloadPage (frameAddress f) = true ∧
      frameAddress f ∉ heldPages s ∧
      ∀ page s', mmGetFreePage s = .ok page s' → page ≠ frameAddress f := by
  obtain ⟨page, addresses, entry, last, _, hover⟩ := efiMain_handedOver hpages h
  have hused : mmPageUsedByChainload s.mmChainloadPage (frameAddress f) = true := by
    rw [HostRun.chainloadPage hmap hrun]
    exact HandedOver.image_used hpages hover hf
  have hok := HostRun.hostOk hrun (hostOk_boot hmap m cpu) fun _ _ hp => hp
  refine ⟨hused, fun hheld => ?_, fun page s' hget hsame => ?_⟩
  · exact absurd (hok.unowned _ hheld) (by rw [hused]; decide)
  · obtain ⟨_, _, _, hfresh⟩ := (hostGetFreePage_spec hok).of_ok hget
    have hunowned := hfresh.unowned
    rw [hsame, hused] at hunowned
    cases hunowned

/-- The memory map that the roomy firmware hands over. -/
theorem physicalMap_roomy (h : efiMain roomyFirmware 1 (bootStart memory) = .ok (pointer, frameAddress root) b) :
    PhysicalMap b.page.efiMmapUsable := by
  obtain ⟨page, addresses, entry, last, _, hover⟩ := efiMain_handedOver firmwarePages_roomy h
  obtain ⟨k, _, mmap, hmmap, hpage⟩ := hover.page
  obtain ⟨rfl, _⟩ := Prod.mk.inj hmmap
  have hsmall : importMmap [⟨.conventionalMemory, 0x10000, 4⟩] = smallMap 4 := by rfl
  have hefi : b.page.efiMmapUsable = smallMap 4 := by rw [Boot.page, hpage, ← hsmall]
  rw [hefi]
  exact physicalMap_smallMap fun page hp => by fin_cases hp <;> exact ⟨by decide, by decide⟩

/-- The PML4 stays out of the hands of a host that has not taken any page yet. -/
theorem efiMain_imageReserved_roomy : ∃ pointer root b f,
    efiMain roomyFirmware 1 (bootStart fun _ => 0) = .ok (pointer, frameAddress root) b ∧
      ImageFrame b root f ∧ ∀ page s', mmGetFreePage (bootState b.page b.loader.memory
        (smallHost 4).cpu) = .ok page s' → page ≠ frameAddress f := by
  obtain ⟨pointer, root, b, hmain⟩ := efiMain_roomy fun _ => 0
  have hf : ImageFrame b root root := .table 0 ⟨4, List.mem_cons_self⟩
  have hrun : HostRun obedientHardware OnListed (bootState b.page b.loader.memory (smallHost 4).cpu)
      (bootState b.page b.loader.memory (smallHost 4).cpu) := .start
  have hreserved := efiMain_imageReserved firmwarePages_roomy hmain (physicalMap_roomy hmain) hrun hf
  exact ⟨pointer, root, b, root, hmain, hf, hreserved.2.2⟩

end Main

end Rkhv.BootReservation
