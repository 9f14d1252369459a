import Rkhv.BootRuns
import Rkhv.MemoryMapImport

/-!
# The bootloader as a program

`efi_main` reads the sections of the hypervisor and the attachments from the
boot volume, builds the page tables, leaves the boot services and hands over to
`chainload`. Every call of the firmware other than `AllocatePages` is numbered
and may fail; files are lists of bytes, and memory is identity mapped.
-/

namespace Rkhv.BootLoading

open ByteMemory HostTypes StateOutcome FreePages BootPagePool VmGuestPaging BootPaging MemoryMapImport

/-! ## The firmware -/

/-- Failures of firmware services other than `AllocatePages`. -/
inductive ServiceError where
  /-- `EFI_NOT_FOUND` -/
  | notFound
  /-- Any other error status. -/
  | other (status : Word)
  deriving DecidableEq

/-- A file of the boot volume; its size is a 64-bit number. -/
structure EfiFile where
  bytes : List (BitVec 8)
  size_lt : bytes.length < 2 ^ 64

/-- `FileSize` of its `EFI_FILE_INFO`. -/
def EfiFile.fileSize (f : EfiFile) : Word := BitVec.ofNat 64 f.bytes.length

theorem EfiFile.toNat_fileSize (f : EfiFile) : f.fileSize.toNat = f.bytes.length := by
  rw [fileSize, BitVec.toNat_ofNat, Nat.mod_eq_of_lt f.size_lt]

/-- The firmware and the processor as `efi_main` meets them. -/
structure Firmware extends BootServices where
  /-- How the `k`-th call of a service other than `AllocatePages` fails, if it does. -/
  serviceError : ℕ → Option ServiceError
  /-- `Open` on the boot volume. -/
  file : String → Except ServiceError EfiFile
  cr0 : Word
  cr4 : Word
  ia32Efer : Word
  /-- The memory map at the `k`-th attempt to leave the boot services, and
  whether `ExitBootServices` accepts its key. -/
  exitAttempt : ℕ → List EfiMemoryDescriptor × Bool

/-- `EFI_STATUS` values other than `EFI_SUCCESS` that `efi_main` returns. -/
inductive LoadStatus where
  /-- A status of the paging functions or of `AllocatePages`. -/
  | efi (e : EfiStatus)
  /-- A status of another service. -/
  | service (e : ServiceError)
  /-- `ExitBootServices` refused as often as the rounds that the model allows. -/
  | refused
  deriving DecidableEq

/-- `status == EFI_NOT_FOUND` -/
def LoadStatus.isNotFound : LoadStatus → Bool
  | .efi (.allocatePages .notFound) | .service .notFound => true
  | _ => false

/-- State of `efi_main`. The chainload page is kept as a record; its array
`page_table_regions` is the storage of the page-table pool. -/
structure Boot where
  loader : Loader
  /-- Calls of services other than `AllocatePages` so far. -/
  serviceCalls : ℕ
  chainloadPage : ChainloadPage

/-- The chainload page with the entries of the pool. -/
def Boot.page (b : Boot) : ChainloadPage :=
  { b.chainloadPage with pageTableRegions := b.loader.pageTablePool.pageTableRegions }

/-- A function of `efi_main`. -/
abbrev BootM := EStateM LoadStatus Boot

/-- A function on the page tables and the allocations. -/
def onLoader {α : Type} (m : LoaderM α) : BootM α := fun b =>
  match m b.loader with
  | .ok a l => .ok a { b with loader := l }
  | .error e l => .error (.efi e) { b with loader := l }

/-- A service other than `AllocatePages`, under `VERIFY_EFI` or `RETURN_EFI`. -/
def service (firmware : Firmware) : BootM Unit := do
  let b ← get
  set { b with serviceCalls := b.serviceCalls + 1 }
  match firmware.serviceError b.serviceCalls with
  | some e => throw (.service e)
  | none => pure ()

/-- A service whose status is ignored. -/
def ignoredService : BootM Unit := modify fun b => { b with serviceCalls := b.serviceCalls + 1 }

/-- Change the chainload page. -/
def modifyPage (f : ChainloadPage → ChainloadPage) : BootM Unit :=
  modify fun b => { b with chainloadPage := f b.chainloadPage }

/-- Change the memory. -/
def modifyMemory (f : Memory → Memory) : BootM Unit :=
  modify fun b => { b with loader := { b.loader with memory := f b.loader.memory } }

/-! ## Files -/

/-- `volume->Open` -/
def openFile (firmware : Firmware) (filename : String) : BootM EfiFile := do
  service firmware
  match firmware.file filename with
  | .error e => throw (.service e)
  | .ok file => return file

/-- Store a list of bytes from an address upwards. -/
def storeBytes (m : Memory) (a : Word) (bytes : List (BitVec 8)) : Memory := fun b =>
  bytes[(b - a).toNat]?.getD (m b)

/-- `file->Read` on a file that was just opened: it stops at the end of the
file. The result is the number of bytes read. -/
def readFile (firmware : Firmware) (file : EfiFile) (bufferSize physicalAddress : Word) :
    BootM Word := do
  service firmware
  let bytes := file.bytes.take bufferSize.toNat
  modifyMemory fun m => storeBytes m physicalAddress bytes
  return BitVec.ofNat 64 bytes.length

/-- `fs_get_volume` -/
def fsGetVolume (firmware : Firmware) : BootM Unit := do
  service firmware
  service firmware
  service firmware

/-- `fs_read_entier_file_to_pages`; the results are the physical address and
the number of bytes read. -/
def fsReadEntierFileToPages (firmware : Firmware) (filename : String) (pages : Word) :
    BootM (Word × Word) := do
  let file ← openFile firmware filename
  let physicalAddress ← onLoader (allocatePages firmware.toBootServices pages)
  let readBytes ← readFile firmware file (pages * pageSize) physicalAddress
  service firmware
  return (physicalAddress, readBytes)

/-- `fs_read_attachment`; the results are the physical address and the size. -/
def fsReadAttachment (firmware : Firmware) (filename : String) : BootM (Word × Word) := do
  let file ← openFile firmware filename
  ignoredService
  service firmware
  service firmware
  let physicalAddress ←
    onLoader (allocatePages firmware.toBootServices (attachmentPages file.fileSize))
  let attachmentSize ← readFile firmware file file.fileSize physicalAddress
  service firmware
  service firmware
  return (physicalAddress, attachmentSize)

/-! ## Sections -/

/-- `RKHV_RX_BASE` -/
def rkhvRxBase : Word := 0xffffff0000000000

/-- `RKHV_RO_BASE` -/
def rkhvRoBase : Word := 0xffffff0000100000

/-- `RKHV_RW_BASE` -/
def rkhvRwBase : Word := 0xffffff0000200000

/-- `RKHV_STACK_BASE` -/
def rkhvStackBase : Word := 0xfffffffffff00000

/-- `SECTION_PAGES` -/
def sectionPages : Word := 0x100000 / pageSize

/-- `STACK_PAGES` -/
def stackPages : Word := 0x100000 / pageSize

/-- An entry of the array `sections`. -/
structure BootSection where
  filename : String
  virtualAddress : Word
  sizeInPages : Word
  permission : PagingPermission
  deriving DecidableEq

/-- The array `sections` -/
def bootSections : List BootSection := [
  ⟨"\\rkhv\\rkhv.rx", rkhvRxBase, sectionPages, .rx⟩,
  ⟨"\\rkhv\\rkhv.ro", rkhvRoBase, sectionPages, .ro⟩,
  ⟨"\\rkhv\\rkhv.rw", rkhvRwBase, sectionPages, .rw⟩,
  ⟨"stack", rkhvStackBase, stackPages, .rw⟩]

/-- A section that is read from a file: its name starts with a backslash. -/
def BootSection.isFile (s : BootSection) : Bool := s.filename.front == '\\'

/-- One round of the loop over `sections`; the result is the physical address
of the section. -/
def loadSection (firmware : Firmware) (sectionIndex : ℕ) (s : BootSection) : BootM Word := do
  let (physicalAddress, initializedSize) ← if s.isFile then do
      service firmware
      service firmware
      service firmware
      fsReadEntierFileToPages firmware s.filename s.sizeInPages
    else do
      service firmware
      service firmware
      let physicalAddress ← onLoader (allocatePages firmware.toBootServices s.sizeInPages)
      pure (physicalAddress, 0)
  service firmware
  modifyMemory fun m => fill m (physicalAddress + initializedSize) 0
    (s.sizeInPages * pageSize - initializedSize).toNat
  modifyPage fun c => { c with
    rkhvSections := c.rkhvSections.setIfInBounds sectionIndex ⟨physicalAddress, s.sizeInPages⟩ }
  return physicalAddress

/-- The loop over `sections`, with the array `sections_physical_addresses` as
its result. -/
def loadSections (firmware : Firmware) : ℕ → List BootSection → BootM (List Word)
  | _, [] => return []
  | sectionIndex, s :: rest => do
    let physicalAddress ← loadSection firmware sectionIndex s
    let physicalAddresses ← loadSections firmware (sectionIndex + 1) rest
    return physicalAddress :: physicalAddresses

/-! ## Attachments -/

/-- `CHAINLOAD_ATTACHMENT_LINUX_BZIMAGE` -/
def chainloadAttachmentLinuxBzimage : BitVec 8 := 0x4c

/-- An entry of the array `attachments`; the name `NULL` is `none`. -/
structure BootAttachment where
  filename : Option String
  type : BitVec 8
  deriving DecidableEq

/-- The array `attachments`, whose last entries the initialiser leaves zero. -/
def bootAttachments : List BootAttachment := [
  ⟨some "\\rkhv\\linux-bzImage", chainloadAttachmentLinuxBzimage⟩,
  ⟨none, chainloadAttachmentEnd⟩,
  ⟨none, chainloadAttachmentEnd⟩,
  ⟨none, chainloadAttachmentEnd⟩]

/-- Change an attachment of the chainload page. -/
def modifyAttachment (attachmentIndex : ℕ) (f : ChainloadAttachment → ChainloadAttachment) :
    BootM Unit :=
  modifyPage fun c => { c with
    attachments := c.attachments.setIfInBounds attachmentIndex
      (f (c.attachments[attachmentIndex]?.getD default)) }

/-- A call whose status decides how the loop goes on. -/
def statusOf {α : Type} (m : BootM α) : BootM (Except LoadStatus α) := fun b =>
  match m b with
  | .ok a b' => .ok (.ok a) b'
  | .error e b' => .ok (.error e) b'

/-- One round of the loop over `attachments`, for a named attachment. -/
def loadAttachment (firmware : Firmware) (attachmentIndex : ℕ) (filename : String)
    (type : BitVec 8) : BootM Unit := do
  service firmware
  service firmware
  service firmware
  let readAttachmentRet ← statusOf (fsReadAttachment firmware filename)
  match readAttachmentRet with
  | .error e =>
    if e.isNotFound then
      service firmware
      modifyAttachment attachmentIndex fun a => { a with size := 0, attachmentType := type }
    else throw e
  | .ok (physicalAddress, attachmentSize) =>
    service firmware
    modifyAttachment attachmentIndex fun _ =>
      ⟨physicalAddress, attachmentSize.setWidth 56, type⟩

/-- The loop over `attachments`, which stops at the end mark. -/
def loadAttachments (firmware : Firmware) : ℕ → List BootAttachment → BootM Unit
  | _, [] => return ()
  | attachmentIndex, a :: rest =>
    match a.filename with
    | none => modifyAttachment attachmentIndex fun a => { a with attachmentType := chainloadAttachmentEnd }
    | some filename =>
      if a.type = chainloadAttachmentEnd then
        modifyAttachment attachmentIndex fun a => { a with attachmentType := chainloadAttachmentEnd }
      else do
        loadAttachment firmware attachmentIndex filename a.type
        loadAttachments firmware (attachmentIndex + 1) rest

/-! ## Page tables -/

/-- `paging_check_for_supported_level` -/
def pagingCheckForSupportedLevel (firmware : Firmware) : Bool :=
  firmware.cr0 &&& cr0Pg ≠ 0 ∧ firmware.cr4 &&& cr4Pae ≠ 0 ∧ firmware.cr4 &&& cr4La57 = 0 ∧
    firmware.ia32Efer &&& ia32EferLme ≠ 0

/-- `paging_allocate_pml4` -/
def pagingAllocatePml4 (firmware : BootServices) : LoaderM Word := pagingAllocatePage firmware 1

/-- Round `pageIndex` of the loop that maps the pages of a section. -/
def mapSectionPage (firmware : BootServices) (pml4 : Word) (s : BootSection)
    (physicalAddress : Word) (pageIndex : ℕ) : LoaderM Unit :=
  pagingMapPage firmware pml4 (physicalAddress + BitVec.ofNat 64 pageIndex * pageSize)
    (s.virtualAddress + BitVec.ofNat 64 pageIndex * pageSize) s.permission

/-- The loop that maps the sections at their physical addresses. -/
def mapSections (firmware : Firmware) (pml4 : Word) : List (BootSection × Word) → BootM Unit
  | [] => return ()
  | (s, physicalAddress) :: rest => do
    service firmware
    onLoader (forRange s.sizeInPages.toNat
      (mapSectionPage firmware.toBootServices pml4 s physicalAddress))
    mapSections firmware pml4 rest

/-! ## Leaving the boot services -/

/-- The loop around `ExitBootServices` from its `attempt`-th round, for at most
so many rounds; the result is the memory map that was accepted. -/
def exitBootServices (firmware : Firmware) : ℕ → ℕ → BootM (List EfiMemoryDescriptor)
  | 0, _ => throw .refused
  | rounds + 1, attempt => do
    ignoredService
    service firmware
    service firmware
    if (firmware.exitAttempt attempt).2 then return (firmware.exitAttempt attempt).1
    else
      service firmware
      service firmware
      service firmware
      exitBootServices firmware rounds (attempt + 1)

/-- `efi_main` up to its last call, `chainload`, whose arguments are the
result: the pointer to the chainload page and the PML4. -/
def efiMain (firmware : Firmware) (rounds : ℕ) : BootM (Word × Word) := do
  service firmware
  service firmware
  let chainloadPage ← onLoader (allocatePages firmware.toBootServices 1)
  modifyMemory fun m => fill m chainloadPage 0 pageSize.toNat
  modifyPage fun c => { c with chainloadPage := chainloadPage }
  fsGetVolume firmware
  let physicalAddresses ← loadSections firmware 0 bootSections
  loadAttachments firmware 0 bootAttachments
  service firmware
  let pml4 ← onLoader (pagingAllocatePml4 firmware.toBootServices)
  mapSections firmware pml4 (bootSections.zip physicalAddresses)
  service firmware
  onLoader (pagingMapPhysical firmware.toBootServices pml4)
  if pagingCheckForSupportedLevel firmware then
    service firmware
    let mmap ← exitBootServices firmware rounds 0
    modifyPage fun c => { c with efiMmapUsable := importMmap mmap }
    return (p2vIdentityMap chainloadPage, pml4)
  else
    service firmware
    throw (.efi .unsupported)

/-- The zeroed chainload page. -/
def emptyChainloadPage : ChainloadPage where
  rkhvSections := Vector.replicate rkhvMaxSections ⟨0, 0⟩
  chainloadPage := 0
  attachments := Vector.replicate rkhvMaxAttachments ⟨0, 0, 0⟩
  pageTableRegions := Vector.replicate rkhvMaxPageTableRegions ⟨0, 0⟩
  efiMmapUsable := emptyMmap

/-- The state in which the firmware starts `efi_main`, for a memory. The
chainload page is zeroed before its first use. -/
def bootStart (memory : Memory) : Boot where
  loader := ⟨memory, ⟨rkhvMaxPageTableRegions, [], Nat.zero_le _⟩, 0⟩
  serviceCalls := 0
  chainloadPage := emptyChainloadPage

/-! ## Rules -/

variable {firmware : Firmware} {b : Boot} {E : LoadStatus → Boot → Prop}

theorem ensures_onLoader {α : Type} {m : LoaderM α} {Q : α → Boot → Prop} :
    Ensures (onLoader m) b Q E ↔ Ensures m b.loader (fun a l => Q a { b with loader := l })
      (fun e l => E (.efi e) { b with loader := l }) := by
  unfold Ensures onLoader
  cases m b.loader <;> rfl

theorem ensures_statusOf {α : Type} {m : BootM α} {Q : Except LoadStatus α → Boot → Prop} :
    Ensures (statusOf m) b Q E ↔
      Ensures m b (fun a b' => Q (.ok a) b') (fun e b' => Q (.error e) b') := by
  unfold Ensures statusOf
  cases m b <;> rfl

/-- A service succeeds or has a status of the firmware. -/
theorem ensures_service {Q : Unit → Boot → Prop} :
    Ensures (service firmware) b Q E ↔
      match firmware.serviceError b.serviceCalls with
      | some e => E (.service e) { b with serviceCalls := b.serviceCalls + 1 }
      | none => Q () { b with serviceCalls := b.serviceCalls + 1 } := by
  rw [service, ensures_bind, ensures_get, ensures_bind]
  change Ensures (match firmware.serviceError b.serviceCalls with
    | some e => throw (.service e)
    | none => pure () : BootM Unit) { b with serviceCalls := b.serviceCalls + 1 } Q E ↔ _
  cases firmware.serviceError b.serviceCalls <;> exact Iff.rfl

@[simp] theorem ensures_ignoredService {Q : Unit → Boot → Prop} :
    Ensures ignoredService b Q E ↔ Q () { b with serviceCalls := b.serviceCalls + 1 } := Iff.rfl

@[simp] theorem ensures_modifyPage {f : ChainloadPage → ChainloadPage} {Q : Unit → Boot → Prop} :
    Ensures (modifyPage f) b Q E ↔ Q () { b with chainloadPage := f b.chainloadPage } := Iff.rfl

@[simp] theorem ensures_modifyMemory {f : Memory → Memory} {Q : Unit → Boot → Prop} :
    Ensures (modifyMemory f) b Q E ↔
      Q () { b with loader := { b.loader with memory := f b.loader.memory } } := Iff.rfl

@[simp] theorem ensures_modifyAttachment {i : ℕ} {f : ChainloadAttachment → ChainloadAttachment}
    {Q : Unit → Boot → Prop} :
    Ensures (modifyAttachment i f) b Q E ↔
      Q () { b with chainloadPage := { b.chainloadPage with
        attachments := b.chainloadPage.attachments.setIfInBounds i
          (f (b.chainloadPage.attachments[i]?.getD default)) } } := Iff.rfl

end Rkhv.BootLoading
