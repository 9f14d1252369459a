import Rkhv.ByteBlocks
import Rkhv.VmGuestPaging
import Rkhv.Vmcs

/-!
# The Linux loader

`vm_guest_linux_loader` prepares a machine for the 64-bit entry point of a Linux
kernel: identity page tables, one page of boot parameters, one page for the
command line, and the protected-mode part of the kernel at its preferred
address. The image is one of the attachments, whose pages are never handed out
as guest memory, so that it does not change while it is read. Offsets into the
image and into `linux_boot_params_t` are those of `guest_linux_loader_defs.h`;
the set-up header lies at the same offset in both. Printed lines are left out,
except that printing the version string reads it.
-/

namespace Rkhv.GuestLinuxLoader

open ByteMemory ByteBlocks HostTypes HostState StateOutcome Ept VmGuestPaging VmxInstructions Vmcs

/-! ## Images -/

/-- `image` and `image_size`. The bytes are numbered from the pointer `image` on. -/
structure LinuxImage where
  byte : Memory
  size : Word
  /-- Whether the memory behind the image can be read; otherwise reading there
  is a fault. -/
  behind : Bool

/-- `offsetof(linux_boot_params_t, hdr)`, where `setup_sects` is the first field. -/
def hdrSetupSects : Word := 0x1f1

/-- `hdr.jump`, two bytes. -/
def hdrJump : Word := 0x200

/-- `hdr.header`, four bytes. -/
def hdrHeader : Word := 0x202

/-- `hdr.kernel_version`, two bytes. -/
def hdrKernelVersion : Word := 0x20e

/-- `hdr.loadflags`, one byte. -/
def hdrLoadflags : Word := 0x211

/-- `hdr.kernel_alignment`, four bytes. -/
def hdrKernelAlignment : Word := 0x230

/-- `hdr.xloadflags`, two bytes. -/
def hdrXloadflags : Word := 0x236

/-- `hdr.cmdline_size`, four bytes. -/
def hdrCmdlineSize : Word := 0x238

/-- `hdr.pref_address`, eight bytes. -/
def hdrPrefAddress : Word := 0x258

/-- The `n` bytes from an offset on can be read. -/
def LinuxImage.reads (image : LinuxImage) (offset : Word) (n : ℕ) : Bool :=
  image.behind || decide (offset.toNat + n ≤ image.size.toNat)

/-- The string at an offset ends where it can be read. -/
def LinuxImage.readsString (image : LinuxImage) (offset : Word) : Bool :=
  image.behind || decide (∃ k < image.size.toNat - offset.toNat,
    image.byte (offset + BitVec.ofNat 64 k) = 0)

/-- A field of the image. -/
def LinuxImage.field (image : LinuxImage) (offset : Word) (n : ℕ) : BitVec (8 * n) :=
  readBytes image.byte offset n

/-- `image_setup_header_size` -/
def LinuxImage.setupHeaderSize (image : LinuxImage) : ℕ :=
  (image.field hdrJump 2 >>> 8).toNat + (hdrJump - hdrSetupSects).toNat + 2

/-! ## Statements -/

/-- `if (condition) PANIC(message)` -/
def panicIf (condition : Prop) [Decidable condition] (message : String) : HvM Unit :=
  if condition then panicWith message else pure ()

/-- Reading memory at or behind an offset of the image faults unless it is allowed. -/
def touch (offset : Word) (allowed : Bool) : HvM Unit :=
  if allowed then pure () else throw (.outOfBounds offset)

/-- Read a field of the image. -/
def readField (image : LinuxImage) (offset : Word) (n : ℕ) : HvM (BitVec (8 * n)) := do
  touch offset (image.reads offset n)
  return image.field offset n

/-- Read a field of the boot parameters. -/
def readParameter (zeropage offset : Word) (n : ℕ) : HvM (BitVec (8 * n)) := do
  let s ← get
  return readBytes s.memory (v2pIdentityMap (zeropage + offset)) n

/-- Store fields of the boot parameters. -/
def storeParameters (zeropage : Word) (stores : List Store) : HvM Unit :=
  modifyMemory fun m => storeAll m (v2pIdentityMap zeropage) stores

/-- `a % b` of C, which is undefined for `b = 0`. -/
def remainder (a b : Word) : HvM Word :=
  if b = 0 then throw .divisionByZero else pure (a % b)

section Statements

variable {s : Hv} {E : Fault → Hv → Prop}

@[simp] theorem ensures_panicIf {c : Prop} [Decidable c] {message : String} {Q : Unit → Hv → Prop} :
    Ensures (panicIf c message) s Q E ↔ (c → E (.panic message) s) ∧ (¬c → Q () s) :=
  ensures_ite

@[simp] theorem ensures_touch {offset : Word} {allowed : Bool} {Q : Unit → Hv → Prop} :
    Ensures (touch offset allowed) s Q E ↔
      (allowed = true → Q () s) ∧ (¬allowed = true → E (.outOfBounds offset) s) :=
  ensures_ite

@[simp] theorem ensures_readField {image : LinuxImage} {offset : Word} {n : ℕ}
    {Q : BitVec (8 * n) → Hv → Prop} :
    Ensures (readField image offset n) s Q E ↔
      (image.reads offset n = true → Q (image.field offset n) s) ∧
        (¬image.reads offset n = true → E (.outOfBounds offset) s) := by
  rw [readField, ensures_bind, ensures_touch]
  rfl

@[simp] theorem ensures_readParameter {zeropage offset : Word} {n : ℕ}
    {Q : BitVec (8 * n) → Hv → Prop} :
    Ensures (readParameter zeropage offset n) s Q E ↔
      Q (readBytes s.memory (v2pIdentityMap (zeropage + offset)) n) s := Iff.rfl

@[simp] theorem ensures_storeParameters {zeropage : Word} {stores : List Store}
    {Q : Unit → Hv → Prop} :
    Ensures (storeParameters zeropage stores) s Q E ↔
      Q () { s with memory := storeAll s.memory (v2pIdentityMap zeropage) stores } := Iff.rfl

@[simp] theorem ensures_remainder {a b : Word} {Q : Word → Hv → Prop} :
    Ensures (remainder a b) s Q E ↔
      (b = 0 → E .divisionByZero s) ∧ (¬b = 0 → Q (a % b) s) := ensures_ite

end Statements

/-- `str_strlen` of a string in memory, whose bytes end with a NUL at the latest
where the list ends. -/
def strStrlen : List (BitVec 8) → ℕ
  | [] => 0
  | c :: s => if c = 0 then 0 else strStrlen s + 1

/-! ## Set-up pages -/

/-- What the loader knows about the image and its pages when it starts to fill them. -/
structure LinuxSetup where
  setupHeaderSize : ℕ
  zeropageGuestpa : Word
  zeropage : Word
  cmdlinePageGuestpa : Word
  cmdlinePage : Word

/-- The checks of the set-up header, and its size. -/
def checkSetupHeader (image : LinuxImage) : HvM ℕ := do
  let jump ← readField image hdrJump 2
  let setupHeaderSize := (jump >>> 8).toNat + (hdrJump - hdrSetupSects).toNat + 2
  let header ← readField image hdrHeader 4
  panicIf (header ≠ 0x53726448) "Linux kernel magic `HdrS` not found"
  let xloadflags ← readField image hdrXloadflags 2
  panicIf (xloadflags &&& 1 ≠ 1) "The loaded Linux kernel doesn't have a 64-bit entry point"
  return setupHeaderSize

/-- Take the last page of the guest memory that the setup did not use so far. -/
def takeLastPage (vm : Word) (message : String) : HvM (Word × Word) := do
  let s ← get
  let guestpa := ((s.vmAt vm).guestPhysicalPages -
    (s.vmAt vm).guestPhysicalPagesUsedByInitialSetup - 1) * pageSize
  modifyVm vm fun v => { v with
    guestPhysicalPagesUsedByInitialSetup := v.guestPhysicalPagesUsedByInitialSetup + 1 }
  let s ← get
  match vmxEptGetHostPhysicalAddress s.memory (s.vmAt vm) guestpa with
  | none => panicWith message
  | some hostpa => return (guestpa, p2vIdentityMap hostpa)

/-- The approximate check that the kernel fits, for a `pref_address` of 16 MiB. -/
def lacksMemory (v : Vm) (imageSize : Word) : Prop :=
  v.guestPhysicalPages ≤ 0x1000000 / pageSize ∨
    v.guestPhysicalPages - v.guestPhysicalPagesUsedByInitialSetup - 0x1000000 / pageSize ≤
      imageSize / pageSize

instance (v : Vm) (imageSize : Word) : Decidable (lacksMemory v imageSize) :=
  inferInstanceAs (Decidable (_ ∨ _))

/-- The part of `vm_guest_linux_loader` up to the check of the guest memory. -/
def prepareLinux (vm : Word) (image : LinuxImage) : HvM LinuxSetup := do
  let s ← get
  panicIf ((s.vmAt vm).vmcsConfig.guestState.cr3 ≠ 0)
    "Guest identity paging already setup before loading guest Linux kernel"
  let cr3 ← vmGuestPagingSetupIdentity vm
  modifyVm vm fun v => { v with
    vmcsConfig.guestState.cr3 := cr3 }
  let setupHeaderSize ← checkSetupHeader image
  let (zeropageGuestpa, zeropage) ←
    takeLastPage vm "Unable to walk EPT to get Linux zeropage host physical address"
  let (cmdlinePageGuestpa, cmdlinePage) ←
    takeLastPage vm "Unable to walk EPT to get Linux cmdline page host physical address"
  let s ← get
  panicIf (lacksMemory (s.vmAt vm) image.size)
    "Not enough guest physical memory to load the Linux kernel"
  return ⟨setupHeaderSize, zeropageGuestpa, zeropage, cmdlinePageGuestpa, cmdlinePage⟩

/-! ## Command line and boot parameters -/

/-- Copy the command line, and terminate it. -/
def placeCmdline (image : LinuxImage) (cmdline : List (BitVec 8)) (cmdlinePage : Word) :
    HvM Unit := do
  let cmdlineLen := strStrlen cmdline
  let cmdlineSize ← readField image hdrCmdlineSize 4
  panicIf (cmdlineSize.toNat < cmdlineLen ∨ pageSize.toNat < cmdlineLen)
    "Linux cmdline is too long"
  modifyMemory fun m => copyBytes m (v2pIdentityMap cmdlinePage) (fun k => cmdline.getD k.toNat 0)
    0 cmdlineLen
  modifyMemory fun m => writeBytes m
    (v2pIdentityMap (cmdlinePage + BitVec.ofNat 64 cmdlineLen)) 1 0#8

/-- The assignments to fields of the zeroed boot parameters with the copied header. -/
def parameterStores (loadflags : BitVec 8) (cmdlinePageGuestpa guestPhysicalPages : Word) :
    List Store :=
  [⟨0x1fa, 2, 0xffff#16⟩, -- hdr.vid_mode
    ⟨0x210, 1, 0xff#8⟩, -- hdr.type_of_loader
    ⟨hdrLoadflags, 1, loadflags &&& 0x1f#8⟩,
    ⟨0x224, 2, 0#16⟩, -- hdr.heap_end_ptr
    ⟨0x218, 4, 0#32⟩, -- hdr.ramdisk_image
    ⟨0xc0, 4, 0#32⟩, -- ext_ramdisk_image
    ⟨0x21c, 4, 0#32⟩, -- hdr.ramdisk_size
    ⟨0xc4, 4, 0#32⟩, -- ext_ramdisk_size
    ⟨0x228, 4, cmdlinePageGuestpa.setWidth 32⟩, -- hdr.cmd_line_ptr
    ⟨0xc8, 4, (cmdlinePageGuestpa >>> 32).setWidth 32⟩, -- ext_cmd_line_ptr
    ⟨0x1e8, 1, 2#8⟩, -- e820_entries
    ⟨0x2d0, 8, 0#64⟩, -- e820_table[0]
    ⟨0x2d8, 8, 0xa0000#64⟩,
    ⟨0x2e0, 4, 1#32⟩,
    ⟨0x2e4, 8, 0xa0000#64⟩, -- e820_table[1]
    ⟨0x2ec, 8, (guestPhysicalPages - 0xa0) * pageSize⟩,
    ⟨0x2f4, 4, 1#32⟩]

/-- Fill the page of boot parameters, and read the version string of the kernel. -/
def fillZeropage (vm : Word) (image : LinuxImage) (setup : LinuxSetup) : HvM Unit := do
  memset setup.zeropage 0 pageSize.toNat
  touch hdrSetupSects (image.reads hdrSetupSects setup.setupHeaderSize)
  modifyMemory fun m => copyBytes m (v2pIdentityMap (setup.zeropage + hdrSetupSects)) image.byte
    hdrSetupSects setup.setupHeaderSize
  let kernelVersion ← readParameter setup.zeropage hdrKernelVersion 2
  let imageVersionString := 0x200 + kernelVersion.setWidth 64
  touch imageVersionString (image.readsString imageVersionString)
  let loadflags ← readParameter setup.zeropage hdrLoadflags 1
  let s ← get
  storeParameters setup.zeropage
    (parameterStores loadflags setup.cmdlinePageGuestpa (s.vmAt vm).guestPhysicalPages)

/-! ## The protected-mode kernel -/

/-- Bytes of the kernel that go to its page number `page`. -/
def kernelPageBytes (kernelSize kernelPages : Word) (page : ℕ) : Word :=
  if BitVec.ofNat 64 page < kernelPages - 1 ∨ kernelSize % pageSize = 0 then pageSize
  else kernelSize % pageSize

/-- Copy one page of the kernel. -/
def loadKernelPage (vm : Word) (image : LinuxImage)
    (kernel kernelSize kernelPages guestpa : Word) (page : ℕ) : HvM Unit := do
  let s ← get
  match vmxEptGetHostPhysicalAddress s.memory (s.vmAt vm)
      (guestpa + BitVec.ofNat 64 page * pageSize) with
  | none => panicWith "Unable to walk EPT to get Linux protected kernel host physical address"
  | some hostpa =>
    let offset := kernel + BitVec.ofNat 64 page * pageSize
    let bytes := (kernelPageBytes kernelSize kernelPages page).toNat
    touch offset (image.reads offset bytes)
    modifyMemory fun m => copyBytes m (v2pIdentityMap (p2vIdentityMap hostpa)) image.byte offset bytes

/-- Number of pages of a kernel. -/
def kernelPageCount (kernelSize : Word) : Word :=
  kernelSize / pageSize + if kernelSize % pageSize = 0 then 0 else 1

/-- A number of set-up sectors of zero stands for four. -/
def defaultSetupSects (zeropage : Word) : HvM Unit := do
  let setupSects ← readParameter zeropage hdrSetupSects 1
  if setupSects = 0#8 then storeParameters zeropage [⟨hdrSetupSects, 1, 4#8⟩] else pure ()

/-- Copy the kernel to its preferred address. -/
def loadProtectedKernel (vm : Word) (image : LinuxImage) (zeropage : Word) : HvM Word := do
  defaultSetupSects zeropage
  let setupSects ← readParameter zeropage hdrSetupSects 1
  let kernel := (setupSects.setWidth 64 + 1) * 512
  let kernelSize := image.size - kernel
  let kernelPages := kernelPageCount kernelSize
  let guestpa ← readParameter zeropage hdrPrefAddress 8
  let kernelAlignment ← readParameter zeropage hdrKernelAlignment 4
  let misalignment ← remainder guestpa (kernelAlignment.setWidth 64)
  panicIf (misalignment ≠ 0) "Kernel pref_address isn't aligned according to kernel_alignment"
  forRange kernelPages.toNat (loadKernelPage vm image kernel kernelSize kernelPages guestpa)
  return guestpa

/-- The initial registers of the kernel. -/
def startLinux (hw : Hardware) (vm zeropageGuestpa guestpa : Word) : HvM Unit := do
  let efer ← rdmsr ia32Efer
  modifyVm vm fun v => { v with
    initialGprState.rsi := zeropageGuestpa
    vmcsConfig.guestState.rip := guestpa + 0x200
    vmcsConfig.guestState.rsp := 0
    vmcsConfig.guestState.cr0 := hw.cr0
    vmcsConfig.guestState.cr4 := hw.cr4
    vmcsConfig.guestState.ia32Efer := efer
    vmcsConfig.guestState.cs := rkhvCs.setWidth 16
    vmcsConfig.guestState.ds := rkhvDs.setWidth 16
    vmcsConfig.guestState.gdtr := hw.gdtr
    vmcsConfig.guestState.idtr := hw.idtr }

/-- `vm_guest_linux_loader` -/
def vmGuestLinuxLoader (hw : Hardware) (vm : Word) (image : LinuxImage)
    (cmdline : List (BitVec 8)) : HvM Unit := do
  let setup ← prepareLinux vm image
  placeCmdline image cmdline setup.cmdlinePage
  fillZeropage vm image setup
  let guestpa ← loadProtectedKernel vm image setup.zeropage
  startLinux hw vm setup.zeropageGuestpa guestpa

end Rkhv.GuestLinuxLoader
