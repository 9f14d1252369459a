import Rkhv.BootLoading
import Rkhv.BootTablePages

/-!
# Sections and attachments in memory

The firmware gives whole pages and no page twice. So a section holds the bytes
of its file, followed by zeros, an attachment holds its file, and both stay as
they are while more pages are obtained and filled. Loading fails with a status
of the firmware only.
-/

namespace Rkhv.BootFiles

open ByteMemory WordFields HostTypes StateOutcome FreePages BootPagePool NestedWalk BootPaging
  BootLoading BootTablePages

/-! ## Pages of the firmware -/

/-- What the firmware promises of all its answers: whole pages of physical
memory, and no page twice. -/
structure FirmwarePages (firmware : BootServices) : Prop where
  page : ∀ k n address, firmware.allocatePages k n = .ok address →
    address.toNat % 4096 = 0 ∧ address.toNat + n.toNat * 4096 ≤ 2 ^ 52
  disjoint : ∀ j k f, GivenBy firmware j f → GivenBy firmware k f → j = k

/-- The answer to the `k`-th call, made for a number of pages. -/
def Given (firmware : BootServices) (k : ℕ) (pages address : Word) : Prop :=
  firmware.allocatePages k pages = .ok address

/-- After the PML4 was obtained, all pages are fresh. -/
theorem FirmwarePages.fresh {firmware : BootServices} (h : FirmwarePages firmware) {k : ℕ}
    {pml4 : Frame} (hpml4 : GivenBy firmware k pml4) : FreshPages firmware (k + 1) pml4 where
  page := fun j n address _ hanswer => h.page j n address hanswer
  disjoint := fun i j f _ _ hi hj => h.disjoint i j f hi hj
  pml4 := fun j hj hgiven => by
    have hsame := h.disjoint j k pml4 hgiven hpml4
    omega

/-- An address below the 52-bit limit lies in its frame. -/
theorem inFrame_frameOf {x : Word} (hx : x.toNat < 2 ^ 52) : InFrame (frameOf x) x := by
  rw [inFrame_iff, frameOf, BitVec.extractLsb'_toNat, Nat.shiftRight_eq_div_pow]
  omega

section Block

variable {firmware : BootServices} {k : ℕ} {pages address : Word}
  (hpages : FirmwarePages firmware) (hgiven : Given firmware k pages address)

include hpages hgiven

/-- Addresses of the pages that were given. -/
theorem toNat_given_add {j : ℕ} (hj : j < pages.toNat * 4096) :
    (address + BitVec.ofNat 64 j).toNat = address.toNat + j := by
  obtain ⟨_, hlimit⟩ := hpages.page k pages address hgiven
  rw [BitVec.toNat_add, BitVec.toNat_ofNat]
  omega

/-- They lie in frames that the call gave. -/
theorem exists_given_frame {j : ℕ} (hj : j < pages.toNat * 4096) :
    ∃ f, InFrame f (address + BitVec.ofNat 64 j) ∧ GivenBy firmware k f := by
  obtain ⟨halign, hlimit⟩ := hpages.page k pages address hgiven
  have hsum := toNat_given_add hpages hgiven hj
  have hin : InFrame (frameOf (address + BitVec.ofNat 64 j)) (address + BitVec.ofNat 64 j) :=
    inFrame_frameOf (by omega)
  refine ⟨_, hin, pages, address, hgiven, ?_, ?_⟩
  · rw [inFrame_iff] at hin
    rw [toNat_frameAddress]
    omega
  · rw [inFrame_iff] at hin
    rw [toNat_frameAddress]
    omega

/-- Addresses of frames that the call did not give lie outside its pages. -/
theorem le_of_not_given {f : Frame} {x : Word} (hx : InFrame f x) (hf : ¬GivenBy firmware k f) :
    pages.toNat * 4096 ≤ (x - address).toNat := by
  by_contra hlt
  obtain ⟨g, hg, hgivenBy⟩ := exists_given_frame hpages hgiven (Nat.lt_of_not_le hlt)
  have hsum : address + BitVec.ofNat 64 (x - address).toNat = x := by
    rw [BitVec.ofNat_toNat, BitVec.setWidth_eq, BitVec.add_comm, BitVec.sub_add_cancel]
  rw [hsum] at hg
  exact hf (hx.eq hg ▸ hgivenBy)

end Block

/-! ## Memory that is kept -/

/-- The pages that the first `n` calls gave are as before. -/
def Keeps (firmware : BootServices) (n : ℕ) (m m' : Memory) : Prop :=
  ∀ k f, k < n → GivenBy firmware k f → SameFrame m m' f

theorem Keeps.refl {firmware : BootServices} {n : ℕ} (m : Memory) : Keeps firmware n m m :=
  fun _ f _ _ => SameFrame.refl m f

theorem Keeps.trans {firmware : BootServices} {n n' : ℕ} {m m' m'' : Memory}
    (h : Keeps firmware n m m') (h' : Keeps firmware n' m' m'') (hn : n ≤ n') :
    Keeps firmware n m m'' :=
  fun k f hk hf => (h k f hk hf).trans (h' k f (Nat.lt_of_lt_of_le hk hn) hf)

/-- A byte of a page that is kept. -/
theorem Keeps.byte {firmware : BootServices} {n k : ℕ} {m m' : Memory} {pages address : Word}
    (h : Keeps firmware n m m') (hpages : FirmwarePages firmware)
    (hgiven : Given firmware k pages address) (hk : k < n) {j : ℕ} (hj : j < pages.toNat * 4096) :
    m' (address + BitVec.ofNat 64 j) = m (address + BitVec.ofNat 64 j) := by
  obtain ⟨f, hin, hf⟩ := exists_given_frame hpages hgiven hj
  exact h k f hk hf _ hin

/-- Stores in the pages that a call gave keep all earlier pages. -/
theorem keeps_of_outside {firmware : BootServices} {k : ℕ} {m m' : Memory} {pages address : Word}
    (hpages : FirmwarePages firmware) (hgiven : Given firmware k pages address)
    (hsame : ∀ x, pages.toNat * 4096 ≤ (x - address).toNat → m' x = m x) : Keeps firmware k m m' := by
  intro j f hj hf x hx
  refine hsame x (le_of_not_given hpages hgiven hx fun hc => ?_)
  have hjk := hpages.disjoint j k f hf hc
  omega

/-! ## Reading files -/

theorem storeBytes_apply_of_lt {m : Memory} {a b : Word} {bytes : List (BitVec 8)}
    (h : (b - a).toNat < bytes.length) : storeBytes m a bytes b = bytes[(b - a).toNat] := by
  rw [storeBytes, List.getElem?_eq_getElem h, Option.getD_some]

theorem storeBytes_apply_of_le {m : Memory} {a b : Word} {bytes : List (BitVec 8)}
    (h : bytes.length ≤ (b - a).toNat) : storeBytes m a bytes b = m b := by
  rw [storeBytes, List.getElem?_eq_none h, Option.getD_none]

/-- Numbers of pages that the bootloader asks for: up to 512, or those of a file. -/
def AsksFor (firmware : Firmware) (pages : Word) : Prop :=
  pages.toNat ≤ 512 ∨
    ∃ filename file, firmware.file filename = .ok file ∧ pages = attachmentPages file.fileSize

/-- A status that comes from the firmware, from one of the first calls if it is
one of `AllocatePages`. -/
def FirmwareFails (firmware : Firmware) (calls : ℕ) : LoadStatus → Prop
  | .efi e => Refused firmware.toBootServices (AsksFor firmware) calls e
  | .service e => (∃ k, firmware.serviceError k = some e) ∨ ∃ filename, firmware.file filename = .error e
  | .refused => False

theorem FirmwareFails.mono {firmware : Firmware} {calls calls' : ℕ} {e : LoadStatus}
    (h : FirmwareFails firmware calls e) (hcalls : calls ≤ calls') :
    FirmwareFails firmware calls' e := by
  cases e with
  | efi e => exact Refused.mono h hcalls fun _ => id
  | service e => exact h
  | refused => exact h

variable {firmware : Firmware} {b b' b'' : Boot} {α : Type} {Q : α → Boot → Prop}
  {E : LoadStatus → Boot → Prop}

/-- A service, then the rest. -/
theorem ensures_afterService {m : BootM α}
    (he : ∀ e, FirmwareFails firmware 0 e → E e { b with serviceCalls := b.serviceCalls + 1 })
    (h : Ensures m { b with serviceCalls := b.serviceCalls + 1 } Q E) :
    Ensures (do service firmware; m) b Q E := by
  rw [ensures_bind, ensures_service]
  cases hs : firmware.serviceError b.serviceCalls with
  | none => exact h
  | some e => exact he _ (Or.inl ⟨_, hs⟩)

/-- Opening a file, then the rest. -/
theorem ensures_afterOpen {filename : String} {m : EfiFile → BootM α}
    (he : ∀ e, FirmwareFails firmware 0 e → E e { b with serviceCalls := b.serviceCalls + 1 })
    (h : ∀ file, firmware.file filename = .ok file →
      Ensures (m file) { b with serviceCalls := b.serviceCalls + 1 } Q E) :
    Ensures (openFile firmware filename >>= m) b Q E := by
  rw [ensures_bind, openFile]
  refine ensures_afterService he ?_
  cases hf : firmware.file filename with
  | error e => exact he _ (Or.inr ⟨_, hf⟩)
  | ok file => exact h file hf

/-- The state after a call of `AllocatePages`. -/
def afterAllocate (b : Boot) : Boot :=
  { b with loader := { b.loader with allocateCalls := b.loader.allocateCalls + 1 } }

/-- Allocating pages, then the rest. -/
theorem ensures_afterAllocate {pages : Word} {m : Word → BootM α} (hpages : AsksFor firmware pages)
    (he : ∀ e, FirmwareFails firmware (b.loader.allocateCalls + 1) e → E e (afterAllocate b))
    (h : ∀ address, Given firmware.toBootServices b.loader.allocateCalls pages address →
      Ensures (m address) (afterAllocate b) Q E) :
    Ensures (onLoader (allocatePages firmware.toBootServices pages) >>= m) b Q E := by
  rw [ensures_bind, ensures_onLoader, allocatePages, ensures_bind, ensures_get, ensures_bind]
  cases ha : firmware.allocatePages b.loader.allocateCalls pages with
  | error e => exact he _ ⟨_, Nat.lt_succ_self _, pages, e, hpages, ha, rfl⟩
  | ok address => exact h address ha

/-- The state after a read. -/
def afterRead (b : Boot) (address : Word) (bytes : List (BitVec 8)) : Boot :=
  { b with
    serviceCalls := b.serviceCalls + 1
    loader := { b.loader with memory := storeBytes b.loader.memory address bytes } }

/-- Reading a file that was opened, then the rest. -/
theorem ensures_afterRead {file : EfiFile} {bufferSize address : Word} {m : Word → BootM α}
    (he : ∀ e, FirmwareFails firmware 0 e → E e { b with serviceCalls := b.serviceCalls + 1 })
    (h : Ensures (m (BitVec.ofNat 64 (file.bytes.take bufferSize.toNat).length))
      (afterRead b address (file.bytes.take bufferSize.toNat)) Q E) :
    Ensures (readFile firmware file bufferSize address >>= m) b Q E := by
  rw [ensures_bind, readFile]
  exact ensures_afterService he h

/-- Pages that one call gave were filled, and nothing else has changed but the
count of calls and the chainload page. -/
structure PagesFilled (firmware : BootServices) (b b' : Boot) (pages address : Word)
    (memory : Memory) : Prop where
  given : Given firmware b.loader.allocateCalls pages address
  loader : b'.loader =
    { b.loader with memory := memory, allocateCalls := b.loader.allocateCalls + 1 }

/-- `fs_read_entier_file_to_pages` stores the start of the file. -/
theorem fsReadEntierFileToPages_spec (filename : String) {pages : Word} (hpages : pages.toNat ≤ 512) :
    Ensures (fsReadEntierFileToPages firmware filename pages) b
      (fun read b' => ∃ file, firmware.file filename = .ok file ∧
        read.2 = BitVec.ofNat 64 (file.bytes.take (pages * pageSize).toNat).length ∧
        b'.chainloadPage = b.chainloadPage ∧
        PagesFilled firmware.toBootServices b b' pages read.1
          (storeBytes b.loader.memory read.1 (file.bytes.take (pages * pageSize).toNat)))
      (fun e _ => FirmwareFails firmware (b.loader.allocateCalls + 1) e) := by
  have he : ∀ e, FirmwareFails firmware 0 e → FirmwareFails firmware (b.loader.allocateCalls + 1) e :=
    fun _ he => he.mono (Nat.zero_le _)
  refine ensures_afterOpen he fun file hfile => ?_
  refine ensures_afterAllocate (Or.inl hpages) (fun _ he => he) fun address haddress => ?_
  exact ensures_afterRead he (ensures_afterService he ⟨file, hfile, rfl, rfl, haddress, rfl⟩)

/-! ## Sections -/

/-- Byte `j` of a section: a byte of its file, or zero. -/
def sectionByte (firmware : Firmware) (s : BootSection) (j : ℕ) : BitVec 8 :=
  if s.isFile then
    match firmware.file s.filename with
    | .ok file => file.bytes[j]?.getD 0
    | .error _ => 0
  else 0

/-- A section lies at an address, in pages that one of the first calls gave. -/
structure SectionAt (firmware : Firmware) (calls : ℕ) (m : Memory) (s : BootSection)
    (address : Word) : Prop where
  given : ∃ k < calls, Given firmware.toBootServices k s.sizeInPages address
  bytes : ∀ j < s.sizeInPages.toNat * 4096, m (address + BitVec.ofNat 64 j) = sectionByte firmware s j

/-- It stays there. -/
theorem SectionAt.keep {calls calls' : ℕ} {m m' : Memory} {s : BootSection} {address : Word}
    (h : SectionAt firmware calls m s address) (hpages : FirmwarePages firmware.toBootServices)
    (hcalls : calls ≤ calls') (hkeeps : Keeps firmware.toBootServices calls m m') :
    SectionAt firmware calls' m' s address := by
  obtain ⟨k, hk, hgiven⟩ := h.given
  refine ⟨⟨k, Nat.lt_of_lt_of_le hk hcalls, hgiven⟩, fun j hj => ?_⟩
  rw [hkeeps.byte hpages hgiven hk hj, h.bytes j hj]

/-- A step of loading: at most `n` more calls, earlier pages kept and the pool
left alone. -/
structure LoadStep (firmware : Firmware) (n : ℕ) (b b' : Boot) : Prop where
  pool : b'.loader.pageTablePool = b.loader.pageTablePool
  calls : b.loader.allocateCalls ≤ b'.loader.allocateCalls
  few : b'.loader.allocateCalls ≤ b.loader.allocateCalls + n
  memory : Keeps firmware.toBootServices b.loader.allocateCalls b.loader.memory b'.loader.memory

theorem LoadStep.trans {n n' : ℕ} (h : LoadStep firmware n b b') (h' : LoadStep firmware n' b' b'') :
    LoadStep firmware (n + n') b b'' where
  pool := h'.pool.trans h.pool
  calls := h.calls.trans h'.calls
  few := by
    have hfirst := h.few
    have hsecond := h'.few
    omega
  memory := h.memory.trans h'.memory h.calls

/-- A step of loading is one of the loader. -/
theorem LoadStep.of_loader {n : ℕ} {c c' : Boot} (h : LoadStep firmware n b b')
    (hb : c.loader = b.loader) (hb' : c'.loader = b'.loader) : LoadStep firmware n c c' := by
  refine ⟨?_, ?_, ?_, ?_⟩
  · rw [hb, hb', h.pool]
  · rw [hb, hb']
    exact h.calls
  · rw [hb, hb']
    exact h.few
  · rw [hb, hb']
    exact h.memory

/-- Filling new pages is a step of loading. -/
theorem PagesFilled.loadStep {pages address : Word} {memory : Memory}
    (h : PagesFilled firmware.toBootServices b b' pages address memory)
    (hpages : FirmwarePages firmware.toBootServices)
    (hsame : ∀ x, pages.toNat * 4096 ≤ (x - address).toNat → memory x = b.loader.memory x) :
    LoadStep firmware 1 b b' := by
  refine ⟨?_, ?_, ?_, ?_⟩
  · rw [h.loader]
  · rw [h.loader]
    exact Nat.le_succ _
  · rw [h.loader]
  · rw [h.loader]
    exact keeps_of_outside hpages h.given hsame

/-- The size of a section in bytes does not wrap. -/
theorem toNat_sizeInBytes {k : ℕ} {pages address : Word} {firmware : BootServices}
    (hpages : FirmwarePages firmware) (hgiven : Given firmware k pages address) :
    (pages * pageSize).toNat = pages.toNat * 4096 := by
  obtain ⟨_, hlimit⟩ := hpages.page k pages address hgiven
  have hsize : pageSize.toNat = 4096 := rfl
  rw [BitVec.toNat_mul, hsize]
  omega

/-- The memory of a section after its pages were read and cleared. -/
def sectionMemory (m : Memory) (address total : Word) (bytes : List (BitVec 8)) : Memory :=
  fill (storeBytes m address bytes) (address + BitVec.ofNat 64 bytes.length) 0
    (total - BitVec.ofNat 64 bytes.length).toNat

/-- It holds the bytes, then zeros, and is unchanged outside. -/
theorem sectionMemory_apply {m : Memory} {address total : Word} {bytes : List (BitVec 8)}
    (hlen : bytes.length ≤ total.toNat) (x : Word) : sectionMemory m address total bytes x =
      if (x - address).toNat < total.toNat then bytes[(x - address).toNat]?.getD 0 else m x := by
  have htotal := total.isLt
  have hlength : (BitVec.ofNat 64 bytes.length).toNat = bytes.length := by
    rw [BitVec.toNat_ofNat]
    omega
  have hrest : (total - BitVec.ofNat 64 bytes.length).toNat = total.toNat - bytes.length := by
    rw [BitVec.toNat_sub, hlength]
    omega
  have hoffset : (x - (address + BitVec.ofNat 64 bytes.length)).toNat =
      (2 ^ 64 - bytes.length + (x - address).toNat) % 2 ^ 64 := by
    rw [← BitVec.sub_sub, BitVec.toNat_sub, hlength]
  have hx := (x - address).isLt
  rw [sectionMemory, hrest]
  by_cases hread : (x - address).toNat < bytes.length
  · rw [fill_apply_of_le (by omega), storeBytes_apply_of_lt hread, if_pos (by omega),
      List.getElem?_eq_getElem hread, Option.getD_some]
  · rw [List.getElem?_eq_none (Nat.le_of_not_lt hread), Option.getD_none]
    split
    · rw [fill_apply_of_lt (by omega)]
    · rw [fill_apply_of_le (by omega), storeBytes_apply_of_le (by omega)]

/-- The bytes of a section that were read. -/
theorem sectionByte_take {s : BootSection} {file : EfiFile} {n j : ℕ} (hfile : s.isFile = true)
    (h : firmware.file s.filename = .ok file) (hj : j < n) :
    (file.bytes.take n)[j]?.getD 0 = sectionByte firmware s j := by
  rw [sectionByte, if_pos hfile, h, List.getElem?_take, if_pos hj]

/-- A section whose memory was written. -/
theorem sectionAt_of_written {s : BootSection} {address : Word} {bytes : List (BitVec 8)}
    (hpages : FirmwarePages firmware.toBootServices)
    (hfilled : PagesFilled firmware.toBootServices b b' s.sizeInPages address
      (sectionMemory b.loader.memory address (s.sizeInPages * pageSize) bytes))
    (hlen : bytes.length ≤ s.sizeInPages.toNat * 4096)
    (hbytes : ∀ j < s.sizeInPages.toNat * 4096, bytes[j]?.getD 0 = sectionByte firmware s j) :
    LoadStep firmware 1 b b' ∧
      SectionAt firmware b'.loader.allocateCalls b'.loader.memory s address := by
  have htotal := toNat_sizeInBytes hpages hfilled.given
  rw [← htotal] at hlen
  refine ⟨hfilled.loadStep hpages fun x hx => ?_, ⟨b.loader.allocateCalls, ?_, hfilled.given⟩,
    fun j hj => ?_⟩
  · rw [sectionMemory_apply hlen, if_neg (by omega)]
  · rw [hfilled.loader]
    exact Nat.lt_succ_self _
  · have hoffset : (address + BitVec.ofNat 64 j - address).toNat = j := by
      have hlt := (s.sizeInPages * pageSize).isLt
      rw [BitVec.add_comm, BitVec.add_sub_cancel, BitVec.toNat_ofNat]
      omega
    rw [hfilled.loader]
    dsimp only
    rw [sectionMemory_apply hlen, hoffset, if_pos (by omega), hbytes j hj]

/-- One round of the loop over the sections. -/
theorem loadSection_spec (hpages : FirmwarePages firmware.toBootServices) (i : ℕ) {s : BootSection}
    (hs : s.sizeInPages.toNat ≤ 512) :
    Ensures (loadSection firmware i s) b
      (fun address b' => LoadStep firmware 1 b b' ∧
        SectionAt firmware b'.loader.allocateCalls b'.loader.memory s address ∧
        b'.chainloadPage = { b.chainloadPage with
          rkhvSections := b.chainloadPage.rkhvSections.setIfInBounds i ⟨address, s.sizeInPages⟩ })
      (fun e _ => FirmwareFails firmware (b.loader.allocateCalls + 1) e) := by
  have he : ∀ e, FirmwareFails firmware 0 e → FirmwareFails firmware (b.loader.allocateCalls + 1) e :=
    fun _ he => he.mono (Nat.zero_le _)
  have hfinish : ∀ {c : Boot} {address : Word} {bytes : List (BitVec 8)}, c.chainloadPage = b.chainloadPage →
      PagesFilled firmware.toBootServices b c s.sizeInPages address
        (storeBytes b.loader.memory address bytes) →
      bytes.length ≤ s.sizeInPages.toNat * 4096 →
      (∀ j < s.sizeInPages.toNat * 4096, bytes[j]?.getD 0 = sectionByte firmware s j) →
      Ensures (do
        service firmware
        modifyMemory fun m => fill m (address + BitVec.ofNat 64 bytes.length) 0
          (s.sizeInPages * pageSize - BitVec.ofNat 64 bytes.length).toNat
        modifyPage fun c => { c with
          rkhvSections := c.rkhvSections.setIfInBounds i ⟨address, s.sizeInPages⟩ }
        return address) c
        (fun address b' => LoadStep firmware 1 b b' ∧
          SectionAt firmware b'.loader.allocateCalls b'.loader.memory s address ∧
          b'.chainloadPage = { b.chainloadPage with
            rkhvSections := b.chainloadPage.rkhvSections.setIfInBounds i ⟨address, s.sizeInPages⟩ })
        (fun e _ => FirmwareFails firmware (b.loader.allocateCalls + 1) e) := by
    intro c address bytes hpage hfilled hlen hbytes
    refine ensures_afterService he ?_
    simp only [ensures_bind, ensures_modifyMemory, ensures_modifyPage, ensures_pure, hpage,
      and_true, ← and_assoc]
    refine sectionAt_of_written hpages ⟨hfilled.given, ?_⟩ hlen hbytes
    rw [hfilled.loader]
    rfl
  rw [loadSection, ensures_ite]
  refine ⟨fun hfile => ?_, fun hstack => ?_⟩
  · refine ensures_afterService he (ensures_afterService he (ensures_afterService he ?_))
    rw [ensures_bind]
    refine (fsReadEntierFileToPages_spec s.filename hs).mono (fun read c hread => ?_)
      fun e _ he => he
    obtain ⟨address, readBytes⟩ := read
    obtain ⟨file, hopen, hcount, hpage, hfilled⟩ := hread
    dsimp only at hcount hfilled ⊢
    have htotal := toNat_sizeInBytes hpages hfilled.given
    subst hcount
    rw [htotal] at hfilled ⊢
    refine hfinish hpage ⟨hfilled.given, hfilled.loader⟩ ?_ fun j hj => sectionByte_take hfile hopen hj
    rw [List.length_take]
    exact Nat.min_le_left _ _
  · refine ensures_afterService he (ensures_afterService he ?_)
    refine ensures_afterAllocate (Or.inl hs) (fun _ he => he) fun address haddress => ?_
    refine @hfinish _ _ [] rfl ⟨haddress, rfl⟩ (Nat.zero_le _) fun j _ => ?_
    rw [sectionByte, if_neg hstack]
    rfl

/-- What the loop over the sections leaves in the chainload page. -/
def recordSections : ℕ → List BootSection → List Word → Vector ChainloadRegion rkhvMaxSections →
    Vector ChainloadRegion rkhvMaxSections
  | i, s :: ss, address :: addresses, v =>
    recordSections (i + 1) ss addresses (v.setIfInBounds i ⟨address, s.sizeInPages⟩)
  | _, _, _, v => v

/-- All sections were loaded. -/
structure SectionsLoaded (firmware : Firmware) (b b' : Boot) (i : ℕ) (ss : List BootSection)
    (addresses : List Word) : Prop where
  step : LoadStep firmware ss.length b b'
  sections : List.Forall₂ (SectionAt firmware b'.loader.allocateCalls b'.loader.memory) ss addresses
  page : b'.chainloadPage = { b.chainloadPage with
    rkhvSections := recordSections i ss addresses b.chainloadPage.rkhvSections }

/-- The loop over the sections. -/
theorem loadSections_spec (hpages : FirmwarePages firmware.toBootServices) {ss : List BootSection}
    (hss : ∀ s ∈ ss, s.sizeInPages.toNat ≤ 512) :
    ∀ {i : ℕ} {b : Boot}, Ensures (loadSections firmware i ss) b
      (fun addresses b' => SectionsLoaded firmware b b' i ss addresses)
      (fun e _ => FirmwareFails firmware (b.loader.allocateCalls + ss.length) e) := by
  induction ss with
  | nil => exact fun {i b} => ⟨⟨rfl, Nat.le_refl _, Nat.le_refl _, Keeps.refl _⟩, .nil, rfl⟩
  | cons s rest ih =>
    intro i b
    rw [List.forall_mem_cons] at hss
    rw [loadSections, ensures_bind, List.length_cons]
    refine (loadSection_spec hpages i hss.1).mono (fun address b₁ hfirst => ?_)
      fun _ _ he => he.mono (by omega)
    obtain ⟨hstep, hat, hpage⟩ := hfirst
    have hfew := hstep.few
    rw [ensures_bind]
    refine (ih hss.2).mono (fun addresses b₂ hrest => ?_) fun _ _ he => he.mono (by omega)
    refine ⟨?_, .cons (hat.keep hpages hrest.step.calls hrest.step.memory) hrest.sections, ?_⟩
    · have hboth := hstep.trans hrest.step
      rwa [Nat.add_comm] at hboth
    · rw [hrest.page, hpage]
      rfl

/-! ## Attachments -/

/-- The firmware answers `EFI_NOT_FOUND` to some call, to one of the first if it
is one of `AllocatePages`. -/
def SaysNotFound (firmware : Firmware) (calls : ℕ) : Prop :=
  ∃ e : LoadStatus, FirmwareFails firmware calls e ∧ e.isNotFound = true

/-- An attachment holds its file, in pages that one of the first calls gave. -/
structure AttachmentAt (firmware : Firmware) (calls : ℕ) (m : Memory) (file : EfiFile)
    (entry : ChainloadAttachment) : Prop where
  given : ∃ k < calls,
    Given firmware.toBootServices k (attachmentPages file.fileSize) entry.physicalAddress
  size : entry.size.toNat = file.bytes.length
  bytes : ∀ j (hj : j < file.bytes.length),
    m (entry.physicalAddress + BitVec.ofNat 64 j) = file.bytes[j]

/-- The pages of an attachment hold its bytes. -/
theorem le_attachmentPages (size : Word) : size.toNat ≤ (attachmentPages size).toNat * 4096 := by
  have hsize : pageSize.toNat = 4096 := rfl
  have hone : (1 : Word).toNat = 1 := rfl
  have hlt := size.isLt
  have hdiv : (size / pageSize).toNat = size.toNat / 4096 := by rw [BitVec.toNat_udiv, hsize]
  rw [attachmentPages, BitVec.toNat_add, hdiv]
  split
  · rename_i hzero
    have hmod := congrArg BitVec.toNat hzero
    rw [BitVec.toNat_umod, hsize] at hmod
    have hnone : (0 : Word).toNat = 0 := rfl
    rw [hnone] at hmod ⊢
    omega
  · rw [hone]
    omega

theorem AttachmentAt.keep {calls calls' : ℕ} {m m' : Memory} {file : EfiFile}
    {entry : ChainloadAttachment} (h : AttachmentAt firmware calls m file entry)
    (hpages : FirmwarePages firmware.toBootServices) (hcalls : calls ≤ calls')
    (hkeeps : Keeps firmware.toBootServices calls m m') :
    AttachmentAt firmware calls' m' file entry := by
  obtain ⟨k, hk, hgiven⟩ := h.given
  refine ⟨⟨k, Nat.lt_of_lt_of_le hk hcalls, hgiven⟩, h.size, fun j hj => ?_⟩
  have hle := le_attachmentPages file.fileSize
  rw [file.toNat_fileSize] at hle
  rw [hkeeps.byte hpages hgiven hk (hj.trans_le hle), h.bytes j hj]

/-- `fs_read_attachment` stores the whole file, and fails without harm. -/
theorem fsReadAttachment_spec (hpages : FirmwarePages firmware.toBootServices) (filename : String) :
    Ensures (fsReadAttachment firmware filename) b
      (fun read b' => ∃ file, firmware.file filename = .ok file ∧ read.2 = file.fileSize ∧
        b'.chainloadPage = b.chainloadPage ∧
        PagesFilled firmware.toBootServices b b' (attachmentPages file.fileSize) read.1
          (storeBytes b.loader.memory read.1 file.bytes))
      (fun e b' => FirmwareFails firmware b'.loader.allocateCalls e ∧ LoadStep firmware 1 b b' ∧
        b'.chainloadPage = b.chainloadPage) := by
  -- a failure before the allocation, after it and after the read
  have he : ∀ {n : ℕ} e, FirmwareFails firmware 0 e →
      FirmwareFails firmware b.loader.allocateCalls e ∧
        LoadStep firmware 1 b { b with serviceCalls := n } ∧ b.chainloadPage = b.chainloadPage :=
    fun e he => ⟨he.mono (Nat.zero_le _), ⟨rfl, Nat.le_refl _, Nat.le_succ _, Keeps.refl _⟩, rfl⟩
  have he' : ∀ {n : ℕ} e, FirmwareFails firmware (b.loader.allocateCalls + 1) e →
      FirmwareFails firmware (b.loader.allocateCalls + 1) e ∧
        LoadStep firmware 1 b { afterAllocate b with serviceCalls := n } ∧
        b.chainloadPage = b.chainloadPage :=
    fun e he => ⟨he, ⟨rfl, Nat.le_succ _, Nat.le_refl _, Keeps.refl _⟩, rfl⟩
  refine ensures_afterOpen he fun file hfile => ?_
  rw [ensures_bind, ensures_ignoredService]
  refine ensures_afterService he (ensures_afterService he ?_)
  refine ensures_afterAllocate (Or.inr ⟨filename, file, hfile, rfl⟩) he' fun address haddress => ?_
  have hall : file.bytes.take file.fileSize.toNat = file.bytes := by
    rw [file.toNat_fileSize, List.take_length]
  have hlen : file.bytes.length ≤ (attachmentPages file.fileSize).toNat * 4096 := by
    rw [← file.toNat_fileSize]
    exact le_attachmentPages file.fileSize
  refine ensures_afterRead (fun e he => he' e (he.mono (Nat.zero_le _))) ?_
  rw [hall]
  have hfilled : ∀ {n : ℕ}, PagesFilled firmware.toBootServices b
      { afterRead (afterAllocate b) address file.bytes with serviceCalls := n }
      (attachmentPages file.fileSize) address (storeBytes b.loader.memory address file.bytes) :=
    ⟨haddress, rfl⟩
  have he'' : ∀ {n : ℕ} e, FirmwareFails firmware 0 e →
      FirmwareFails firmware (b.loader.allocateCalls + 1) e ∧ LoadStep firmware 1 b
        { afterRead (afterAllocate b) address file.bytes with serviceCalls := n } ∧
        b.chainloadPage = b.chainloadPage :=
    fun e he => ⟨he.mono (Nat.zero_le _),
      hfilled.loadStep hpages fun x hx => storeBytes_apply_of_le (hlen.trans hx), rfl⟩
  exact ensures_afterService he'' (ensures_afterService he'' ⟨file, hfile, rfl, rfl, hfilled⟩)

/-- An attachment that was loaded, or was not found. -/
structure AttachmentLoaded (firmware : Firmware) (calls : ℕ) (m : Memory) (filename : String)
    (type : BitVec 8) (entry : ChainloadAttachment) : Prop where
  type : entry.attachmentType = type
  loaded : (∃ file, firmware.file filename = .ok file ∧ AttachmentAt firmware calls m file entry) ∨
    entry.size = 0 ∧ SaysNotFound firmware calls

/-- One round of the loop over the attachments. -/
theorem loadAttachment_spec (hpages : FirmwarePages firmware.toBootServices) (i : ℕ)
    (filename : String) (type : BitVec 8) :
    Ensures (loadAttachment firmware i filename type) b
      (fun _ b' => LoadStep firmware 1 b b' ∧ ∃ entry,
        AttachmentLoaded firmware b'.loader.allocateCalls b'.loader.memory filename type entry ∧
        b'.chainloadPage = { b.chainloadPage with
          attachments := b.chainloadPage.attachments.setIfInBounds i entry })
      (fun e _ => FirmwareFails firmware (b.loader.allocateCalls + 1) e) := by
  have he : ∀ e, FirmwareFails firmware 0 e → FirmwareFails firmware (b.loader.allocateCalls + 1) e :=
    fun _ he => he.mono (Nat.zero_le _)
  refine ensures_afterService he (ensures_afterService he (ensures_afterService he ?_))
  rw [ensures_bind, ensures_statusOf]
  refine (fsReadAttachment_spec hpages filename).mono (fun read b₁ hread => ?_) fun e b₁ hfail => ?_
  · obtain ⟨address, size⟩ := read
    obtain ⟨file, hfile, hsize, hpage, hfilled⟩ := hread
    dsimp only at hsize hfilled
    subst hsize
    have hlen := le_attachmentPages file.fileSize
    obtain ⟨_, hlimit⟩ := hpages.page _ _ _ hfilled.given
    rw [file.toNat_fileSize] at hlen
    have hstep := hfilled.loadStep hpages fun x hx => storeBytes_apply_of_le (hlen.trans hx)
    refine ensures_afterService he ?_
    rw [ensures_modifyAttachment]
    refine ⟨hstep.of_loader rfl rfl, ⟨address, file.fileSize.setWidth 56, type⟩,
      ⟨rfl, Or.inl ⟨file, hfile, ⟨_, ?_, hfilled.given⟩, ?_, fun j hj => ?_⟩⟩, ?_⟩
    · rw [hfilled.loader]
      exact Nat.lt_succ_self _
    · dsimp only
      rw [BitVec.toNat_setWidth, file.toNat_fileSize]
      omega
    · have hoffset : (address + BitVec.ofNat 64 j - address).toNat = j := by
        have hlt := file.size_lt
        rw [BitVec.add_comm, BitVec.add_sub_cancel, BitVec.toNat_ofNat]
        omega
      rw [hfilled.loader]
      dsimp only
      rw [storeBytes_apply_of_lt (by omega)]
      simp only [hoffset]
    · rw [hpage]
  · obtain ⟨hfails, hstep, hpage⟩ := hfail
    dsimp only
    rw [ensures_ite]
    refine ⟨fun hnone => ensures_afterService he ?_, fun _ => hfails.mono hstep.few⟩
    rw [ensures_modifyAttachment]
    refine ⟨hstep.of_loader rfl rfl,
      { b₁.chainloadPage.attachments[i]?.getD default with size := 0, attachmentType := type },
      ⟨rfl, Or.inr ⟨rfl, e, hfails, hnone⟩⟩, ?_⟩
    rw [hpage]

/-- What the loop leaves in the chainload page: one attachment and the end mark. -/
theorem loadAttachments_spec (hpages : FirmwarePages firmware.toBootServices) :
    Ensures (loadAttachments firmware 0 bootAttachments) b
      (fun _ b' => LoadStep firmware 1 b b' ∧ ∃ entry last,
        AttachmentLoaded firmware b'.loader.allocateCalls b'.loader.memory "\\rkhv\\linux-bzImage"
          chainloadAttachmentLinuxBzimage entry ∧ last.attachmentType = chainloadAttachmentEnd ∧
        b'.chainloadPage = { b.chainloadPage with
          attachments := (b.chainloadPage.attachments.setIfInBounds 0 entry).setIfInBounds 1 last })
      (fun e _ => FirmwareFails firmware (b.loader.allocateCalls + 1) e) := by
  have hnamed : ¬chainloadAttachmentLinuxBzimage = chainloadAttachmentEnd := by decide
  rw [bootAttachments, loadAttachments]
  dsimp only
  rw [if_neg hnamed, ensures_bind]
  refine (loadAttachment_spec hpages 0 _ _).mono (fun _ b₁ hfirst => ?_) fun _ _ he => he
  obtain ⟨hstep, entry, hentry, hpage⟩ := hfirst
  rw [loadAttachments, ensures_modifyAttachment]
  refine ⟨hstep.of_loader rfl rfl, entry,
    { b₁.chainloadPage.attachments[1]?.getD default with attachmentType := chainloadAttachmentEnd },
    hentry, rfl, ?_⟩
  rw [hpage]

end Rkhv.BootFiles
