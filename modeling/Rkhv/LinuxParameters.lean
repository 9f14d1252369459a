import Rkhv.LinuxPreparation

/-!
# The boot parameters of Linux

The header of the image is copied to its offset in a page of zeros, as far as its
jump says that it reaches, and some of its fields are then set. The fields that
place the kernel are not among them: they are read back as they were copied, and
behind the copied part they read as zero.
-/

namespace Rkhv.LinuxParameters

open ByteMemory ByteBlocks HostTypes HostState StateOutcome GuestMemory GuestSetup GuestLinuxLoader
  LinuxPreparation

variable {s t : Hv} {vm : Word} {n : ℕ} {host : ℕ → Frame} {image : LinuxImage} {f : Frame}
  {m : Memory} {o : Word}

/-! ## The copied header -/

/-- The boot parameters when only the header is copied, by offset. -/
def copied (image : LinuxImage) : Memory :=
  copyBytes (fun _ => 0) hdrSetupSects image.byte hdrSetupSects image.setupHeaderSize

/-- Offset of the version string in the image. -/
def versionOffset (image : LinuxImage) : Word :=
  0x200 + (readBytes (copied image) hdrKernelVersion 2).setWidth 64

/-- `hdr.pref_address` of the boot parameters -/
def prefAddress (image : LinuxImage) : Word := readBytes (copied image) hdrPrefAddress 8

/-- `hdr.kernel_alignment` of the boot parameters -/
def kernelAlignment (image : LinuxImage) : Word :=
  (readBytes (copied image) hdrKernelAlignment 4).setWidth 64

/-- `hdr.setup_sects` of the boot parameters, zero read as four. -/
def setupSects (image : LinuxImage) : BitVec 8 :=
  if image.field hdrSetupSects 1 = 0#8 then 4 else image.field hdrSetupSects 1

/-- Offset of the protected-mode kernel in the image. -/
def kernelOffset (image : LinuxImage) : Word := ((setupSects image).setWidth 64 + 1) * 512

/-- Size of the protected-mode kernel, which wraps. -/
def kernelSize (image : LinuxImage) : Word := image.size - kernelOffset image

/-- Pages of the protected-mode kernel. -/
def kernelPages (image : LinuxImage) : Word := kernelPageCount (kernelSize image)

/-- The first field of the header is always copied. -/
theorem copied_setupSects (image : LinuxImage) :
    copied image hdrSetupSects = image.byte hdrSetupSects := by
  have hself : hdrSetupSects - hdrSetupSects = 0 := BitVec.sub_self _
  have hzero : (0 : Word).toNat = 0 := rfl
  have hoffset : hdrSetupSects + 0 = hdrSetupSects := BitVec.add_zero _
  rw [copied, copyBytes_apply_of_lt (by rw [hself, hzero, LinuxImage.setupHeaderSize]; omega), hself,
    hoffset]

/-- The header that is copied has less than 0x300 bytes. -/
theorem setupHeaderSize_le (image : LinuxImage) : image.setupHeaderSize ≤ 0x300 := by
  have hjump := (image.field hdrJump 2).isLt
  have hfront : (hdrJump - hdrSetupSects).toNat = 15 := rfl
  rw [LinuxImage.setupHeaderSize, hfront, BitVec.toNat_ushiftRight, Nat.shiftRight_eq_div_pow]
  omega

/-- A field that the copied header reaches is that of the image. -/
theorem readBytes_copied {k : ℕ} (hstart : 0x1f1 ≤ o.toNat)
    (hreach : o.toNat + k ≤ 0x1f1 + image.setupHeaderSize) :
    readBytes (copied image) o k = image.field o k := by
  refine readBytes_congr fun i hi => ?_
  have hlt := o.isLt
  have hheader := (image.field hdrJump 2).isLt
  have hfirst : hdrSetupSects.toNat = 0x1f1 := rfl
  have hsize : image.setupHeaderSize ≤ 0x300 := setupHeaderSize_le image
  have hdistance : (o + BitVec.ofNat 64 i - hdrSetupSects).toNat = o.toNat + i - 0x1f1 := by
    rw [BitVec.toNat_sub, BitVec.toNat_add, BitVec.toNat_ofNat, hfirst]
    omega
  rw [copied, copyBytes_apply_of_lt (by omega), BitVec.add_comm hdrSetupSects, BitVec.sub_add_cancel]

/-- Bytes of a page of zeros with the copied header. -/
theorem copied_apply (m : Memory) (f : Frame) (image : LinuxImage) (ho : o.toNat < 4096) :
    copyBytes (fill m (frameAddress f) 0 4096) (frameAddress f + hdrSetupSects) image.byte
      hdrSetupSects image.setupHeaderSize (frameAddress f + o) = copied image o := by
  have hdistance : frameAddress f + o - (frameAddress f + hdrSetupSects) = o - hdrSetupSects := by
    rw [add_sub_add_left_eq_sub]
  have hpage : frameAddress f + o - frameAddress f = o := by
    rw [BitVec.add_comm, BitVec.add_sub_cancel]
  rw [copied, copyBytes, copyBytes, hdistance, fill_apply_of_lt (by rwa [hpage])]

/-- Offsets of the fields that place the kernel. -/
def placementOffsets : List Word :=
  [0x1f1, 0x230, 0x231, 0x232, 0x233, 0x258, 0x259, 0x25a, 0x25b, 0x25c, 0x25d, 0x25e, 0x25f]

/-- Places of the assignments: offsets and numbers of bytes. -/
def parameterFields (stores : List Store) : List (Word × ℕ) :=
  stores.map fun store => (store.offset, store.bytes)

theorem mem_parameterFields {loadflags : BitVec 8} {cmdlinePageGuestpa pages : Word} {store : Store}
    (h : store ∈ parameterStores loadflags cmdlinePageGuestpa pages) :
    (store.offset, store.bytes) ∈ parameterFields (parameterStores 0 0 0) := by
  have hsame : parameterFields (parameterStores loadflags cmdlinePageGuestpa pages) =
      parameterFields (parameterStores 0 0 0) := by
    simp only [parameterFields, parameterStores, List.map_cons, List.map_nil]
  rw [← hsame, parameterFields, List.mem_map]
  exact ⟨store, h, rfl⟩

/-- No assignment reaches the fields that place the kernel. -/
theorem parameterStores_apply (loadflags : BitVec 8) (cmdlinePageGuestpa pages : Word)
    (ho : o ∈ placementOffsets) :
    storeAll m (frameAddress f) (parameterStores loadflags cmdlinePageGuestpa pages)
      (frameAddress f + o) = m (frameAddress f + o) := by
  have hapart : (placementOffsets.all fun o => (parameterFields (parameterStores 0 0 0)).all fun field =>
      field.2 ≤ (o - field.1).toNat) = true := by
    decide +kernel
  refine storeAll_apply_of_untouched fun store hstore => ?_
  have hdistance : frameAddress f + o - (frameAddress f + store.offset) = o - store.offset := by
    rw [add_sub_add_left_eq_sub]
  rw [hdistance]
  have hfields := List.all_eq_true.mp hapart o ho
  exact of_decide_eq_true (List.all_eq_true.mp hfields _ (mem_parameterFields hstore))

/-- The assignments stay in the page. -/
theorem parameterStores_outside (loadflags : BitVec 8) (cmdlinePageGuestpa pages : Word) {a : Word}
    (ha : ¬InFrame f a) :
    storeAll m (frameAddress f) (parameterStores loadflags cmdlinePageGuestpa pages) a = m a := by
  have hinside : ((parameterFields (parameterStores 0 0 0)).all fun field =>
      field.1.toNat + field.2 ≤ 4096) = true := by
    decide +kernel
  refine storeAll_apply_of_le (Nat.le_of_not_lt ha) fun store hstore => ?_
  exact of_decide_eq_true (List.all_eq_true.mp hinside _ (mem_parameterFields hstore))

/-- The page of boot parameters when the kernel is loaded. -/
structure Filled (m m' : Memory) (f : Frame) (image : LinuxImage) : Prop where
  placement : ∀ o ∈ placementOffsets, m' (frameAddress f + o) = copied image o
  elsewhere : ∀ a, ¬InFrame f a → m' a = m a

theorem fillZeropage_spec (vm : Word) (t : Hv) {setup : LinuxSetup}
    (hsize : setup.setupHeaderSize = image.setupHeaderSize)
    (hpage : setup.zeropage = p2vIdentityMap (frameAddress f)) :
    Ensures (fillZeropage vm image setup) t
      (fun _ t' => (t' = { t with memory := t'.memory } ∧ Filled t.memory t'.memory f image) ∧
        image.reads hdrSetupSects image.setupHeaderSize = true ∧
        image.readsString (versionOffset image) = true)
      (fun e _ => FaultIn False (¬image.reads hdrSetupSects image.setupHeaderSize = true ∨
        ¬image.readsString (versionOffset image) = true) e) := by
  have hfull : pageSize.toNat = 4096 := rfl
  have hversion : ∀ m : Memory, readBytes (copyBytes (fill m (frameAddress f) 0 4096)
      (frameAddress f + hdrSetupSects) image.byte hdrSetupSects image.setupHeaderSize)
        (frameAddress f + hdrKernelVersion) 2 = readBytes (copied image) hdrKernelVersion 2 := by
    intro m
    refine readBytes_congr fun k hk => ?_
    rw [BitVec.add_assoc, copied_apply]
    have hfield : hdrKernelVersion.toNat = 0x20e := rfl
    rw [BitVec.toNat_add, BitVec.toNat_ofNat, hfield]
    omega
  rw [fillZeropage, hpage, hsize, ensures_bind, ensures_memset, v2p_p2v, hfull, ensures_bind,
    ensures_touch]
  refine ⟨fun hreads => ?_, fun hcut => Or.inl hcut⟩
  rw [ensures_bind, ensures_modifyMemory, v2p_p2v_add, ensures_bind, ensures_readParameter,
    v2p_p2v_add, hversion, ensures_bind, ensures_touch]
  refine ⟨fun hstring => ?_, fun hcut => Or.inr hcut⟩
  rw [ensures_bind, ensures_readParameter, ensures_bind, ensures_get, ensures_storeParameters, v2p_p2v]
  have hinside : (placementOffsets.all fun o => o.toNat < 4096) = true := by decide +kernel
  have helsewhere : ∀ a, ¬InFrame f a → copyBytes (fill t.memory (frameAddress f) 0 4096)
      (frameAddress f + hdrSetupSects) image.byte hdrSetupSects image.setupHeaderSize a =
        t.memory a := by
    intro a ha
    have hheader := setupHeaderSize_le image
    have hfar : image.setupHeaderSize ≤ (a - (frameAddress f + hdrSetupSects)).toNat := by
      have hlt := (a - frameAddress f).isLt
      have hstart : hdrSetupSects.toNat = 0x1f1 := rfl
      rw [InFrame, not_lt] at ha
      rw [sub_add_eq_sub_sub, BitVec.toNat_sub, hstart]
      omega
    rw [copyBytes_apply_of_le hfar, fill_apply_of_le (Nat.le_of_not_lt ha)]
  refine ⟨⟨rfl, fun o ho => ?_, fun a ha => ?_⟩, hreads, hstring⟩
  · have hoffset : o.toNat < 4096 := of_decide_eq_true (List.all_eq_true.mp hinside o ho)
    exact (parameterStores_apply _ _ _ ho).trans (copied_apply t.memory f image hoffset)
  · exact (parameterStores_outside _ _ _ ha).trans (helsewhere a ha)

end Rkhv.LinuxParameters
