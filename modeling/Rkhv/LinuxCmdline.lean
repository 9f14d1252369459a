import Rkhv.LinuxPreparation

/-!
# The command line of Linux

The loader accepts a command line of one whole page, and stores its terminator
behind it: there the terminator is the first byte of the next host page. With
every other length the line and its terminator stay in the page.
-/

namespace Rkhv.LinuxCmdline

open ByteMemory ByteBlocks HostTypes HostState StateOutcome GuestMemory GuestRam GuestSetup GuestIdentity
  Ept GuestLinuxLoader LinuxPreparation HostRuns FreeRegion

variable {hw : Hardware} {s t : Hv} {vm : Word} {image : LinuxImage} {cmdline : List (BitVec 8)}
  {f : Frame} {m : Memory} {a : Word}

/-! ## Strings -/

/-- A string of equal bytes is as long as their number. -/
theorem strStrlen_replicate {c : BitVec 8} (hc : c ≠ 0) (n : ℕ) :
    strStrlen (List.replicate n c) = n := by
  induction n with
  | zero => rfl
  | succ n ih => rw [List.replicate_succ, strStrlen, if_neg hc, ih]

/-! ## Placement -/

/-- The panic for a command line. -/
def CmdlineTooLong (image : LinuxImage) (cmdline : List (BitVec 8)) : Prop :=
  (image.field hdrCmdlineSize 4).toNat < strStrlen cmdline ∨ 4096 < strStrlen cmdline

/-- The memory with the command line copied. -/
def withLine (m : Memory) (f : Frame) (cmdline : List (BitVec 8)) : Memory :=
  copyBytes m (frameAddress f) (fun k => cmdline.getD k.toNat 0) 0 (strStrlen cmdline)

/-- The memory with the command line and its terminator. -/
def placed (m : Memory) (f : Frame) (cmdline : List (BitVec 8)) : Memory :=
  writeBytes (withLine m f cmdline) (frameAddress f + BitVec.ofNat 64 (strStrlen cmdline)) 1 0#8

theorem placeCmdline_spec (image : LinuxImage) (cmdline : List (BitVec 8)) (t : Hv) (f : Frame) :
    Ensures (placeCmdline image cmdline (p2vIdentityMap (frameAddress f))) t
      (fun _ t' => t' = { t with memory := placed t.memory f cmdline } ∧
        image.reads hdrCmdlineSize 4 = true ∧ ¬CmdlineTooLong image cmdline)
      (fun e t' => t' = t ∧ FaultIn (image.reads hdrCmdlineSize 4 = true ∧
        CmdlineTooLong image cmdline) (¬image.reads hdrCmdlineSize 4 = true) e) := by
  have hpage : pageSize.toNat = 4096 := rfl
  rw [placeCmdline, ensures_bind, ensures_readField]
  refine ⟨fun hreads => ?_, fun hcut => ⟨rfl, hcut⟩⟩
  rw [ensures_bind, ensures_panicIf, hpage]
  refine ⟨fun hlong => ⟨rfl, hreads, hlong⟩, fun hshort => ?_⟩
  rw [ensures_bind, ensures_modifyMemory, ensures_modifyMemory, v2p_p2v, v2p_p2v_add]
  exact ⟨rfl, hreads, hshort⟩

/-- Distance of an offset from the start of a page. -/
theorem offset_distance (f : Frame) (k : ℕ) (hk : k < 2 ^ 64) :
    (frameAddress f + BitVec.ofNat 64 k - frameAddress f).toNat = k := by
  rw [BitVec.add_comm, BitVec.add_sub_cancel, BitVec.toNat_ofNat, Nat.mod_eq_of_lt hk]

/-- Other bytes than the terminator are those of the copy. -/
theorem placed_of_ne (h : a ≠ frameAddress f + BitVec.ofNat 64 (strStrlen cmdline)) :
    placed m f cmdline a = withLine m f cmdline a := by
  refine writeBytes_apply_of_le (Nat.one_le_iff_ne_zero.mpr fun hzero => h ?_)
  have hdifference : a - (frameAddress f + BitVec.ofNat 64 (strStrlen cmdline)) = 0 :=
    BitVec.eq_of_toNat_eq hzero
  exact sub_eq_zero.mp hdifference

/-- The bytes of the command line. -/
theorem placed_line (hlen : strStrlen cmdline ≤ 4096) {k : ℕ} (hk : k < strStrlen cmdline) :
    placed m f cmdline (frameAddress f + BitVec.ofNat 64 k) = cmdline.getD k 0 := by
  have hne : frameAddress f + BitVec.ofNat 64 k ≠
      frameAddress f + BitVec.ofNat 64 (strStrlen cmdline) := fun he => by
    have hdistance := offset_distance f k (by omega)
    rw [he, offset_distance f _ (by omega)] at hdistance
    omega
  have hinside : (frameAddress f + BitVec.ofNat 64 k - frameAddress f).toNat < strStrlen cmdline := by
    rwa [offset_distance f k (by omega)]
  have hzero : (0 : Word) + (frameAddress f + BitVec.ofNat 64 k - frameAddress f) =
      frameAddress f + BitVec.ofNat 64 k - frameAddress f := BitVec.zero_add _
  rw [placed_of_ne hne, withLine, copyBytes_apply_of_lt hinside, hzero, offset_distance f k (by omega)]

/-- The terminator. -/
theorem placed_nul (m : Memory) (f : Frame) (cmdline : List (BitVec 8)) :
    placed m f cmdline (frameAddress f + BitVec.ofNat 64 (strStrlen cmdline)) = 0 := by
  have hself : ∀ b : Word, (b - b).toNat = 0 := fun b => by rw [BitVec.sub_self]; rfl
  rw [placed, writeBytes, hself, if_pos Nat.one_pos]
  rfl

/-- Outside the page the copy changes nothing. -/
theorem withLine_outside (hlen : strStrlen cmdline ≤ 4096) (ha : ¬InFrame f a) :
    withLine m f cmdline a = m a :=
  copyBytes_apply_of_le (hlen.trans (Nat.le_of_not_lt ha))

/-- The command line and its terminator lie in the page, and nothing else changed. -/
structure PlacedInPage (f : Frame) (cmdline : List (BitVec 8)) (m m' : Memory) : Prop where
  fits : strStrlen cmdline + 1 ≤ 4096
  line : ∀ k < strStrlen cmdline, m' (frameAddress f + BitVec.ofNat 64 k) = cmdline.getD k 0
  nul : m' (frameAddress f + BitVec.ofNat 64 (strStrlen cmdline)) = 0
  elsewhere : ∀ a, ¬InFrame f a → m' a = m a

/-- A shorter command line is placed in its page. -/
theorem placedInPage (hlen : strStrlen cmdline < 4096) :
    PlacedInPage f cmdline m (placed m f cmdline) := by
  refine ⟨hlen, fun k hk => placed_line hlen.le hk, placed_nul m f cmdline, fun a ha => ?_⟩
  have hne : a ≠ frameAddress f + BitVec.ofNat 64 (strStrlen cmdline) := fun he => ha (by
    rwa [he, InFrame, offset_distance f _ (by omega)])
  rw [placed_of_ne hne, withLine_outside hlen.le ha]

/-! ## Every run -/

/-- From where the loader places the command line it panics, or the line stays in
the guest page that was taken for it. -/
def StaysInPage (image : LinuxImage) (cmdline : List (BitVec 8)) (setup : LinuxSetup) (f : Frame)
    (t : Hv) : Prop :=
  Ensures (placeCmdline image cmdline setup.cmdlinePage) t
    (fun _ t' => PlacedInPage f cmdline t.memory t'.memory) (fun e _ => ∃ message, e = .panic message)

/-- A command line that fills a page. -/
def pageLine : List (BitVec 8) := List.replicate 4096 0x61

theorem strStrlen_pageLine : strStrlen pageLine = 4096 := strStrlen_replicate (by decide) 4096

theorem sampleImage_cmdlineSize (size : Word) :
    ((sampleImage size).field hdrCmdlineSize 4).toNat = 4096 := by
  have hfield : readBytes sampleBytes hdrCmdlineSize 4 = 0x1000#32 := by decide
  exact congrArg BitVec.toNat hfield

/-- A machine with 4700 guest pages, an image of one page, and the preparation of
its loader. -/
theorem exists_prepared : ∃ s setup t, Allocated obedientHardware s firstOfMany 4700 ∧
    prepareLinux firstOfMany (sampleImage 0x1000) s = .ok setup t := by
  obtain ⟨s, hs⟩ := @exists_allocated 4700 (by decide) (by decide)
  obtain ⟨host, hload⟩ := loadable_of_allocated hs
  have hfits : ¬TooSmall (4700 : Word).toNat (sampleImage 0x1000) := by
    rw [TooSmall, sampleImage]
    decide
  obtain ⟨t, hrun, _⟩ := prepareLinux_returns hload (sampleImage_accepted (by decide)) hfits
  exact ⟨s, _, t, hs, hrun⟩

end Rkhv.LinuxCmdline
