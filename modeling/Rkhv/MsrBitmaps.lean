import Rkhv.VmxPages

/-!
# What the MSR bitmaps say

The processor looks an MSR up in one of four bitmaps of 1 KiB, for reads and
writes and for low and high addresses, and exits when it finds a set bit. The
bitmaps are initialised so that exactly the writes to unlisted MSRs exit. Each
MSR has one bit of the page for its writes, and allowing it clears this bit only.
-/

namespace Rkhv.MsrBitmaps

open ByteMemory HostTypes VmxPages

variable {m : Memory} {a : Word} {i j : ℕ}

/-! ## Bits of a table in memory -/

/-- Bit number `i` of the bytes from address `a` upwards. -/
def bitAt (m : Memory) (a : Word) (i : ℕ) : Bool := (m (a + BitVec.ofNat 64 (i / 8))).getLsbD (i % 8)

/-- Clear bit number `i`. -/
def clearBit (m : Memory) (a : Word) (i : ℕ) : Memory :=
  Function.update m (a + BitVec.ofNat 64 (i / 8))
    (m (a + BitVec.ofNat 64 (i / 8)) &&& ~~~((1 : BitVec 8) <<< (i % 8)))

/-- The mask of one bit leaves the other bits of a byte. -/
theorem getLsbD_mask (b : BitVec 8) {j k : ℕ} (hj : j < 8) :
    (b &&& ~~~((1 : BitVec 8) <<< k)).getLsbD j = (b.getLsbD j && decide (j ≠ k)) := by
  have hone : (1 : BitVec 8).getLsbD (j - k) = decide (j - k = 0) := by
    rw [show (1 : BitVec 8) = 1#8 from rfl, BitVec.getLsbD_one]
    simp only [Nat.reduceLT, decide_true, Bool.true_and]
  rw [BitVec.getLsbD_and, BitVec.getLsbD_not, BitVec.getLsbD_shiftLeft, hone]
  grind

/-- Clearing a bit clears no other one. -/
theorem bitAt_clearBit (hi : i < 2 ^ 64) (hj : j < 2 ^ 64) :
    bitAt (clearBit m a i) a j = (bitAt m a j && decide (j ≠ i)) := by
  by_cases hbyte : j / 8 = i / 8
  · have hbit : decide (j % 8 ≠ i % 8) = decide (j ≠ i) := decide_eq_decide.mpr (by omega)
    rw [bitAt, bitAt, clearBit, hbyte, Function.update_self, getLsbD_mask _ (Nat.mod_lt j (by decide)),
      hbit]
  · have haddress : a + BitVec.ofNat 64 (j / 8) ≠ a + BitVec.ofNat 64 (i / 8) := fun he => by
      have hoffset := congrArg BitVec.toNat (add_left_cancel he)
      rw [BitVec.toNat_ofNat, BitVec.toNat_ofNat] at hoffset
      omega
    have hbit : j ≠ i := fun he => hbyte (by rw [he])
    rw [bitAt, bitAt, clearBit, Function.update_of_ne haddress, decide_eq_true hbit, Bool.and_true]

/-- Clearing several bits. -/
theorem bitAt_foldl_clearBit (bits : List ℕ) (hbits : ∀ i ∈ bits, i < 2 ^ 64) (m : Memory)
    (hj : j < 2 ^ 64) :
    bitAt (bits.foldl (fun m i => clearBit m a i) m) a j = (bitAt m a j && decide (j ∉ bits)) := by
  induction bits generalizing m with
  | nil => simp only [List.foldl_nil, List.not_mem_nil, not_false_eq_true, decide_true, Bool.and_true]
  | cons i rest ih =>
    rw [List.forall_mem_cons] at hbits
    rw [List.foldl_cons, ih hbits.2, bitAt_clearBit hbits.1 hj, Bool.and_assoc, ← Bool.decide_and]
    congr 2
    rw [List.mem_cons, not_or]

/-- Bits of a block of equal bytes. -/
theorem bitAt_fill (m : Memory) (a : Word) {k : Word} {v : BitVec 8} {n : ℕ} :
    bitAt (fill m (a + k) v n) a i =
      if (BitVec.ofNat 64 (i / 8) - k).toNat < n then v.getLsbD (i % 8) else bitAt m a i := by
  have hdistance : a + BitVec.ofNat 64 (i / 8) - (a + k) = BitVec.ofNat 64 (i / 8) - k := by
    rw [add_sub_add_left_eq_sub]
  rw [bitAt, fill, hdistance]
  split <;> rfl

/-- Bits behind some bytes. -/
theorem bitAt_add (m : Memory) (a : Word) (k i : ℕ) :
    bitAt m (a + BitVec.ofNat 64 k) i = bitAt m a (k * 8 + i) := by
  have hbyte : (k * 8 + i) / 8 = k + i / 8 := by omega
  have hbit : (k * 8 + i) % 8 = i % 8 := by omega
  rw [bitAt, bitAt, hbyte, hbit, BitVec.ofNat_add, ← BitVec.add_assoc]

/-! ## Lookups of the processor -/

/-- Whether `rdmsr` of an MSR exits: its bit is looked up in the read bitmap for
low MSRs or in the one for high MSRs. -/
def rdmsrExits (m : Memory) (page addr : Word) : Bool :=
  if addr < vmcsMsrBitmapsHighBase then bitAt m (page + vmcsMsrBitmapsReadLow) addr.toNat
  else bitAt m (page + vmcsMsrBitmapsReadHigh) (addr - vmcsMsrBitmapsHighBase).toNat

/-- Whether `wrmsr` of an MSR exits, by the two write bitmaps. -/
def wrmsrExits (m : Memory) (page addr : Word) : Bool :=
  if addr < vmcsMsrBitmapsHighBase then bitAt m (page + vmcsMsrBitmapsWriteLow) addr.toNat
  else bitAt m (page + vmcsMsrBitmapsWriteHigh) (addr - vmcsMsrBitmapsHighBase).toNat

/-- The bit of the page that stands for reads of an MSR. -/
def readBit (addr : Word) : ℕ :=
  if addr < vmcsMsrBitmapsHighBase then addr.toNat
  else 1024 * 8 + (addr - vmcsMsrBitmapsHighBase).toNat

/-- The bit of the page that stands for writes to an MSR. -/
def writeBit (addr : Word) : ℕ := 2048 * 8 + readBit addr

theorem rdmsrExits_eq (m : Memory) (page addr : Word) :
    rdmsrExits m page addr = bitAt m page (readBit addr) := by
  rw [rdmsrExits, readBit]
  split
  · have hstart : page + vmcsMsrBitmapsReadLow = page := BitVec.add_zero page
    rw [hstart]
  · exact bitAt_add m page 1024 _

theorem wrmsrExits_eq (m : Memory) (page addr : Word) :
    wrmsrExits m page addr = bitAt m page (writeBit addr) := by
  rw [wrmsrExits, writeBit, readBit]
  split
  · exact bitAt_add m page 2048 _
  · rw [← Nat.add_assoc]
    exact bitAt_add m page 3072 _

/-- The offset of a covered MSR above the base of its range. -/
theorem highOffset {addr : Word} (haddr : MsrCovered addr) (hhigh : ¬addr < vmcsMsrBitmapsHighBase) :
    (addr - vmcsMsrBitmapsHighBase).toNat = addr.toNat - 0xc0000000 ∧
      0xc0000000 ≤ addr.toNat ∧ addr.toNat < 0xc0002000 := by
  have hbase : vmcsMsrBitmapsHighBase.toNat = 0xc0000000 := rfl
  rw [BitVec.lt_def, hbase] at hhigh
  rw [MsrCovered] at haddr
  rw [BitVec.toNat_sub, hbase]
  omega

theorem readBit_lt {addr : Word} (haddr : MsrCovered addr) : readBit addr < 2048 * 8 := by
  rw [readBit]
  split
  · rename_i hlow
    have hbase : vmcsMsrBitmapsHighBase.toNat = 0xc0000000 := rfl
    rw [BitVec.lt_def, hbase] at hlow
    rw [MsrCovered] at haddr
    omega
  · have hoffset := highOffset haddr ‹_›
    omega

/-- Different MSRs have different bits. -/
theorem readBit_inj {addr addr' : Word} (h : MsrCovered addr) (h' : MsrCovered addr')
    (heq : readBit addr = readBit addr') : addr = addr' := by
  have hbase : vmcsMsrBitmapsHighBase.toNat = 0xc0000000 := rfl
  have hlow : ∀ a : Word, MsrCovered a → a < vmcsMsrBitmapsHighBase → a.toNat < 0x2000 := by
    intro a ha hlt
    rw [BitVec.lt_def, hbase] at hlt
    rw [MsrCovered] at ha
    omega
  apply BitVec.eq_of_toNat_eq
  rw [readBit, readBit] at heq
  split at heq <;> split at heq
  · exact heq
  · have hfirst := hlow addr h ‹_›
    omega
  · have hsecond := hlow addr' h' ‹_›
    omega
  · have hfirst := highOffset h ‹_›
    have hsecond := highOffset h' ‹_›
    omega

/-! ## What the initialisation leaves -/

/-- A pointer moved by an offset, as a physical address. -/
theorem v2p_add (va k : Word) : v2pIdentityMap (va + k) = v2pIdentityMap va + k := by
  rw [v2pIdentityMap, v2pIdentityMap, add_sub_right_comm]

/-- Allowing an MSR clears the bit of its writes. -/
theorem xAllowMsr_eq (msrBitmaps : Word) (m : Memory) {addr : Word} (haddr : MsrCovered addr) :
    xAllowMsr msrBitmaps m addr = clearBit m (v2pIdentityMap msrBitmaps) (writeBit addr) := by
  have h8 : (8 : Word).toNat = 8 := rfl
  have hcell : ∀ (base : ℕ) (x : Word), base < 2 ^ 20 → x.toNat < 2 ^ 20 →
      BitVec.ofNat 64 base + x / 8 = BitVec.ofNat 64 ((base * 8 + x.toNat) / 8) := by
    intro base x hbase hx
    apply BitVec.eq_of_toNat_eq
    rw [BitVec.toNat_add, BitVec.toNat_udiv, h8, BitVec.toNat_ofNat, BitVec.toNat_ofNat]
    omega
  have hshift : ∀ (base : ℕ) (x : Word), (1 : BitVec 8) <<< (x % 8) =
      (1 : BitVec 8) <<< ((base * 8 + x.toNat) % 8) := by
    intro base x
    have hbit : (base * 8 + x.toNat) % 8 = (x % 8).toNat := by
      rw [BitVec.toNat_umod, h8]
      omega
    rw [hbit]
    rfl
  rw [xAllowMsr, clearBit, writeBit, readBit]
  split
  · rename_i hlow
    have hbase : vmcsMsrBitmapsHighBase.toNat = 0xc0000000 := rfl
    rw [BitVec.lt_def, hbase] at hlow
    rw [MsrCovered] at haddr
    have hwrite : vmcsMsrBitmapsWriteLow = BitVec.ofNat 64 2048 := rfl
    dsimp only
    rw [v2p_add, hwrite, hcell 2048 addr (by decide) (by omega), hshift 2048 addr]
  · have hoffset := highOffset haddr ‹_›
    have hwrite : vmcsMsrBitmapsWriteHigh = BitVec.ofNat 64 3072 := rfl
    dsimp only
    rw [v2p_add, hwrite, hcell 3072 _ (by decide) (by omega), hshift 3072, ← Nat.add_assoc]

/-- The four `memset` calls clear the bits of reads and set those of writes. -/
theorem bitAt_clearMsrBitmaps (m : Memory) (msrBitmaps : Word) (hi : i < 4096 * 8) :
    bitAt (clearMsrBitmaps m msrBitmaps) (v2pIdentityMap msrBitmaps) i = decide (2048 * 8 ≤ i) := by
  have hall : (0xff : BitVec 8).getLsbD (i % 8) = true := by
    have hbits : ∀ k < 8, (0xff : BitVec 8).getLsbD k = true := by decide
    exact hbits _ (Nat.mod_lt i (by decide))
  have hnone : (0 : BitVec 8).getLsbD (i % 8) = false := BitVec.getLsbD_zero
  have hdistance : ∀ k : Word, k.toNat ≤ 4096 → (BitVec.ofNat 64 (i / 8) - k).toNat =
      (i / 8 + 2 ^ 64 - k.toNat) % 2 ^ 64 := by
    intro k hk
    rw [BitVec.toNat_sub, BitVec.toNat_ofNat]
    omega
  have hreadLow : vmcsMsrBitmapsReadLow.toNat = 0 := rfl
  have hreadHigh : vmcsMsrBitmapsReadHigh.toNat = 1024 := rfl
  have hwriteLow : vmcsMsrBitmapsWriteLow.toNat = 2048 := rfl
  have hwriteHigh : vmcsMsrBitmapsWriteHigh.toNat = 3072 := rfl
  simp only [clearMsrBitmaps, v2p_add, bitAt_fill]
  rw [hdistance _ (by decide), hdistance _ (by decide), hdistance _ (by decide),
    hdistance _ (by decide), hreadLow, hreadHigh, hwriteLow, hwriteHigh, hall, hnone]
  split
  · exact (decide_eq_true (by omega)).symm
  split
  · exact (decide_eq_true (by omega)).symm
  split
  · exact (decide_eq_false (by omega)).symm
  split
  · exact (decide_eq_false (by omega)).symm
  · omega

/-- The bits of the page after a list of MSRs is allowed. -/
theorem bitAt_allowed (m : Memory) (msrBitmaps : Word) {allowed : List Word}
    (hlist : ∀ addr ∈ allowed, MsrCovered addr) (hi : i < 4096 * 8) :
    bitAt (allowed.foldl (xAllowMsr msrBitmaps) (clearMsrBitmaps m msrBitmaps))
      (v2pIdentityMap msrBitmaps) i =
        (decide (2048 * 8 ≤ i) && decide (i ∉ allowed.map writeBit)) := by
  have hfold : ∀ (allowed : List Word) (m : Memory), (∀ addr ∈ allowed, MsrCovered addr) →
      allowed.foldl (xAllowMsr msrBitmaps) m = (allowed.map writeBit).foldl
        (fun m i => clearBit m (v2pIdentityMap msrBitmaps) i) m := by
    intro allowed
    induction allowed with
    | nil => exact fun _ _ => rfl
    | cons addr rest ih =>
      intro m hlist
      rw [List.forall_mem_cons] at hlist
      rw [List.foldl_cons, List.map_cons, List.foldl_cons, xAllowMsr_eq msrBitmaps m hlist.1,
        ih _ hlist.2]
  have hbits : ∀ i ∈ allowed.map writeBit, i < 2 ^ 64 := by
    intro i hmem
    obtain ⟨addr, haddr, rfl⟩ := List.mem_map.mp hmem
    have hbit := readBit_lt (hlist addr haddr)
    rw [writeBit]
    omega
  rw [hfold allowed _ hlist, bitAt_foldl_clearBit _ hbits _ (by omega),
    bitAt_clearMsrBitmaps m msrBitmaps hi]

/-- After a list of MSRs is allowed, `wrmsr` exits for the MSRs that are not in
the list, and `rdmsr` for none, whatever the page held before. -/
theorem msrBitmaps_denote_list (m : Memory) (msrBitmaps : Word) {allowed : List Word}
    (hlist : ∀ addr ∈ allowed, MsrCovered addr) {addr : Word} (haddr : MsrCovered addr) :
    (wrmsrExits (allowed.foldl (xAllowMsr msrBitmaps) (clearMsrBitmaps m msrBitmaps))
        (v2pIdentityMap msrBitmaps) addr = true ↔ addr ∉ allowed) ∧
      rdmsrExits (allowed.foldl (xAllowMsr msrBitmaps) (clearMsrBitmaps m msrBitmaps))
        (v2pIdentityMap msrBitmaps) addr = false := by
  have hread := readBit_lt haddr
  have hwrite : writeBit addr = 2048 * 8 + readBit addr := rfl
  constructor
  · have hlisted : writeBit addr ∈ allowed.map writeBit ↔ addr ∈ allowed := by
      constructor
      · intro hmem
        obtain ⟨other, hother, heq⟩ := List.mem_map.mp hmem
        have hsame : readBit other = readBit addr := Nat.add_left_cancel heq
        rwa [← readBit_inj (hlist other hother) haddr hsame]
      · exact List.mem_map_of_mem
    rw [wrmsrExits_eq, bitAt_allowed m msrBitmaps hlist (by omega), Bool.and_eq_true,
      decide_eq_true_iff, decide_eq_true_iff, hlisted]
    exact and_iff_right (by omega)
  · rw [rdmsrExits_eq, bitAt_allowed m msrBitmaps hlist (by omega), decide_eq_false (by omega),
      Bool.false_and]

/-- Writes to `IA32_APIC_BASE` exit, and writes to `IA32_EFER`, which is listed
twice, do not. -/
theorem msrBitmaps_denote_list_apicBase :
    wrmsrExits ([0xc0000080, 0x8b, 0xc0000080].foldl (xAllowMsr 0) (clearMsrBitmaps (fun _ => 0x55) 0))
        (v2pIdentityMap 0) 0x1b = true ∧
      ¬wrmsrExits ([0xc0000080, 0x8b, 0xc0000080].foldl (xAllowMsr 0)
        (clearMsrBitmaps (fun _ => 0x55) 0)) (v2pIdentityMap 0) 0xc0000080 = true := by
  have hlist : ∀ addr ∈ ([0xc0000080, 0x8b, 0xc0000080] : List Word), MsrCovered addr := by
    simp [MsrCovered]
  have hbase : MsrCovered 0x1b := Or.inl (by decide)
  have hefer : MsrCovered 0xc0000080 := Or.inr (by decide)
  exact ⟨(msrBitmaps_denote_list (fun _ => 0x55) 0 hlist hbase).1.mpr (by decide),
    fun h => (msrBitmaps_denote_list (fun _ => 0x55) 0 hlist hefer).1.mp h (by decide)⟩

end Rkhv.MsrBitmaps
