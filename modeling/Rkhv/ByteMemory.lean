import Mathlib

/-!
# Byte memory with little-endian words

A memory is a total map from 64-bit addresses to bytes. Words of any number
of bytes are stored little-endian, blocks are filled and copied byte by byte,
and all address arithmetic wraps at the end of the address space. The last
part cuts an address into a frame number, a slot number and a byte offset,
the view under which a memory is an array of tables of quadwords.
-/

namespace Rkhv.ByteMemory

/-- A machine word of the 64-bit target: an address, a size or a quadword. -/
abbrev Word := BitVec 64

/-- Every address holds one byte. -/
abbrev Memory := Word → BitVec 8

/-- Store the `n` bytes of `v` from address `a` upwards, lowest byte first. -/
def writeBytes (m : Memory) (a : Word) (n : ℕ) (v : BitVec (8 * n)) : Memory := fun b =>
  if (b - a).toNat < n then v.extractLsb' (8 * (b - a).toNat) 8 else m b

/-- The little-endian quadword stored at address `a`. -/
def readQword (m : Memory) (a : Word) : BitVec 64 :=
  m (a + 7) ++ m (a + 6) ++ m (a + 5) ++ m (a + 4) ++ m (a + 3) ++ m (a + 2) ++ m (a + 1) ++ m a

/-- Store a quadword. -/
def writeQword (m : Memory) (a : Word) (v : BitVec 64) : Memory := writeBytes m a 8 v

/-- Store a doubleword. -/
def writeDword (m : Memory) (a : Word) (v : BitVec 32) : Memory := writeBytes m a 4 v

/-- Set `n` bytes from address `a` upwards to the byte `v`. -/
def fill (m : Memory) (a : Word) (v : BitVec 8) (n : ℕ) : Memory := fun b =>
  if (b - a).toNat < n then v else m b

/-- Outside its own bytes a store leaves the memory alone. -/
theorem writeBytes_apply_of_le {m : Memory} {a b : Word} {n : ℕ} {v : BitVec (8 * n)}
    (h : n ≤ (b - a).toNat) : writeBytes m a n v b = m b := by
  rw [writeBytes, if_neg (by omega)]

/-- Outside the filled block a fill leaves the memory alone. -/
theorem fill_apply_of_le {m : Memory} {a b : Word} {n : ℕ} {v : BitVec 8}
    (h : n ≤ (b - a).toNat) : fill m a v n b = m b := by
  rw [fill, if_neg (by omega)]

/-- Inside the filled block every byte is the given one. -/
theorem fill_apply_of_lt {m : Memory} {a b : Word} {n : ℕ} {v : BitVec 8}
    (h : (b - a).toNat < n) : fill m a v n b = v := by
  rw [fill, if_pos h]

/-- A quadword only depends on its eight bytes. -/
theorem readQword_congr {m m' : Memory} {a : Word}
    (h : ∀ k : Word, k.toNat < 8 → m' (a + k) = m (a + k)) : readQword m' a = readQword m a := by
  have h0 := h 0 (by decide)
  simp only [BitVec.ofNat_eq_ofNat, BitVec.add_zero] at h0
  simp only [readQword, h0, h 1 (by decide), h 2 (by decide), h 3 (by decide), h 4 (by decide),
    h 5 (by decide), h 6 (by decide), h 7 (by decide)]

/-- A stored quadword is read back. -/
theorem readQword_writeQword (m : Memory) (a : Word) (v : BitVec 64) :
    readQword (writeQword m a v) a = v := by
  have h : ∀ k : Word, a + k - a = k := fun k => by rw [BitVec.add_comm, BitVec.add_sub_cancel]
  have h0 : a - a = 0#64 := BitVec.sub_self a
  simp only [readQword, writeQword, writeBytes, h, h0]
  simp only [BitVec.ofNat_eq_ofNat, BitVec.toNat_ofNat, Nat.reducePow, Nat.reduceMod,
    Nat.reduceLT, if_true, Nat.reduceMul]
  ext i hi
  simp only [BitVec.getElem_append]
  grind

/-- Two aligned quadwords are the same one or share no byte. -/
theorem readQword_writeQword_of_ne {m : Memory} {a b : Word} {v : BitVec 64}
    (ha : a.toNat % 8 = 0) (hb : b.toNat % 8 = 0) (hne : b ≠ a) :
    readQword (writeQword m a v) b = readQword m b := by
  refine readQword_congr fun k hk => writeBytes_apply_of_le ?_
  have hn : b.toNat ≠ a.toNat := fun h => hne (BitVec.eq_of_toNat_eq h)
  rw [BitVec.toNat_sub, BitVec.toNat_add]
  omega

/-- A block of zero bytes reads as zero quadwords. -/
theorem readQword_eq_zero {m : Memory} {a : Word}
    (h : ∀ k : Word, k.toNat < 8 → m (a + k) = 0) : readQword m a = 0 := by
  have h0 := h 0 (by decide)
  simp only [BitVec.ofNat_eq_ofNat, BitVec.add_zero] at h0
  simp only [readQword, h0, h 1 (by decide), h 2 (by decide), h 3 (by decide), h 4 (by decide),
    h 5 (by decide), h 6 (by decide), h 7 (by decide)]
  decide

/-! ## Frames and slots -/

/-- A frame number below the 52-bit physical address limit. -/
abbrev Frame := BitVec 40

/-- One of the 512 quadword slots of a frame. -/
abbrev Slot := BitVec 9

/-- First address of a frame. -/
def frameAddress (f : Frame) : Word := (f ++ 0#12).setWidth 64

/-- Address of a quadword slot of a frame. -/
def slotAddress (f : Frame) (i : Slot) : Word := (f ++ i ++ 0#3).setWidth 64

/-- The quadword in a slot of a frame. -/
def slotWord (m : Memory) (f : Frame) (i : Slot) : BitVec 64 := readQword m (slotAddress f i)

/-- Appending to the right shifts the left part up by the width of the right one. -/
theorem toNat_append_eq {n k : ℕ} (x : BitVec n) (y : BitVec k) :
    (x ++ y).toNat = x.toNat * 2 ^ k + y.toNat := by
  rw [BitVec.toNat_append, ← Nat.shiftLeft_add_eq_or_of_lt y.isLt, Nat.shiftLeft_eq]

/-- A frame starts at its number times 4096. -/
theorem toNat_frameAddress (f : Frame) : (frameAddress f).toNat = f.toNat * 4096 := by
  have hf := f.isLt
  rw [frameAddress, BitVec.toNat_setWidth, toNat_append_eq, BitVec.toNat_ofNat]
  omega

/-- A slot lies eight times its number above the start of its frame. -/
theorem toNat_slotAddress (f : Frame) (i : Slot) :
    (slotAddress f i).toNat = f.toNat * 4096 + i.toNat * 8 := by
  have hf := f.isLt
  have hi := i.isLt
  rw [slotAddress, BitVec.toNat_setWidth, toNat_append_eq, toNat_append_eq, BitVec.toNat_ofNat]
  omega

/-- Different frames start at different addresses. -/
theorem frameAddress_injective : Function.Injective frameAddress := by
  intro f g h
  have hn := congrArg BitVec.toNat h
  rw [toNat_frameAddress, toNat_frameAddress] at hn
  exact BitVec.eq_of_toNat_eq (by omega)

@[simp] theorem frameAddress_inj {f g : Frame} : frameAddress f = frameAddress g ↔ f = g :=
  frameAddress_injective.eq_iff

/-- A slot address determines its frame and its slot. -/
theorem slotAddress_inj {f g : Frame} {i j : Slot} :
    slotAddress f i = slotAddress g j ↔ f = g ∧ i = j := by
  refine ⟨fun h => ?_, fun ⟨hf, hi⟩ => by rw [hf, hi]⟩
  have hn := congrArg BitVec.toNat h
  have hi := i.isLt
  have hj := j.isLt
  rw [toNat_slotAddress, toNat_slotAddress] at hn
  exact ⟨BitVec.eq_of_toNat_eq (by omega), BitVec.eq_of_toNat_eq (by omega)⟩

/-- Indexing a frame as an array of quadwords reaches its slots. -/
theorem frameAddress_add_slot (f : Frame) (i : Slot) :
    frameAddress f + i.setWidth 64 * 8 = slotAddress f i := by
  have hf := f.isLt
  have hi := i.isLt
  apply BitVec.eq_of_toNat_eq
  have h8 : (8 : Word).toNat = 8 := rfl
  rw [BitVec.toNat_add, BitVec.toNat_mul, toNat_frameAddress, toNat_slotAddress,
    BitVec.toNat_setWidth, h8]
  omega

/-- A number below 512 is a slot number. -/
theorem frameAddress_add_ofNat (f : Frame) {i : ℕ} (hi : i < 512) :
    frameAddress f + BitVec.ofNat 64 i * 8 = slotAddress f (BitVec.ofNat 9 i) := by
  have hindex : BitVec.ofNat 64 i = (BitVec.ofNat 9 i).setWidth 64 := by
    apply BitVec.eq_of_toNat_eq
    rw [BitVec.toNat_setWidth, BitVec.toNat_ofNat, BitVec.toNat_ofNat]
    omega
  rw [hindex, frameAddress_add_slot]

/-- An address lies in a frame when it is less than 4096 above its start. -/
def InFrame (f : Frame) (a : Word) : Prop := (a - frameAddress f).toNat < 4096

/-- Membership of a frame, as a bound on the address. -/
theorem inFrame_iff {f : Frame} {a : Word} :
    InFrame f a ↔ f.toNat * 4096 ≤ a.toNat ∧ a.toNat < f.toNat * 4096 + 4096 := by
  have hf := f.isLt
  have ha := a.isLt
  rw [InFrame, BitVec.toNat_sub, toNat_frameAddress]
  omega

/-- Frames are disjoint blocks. -/
theorem InFrame.eq {f g : Frame} {a : Word} (hf : InFrame f a) (hg : InFrame g a) : f = g := by
  rw [inFrame_iff] at hf hg
  exact BitVec.eq_of_toNat_eq (by omega)

/-- The bytes of a slot lie in its frame. -/
theorem inFrame_slot (f : Frame) (i : Slot) {k : Word} (hk : k.toNat < 8) :
    InFrame f (slotAddress f i + k) := by
  have hf := f.isLt
  have hi := i.isLt
  rw [inFrame_iff, BitVec.toNat_add, toNat_slotAddress]
  omega

/-- Two memories hold the same bytes in a frame. -/
def SameFrame (m m' : Memory) (f : Frame) : Prop := ∀ a, InFrame f a → m' a = m a

theorem SameFrame.refl (m : Memory) (f : Frame) : SameFrame m m f := fun _ _ => rfl

theorem SameFrame.trans {m m' m'' : Memory} {f : Frame} (h : SameFrame m m' f)
    (h' : SameFrame m' m'' f) : SameFrame m m'' f := fun a ha => (h' a ha).trans (h a ha)

/-- Equal frames have equal slots. -/
theorem SameFrame.slotWord {m m' : Memory} {f : Frame} (h : SameFrame m m' f) (i : Slot) :
    slotWord m' f i = slotWord m f i :=
  readQword_congr fun _ hk => h _ (inFrame_slot f i hk)

/-- Storing in a slot changes no other frame. -/
theorem sameFrame_writeSlot {m : Memory} {f g : Frame} {i : Slot} {v : BitVec 64} (h : g ≠ f) :
    SameFrame m (writeQword m (slotAddress f i) v) g := by
  intro a ha
  refine writeBytes_apply_of_le ?_
  rw [inFrame_iff] at ha
  have hn : g.toNat ≠ f.toNat := fun he => h (BitVec.eq_of_toNat_eq he)
  have hf := f.isLt
  have hi := i.isLt
  have hlt := a.isLt
  rw [BitVec.toNat_sub, toNat_slotAddress]
  omega

/-- Storing in a slot sets that slot and no other one. -/
theorem slotWord_writeSlot (m : Memory) (f g : Frame) (i j : Slot) (v : BitVec 64) :
    slotWord (writeQword m (slotAddress f i) v) g j =
      if g = f ∧ j = i then v else slotWord m g j := by
  by_cases h : g = f ∧ j = i
  · rw [if_pos h, h.1, h.2]
    exact readQword_writeQword m _ v
  · rw [if_neg h]
    refine readQword_writeQword_of_ne ?_ ?_ (fun he => h (slotAddress_inj.mp he))
    · rw [toNat_slotAddress]
      omega
    · rw [toNat_slotAddress]
      omega

/-- Filling a frame changes no other frame. -/
theorem sameFrame_fill {m : Memory} {f g : Frame} {v : BitVec 8} (h : g ≠ f) :
    SameFrame m (fill m (frameAddress f) v 4096) g := by
  intro a ha
  refine fill_apply_of_le (Nat.le_of_not_lt fun hlt => h ?_)
  exact InFrame.eq ha hlt

/-- A store of a doubleword at the start of a frame changes no other frame. -/
theorem sameFrame_writeDword {m : Memory} {f g : Frame} {v : BitVec 32} (h : g ≠ f) :
    SameFrame m (writeDword m (frameAddress f) v) g := by
  intro a ha
  refine writeBytes_apply_of_le (Nat.le_of_not_lt fun hlt => h ?_)
  exact InFrame.eq ha (Nat.lt_of_lt_of_le hlt (by decide))

/-- All bytes of a frame are zero. -/
def ZeroFrame (m : Memory) (f : Frame) : Prop := ∀ a, InFrame f a → m a = 0

/-- A frame filled with zero is a zero frame. -/
theorem zeroFrame_fill (m : Memory) (f : Frame) : ZeroFrame (fill m (frameAddress f) 0 4096) f :=
  fun _ ha => fill_apply_of_lt ha

/-- A zero frame has zero slots. -/
theorem ZeroFrame.slotWord {m : Memory} {f : Frame} (h : ZeroFrame m f) (i : Slot) :
    slotWord m f i = 0 :=
  readQword_eq_zero fun _ hk => h _ (inFrame_slot f i hk)

/-- A zero frame stays zero while its bytes stay. -/
theorem ZeroFrame.of_same {m m' : Memory} {f : Frame} (h : ZeroFrame m f)
    (hs : SameFrame m m' f) : ZeroFrame m' f := fun a ha => (hs a ha).trans (h a ha)

/-- The first slots of a frame have got their values; no other frame changed. -/
structure SlotsFilled (m m' : Memory) (f : Frame) (value : ℕ → BitVec 64) (n : ℕ) : Prop where
  others : ∀ g, g ≠ f → SameFrame m m' g
  filled : ∀ j : Slot, j.toNat < n → slotWord m' f j = value j.toNat

theorem SlotsFilled.start (m : Memory) (f : Frame) (value : ℕ → BitVec 64) :
    SlotsFilled m m f value 0 :=
  ⟨fun g _ => SameFrame.refl m g, fun _ hj => absurd hj (Nat.not_lt_zero _)⟩

/-- A store in the next slot. -/
theorem SlotsFilled.store {m m' : Memory} {f : Frame} {value : ℕ → BitVec 64} {n : ℕ}
    (h : SlotsFilled m m' f value n) (hn : n < 512) :
    SlotsFilled m (writeQword m' (slotAddress f (BitVec.ofNat 9 n)) (value n)) f value (n + 1) := by
  have hslot : (BitVec.ofNat 9 n).toNat = n := by
    rw [BitVec.toNat_ofNat]
    exact Nat.mod_eq_of_lt hn
  refine ⟨fun g hg => (h.others g hg).trans (sameFrame_writeSlot hg), fun j hj => ?_⟩
  rw [slotWord_writeSlot]
  by_cases hjn : j = BitVec.ofNat 9 n
  · rw [if_pos ⟨rfl, hjn⟩, hjn, hslot]
  · rw [if_neg fun hc => hjn hc.2]
    refine h.filled j (Nat.lt_of_le_of_ne (Nat.le_of_lt_succ hj) fun he => hjn ?_)
    exact BitVec.eq_of_toNat_eq (he.trans hslot.symm)

end Rkhv.ByteMemory
