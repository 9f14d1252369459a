import Rkhv.ByteMemory

/-!
# Bit fields of a quadword

Page-table entries and addresses are quadwords whose fields are cut out with
masks and shifts. A field mask selects the bits of one field; masking and
shifting yields the field as a number. A frame address shares its quadword
with flags in the twelve low bits without either disturbing the other.
-/

namespace Rkhv.WordFields

open ByteMemory

/-- Mask of the `n` bits from bit `k` upwards. -/
def fieldMask (k n : ℕ) : Word := (BitVec.allOnes n).setWidth 64 <<< k

/-- The bits of a field mask are those of its field. -/
theorem getLsbD_fieldMask (k n i : ℕ) :
    (fieldMask k n).getLsbD i = (decide (i < 64) && decide (k ≤ i) && decide (i < k + n)) := by
  simp only [fieldMask, BitVec.getLsbD_shiftLeft, BitVec.getLsbD_setWidth, BitVec.getLsbD_allOnes]
  grind

/-- Masking a field and shifting it down yields the field. -/
theorem and_fieldMask_shiftRight (x : Word) (k n : ℕ) :
    (x &&& fieldMask k n) >>> k = (x.extractLsb' k n).setWidth 64 := by
  apply BitVec.eq_of_getLsbD_eq
  intro i hi
  simp only [BitVec.getLsbD_ushiftRight, BitVec.getLsbD_and, getLsbD_fieldMask,
    BitVec.getLsbD_setWidth, BitVec.getLsbD_extractLsb']
  grind

/-- A number below `2 ^ n` has no bit from `n` upwards. -/
theorem getLsbD_of_toNat_lt {x : Word} {n i : ℕ} (h : x.toNat < 2 ^ n) (hi : n ≤ i) :
    x.getLsbD i = false :=
  Nat.testBit_lt_two_pow (h.trans_le (Nat.pow_le_pow_right (by decide) hi))

/-- The frame number held in bits 12 to 51 of a quadword. -/
def frameOf (x : Word) : Frame := x.extractLsb' 12 40

/-- Bits of a frame address. -/
theorem getLsbD_frameAddress (f : Frame) (i : ℕ) :
    (frameAddress f).getLsbD i = (decide (12 ≤ i) && f.getLsbD (i - 12)) := by
  simp only [frameAddress, BitVec.getLsbD_setWidth, BitVec.getLsbD_append, BitVec.getLsbD_zero]
  grind

/-- Masking bits 12 to 51 keeps the frame address of a quadword. -/
theorem and_frameMask (x : Word) : x &&& fieldMask 12 40 = frameAddress (frameOf x) := by
  apply BitVec.eq_of_getLsbD_eq
  intro i hi
  simp only [BitVec.getLsbD_and, getLsbD_fieldMask, getLsbD_frameAddress, frameOf,
    BitVec.getLsbD_extractLsb']
  grind

/-- Flags in the low twelve bits do not disturb the frame number. -/
theorem frameOf_or {c : Word} (f : Frame) (hc : c.toNat < 4096) :
    frameOf (c ||| frameAddress f) = f := by
  apply BitVec.eq_of_getLsbD_eq
  intro i hi
  have h : c.getLsbD (12 + i) = false := getLsbD_of_toNat_lt (n := 12) hc (by omega)
  simp only [frameOf, BitVec.getLsbD_extractLsb', BitVec.getLsbD_or, getLsbD_frameAddress, h]
  grind

/-- The frame number does not disturb the low twelve bits. -/
theorem or_frameAddress_and {c l : Word} (f : Frame) (hl : l.toNat < 4096) :
    (c ||| frameAddress f) &&& l = c &&& l := by
  apply BitVec.eq_of_getLsbD_eq
  intro i hi
  simp only [BitVec.getLsbD_and, BitVec.getLsbD_or, getLsbD_frameAddress]
  by_cases h : 12 ≤ i
  · simp only [getLsbD_of_toNat_lt (n := 12) hl h, Bool.and_false]
  · simp only [h, decide_false, Bool.false_and, Bool.or_false]

/-- A frame address is the frame address of its frame number. -/
@[simp] theorem frameOf_frameAddress (f : Frame) : frameOf (frameAddress f) = f := by
  have h := frameOf_or (c := 0) f (by decide)
  simpa using h

end Rkhv.WordFields
