import Rkhv.NumberStrings

/-!
# Digits in narrow buffers

A buffer can be too narrow for a number. `str_utoa` then keeps the last decimal
digits and points to the first of them. `str_itoh` writes the last nibbles as
well, but never sees the value become zero, and returns null. `str_itouh` of the
bootloader writes the same hexadecimal digits as wide characters.
-/

namespace Rkhv.DigitBuffers

open ByteMemory Numerals NumberStrings

/-! ## The bootloader -/

/-- Characters of the firmware. -/
abbrev WideMemory := ℕ → BitVec 16

/-- The digit that `str_itouh` writes for a nibble. -/
def itouhDigit (nibble : Byte) : BitVec 16 :=
  if nibble < 10 then 0x30 + nibble.zeroExtend 16 else 0x61 + nibble.zeroExtend 16 - 10

/-- The loop of `str_itouh`, with `n` characters left to write. -/
def itouhLoop (outString : ℕ) (m : WideMemory) (value : Word) : ℕ → WideMemory
  | 0 => m
  | index + 1 =>
    let nibble := (value &&& 0xf).truncate 8
    itouhLoop outString (Function.update m (outString + index) (itouhDigit nibble)) (value >>> 4) index

/-- `str_itouh` -/
def strItouh (m : WideMemory) (outString : ℕ) (value outLen : Word) : WideMemory :=
  itouhLoop outString m value ((outLen - 1).toInt + 1).toNat

variable {m : CharMemory} {wide : WideMemory} {outString buffer n i : ℕ} {value size : Word}

/-- Both functions write the same digit. -/
theorem itouhDigit_eq (value : Word) :
    itouhDigit ((value &&& 0xf).truncate 8) = (itohDigit ((value &&& 0xf).truncate 8)).zeroExtend 16 := by
  have hlt : ((value &&& 0xf).truncate 8 : Byte).toNat < 16 := by
    have hmask : (0xf : Word).toNat = 2 ^ 4 - 1 := rfl
    rw [BitVec.toNat_setWidth, BitVec.toNat_and, hmask, Nat.and_two_pow_sub_one_eq_mod]
    omega
  generalize (value &&& 0xf).truncate 8 = nibble at hlt
  have hall : ∀ d : Fin 16, itouhDigit (BitVec.ofNat 8 d) = (itohDigit (BitVec.ofNat 8 d)).zeroExtend 16 := by
    decide
  have hdigit := hall ⟨nibble.toNat, hlt⟩
  rwa [BitVec.ofNat_toNat, BitVec.setWidth_eq] at hdigit

/-! ## Hexadecimal -/

/-- Nibble number `i` from the left of the last `n` nibbles. -/
def nibbleAt (value : Word) (n i : ℕ) : ℕ := value.toNat / 16 ^ (n - 1 - i) % 16

theorem nibbleAt_lt (value : Word) (n i : ℕ) : nibbleAt value n i < 16 := Nat.mod_lt _ (by decide)

theorem nibbleAt_last (value : Word) (n : ℕ) : nibbleAt value (n + 1) n = value.toNat % 16 := by
  rw [nibbleAt, Nat.add_sub_cancel, Nat.sub_self, pow_zero, Nat.div_one]

/-- The nibbles before the last are those of the shifted value. -/
theorem nibbleAt_shift (value : Word) (hi : i < n) :
    nibbleAt (value >>> 4) n i = nibbleAt value (n + 1) i := by
  have hexponent : n + 1 - 1 - i = n - 1 - i + 1 := by omega
  rw [nibbleAt, nibbleAt, shift_toNat, hexponent, pow_succ', Nat.div_div_eq_div_mul]

/-- The loop writes the last nibbles, the most significant one first. -/
theorem itohLoop_nibble {trimmed : Option ℕ} (hi : i < n) :
    (itohLoop outString m value trimmed n).1 (outString + i) = digitByte (nibbleAt value n i) := by
  induction n generalizing m value trimmed with
  | zero => exact absurd hi (Nat.not_lt_zero i)
  | succ n ih =>
    rw [itohLoop]
    cases Nat.lt_or_eq_of_le (Nat.le_of_lt_succ hi) with
    | inl hlt => rw [ih hlt, nibbleAt_shift value hlt]
    | inr heq =>
      rw [heq, itohLoop_outside (Or.inr (Nat.le_refl _)), Function.update_self, itohDigit_eq,
        nibbleAt_last]

/-- The loop of the bootloader leaves the other characters alone. -/
theorem itouhLoop_outside {a : ℕ} (h : a < outString ∨ outString + n ≤ a) :
    itouhLoop outString wide value n a = wide a := by
  induction n generalizing wide value with
  | zero => rfl
  | succ n ih =>
    have hne : a ≠ outString + n := by omega
    rw [itouhLoop, ih (by omega), Function.update_of_ne hne]

/-- It writes the same digits. -/
theorem itouhLoop_nibble {trimmed : Option ℕ} (hi : i < n) :
    itouhLoop outString wide value n (outString + i) =
      ((itohLoop outString m value trimmed n).1 (outString + i)).zeroExtend 16 := by
  induction n generalizing m wide value trimmed with
  | zero => exact absurd hi (Nat.not_lt_zero i)
  | succ n ih =>
    rw [itohLoop, itouhLoop]
    cases Nat.lt_or_eq_of_le (Nat.le_of_lt_succ hi) with
    | inl hlt => exact ih hlt
    | inr heq =>
      rw [heq, itohLoop_outside (Or.inr (Nat.le_refl _)), itouhLoop_outside (Or.inr (Nat.le_refl _)),
        Function.update_self, Function.update_self, itouhDigit_eq]

/-- The index of the last character. -/
theorem last_index (hsize : 0 < size.toNat) : (size - 1).toNat = size.toNat - 1 := by
  have hone : (1 : Word).toNat = 1 := rfl
  have hlt := size.isLt
  rw [BitVec.toNat_sub, hone]
  omega

/-- The number of rounds of the loops, whose index is signed. -/
theorem rounds_eq (hsize : 0 < size.toNat) :
    ((size - 1).toInt + 1).toNat = if size.toNat ≤ 2 ^ 63 then size.toNat else 0 := by
  have hlt := size.isLt
  have hindex := last_index hsize
  rw [BitVec.toInt_eq_toNat_cond, hindex]
  split_ifs <;> omega

/-- What hexadecimal rendering is to do: the last nibbles as lower-case digits in
the buffer and nowhere else, as the bootloader writes them, and a pointer to the
first digit other than zero, or to the last one. -/
structure HexRendered (m : CharMemory) (outString : ℕ) (value size : Word)
    (result : CharMemory × Option ℕ) : Prop where
  digits : ∀ i < size.toNat, result.1 (outString + i) = digitByte (nibbleAt value size.toNat i)
  outside : ∀ a, a < outString ∨ outString + size.toNat ≤ a → result.1 a = m a
  bootloader : ∀ wide, ∀ i < size.toNat, strItouh wide outString value size (outString + i) =
    (result.1 (outString + i)).zeroExtend 16
  start : ∃ i < size.toNat, result.2 = some (outString + i) ∧
    (∀ j < i, result.1 (outString + j) = digitByte 0) ∧
    (result.1 (outString + i) ≠ digitByte 0 ∨ i + 1 = size.toNat)

/-- Only zero is written as zero. -/
theorem digitByte_eq_zero_iff {d : ℕ} (h : d < 16) : digitByte d = digitByte 0 ↔ d = 0 := by
  interval_cases d <;> decide

/-- In a value that fits, the numeral starts with its first nibble that is not zero. -/
theorem nibbleAt_numeral (hfits : (numeral 16 value.toNat).length ≤ n) :
    (∀ j < n - (numeral 16 value.toNat).length, nibbleAt value n j = 0) ∧
      (nibbleAt value n (n - (numeral 16 value.toNat).length) ≠ 0 ∨
        n - (numeral 16 value.toNat).length + 1 = n) := by
  have hpos := @length_numeral_pos 16 value.toNat (by decide)
  have hless := (length_numeral_le_iff (by decide) hpos).mp (Nat.le_refl (numeral 16 value.toNat).length)
  generalize hlength : (numeral 16 value.toNat).length = k at hfits hpos hless ⊢
  constructor
  · intro j hj
    have hpow : 16 ^ k ≤ 16 ^ (n - 1 - j) := Nat.pow_le_pow_right (by decide) (by omega)
    rw [nibbleAt, Nat.div_eq_of_lt (hless.trans_le hpow), Nat.zero_mod]
  · cases Nat.lt_or_ge 1 k with
    | inr hone => exact Or.inr (by omega)
    | inl hmore =>
      have hexponent : n - 1 - (n - k) = k - 1 := by omega
      have hle : 16 ^ (k - 1) ≤ value.toNat := by
        by_contra hlt
        have hshort := (length_numeral_le_iff (by decide) (by omega)).mpr (Nat.lt_of_not_le hlt)
        omega
      have hquotient : 0 < value.toNat / 16 ^ (k - 1) := Nat.div_pos hle (Nat.pow_pos (by decide))
      have hdigit : value.toNat / 16 ^ (k - 1) < 16 := by
        rw [Nat.div_lt_iff_lt_mul (Nat.pow_pos (by decide)), ← pow_succ', Nat.sub_add_cancel hpos]
        exact hless
      rw [nibbleAt, hexponent, Nat.mod_eq_of_lt hdigit]
      exact Or.inl hquotient.ne'

/-- `str_itoh` renders a value exactly when it fits into the buffer and the index of
the last character is not negative. -/
theorem strItoh_rendered_iff (m : CharMemory) (outString : ℕ) (value size : Word)
    (hsize : 0 < size.toNat) :
    HexRendered m outString value size (strItoh m outString value size) ↔
      value.toNat < 16 ^ size.toNat ∧ size.toNat ≤ 2 ^ 63 := by
  have hrounds := rounds_eq hsize
  rw [strItoh]
  constructor
  · intro h
    obtain ⟨i, _, hstart, _⟩ := h.start
    by_cases hsigned : size.toNat ≤ 2 ^ 63
    · rw [hrounds, if_pos hsigned, itohLoop_trimmed] at hstart
      by_cases hfits : (numeral 16 value.toNat).length ≤ size.toNat
      · exact ⟨(length_numeral_le_iff (by decide) hsize).mp hfits, hsigned⟩
      · rw [if_neg hfits] at hstart
        cases hstart
    · rw [hrounds, if_neg hsigned] at hstart
      cases hstart
  · rintro ⟨hvalue, hsigned⟩
    have hfits := (length_numeral_le_iff (by decide) hsize).mpr hvalue
    have hpos := @length_numeral_pos 16 value.toNat (by decide)
    obtain ⟨hzeros, hfirst⟩ := nibbleAt_numeral hfits
    rw [hrounds, if_pos hsigned]
    refine
      { digits := fun i hi => itohLoop_nibble hi
        outside := fun a ha => itohLoop_outside ha
        bootloader := fun wide i hi => ?_
        start := ⟨size.toNat - (numeral 16 value.toNat).length, by omega, ?_, fun j hj => ?_, ?_⟩ }
    · rw [strItouh, hrounds, if_pos hsigned]
      exact itouhLoop_nibble hi
    · rw [itohLoop_trimmed, if_pos hfits]
    · rw [itohLoop_nibble (by omega), hzeros j hj]
    · rw [itohLoop_nibble (by omega), ne_eq, digitByte_eq_zero_iff (nibbleAt_lt _ _ _)]
      exact hfirst

/-- A byte in four characters. -/
theorem strItoh_rendered_byte : HexRendered (fun _ => 0) 0 0x1f 4 (strItoh (fun _ => 0) 0 0x1f 4) :=
  (strItoh_rendered_iff (fun _ => 0) 0 0x1f 4 (by decide)).mpr (by decide)

/-- Two characters are too few for three nibbles: the pointer is null. -/
theorem strItoh_null : (strItoh (fun _ => 0) 0 0x123 2).2 = none ∧
    ¬HexRendered (fun _ => 0) 0 0x123 2 (strItoh (fun _ => 0) 0 0x123 2) := by
  have hnull : (strItoh (fun _ => 0) 0 0x123 2).2 = none := by decide
  refine ⟨hnull, fun h => ?_⟩
  obtain ⟨i, _, hstart, _⟩ := h.start
  rw [hnull] at hstart
  cases hstart

/-! ## Decimal -/

/-- In a buffer that is too narrow the loop writes the last digits from its start on. -/
theorem utoaLoop_narrow (hnarrow : n + 1 < (numeral 10 value.toNat).length) :
    (utoaLoop buffer m value n).2 = buffer ∧
      charsFrom (utoaLoop buffer m value n).1 buffer (n + 1) =
        (padded 10 (n + 1) value.toNat).map digitByte := by
  induction n generalizing m value with
  | zero =>
    refine ⟨rfl, ?_⟩
    rw [utoaLoop, charsFrom, List.range_one, List.map_singleton, Nat.add_zero]
    dsimp only
    rw [Function.update_self, utoaDigit_eq]
    rfl
  | succ n ih =>
    have hge : 10 ≤ value.toNat := by
      by_contra hlt
      rw [numeral_of_lt (Nat.lt_of_not_le hlt), List.length_singleton] at hnarrow
      omega
    have hmore : value / 10 ≠ 0 := fun h => absurd ((quotient_eq_zero_iff value).mp h) (by omega)
    rw [numeral_of_le (by decide) hge, ← quotient_toNat, List.length_append,
      List.length_singleton] at hnarrow
    obtain ⟨hstart, hdigits⟩ := @ih (Function.update m (buffer + (n + 1))
      (0x30 + (value % 10).truncate 8)) (value / 10) (Nat.lt_of_succ_lt_succ hnarrow)
    have hlast : (utoaLoop buffer (Function.update m (buffer + (n + 1))
        (0x30 + (value % 10).truncate 8)) (value / 10) n).1 (buffer + (n + 1)) =
          digitByte (value.toNat % 10) := by
      rw [utoaLoop_outside (Or.inr (by omega)), Function.update_self, utoaDigit_eq]
    rw [utoaLoop, if_pos hmore, charsFrom_succ, padded, List.map_append, ← quotient_toNat, hdigits,
      hlast]
    exact ⟨hstart, rfl⟩

/-- From a pointer into the buffer to its end there is the decimal numeral of the
value, or the last digits of it that fit, and nothing else is written. -/
theorem strUtoa_exact (m : CharMemory) (buffer : ℕ) (value size : Word) (hsize : 0 < size.toNat) :
    (∀ a, a < buffer ∨ buffer + size.toNat ≤ a → (strUtoa m buffer value size).1 a = m a) ∧
      buffer ≤ (strUtoa m buffer value size).2 ∧
      (strUtoa m buffer value size).2 < buffer + size.toNat ∧
      charsFrom (strUtoa m buffer value size).1 (strUtoa m buffer value size).2
          (buffer + size.toNat - (strUtoa m buffer value size).2) =
        ((numeral 10 value.toNat).drop ((numeral 10 value.toNat).length - size.toNat)).map digitByte := by
  have hlt := size.isLt
  have hindex := last_index hsize
  have hpos := @length_numeral_pos 10 value.toNat (by decide)
  rw [strUtoa, hindex]
  have houtside : ∀ a, a < buffer ∨ buffer + size.toNat ≤ a →
      (utoaLoop buffer m value (size.toNat - 1)).1 a = m a := fun a ha => utoaLoop_outside (by omega)
  cases Nat.lt_or_ge size.toNat (numeral 10 value.toNat).length with
  | inl hnarrow =>
    obtain ⟨hstart, hdigits⟩ := @utoaLoop_narrow m buffer (size.toNat - 1) value (by omega)
    rw [Nat.sub_add_cancel hsize] at hdigits
    rw [hstart, Nat.add_sub_cancel_left, hdigits, padded_eq_drop (by decide) hnarrow.le]
    exact ⟨houtside, Nat.le_refl _, by omega, rfl⟩
  | inr hfits =>
    obtain ⟨hstart, hdigits⟩ := @utoaLoop_charsFrom m buffer (size.toNat - 1) value (by omega)
    rw [Nat.sub_add_cancel hsize] at hstart
    have hlength : buffer + size.toNat - (utoaLoop buffer m value (size.toNat - 1)).2 =
        (numeral 10 value.toNat).length := by
      rw [hstart]
      omega
    rw [hlength, hdigits, Nat.sub_eq_zero_of_le hfits, List.drop_zero]
    exact ⟨houtside, by omega, by omega, rfl⟩

/-- A number of three digits, in a buffer of two. -/
theorem strUtoa_exact_narrow : charsFrom (strUtoa (fun _ => 0) 0 345 2).1 0 2 = [0x34, 0x35] := by
  obtain ⟨_, _, _, hdigits⟩ := strUtoa_exact (fun _ => 0) 0 345 2 (by decide)
  have hstart : (strUtoa (fun _ => 0) 0 345 2).2 = 0 := by decide
  have hvalue : (345 : Word).toNat = 345 := rfl
  have hsize : (2 : Word).toNat = 2 := rfl
  rw [hstart, hvalue, hsize, numeral, if_neg (by decide)] at hdigits
  rw [hdigits]
  norm_num [digitByte]
  exact ⟨rfl, rfl⟩

end Rkhv.DigitBuffers
