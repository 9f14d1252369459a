import Rkhv.ByteMemory
import Rkhv.Numerals

/-!
# Numbers as strings

`str_itoh` and `str_utoa` write the digits of a number into a buffer from its
end on. The first writes a fixed number of hexadecimal digits and points to the
first that matters; the second writes the decimal numeral, as far as it fits,
and points to its first digit.
-/

namespace Rkhv.NumberStrings

open ByteMemory Numerals

/-- Characters of the C program. -/
abbrev Byte := BitVec 8

/-- Characters by their index from some address on. -/
abbrev CharMemory := ℕ → Byte

/-- The digit that `str_itoh` writes for a nibble. -/
def itohDigit (nibble : Byte) : Byte := if nibble < 10 then 0x30 + nibble else 0x61 + nibble - 10

/-- The loop of `str_itoh`, with `n` characters left to write. -/
def itohLoop (outString : ℕ) (m : CharMemory) (value : Word) (trimmedStart : Option ℕ) :
    ℕ → CharMemory × Option ℕ
  | 0 => (m, trimmedStart)
  | index + 1 =>
    let nibble := (value &&& 0xf).truncate 8
    let value' := value >>> 4
    let trimmedStart' :=
      if value' = 0 ∧ trimmedStart = none then some (outString + index) else trimmedStart
    itohLoop outString (Function.update m (outString + index) (itohDigit nibble)) value'
      trimmedStart' index

/-- `str_itoh`; the index of its loop is signed, and null is `none`. -/
def strItoh (m : CharMemory) (outString : ℕ) (value size : Word) : CharMemory × Option ℕ :=
  itohLoop outString m value none ((size - 1).toInt + 1).toNat

/-- The loop of `str_utoa` at an index. -/
def utoaLoop (buffer : ℕ) (m : CharMemory) (value : Word) : ℕ → CharMemory × ℕ
  | 0 => (Function.update m buffer (0x30 + (value % 10).truncate 8), buffer)
  | index + 1 =>
    let m' := Function.update m (buffer + (index + 1)) (0x30 + (value % 10).truncate 8)
    let value' := value / 10
    if value' ≠ 0 then utoaLoop buffer m' value' index else (m', buffer + (index + 1))

/-- `str_utoa` -/
def strUtoa (m : CharMemory) (buffer : ℕ) (value bufferSize : Word) : CharMemory × ℕ :=
  utoaLoop buffer m value (bufferSize - 1).toNat

/-! ## Digits -/

/-- The character of a digit. -/
def digitByte (d : ℕ) : Byte := BitVec.ofNat 8 (if d < 10 then 0x30 + d else 0x57 + d)

/-- A digit is no NUL. -/
theorem digitByte_ne_zero {d : ℕ} (h : d < 16) : digitByte d ≠ 0 := by
  interval_cases d <;> decide

/-- The characters from an index on. -/
def charsFrom (m : CharMemory) (start n : ℕ) : List Byte := (List.range n).map fun i => m (start + i)

variable {m : CharMemory} {outString buffer start n k : ℕ} {value : Word} {trimmed : Option ℕ}

theorem charsFrom_succ (m : CharMemory) (start n : ℕ) :
    charsFrom m start (n + 1) = charsFrom m start n ++ [m (start + n)] := by
  rw [charsFrom, List.range_succ, List.map_append]
  rfl

theorem charsFrom_append (m : CharMemory) (start n k : ℕ) :
    charsFrom m start (n + k) = charsFrom m start n ++ charsFrom m (start + n) k := by
  induction k with
  | zero => rw [Nat.add_zero, charsFrom, charsFrom, List.range_zero, List.map_nil, List.append_nil]
  | succ k ih => rw [← Nat.add_assoc, charsFrom_succ, ih, charsFrom_succ, List.append_assoc, Nat.add_assoc]

/-- Segments of memories that agree there are the same. -/
theorem charsFrom_congr {m' : CharMemory} (h : ∀ i < n, m' (start + i) = m (start + i)) :
    charsFrom m' start n = charsFrom m start n :=
  List.map_congr_left fun i hi => h i (List.mem_range.mp hi)

/-- The nibble that is written is the last hexadecimal digit. -/
theorem itohDigit_eq (value : Word) :
    itohDigit ((value &&& 0xf).truncate 8) = digitByte (value.toNat % 16) := by
  have hmod : (value &&& 0xf).toNat = value.toNat % 16 := by
    have hmask : (0xf : Word).toNat = 2 ^ 4 - 1 := rfl
    rw [BitVec.toNat_and, hmask, Nat.and_two_pow_sub_one_eq_mod]
  have hnibble : (value &&& 0xf).truncate 8 = BitVec.ofNat 8 (value.toNat % 16) := by
    apply BitVec.eq_of_toNat_eq
    rw [BitVec.toNat_setWidth, hmod, BitVec.toNat_ofNat]
  rw [hnibble]
  have hlt : value.toNat % 16 < 16 := Nat.mod_lt _ (by decide)
  generalize value.toNat % 16 = d at hlt
  interval_cases d <;> decide

/-- The character of a remainder by ten. -/
theorem utoaDigit_eq (value : Word) :
    0x30 + (value % 10).truncate 8 = digitByte (value.toNat % 10) := by
  have hten : (10 : Word).toNat = 10 := rfl
  have hdigit : (value % 10).truncate 8 = BitVec.ofNat 8 (value.toNat % 10) := by
    apply BitVec.eq_of_toNat_eq
    rw [BitVec.toNat_setWidth, BitVec.toNat_umod, hten, BitVec.toNat_ofNat]
  rw [hdigit]
  have hlt : value.toNat % 10 < 10 := Nat.mod_lt _ (by decide)
  generalize value.toNat % 10 = d at hlt
  interval_cases d <;> decide

theorem shift_toNat (value : Word) : (value >>> 4).toNat = value.toNat / 16 := by
  rw [BitVec.toNat_ushiftRight, Nat.shiftRight_eq_div_pow]

theorem quotient_toNat (value : Word) : (value / 10).toNat = value.toNat / 10 := by
  rw [BitVec.toNat_udiv]
  rfl

/-! ## Hexadecimal -/

/-- Characters outside the buffer are left alone. -/
theorem itohLoop_outside {a : ℕ} (h : a < outString ∨ outString + n ≤ a) :
    (itohLoop outString m value trimmed n).1 a = m a := by
  induction n generalizing m value trimmed with
  | zero => rfl
  | succ n ih =>
    rw [itohLoop, ih (by omega), Function.update_of_ne (by omega)]

/-- The buffer holds the last digits of the value. -/
theorem itohLoop_charsFrom : charsFrom (itohLoop outString m value trimmed n).1 outString n =
    (padded 16 n value.toNat).map digitByte := by
  induction n generalizing m value trimmed with
  | zero => rfl
  | succ n ih =>
    rw [itohLoop, charsFrom_succ, ih, padded, List.map_append, shift_toNat,
      itohLoop_outside (Or.inr (Nat.le_refl _)), Function.update_self, itohDigit_eq]
    rfl

/-- A pointer that is set stays. -/
theorem itohLoop_some {t : ℕ} : (itohLoop outString m value (some t) n).2 = some t := by
  induction n generalizing m value with
  | zero => rfl
  | succ n ih =>
    rw [itohLoop, if_neg (fun h => Option.some_ne_none t h.2)]
    exact ih

/-- The pointer leads to the numeral if it fits, and is null otherwise. -/
theorem itohLoop_trimmed : (itohLoop outString m value none n).2 =
    if (numeral 16 value.toNat).length ≤ n then
      some (outString + (n - (numeral 16 value.toNat).length)) else none := by
  induction n generalizing m value with
  | zero =>
    rw [if_neg (Nat.not_le.mpr (length_numeral_pos (by decide)))]
    rfl
  | succ n ih =>
    have hshift := shift_toNat value
    rw [itohLoop]
    cases lt_or_ge value.toNat 16 with
    | inl hlt =>
      have hzero : value >>> 4 = 0 := BitVec.eq_of_toNat_eq (by
        rw [hshift, Nat.div_eq_of_lt hlt]
        rfl)
      rw [if_pos ⟨hzero, rfl⟩, itohLoop_some, numeral_of_lt hlt, List.length_singleton,
        if_pos (Nat.succ_le_succ (Nat.zero_le n)), Nat.add_sub_cancel]
    | inr hge =>
      have hnonzero : value >>> 4 ≠ 0 := fun hzero => by
        rw [hzero] at hshift
        have hquotient := Nat.div_pos hge (by decide)
        rw [← hshift] at hquotient
        exact absurd hquotient (by decide)
      rw [if_neg (fun h => hnonzero h.1), ih, hshift, numeral_of_le (by decide) hge,
        List.length_append, List.length_singleton, Nat.add_sub_add_right]
      simp only [Nat.add_le_add_iff_right]

/-! ## Decimal -/

/-- Characters outside the buffer are left alone. -/
theorem utoaLoop_outside {a : ℕ} (h : a < buffer ∨ buffer + n < a) :
    (utoaLoop buffer m value n).1 a = m a := by
  induction n generalizing m value with
  | zero =>
    have hne : a ≠ buffer := by omega
    exact Function.update_of_ne hne _ _
  | succ n ih =>
    have hne : a ≠ buffer + (n + 1) := by omega
    rw [utoaLoop]
    split_ifs with hmore
    · rw [ih (by omega), Function.update_of_ne hne]
    · exact Function.update_of_ne hne _ _

/-- A value without further digits. -/
theorem quotient_eq_zero_iff (value : Word) : value / 10 = 0 ↔ value.toNat < 10 := by
  rw [← BitVec.toNat_inj, quotient_toNat]
  have hzero : (0 : Word).toNat = 0 := rfl
  omega

/-- The first digit stands alone. -/
theorem charsFrom_firstDigit (a : ℕ) (hlt : value.toNat < 10) :
    charsFrom (Function.update m a (0x30 + (value % 10).truncate 8)) a 1 =
      [value.toNat].map digitByte := by
  rw [charsFrom, List.range_one, List.map_singleton, Nat.add_zero, Function.update_self,
    utoaDigit_eq, Nat.mod_eq_of_lt hlt]
  rfl

/-- From the result to the end of the buffer there is the numeral, if it fits. -/
theorem utoaLoop_charsFrom (hfits : (numeral 10 value.toNat).length ≤ n + 1) :
    (utoaLoop buffer m value n).2 = buffer + (n + 1 - (numeral 10 value.toNat).length) ∧
      charsFrom (utoaLoop buffer m value n).1 (utoaLoop buffer m value n).2
        (numeral 10 value.toNat).length = (numeral 10 value.toNat).map digitByte := by
  induction n generalizing m value with
  | zero =>
    have hlt : value.toNat < 10 := by
      have hpow := (length_numeral_le_iff (by decide) Nat.one_pos).mp hfits
      rwa [pow_one] at hpow
    rw [numeral_of_lt hlt]
    exact ⟨rfl, charsFrom_firstDigit buffer hlt⟩
  | succ n ih =>
    rw [utoaLoop]
    cases lt_or_ge value.toNat 10 with
    | inl hlt =>
      have hzero : ¬value / 10 ≠ 0 := not_not.mpr ((quotient_eq_zero_iff value).mpr hlt)
      rw [if_neg hzero, numeral_of_lt hlt]
      exact ⟨rfl, charsFrom_firstDigit _ hlt⟩
    | inr hge =>
      have hmore : value / 10 ≠ 0 := fun h => absurd ((quotient_eq_zero_iff value).mp h) (by omega)
      rw [numeral_of_le (by decide) hge, ← quotient_toNat] at hfits ⊢
      rw [List.length_append, List.length_singleton] at hfits ⊢
      have hshort := Nat.le_of_succ_le_succ hfits
      rw [if_pos hmore, charsFrom_succ, List.map_append]
      obtain ⟨hstart, hdigits⟩ := @ih (Function.update m (buffer + (n + 1))
        (0x30 + (value % 10).truncate 8)) (value / 10) hshort
      have hend : (utoaLoop buffer (Function.update m (buffer + (n + 1))
          (0x30 + (value % 10).truncate 8)) (value / 10) n).2 +
          (numeral 10 (value / 10).toNat).length = buffer + (n + 1) := by
        rw [hstart]
        omega
      rw [hdigits, hend, utoaLoop_outside (by omega), Function.update_self]
      refine ⟨?_, ?_⟩
      · rw [hstart, Nat.add_sub_add_right]
      · rw [utoaDigit_eq]
        rfl

end Rkhv.NumberStrings
