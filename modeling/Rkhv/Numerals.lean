import Mathlib

/-!
# Numerals in a base

A numeral lists the digits of a number from the most significant one on, without
leading zeros but with one digit for zero. A padded numeral has a fixed number of
digits, and is the numeral behind zeros when the number fits.
-/

namespace Rkhv.Numerals

/-- The digits of a number without leading zeros. -/
def numeral (b n : ℕ) : List ℕ := if n = 0 then [0] else (Nat.digits b n).reverse

/-- The last `k` digits of a number, with leading zeros. -/
def padded (b : ℕ) : ℕ → ℕ → List ℕ
  | 0, _ => []
  | k + 1, n => padded b k (n / b) ++ [n % b]

variable {b n k : ℕ}

/-- A number below the base is one digit. -/
theorem numeral_of_lt (h : n < b) : numeral b n = [n] := by
  by_cases hzero : n = 0
  · rw [numeral, if_pos hzero, hzero]
  · rw [numeral, if_neg hzero, Nat.digits_of_lt b n hzero h, List.reverse_singleton]

/-- Any other number is its quotient and its last digit. -/
theorem numeral_of_le (hb : 1 < b) (h : b ≤ n) : numeral b n = numeral b (n / b) ++ [n % b] := by
  have hpos : 0 < n := (Nat.zero_lt_of_lt hb).trans_le h
  have hquotient : n / b ≠ 0 := (Nat.div_pos h (Nat.zero_lt_of_lt hb)).ne'
  rw [numeral, if_neg hpos.ne', numeral, if_neg hquotient, Nat.digits_def' hb hpos,
    List.reverse_cons]

/-- A numeral has a digit. -/
theorem length_numeral_pos (hb : 1 < b) : 0 < (numeral b n).length := by
  cases lt_or_ge n b with
  | inl hlt =>
    rw [numeral_of_lt hlt]
    exact Nat.one_pos
  | inr hle =>
    rw [numeral_of_le hb hle, List.length_append]
    exact Nat.succ_pos _

/-- A numeral fits a number of digits when the number is small enough. -/
theorem length_numeral_le_iff (hb : 1 < b) (hk : 0 < k) : (numeral b n).length ≤ k ↔ n < b ^ k := by
  by_cases hzero : n = 0
  · rw [numeral, if_pos hzero, hzero]
    exact ⟨fun _ => Nat.pow_pos (Nat.zero_lt_of_lt hb), fun _ => hk⟩
  · rw [numeral, if_neg hzero, List.length_reverse]
    exact Nat.digits_length_le_iff hb n

/-- Digits are below the base. -/
theorem lt_of_mem_numeral (hb : 1 < b) {d : ℕ} (hd : d ∈ numeral b n) : d < b := by
  by_cases hzero : n = 0
  · rw [numeral, if_pos hzero] at hd
    rw [List.mem_singleton.mp hd]
    exact Nat.zero_lt_of_lt hb
  · rw [numeral, if_neg hzero, List.mem_reverse] at hd
    exact Nat.digits_lt_base hb hd

theorem lt_of_mem_padded (hb : 0 < b) {d : ℕ} (hd : d ∈ padded b k n) : d < b := by
  induction k generalizing n with
  | zero => cases hd
  | succ k ih =>
    cases List.mem_append.mp hd with
    | inl hfront => exact ih hfront
    | inr hlast =>
      rw [List.mem_singleton.mp hlast]
      exact Nat.mod_lt n hb

theorem length_padded (b k n : ℕ) : (padded b k n).length = k := by
  induction k generalizing n with
  | zero => rfl
  | succ k ih => rw [padded, List.length_append, ih, List.length_singleton]

theorem padded_zero (b k : ℕ) : padded b k 0 = List.replicate k 0 := by
  induction k with
  | zero => rfl
  | succ k ih => rw [padded, Nat.zero_div, Nat.zero_mod, ih, ← List.replicate_succ']

/-- A padded numeral that fits is the numeral behind zeros. -/
theorem padded_eq (hb : 1 < b) (hfits : (numeral b n).length ≤ k) :
    padded b k n = List.replicate (k - (numeral b n).length) 0 ++ numeral b n := by
  induction k generalizing n with
  | zero => exact absurd hfits (Nat.not_le.mpr (length_numeral_pos hb))
  | succ k ih =>
    rw [padded]
    cases lt_or_ge n b with
    | inl hlt =>
      rw [numeral_of_lt hlt, Nat.div_eq_of_lt hlt, Nat.mod_eq_of_lt hlt, padded_zero]
      rfl
    | inr hle =>
      rw [numeral_of_le hb hle] at hfits ⊢
      rw [List.length_append, List.length_singleton] at hfits ⊢
      rw [ih (Nat.le_of_succ_le_succ hfits), Nat.add_sub_add_right, List.append_assoc]

/-- A padded numeral that is too narrow keeps the last digits. -/
theorem padded_eq_drop (hb : 1 < b) (hnarrow : k ≤ (numeral b n).length) :
    padded b k n = (numeral b n).drop ((numeral b n).length - k) := by
  induction k generalizing n with
  | zero => rw [padded, Nat.sub_zero, List.drop_length]
  | succ k ih =>
    rw [padded]
    cases lt_or_ge n b with
    | inl hlt =>
      rw [numeral_of_lt hlt] at hnarrow ⊢
      obtain rfl : k = 0 := Nat.le_zero.mp (Nat.le_of_succ_le_succ hnarrow)
      rw [Nat.mod_eq_of_lt hlt]
      rfl
    | inr hle =>
      rw [numeral_of_le hb hle] at hnarrow ⊢
      rw [List.length_append, List.length_singleton] at hnarrow ⊢
      have hshort := Nat.le_of_succ_le_succ hnarrow
      rw [ih hshort, Nat.add_sub_add_right, List.drop_append_of_le_length (Nat.sub_le _ _)]

end Rkhv.Numerals
