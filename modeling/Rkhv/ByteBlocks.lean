import Rkhv.ByteMemory

/-!
# Blocks of bytes

Numbers of any width are read little-endian from a memory, a block of bytes is
copied from one memory to another, and several numbers are stored at offsets of
one base address. A byte that no store of such a list reaches stays the same.
-/

namespace Rkhv.ByteBlocks

open ByteMemory

variable {m m' src : Memory} {a a' b dst base : Word} {n : ℕ}

/-- The little-endian number in the `n` bytes from address `a` upwards. -/
def readBytes (m : Memory) (a : Word) : (n : ℕ) → BitVec (8 * n)
  | 0 => 0
  | n + 1 => readBytes m (a + 1) n ++ m a

/-- One address further is one byte further. -/
theorem add_succ_ofNat (a : Word) (k : ℕ) :
    a + 1 + BitVec.ofNat 64 k = a + BitVec.ofNat 64 (k + 1) := by
  rw [BitVec.ofNat_add, BitVec.add_assoc, BitVec.add_comm (1 : Word)]
  rfl

/-- A number only depends on its bytes. -/
theorem readBytes_congr
    (h : ∀ k < n, m' (a' + BitVec.ofNat 64 k) = m (a + BitVec.ofNat 64 k)) :
    readBytes m' a' n = readBytes m a n := by
  induction n generalizing a a' with
  | zero => rfl
  | succ n ih =>
    have hfirst := h 0 (Nat.succ_pos n)
    have hrest : readBytes m' (a' + 1) n = readBytes m (a + 1) n := ih fun k hk => by
      rw [add_succ_ofNat, add_succ_ofNat]
      exact h (k + 1) (Nat.succ_lt_succ hk)
    have hzero : ∀ c : Word, c + BitVec.ofNat 64 0 = c := fun c => BitVec.add_zero c
    rw [hzero, hzero] at hfirst
    rw [readBytes, readBytes, hrest, hfirst]

/-- Bits of a number are bits of its bytes. -/
theorem getLsbD_readBytes (m : Memory) (a : Word) (n i : ℕ) :
    (readBytes m a n).getLsbD i =
      (decide (i < 8 * n) && (m (a + BitVec.ofNat 64 (i / 8))).getLsbD (i % 8)) := by
  induction n generalizing a i with
  | zero => exact BitVec.getLsbD_of_ge _ _ (Nat.zero_le i)
  | succ n ih =>
    rw [readBytes, BitVec.getLsbD_append, ih, add_succ_ofNat]
    by_cases hi : i < 8
    · have hquotient : i / 8 = 0 := Nat.div_eq_of_lt hi
      have hzero : a + BitVec.ofNat 64 0 = a := BitVec.add_zero a
      have hlt : i < 8 * (n + 1) := by omega
      simp only [hi, if_true, decide_true, hquotient, hzero, Nat.mod_eq_of_lt hi, hlt, Bool.true_and]
    · have hquotient : (i - 8) / 8 + 1 = i / 8 := by omega
      have hremainder : (i - 8) % 8 = i % 8 := by omega
      have hlt : i - 8 < 8 * n ↔ i < 8 * (n + 1) := by omega
      simp only [hi, if_false, hquotient, hremainder, hlt]

/-- Bytes that are those of a number make the number. -/
theorem readBytes_eq {v : BitVec (8 * n)}
    (h : ∀ k < n, m (a + BitVec.ofNat 64 k) = v.extractLsb' (8 * k) 8) : readBytes m a n = v := by
  refine BitVec.eq_of_getLsbD_eq fun i hi => ?_
  have hbyte : i / 8 < n := by omega
  have hposition : 8 * (i / 8) + i % 8 = i := Nat.div_add_mod i 8
  have hbit : i % 8 < 8 := Nat.mod_lt i (by decide)
  rw [getLsbD_readBytes, h _ hbyte, BitVec.getLsbD_extractLsb', hposition]
  simp only [hi, hbit, decide_true, Bool.true_and]

/-- The bytes of a number. -/
theorem extractLsb'_readBytes {k : ℕ} (hk : k < n) :
    (readBytes m a n).extractLsb' (8 * k) 8 = m (a + BitVec.ofNat 64 k) := by
  refine BitVec.eq_of_getLsbD_eq fun i hi => ?_
  have hquotient : (8 * k + i) / 8 = k := by omega
  have hremainder : (8 * k + i) % 8 = i := by omega
  have hlt : 8 * k + i < 8 * n := by omega
  rw [BitVec.getLsbD_extractLsb', getLsbD_readBytes, hquotient, hremainder]
  simp only [hi, hlt, decide_true, Bool.true_and]

/-! ## Copies -/

/-- Copy `n` bytes from address `a` of another memory to `dst`. -/
def copyBytes (m : Memory) (dst : Word) (src : Memory) (a : Word) (n : ℕ) : Memory := fun b =>
  if (b - dst).toNat < n then src (a + (b - dst)) else m b

/-- Inside the block are the copied bytes. -/
theorem copyBytes_apply_of_lt (h : (b - dst).toNat < n) :
    copyBytes m dst src a n b = src (a + (b - dst)) := by
  rw [copyBytes, if_pos h]

/-- Outside the block a copy leaves the memory alone. -/
theorem copyBytes_apply_of_le (h : n ≤ (b - dst).toNat) : copyBytes m dst src a n b = m b := by
  rw [copyBytes, if_neg (Nat.not_lt_of_le h)]

/-! ## Stores at offsets of a base -/

/-- A number to be stored at an offset. -/
structure Store where
  offset : Word
  bytes : ℕ
  value : BitVec (8 * bytes)

/-- Carry out stores in their order. -/
def storeAll (m : Memory) (base : Word) (stores : List Store) : Memory :=
  stores.foldl (fun m store => writeBytes m (base + store.offset) store.bytes store.value) m

/-- A byte that no store reaches stays the same. -/
theorem storeAll_apply_of_untouched {stores : List Store}
    (h : ∀ store ∈ stores, store.bytes ≤ (b - (base + store.offset)).toNat) :
    storeAll m base stores b = m b := by
  induction stores generalizing m with
  | nil => rfl
  | cons store rest ih =>
    have hfirst := h store List.mem_cons_self
    have hrest := fun other hother => h other (List.mem_cons_of_mem store hother)
    calc storeAll m base (store :: rest) b
        = storeAll (writeBytes m (base + store.offset) store.bytes store.value) base rest b := rfl
      _ = writeBytes m (base + store.offset) store.bytes store.value b := ih hrest
      _ = m b := writeBytes_apply_of_le hfirst

/-- Stores that lie in the first `size` bytes change nothing behind them. -/
theorem storeAll_apply_of_le {stores : List Store} {size : ℕ} (hsize : size ≤ (b - base).toNat)
    (h : ∀ store ∈ stores, store.offset.toNat + store.bytes ≤ size) :
    storeAll m base stores b = m b := by
  refine storeAll_apply_of_untouched fun store hstore => ?_
  have hinside := h store hstore
  have hdistance : b - (base + store.offset) = b - base - store.offset := by
    rw [sub_add_eq_sub_sub]
  rw [hdistance, BitVec.toNat_sub]
  have hlt := (b - base).isLt
  omega

end Rkhv.ByteBlocks
