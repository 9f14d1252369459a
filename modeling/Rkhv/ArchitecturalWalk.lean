import Rkhv.WordFields

/-!
# Walks of the architecture

A 4-level walk reads one entry for each level, from the PML4 down to the page
tables, at an index of nine bits of the address. An entry that is not present
ends the walk, so does a reserved bit; bit 7 of an entry of the two middle
levels ends it early at a large page. Addresses are numbers, and how an entry
is read is a parameter, so that tables may themselves be found by a walk. A
second walker of quadwords agrees with the architecture when it agrees at
every level.
-/

namespace Rkhv.ArchitecturalWalk

open ByteMemory WordFields

/-- Why a walk gives no translation. -/
inductive WalkFault where
  /-- An entry on the path is not present. -/
  | notPresent
  /-- A table on the path cannot be read. -/
  | notMapped
  /-- An entry has a reserved bit set or a table lies beyond the supported addresses. -/
  | reserved
  deriving DecidableEq

/-- How the entries of a kind of tables are marked. -/
structure EntryFormat where
  present : Word → Bool
  /-- Reserved bits, by the level of the table: 4 is the PML4, 1 a page table. -/
  reserved : ℕ → Word → Bool

/-- Bits `k` to 51 of an entry, in place. -/
def entryAddress (e : Word) (k : ℕ) : ℕ := e.toNat / 2 ^ k % 2 ^ (52 - k) * 2 ^ k

/-- Bit 7 of an entry of a page directory or a page-directory-pointer table. -/
def largePage (level : ℕ) (e : Word) : Bool := (level == 2 || level == 3) && e.getLsbD 7

/-- Bytes that an entry of a level spans, as a power of two. -/
def levelShift (level : ℕ) : ℕ := 12 + 9 * (level - 1)

/-- Address of the entry that a table of a level has for an address. -/
def entryAt (level table x : ℕ) : ℕ := table + 8 * (x / 2 ^ levelShift level % 512)

/-- The walk of an address from a table of a level. -/
def walk (format : EntryFormat) (read : ℕ → Except WalkFault Word) :
    ℕ → ℕ → ℕ → Except WalkFault ℕ
  | 0, page, x => .ok (page + x % 2 ^ 12)
  | level + 1, table, x => do
    let e ← read (entryAt (level + 1) table x)
    if !format.present e then .error .notPresent
    else if format.reserved (level + 1) e then .error .reserved
    else if largePage (level + 1) e then
      .ok (entryAddress e (levelShift (level + 1)) + x % 2 ^ levelShift (level + 1))
    else walk format read level (entryAddress e 12) x

/-! ## Offsets -/

/-- The bits above an offset of 12 bits do not depend on it. -/
theorem div_add_offset {x o k : ℕ} (hx : x % 2 ^ 12 = 0) (ho : o < 2 ^ 12) (hk : 12 ≤ k) :
    (x + o) / 2 ^ k = x / 2 ^ k ∧ (x + o) % 2 ^ k = x % 2 ^ k + o := by
  obtain ⟨d, rfl⟩ := Nat.exists_eq_add_of_le hk
  obtain ⟨q, rfl⟩ := Nat.dvd_of_mod_eq_zero hx
  have hpos : 0 < 2 ^ 12 := by decide
  have hdiv : (2 ^ 12 * q + o) / 2 ^ (12 + d) = (2 ^ 12 * q) / 2 ^ (12 + d) := by
    rw [Nat.pow_add, ← Nat.div_div_eq_div_mul, ← Nat.div_div_eq_div_mul, Nat.mul_add_div hpos,
      Nat.div_eq_of_lt ho, Nat.mul_div_cancel_left q hpos, Nat.add_zero]
  refine ⟨hdiv, ?_⟩
  have hsum := Nat.div_add_mod (2 ^ 12 * q + o) (2 ^ (12 + d))
  have hbase := Nat.div_add_mod (2 ^ 12 * q) (2 ^ (12 + d))
  rw [hdiv] at hsum
  omega

/-- The walk of an address in a page is the walk of the page and the offset. -/
theorem walk_add_offset (format : EntryFormat) (read : ℕ → Except WalkFault Word) {x o : ℕ}
    (hx : x % 2 ^ 12 = 0) (ho : o < 2 ^ 12) (level table : ℕ) :
    walk format read level table (x + o) = (walk format read level table x).map (· + o) := by
  induction level generalizing table with
  | zero =>
    have hoffset : (x + o) % 2 ^ 12 = x % 2 ^ 12 + o := (div_add_offset hx ho (Nat.le_refl 12)).2
    rw [walk, walk, hoffset, ← Nat.add_assoc]
    rfl
  | succ level ih =>
    have hshift : 12 ≤ levelShift (level + 1) := Nat.le_add_right 12 _
    obtain ⟨hindex, hoffset⟩ := div_add_offset hx ho hshift
    rw [walk, walk, entryAt, entryAt, hindex, hoffset]
    cases read (table + 8 * (x / 2 ^ levelShift (level + 1) % 512)) with
    | error fault => rfl
    | ok e =>
      simp only [bind, Except.bind]
      split
      · rfl
      split
      · rfl
      split
      · rw [← Nat.add_assoc]
        rfl
      · exact ih _

/-! ## Fields of quadwords -/

theorem entryAddress_add_lt (e : Word) {k r : ℕ} (hk : k ≤ 52) (hr : r < 2 ^ k) :
    entryAddress e k + r < 2 ^ 52 := by
  have hfield : e.toNat / 2 ^ k % 2 ^ (52 - k) < 2 ^ (52 - k) := Nat.mod_lt _ (Nat.two_pow_pos _)
  calc entryAddress e k + r
    _ < (e.toNat / 2 ^ k % 2 ^ (52 - k) + 1) * 2 ^ k := by
      rw [Nat.add_mul, Nat.one_mul]
      exact Nat.add_lt_add_left hr _
    _ ≤ 2 ^ (52 - k) * 2 ^ k := Nat.mul_le_mul_right _ hfield
    _ = 2 ^ 52 := by rw [← Nat.pow_add, Nat.sub_add_cancel hk]

/-- Translations lie below 2^52. -/
theorem walk_lt {format : EntryFormat} {read : ℕ → Except WalkFault Word} {x a : ℕ} :
    ∀ {level table : ℕ}, level ≤ 4 → (level = 0 → ∃ e, table = entryAddress e 12) →
      walk format read level table x = .ok a → a < 2 ^ 52 := by
  intro level
  induction level with
  | zero =>
    intro table _ htable hwalk
    obtain ⟨e, rfl⟩ := htable rfl
    cases hwalk
    exact entryAddress_add_lt e (by decide) (Nat.mod_lt _ (by decide))
  | succ level ih =>
    intro table hlevel _ hwalk
    rw [walk] at hwalk
    cases hread : read (entryAt (level + 1) table x) with
    | error fault =>
      rw [hread] at hwalk
      cases hwalk
    | ok e =>
      rw [hread] at hwalk
      simp only [bind, Except.bind] at hwalk
      split at hwalk
      · cases hwalk
      split at hwalk
      · cases hwalk
      split at hwalk
      · cases hwalk
        have hshift : levelShift (level + 1) ≤ 52 := by
          rw [levelShift]
          omega
        exact entryAddress_add_lt e hshift (Nat.mod_lt _ (Nat.two_pow_pos _))
      · exact ih (by omega) (fun _ => ⟨e, rfl⟩) hwalk

/-- Masking an entry keeps its address. -/
theorem and_fieldMask_entryAddress (e : Word) (k : ℕ) :
    e &&& fieldMask k (52 - k) = BitVec.ofNat 64 (entryAddress e k) := by
  apply BitVec.eq_of_getLsbD_eq
  intro i hi
  rw [BitVec.getLsbD_and, getLsbD_fieldMask, BitVec.getLsbD_ofNat, entryAddress, Nat.mul_comm,
    Nat.testBit_two_pow_mul, Nat.testBit_mod_two_pow, Nat.testBit_div_two_pow]
  by_cases hlow : k ≤ i
  · have hback : k + (i - k) = i := by omega
    have hbound : (i - k < 52 - k) = (i < k + (52 - k)) := by
      apply propext
      omega
    simp only [hi, hlow, hbound, decide_true, Bool.true_and, BitVec.getLsbD]
    rw [Nat.sub_add_cancel hlow, Bool.and_comm]
  · simp only [hlow, decide_false, Bool.false_and, Bool.and_false]

theorem entryAddress_lt (e : Word) {k : ℕ} (hk : k ≤ 52) : entryAddress e k < 2 ^ 52 :=
  entryAddress_add_lt e hk (Nat.two_pow_pos k)

/-- Low bits of an address. -/
theorem and_fieldMask_mod (x : Word) (k : ℕ) :
    x &&& fieldMask 0 k = BitVec.ofNat 64 (x.toNat % 2 ^ k) := by
  apply BitVec.eq_of_getLsbD_eq
  intro i hi
  rw [BitVec.getLsbD_and, getLsbD_fieldMask, BitVec.getLsbD_ofNat, Nat.testBit_mod_two_pow]
  simp only [hi, Nat.zero_le, Nat.zero_add, decide_true, Bool.true_and, BitVec.getLsbD]
  exact Bool.and_comm _ _

/-- A leaf's address with the low bits of the walked address. -/
theorem leaf_word (e x : Word) (k : ℕ) :
    (e &&& fieldMask k (52 - k)) ||| (x &&& fieldMask 0 k) =
      BitVec.ofNat 64 (entryAddress e k + x.toNat % 2 ^ k) := by
  have hlow : x.toNat % 2 ^ k < 2 ^ k := Nat.mod_lt _ (Nat.two_pow_pos k)
  rw [and_fieldMask_entryAddress, and_fieldMask_mod, entryAddress, Nat.mul_comm,
    Nat.two_pow_add_eq_or_of_lt hlow, BitVec.ofNat_or]

/-- An index of nine bits. -/
theorem index_toNat (x : Word) (k : ℕ) :
    ((x &&& fieldMask k 9) >>> k).toNat = x.toNat / 2 ^ k % 512 := by
  have hlt : x.toNat / 2 ^ k % 512 < 2 ^ 64 := (Nat.mod_lt _ (by decide)).trans (by decide)
  rw [and_fieldMask_shiftRight, BitVec.toNat_setWidth, BitVec.extractLsb'_toNat,
    Nat.shiftRight_eq_div_pow]
  exact Nat.mod_eq_of_lt hlt

/-! ## Walkers that agree -/

/-- A walker that answers with nothing where the architecture finds an entry
that is not present or a table that cannot be read, and with its answer where
it has one. -/
def Agrees {α β : Type*} (value : α → β) : Except WalkFault α → Option β → Prop
  | .ok a, c => c = some (value a)
  | .error .reserved, _ => True
  | .error _, c => c = none

variable {format : EntryFormat} {read : ℕ → Except WalkFault Word} {level table x : ℕ}

/-- Agreement at one level whose entry is read by both: on the entry that is not
present, on a large page and on the walk from the next table. -/
theorem Agrees.of_entry {e : Word} {c : Option Word}
    (hread : read (entryAt (level + 1) table x) = .ok e)
    (habsent : format.present e = false → c = none)
    (hleaf : format.present e = true → largePage (level + 1) e = true →
      c = some (BitVec.ofNat 64 (entryAddress e (levelShift (level + 1)) +
        x % 2 ^ levelShift (level + 1))))
    (htable : format.present e = true → largePage (level + 1) e = false →
      Agrees (BitVec.ofNat 64) (walk format read level (entryAddress e 12) x) c) :
    Agrees (BitVec.ofNat 64) (walk format read (level + 1) table x) c := by
  rw [walk, hread]
  simp only [bind, Except.bind]
  cases hpresent : format.present e with
  | false => exact habsent hpresent
  | true =>
    simp only [Bool.not_true, Bool.false_eq_true, if_false]
    split
    · trivial
    · cases hlarge : largePage (level + 1) e with
      | true => exact hleaf hpresent hlarge
      | false => exact htable hpresent hlarge

/-- Agreement at one level whose entry is found by walkers that agree. -/
theorem Agrees.of_read {found : Option Word} {rest : Word → Option Word}
    (hread : Agrees id (read (entryAt (level + 1) table x)) found)
    (hrest : ∀ e, read (entryAt (level + 1) table x) = .ok e →
      Agrees (BitVec.ofNat 64) (walk format read (level + 1) table x) (rest e)) :
    Agrees (BitVec.ofNat 64) (walk format read (level + 1) table x) (found >>= rest) := by
  cases hentry : read (entryAt (level + 1) table x) with
  | ok e =>
    rw [hentry] at hread
    have hfound : found = some e := hread
    rw [hfound]
    exact hrest e hentry
  | error fault =>
    rw [hentry] at hread
    rw [walk, hentry]
    cases fault with
    | reserved => trivial
    | notPresent =>
      have hfound : found = none := hread
      rw [hfound]
      rfl
    | notMapped =>
      have hfound : found = none := hread
      rw [hfound]
      rfl

end Rkhv.ArchitecturalWalk
