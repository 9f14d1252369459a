import Rkhv.ByteMemory

/-!
# Runs of consecutive pages

A run is a first page address and a number of pages of 4096 bytes. Its pages
are listed in ascending order; a run grows or shrinks by one page at either
end. The run-length encoded lists of the program are read as the lists of
their pages, so that equality of contents is permutation of these lists.
-/

namespace Rkhv.PageRuns

open ByteMemory

/-- Addresses of the `n` pages from `start` upwards, wrapping at 64 bits. -/
def runPages (start : Word) (n : ℕ) : List Word :=
  (List.range n).map fun i => start + BitVec.ofNat 64 (i * 4096)

@[simp] theorem length_runPages (start : Word) (n : ℕ) : (runPages start n).length = n := by
  simp only [runPages, List.length_map, List.length_range]

@[simp] theorem runPages_zero (start : Word) : runPages start 0 = [] := rfl

@[simp] theorem runPages_one (start : Word) : runPages start 1 = [start] := by
  simp [runPages]

/-- One more page after the last one. -/
theorem runPages_succ (start : Word) (n : ℕ) :
    runPages start (n + 1) = runPages start n ++ [start + BitVec.ofNat 64 (n * 4096)] := by
  simp only [runPages, List.range_succ, List.map_append, List.map_cons, List.map_nil]

/-- One more page before the first one. -/
theorem runPages_pred (start : Word) (n : ℕ) :
    runPages (start - 4096) (n + 1) = (start - 4096) :: runPages start n := by
  simp only [runPages, List.range_succ_eq_map, List.map_cons, List.map_map, Nat.zero_mul]
  congr 1
  · simp only [BitVec.ofNat_eq_ofNat, BitVec.add_zero]
  · refine List.map_congr_left fun i _ => ?_
    apply BitVec.eq_of_toNat_eq
    simp only [Function.comp_apply, BitVec.toNat_add, BitVec.toNat_sub, BitVec.toNat_ofNat,
      BitVec.ofNat_eq_ofNat]
    omega

/-- Two runs that follow each other are one run. -/
theorem runPages_add (start : Word) (n k : ℕ) :
    runPages start (n + k) = runPages start n ++ runPages (start + BitVec.ofNat 64 (n * 4096)) k := by
  induction k with
  | zero => simp only [Nat.add_zero, runPages_zero, List.append_nil]
  | succ k ih =>
    rw [← Nat.add_assoc, runPages_succ, ih, runPages_succ, List.append_assoc]
    congr 3
    apply BitVec.eq_of_toNat_eq
    simp only [BitVec.toNat_add, BitVec.toNat_ofNat]
    omega

/-- A run and the run that starts at its end, as one run. -/
theorem runPages_append {start next : Word} {n k : ℕ} (h : start.toNat + n * 4096 = next.toNat) :
    runPages start (n + k) = runPages start n ++ runPages next k := by
  have hnext : start + BitVec.ofNat 64 (n * 4096) = next := by
    apply BitVec.eq_of_toNat_eq
    have hlt := next.isLt
    rw [BitVec.toNat_add, BitVec.toNat_ofNat]
    omega
  rw [runPages_add, hnext]

/-- A run is page aligned and ends within the 64-bit address space. -/
def RunFits (start : Word) (n : ℕ) : Prop :=
  start.toNat % 4096 = 0 ∧ start.toNat + n * 4096 ≤ 2 ^ 64

/-- The pages of a run are the aligned addresses from its start to its end. -/
theorem mem_runPages {start a : Word} {n : ℕ} (h : RunFits start n) :
    a ∈ runPages start n ↔
      a.toNat % 4096 = 0 ∧ start.toNat ≤ a.toNat ∧ a.toNat < start.toNat + n * 4096 := by
  obtain ⟨halign, hfit⟩ := h
  simp only [runPages, List.mem_map, List.mem_range]
  constructor
  · rintro ⟨i, hi, rfl⟩
    rw [BitVec.toNat_add, BitVec.toNat_ofNat]
    omega
  · rintro ⟨ha, hlo, hhi⟩
    refine ⟨(a.toNat - start.toNat) / 4096, by omega, ?_⟩
    apply BitVec.eq_of_toNat_eq
    have hlt := a.isLt
    rw [BitVec.toNat_add, BitVec.toNat_ofNat]
    omega

/-- A run that fits lists no page twice. -/
theorem nodup_runPages {start : Word} {n : ℕ} (h : RunFits start n) : (runPages start n).Nodup := by
  obtain ⟨halign, hfit⟩ := h
  refine List.Nodup.map_on (fun i hi j hj hij => ?_) List.nodup_range
  rw [List.mem_range] at hi hj
  have hn := congrArg BitVec.toNat hij
  rw [BitVec.toNat_add, BitVec.toNat_add, BitVec.toNat_ofNat, BitVec.toNat_ofNat] at hn
  omega

/-- The last page of a run, computed the way the program does it. -/
theorem toNat_lastPage {start pages : Word} (hpos : pages ≠ 0)
    (hfit : start.toNat + pages.toNat * 4096 ≤ 2 ^ 64) :
    (start + (pages - 1) * 4096).toNat = start.toNat + (pages.toNat - 1) * 4096 := by
  have hp : pages.toNat ≠ 0 := fun h => hpos (BitVec.eq_of_toNat_eq (by simpa using h))
  simp only [BitVec.toNat_add, BitVec.toNat_mul, BitVec.toNat_sub, BitVec.ofNat_eq_ofNat,
    BitVec.toNat_ofNat]
  omega

/-- The program's test of a page against the first and last page of a run
decides membership of a run that fits. -/
theorem between_iff_mem {start pages a : Word} (hpos : pages ≠ 0)
    (h : RunFits start pages.toNat) (ha : a.toNat % 4096 = 0) :
    (start ≤ a ∧ a ≤ start + (pages - 1) * 4096) ↔ a ∈ runPages start pages.toNat := by
  have hp : pages.toNat ≠ 0 := fun h => hpos (BitVec.eq_of_toNat_eq (by simpa using h))
  have halign := h.1
  rw [mem_runPages h, BitVec.le_def, BitVec.le_def, toNat_lastPage hpos h.2]
  omega

end Rkhv.PageRuns
