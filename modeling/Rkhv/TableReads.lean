import Rkhv.ByteMemory

/-!
# Computations that read tables

A computation over a memory that records the tables whose entries it reads. One
whose tables hold the same bytes in two memories gives the same result in both
and reads the same tables; this is kept by reading an entry and by going on with
a result.
-/

namespace Rkhv.TableReads

open ByteMemory

/-- The address lies in the table of one page that starts at an address. -/
def InTable (table a : Word) : Prop := (a - table).toNat < 4096

instance (table a : Word) : Decidable (InTable table a) := inferInstanceAs (Decidable (_ < _))

/-- A result, if there is one, and the tables that were read for it. -/
abbrev TableReader (α : Type) := Memory → Option α × List Word

variable {α β : Type}

/-- No result. -/
def fail : TableReader α := fun _ => (none, [])

/-- A result that needs no table. -/
def done (a : α) : TableReader α := fun _ => (some a, [])

/-- An entry of a table. -/
def readEntry (table : Word) (i : Slot) : TableReader Word := fun m =>
  (some (readQword m (table + i.setWidth 64 * 8)), [table])

/-- Go on with a result. -/
def andThen (f : TableReader α) (g : α → TableReader β) : TableReader β := fun m =>
  match f m with
  | (none, tables) => (none, tables)
  | (some a, tables) => ((g a m).1, tables ++ (g a m).2)

/-- The results of the two parts follow each other. -/
theorem andThen_fst (f : TableReader α) (g : α → TableReader β) (m : Memory) :
    (andThen f g m).1 = (f m).1.bind fun a => (g a m).1 := by
  rw [andThen]
  split
  · rename_i heq
    rw [heq]
    rfl
  · rename_i heq
    rw [heq]
    rfl

/-- Memories with the same bytes in a table. -/
def SameTable (m m' : Memory) (table : Word) : Prop := ∀ a, InTable table a → m' a = m a

/-- The computation is settled by the bytes of the tables that it reads. -/
def Settled (f : TableReader α) : Prop :=
  ∀ m m', (∀ table ∈ (f m).2, SameTable m m' table) → f m' = f m

theorem settled_fail : Settled (fail : TableReader α) := fun _ _ _ => rfl

theorem settled_done (a : α) : Settled (done a) := fun _ _ _ => rfl

theorem settled_readEntry (table : Word) (i : Slot) : Settled (readEntry table i) := by
  intro m m' hsame
  have htable := hsame table List.mem_cons_self
  have hentry : readQword m' (table + i.setWidth 64 * 8) =
      readQword m (table + i.setWidth 64 * 8) := by
    refine readQword_congr fun k hk => htable _ ?_
    have hi := i.isLt
    have hindex : (i.setWidth 64 * 8 : Word).toNat = i.toNat * 8 := by
      have height : (8 : Word).toNat = 8 := rfl
      rw [BitVec.toNat_mul, BitVec.toNat_setWidth, height]
      omega
    have hoffset : table + i.setWidth 64 * 8 + k - table = i.setWidth 64 * 8 + k := by
      rw [BitVec.add_assoc, BitVec.add_comm, BitVec.add_sub_cancel]
    rw [InTable, hoffset, BitVec.toNat_add, hindex]
    omega
  rw [readEntry, readEntry, hentry]

theorem Settled.ite {p : Prop} [Decidable p] {f g : TableReader α} (hf : Settled f)
    (hg : Settled g) : Settled (if p then f else g) := by
  split
  · exact hf
  · exact hg

theorem Settled.andThen {f : TableReader α} {g : α → TableReader β} (hf : Settled f)
    (hg : ∀ a, Settled (g a)) : Settled (andThen f g) := by
  intro m m' hsame
  have hfirst : f m' = f m := by
    refine hf m m' fun table htable => hsame table ?_
    rw [TableReads.andThen]
    split
    · rename_i heq
      rwa [heq] at htable
    · rename_i heq
      rw [heq] at htable
      exact List.mem_append_left _ htable
  rw [TableReads.andThen, TableReads.andThen, hfirst]
  split
  · rfl
  · rename_i a tables heq
    have hrest : g a m' = g a m := by
      refine hg a m m' fun table htable => hsame table ?_
      rw [TableReads.andThen, heq]
      exact List.mem_append_right _ htable
    rw [hrest]

end Rkhv.TableReads
