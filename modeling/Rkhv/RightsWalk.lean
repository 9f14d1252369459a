import Rkhv.ArchitecturalWalk

/-!
# Walks with access rights

A walk of the architecture also collects access rights: the page can be written
when every entry on the way allows it, and executed when none forbids it. The
walk only depends on the entries of the tables that it visits.
-/

namespace Rkhv.RightsWalk

open ByteMemory WordFields ArchitecturalWalk

/-- A table or a translated address, with the rights granted on the way to it. -/
structure Translation where
  address : ℕ
  writable : Bool
  executable : Bool
  deriving DecidableEq

/-- What an entry leads to, with the rights that it leaves. -/
def Translation.through (t : Translation) (e : Word) (address : ℕ) : Translation :=
  ⟨address, t.writable && e.getLsbD 1, t.executable && !e.getLsbD 63⟩

/-- The walk of an address from a table of a level, with the rights so far. -/
def walkRights (format : EntryFormat) (read : ℕ → Except WalkFault Word) :
    ℕ → Translation → ℕ → Except WalkFault Translation
  | 0, t, x => .ok ⟨t.address + x % 2 ^ 12, t.writable, t.executable⟩
  | level + 1, t, x => do
    let e ← read (entryAt (level + 1) t.address x)
    if !format.present e then .error .notPresent
    else if format.reserved (level + 1) e then .error .reserved
    else if largePage (level + 1) e then
      .ok (t.through e (entryAddress e (levelShift (level + 1)) + x % 2 ^ levelShift (level + 1)))
    else walkRights format read level (t.through e (entryAddress e 12)) x

variable {format : EntryFormat} {read read' : ℕ → Except WalkFault Word}

/-- The rights do not change where a walk leads. -/
theorem walkRights_address (format : EntryFormat) (read : ℕ → Except WalkFault Word) (level : ℕ)
    (t : Translation) (x : ℕ) :
    (walkRights format read level t x).map Translation.address = walk format read level t.address x := by
  induction level generalizing t with
  | zero => rfl
  | succ level ih =>
    rw [walkRights, walk]
    cases read (entryAt (level + 1) t.address x) with
    | error fault => rfl
    | ok e =>
      simp only [bind, Except.bind]
      split
      · rfl
      split
      · rfl
      split
      · rfl
      · exact ih _

/-- Tables that the walk of an address visits, with their levels. -/
def visited (format : EntryFormat) (read : ℕ → Except WalkFault Word) : ℕ → ℕ → ℕ → List (ℕ × ℕ)
  | 0, _, _ => []
  | level + 1, table, x => (level + 1, table) ::
    match read (entryAt (level + 1) table x) with
    | .error _ => []
    | .ok e =>
      if !format.present e || format.reserved (level + 1) e || largePage (level + 1) e then []
      else visited format read level (entryAddress e 12) x

/-- Where the visited tables answer the same, the walk ends the same. -/
theorem walkRights_congr {level : ℕ} {t : Translation} {x : ℕ}
    (h : ∀ l table, (l, table) ∈ visited format read level t.address x →
      read' (entryAt l table x) = read (entryAt l table x)) :
    walkRights format read' level t x = walkRights format read level t x := by
  induction level generalizing t with
  | zero => rfl
  | succ level ih =>
    rw [walkRights, walkRights, h _ _ List.mem_cons_self]
    cases hread : read (entryAt (level + 1) t.address x) with
    | error fault => rfl
    | ok e =>
      simp only [bind, Except.bind]
      split
      · rfl
      split
      · rfl
      split
      · rfl
      · rename_i hpresent hreserved hlarge
        refine ih fun l table hmem => h l table (List.mem_cons_of_mem _ ?_)
        rw [hread]
        simp only [hpresent, hreserved, hlarge, Bool.or_self, Bool.false_eq_true, if_false]
        exact hmem

/-! ## One level -/

section Step

variable {level : ℕ} {t : Translation} {x : ℕ} {e : Word}
  (hread : read (entryAt (level + 1) t.address x) = .ok e)

include hread

/-- An entry that is not present ends the walk. -/
theorem walkRights_absent (h : format.present e = false) :
    walkRights format read (level + 1) t x = .error .notPresent := by
  rw [walkRights, hread]
  simp only [bind, Except.bind, h, Bool.not_false, if_true]

variable (hpresent : format.present e = true) (hreserved : format.reserved (level + 1) e = false)

include hpresent hreserved

/-- A large page ends it with its address. -/
theorem walkRights_large (h : largePage (level + 1) e = true) :
    walkRights format read (level + 1) t x =
      .ok (t.through e (entryAddress e (levelShift (level + 1)) + x % 2 ^ levelShift (level + 1))) := by
  rw [walkRights, hread]
  simp only [bind, Except.bind, hpresent, hreserved, h, Bool.not_true, Bool.false_eq_true, if_false,
    if_true]

/-- Any other entry leads one level down. -/
theorem walkRights_table (h : largePage (level + 1) e = false) :
    walkRights format read (level + 1) t x =
      walkRights format read level (t.through e (entryAddress e 12)) x := by
  rw [walkRights, hread]
  simp only [bind, Except.bind, hpresent, hreserved, h, Bool.not_true, Bool.false_eq_true, if_false]

end Step

end Rkhv.RightsWalk
