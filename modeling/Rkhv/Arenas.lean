import Rkhv.FreePages

/-!
# Arenas

An arena is one host page with a header at its start; allocations are cut off
the rest of the page one after the other and are never freed. The records that
live in arenas are fields of the hypervisor state, so that an allocation only
moves the arena's used size and yields an address.
-/

namespace Rkhv.Arenas

open ByteMemory HostTypes HostState StateOutcome FreePages

/-- `arena_allocate`; the arena is given by its page, null by `none`. -/
def arenaAllocate (arena : Option Word) (size : Word) : HvM Word :=
  match arena with
  | none => throw .nullPointer
  | some page => do
    let s ← get
    let header := s.arenaAt page
    if pageSize - (header.usedSize + sizeofArenaHeader) < size then
      panicWith "subarenas not supported right now"
    else
      modify fun s => { s with
        arenaAt := Function.update s.arenaAt page ⟨header.usedSize + size⟩ }
      return p2vIdentityMap page + (header.usedSize + sizeofArenaHeader)

/-- `arena_create`; the result is the page of the arena. -/
def arenaCreate : HvM Word := do
  let page ← mmGetFreePage
  modify fun s => { s with
    arenaAt := Function.update s.arenaAt page ⟨0⟩
    arenaList := page :: s.arenaList }
  return page

/-- Room left in an arena, as `arena_allocate` computes it. -/
def arenaRoom (s : Hv) (page : Word) : Word :=
  pageSize - ((s.arenaAt page).usedSize + sizeofArenaHeader)

/-- An allocation moves the used size, or stops and changes nothing. -/
theorem ensures_arenaAllocate {arena : Option Word} {size : Word} {s : Hv} {Q : Word → Hv → Prop}
    {E : Fault → Hv → Prop} :
    Ensures (arenaAllocate arena size) s Q E ↔
      match arena with
      | none => E .nullPointer s
      | some page =>
        (arenaRoom s page < size → E (.panic "subarenas not supported right now") s) ∧
        (¬arenaRoom s page < size →
          Q (p2vIdentityMap page + ((s.arenaAt page).usedSize + sizeofArenaHeader)) { s with
            arenaAt := Function.update s.arenaAt page ⟨(s.arenaAt page).usedSize + size⟩ }) := by
  cases arena with
  | none => exact Iff.rfl
  | some page =>
    simp only [arenaAllocate, arenaRoom, ensures_bind, ensures_get, ensures_ite, ensures_panicWith,
      ensures_modify, ensures_pure]

end Rkhv.Arenas
