import Rkhv.FreePageSearch
import Rkhv.PageRuns

/-!
# When the page allocator keeps its promise

The allocator promises to return a free usable page while there is one and to
panic when there is none. The downward region search has no lower bound, so
the promise is kept exactly when the scan never has to wrap below a map whose
descriptor 0 is not usable: descriptor 0 is usable, or a free page lies at or
below the page the scan starts from.
-/

namespace Rkhv.FreePageContract

open ByteMemory HostTypes HostState StateOutcome PageRuns FreePages FreePageSearch

/-- The firmware memory map. -/
def efiMmap (s : Hv) : EfiMmap := s.mmChainloadPage.efiMmapUsable

/-- The saved cursor of `mm_get_free_page`. -/
def savedCursor (s : Hv) : Word × Word := (s.lastReturnedRegionIndex, s.lastReturnedPageIndex)

/-- Cursors that earlier calls can have left, whatever happened to the used
pages between the calls. -/
inductive LeftByCalls (mmap : EfiMmap) : Word × Word → Prop where
  /-- No call was made. -/
  | boot : LeftByCalls mmap (-1, -1)
  /-- A call was made with a cursor of this kind, and it returned. -/
  | call {s s' : Hv} {page : Word} (hmap : efiMmap s = mmap)
      (hleft : LeftByCalls mmap (savedCursor s)) (hcall : mmGetFreePage s = .ok page s') :
      LeftByCalls mmap (savedCursor s')

/-- A page of a usable descriptor. -/
def UsablePage (mmap : EfiMmap) (page : Word) : Prop :=
  ∃ desc ∈ mmap.toList, desc.usable = true ∧ page ∈ runPages desc.physicalAddress desc.pages.toNat

/-- The page of an index, counted in bytes. -/
theorem descPage_eq (desc : ChainloadMmapDesc) (k : Word) :
    descPage desc k = desc.physicalAddress + BitVec.ofNat 64 (k.toNat * 4096) := by
  have h : k * pageSize = BitVec.ofNat 64 (k.toNat * 4096) := by
    apply BitVec.eq_of_toNat_eq
    rw [BitVec.toNat_mul, BitVec.toNat_ofNat]
    rfl
  rw [descPage, h]

/-- The pages of a usable descriptor are those at its valid positions. -/
theorem mem_runPages_iff {mmap : EfiMmap} {i : ℕ} {desc : ChainloadMmapDesc} {page : Word}
    (hi : i < 231) (hd : mmap[i]? = some desc) (hu : desc.usable = true) :
    page ∈ runPages desc.physicalAddress desc.pages.toNat ↔
      ∃ k, ValidPosition mmap (BitVec.ofNat 64 i, k) ∧
        page = positionPage mmap (BitVec.ofNat 64 i, k) := by
  have hregion : (BitVec.ofNat 64 i).toNat = i := by
    rw [BitVec.toNat_ofNat]
    omega
  have hlt := desc.pages.isLt
  simp only [runPages, List.mem_map, List.mem_range, positionPage, hregion, hd, descPage_eq]
  constructor
  · rintro ⟨n, hn, rfl⟩
    have hne : desc.pages ≠ 0 := fun h => by
      rw [h] at hn
      exact absurd hn (Nat.not_lt_zero n)
    have hk : (BitVec.ofNat 64 n).toNat = n := by
      rw [BitVec.toNat_ofNat]
      omega
    refine ⟨BitVec.ofNat 64 n, ⟨desc, by rw [hregion]; exact hd, ?_, by rw [hk]; exact hn⟩, by rw [hk]⟩
    simp only [descUsable, hu, Bool.true_and, bne_iff_ne]
    exact hne
  · rintro ⟨k, ⟨desc', hd', _, hk⟩, rfl⟩
    rw [hregion, hd, Option.some_inj] at hd'
    subst hd'
    exact ⟨k.toNat, hk, rfl⟩

/-- Pages of usable descriptors are the pages at valid positions. -/
theorem usablePage_iff {mmap : EfiMmap} {page : Word} :
    UsablePage mmap page ↔ ∃ pos, ValidPosition mmap pos ∧ page = positionPage mmap pos := by
  constructor
  · rintro ⟨desc, hd, hu, hp⟩
    obtain ⟨i, hi, rfl⟩ := List.getElem_of_mem hd
    have hget : mmap[i]? = some mmap.toList[i] := by
      rw [← Vector.getElem?_toList, List.getElem?_eq_getElem hi]
    obtain ⟨k, hk⟩ := (mem_runPages_iff (by simpa using hi) hget hu).mp hp
    exact ⟨_, hk⟩
  · rintro ⟨pos, hv, rfl⟩
    have hlt := hv.lt
    obtain ⟨desc, hd, hu, _⟩ := id hv
    simp only [descUsable, Bool.and_eq_true] at hu
    have hmem : desc ∈ mmap.toList := by
      rw [← Vector.getElem?_toList] at hd
      exact List.mem_of_getElem? hd
    have hpos : (BitVec.ofNat 64 pos.1.toNat, pos.2) = pos := by
      rw [BitVec.ofNat_toNat, BitVec.setWidth_eq]
    refine ⟨desc, hmem, hu.1, (mem_runPages_iff hlt hd hu.1).mpr ⟨pos.2, ?_, ?_⟩⟩
    · rw [hpos]
      exact hv
    · rw [hpos]

/-- Descriptor 0 decides whether the first rank exists. -/
theorem firstUsable_iff {mmap : EfiMmap} : FirstUsable mmap ↔ descUsable mmap[0] = true := by
  have hd : mmap[0]? = some mmap[0] := Vector.getElem?_eq_getElem (by decide)
  rw [FirstUsable, ← Nat.zero_add 1, pagesBelow_succ hd]
  cases hu : descUsable mmap[0] with
  | true =>
    have := toNat_bound hu
    simp only [iff_true]
    omega
  | false => simp [pagesBelow, descWeight, hu]

/-- What a call does, read off the search. -/
theorem ensures_mmGetFreePage {s : Hv} {Q : Word → Hv → Prop} {E : Fault → Hv → Prop}
    (hc : CursorOk (efiMmap s) (savedCursor s))
    (hok : ∀ pos, ValidPosition (efiMmap s) pos →
      mmPageIsFree s (positionPage (efiMmap s) pos) = true →
      (FirstUsable (efiMmap s) ∨ AtOrBelow (savedCursor s) pos) →
      Q (positionPage (efiMmap s) pos) { s with
        lastReturnedRegionIndex := pos.1
        lastReturnedPageIndex := pos.2
        mmReturned := positionPage (efiMmap s) pos :: s.mmReturned })
    (hpanic : ∀ message, FirstUsable (efiMmap s) →
      (∀ pos, ValidPosition (efiMmap s) pos →
        mmPageIsFree s (positionPage (efiMmap s) pos) = false) → E (.panic message) s)
    (hout : ∀ index, ¬FirstUsable (efiMmap s) →
      (∀ pos, ValidPosition (efiMmap s) pos → AtOrBelow (savedCursor s) pos →
        mmPageIsFree s (positionPage (efiMmap s) pos) = false) → E (.outOfBounds index) s) :
    Ensures mmGetFreePage s Q E := by
  have h := @freePageSearch_outcome (efiMmap s) (mmPageIsFree s) _ hc
  split at h
  · rename_i page pos hs
    obtain ⟨hv, rfl, hf, hbelow⟩ := h
    rw [Ensures, mmGetFreePage_of_ok hs]
    exact hok pos hv hf hbelow
  · rename_i hs
    rw [Ensures, mmGetFreePage_of_error hs]
    exact hpanic _ h.1 h.2
  · rename_i hs
    rw [Ensures, mmGetFreePage_of_error hs]
    exact hout _ h.1 h.2
  · exact h.elim
  · exact h.elim
  · exact h.elim

/-- The page at the saved position is tested first: while it is free, the next
call returns it. -/
theorem mmGetFreePage_again {s : Hv} (hv : ValidPosition (efiMmap s) (savedCursor s))
    (hfree : mmPageIsFree s (positionPage (efiMmap s) (savedCursor s)) = true) :
    mmGetFreePage s = .ok (positionPage (efiMmap s) (savedCursor s)) { s with
      mmReturned := positionPage (efiMmap s) (savedCursor s) :: s.mmReturned } := by
  have hne : savedCursor s ≠ (-1, -1) := fun he => hv.ne_mark (Or.inl (congrArg Prod.fst he))
  have hsearch : freePageSearch (efiMmap s) (mmPageIsFree s) (savedCursor s).1 (savedCursor s).2 =
      .ok (positionPage (efiMmap s) (savedCursor s), savedCursor s) := by
    rw [freePageSearch, scanStart, if_neg hv.ne_mark]
    simp only [if_neg hv.ne_mark]
    exact scanLoop_free hv hne hfree
  exact mmGetFreePage_of_ok hsearch

/-- A cursor left by earlier calls is none or lies inside a usable descriptor. -/
theorem LeftByCalls.cursorOk {mmap : EfiMmap} {cursor : Word × Word}
    (h : LeftByCalls mmap cursor) : CursorOk mmap cursor := by
  induction h with
  | boot => exact Or.inl rfl
  | call hmap hleft hcall ih =>
    subst hmap
    have hspec := ensures_mmGetFreePage (Q := fun _ s' => CursorOk (efiMmap _) (savedCursor s'))
      (E := fun _ _ => True) ih (fun pos hv _ _ => Or.inr hv) (fun _ _ _ => trivial)
      (fun _ _ _ => trivial)
    exact hspec.of_ok hcall

/-- The promise of one call: it ends without leaving the array, it returns a
free usable page if there is one, and it panics exactly when there is none. -/
structure SearchContract (s : Hv) : Prop where
  inBounds : ∀ index s', mmGetFreePage s ≠ .error (.outOfBounds index) s'
  ends : ∀ s', mmGetFreePage s ≠ .error .hang s'
  complete : (∃ page, UsablePage (efiMmap s) page ∧ mmPageIsFree s page = true) →
    ∃ page s', mmGetFreePage s = .ok page s' ∧ UsablePage (efiMmap s) page ∧
      mmPageIsFree s page = true
  panics : (∃ message s', mmGetFreePage s = .error (.panic message) s') ↔
    ¬∃ page, UsablePage (efiMmap s) page ∧ mmPageIsFree s page = true

/-- A free page lies where the scan comes by before it has to wrap. -/
def FreeBelow (s : Hv) : Prop :=
  ∃ pos, ValidPosition (efiMmap s) pos ∧ AtOrBelow (savedCursor s) pos ∧
    mmPageIsFree s (positionPage (efiMmap s) pos) = true

/-- With every cursor that earlier calls leave, the allocator keeps its promise
exactly when it does not have to wrap below an unusable descriptor 0. -/
theorem mmGetFreePage_contract_iff (s : Hv) (hleft : LeftByCalls (efiMmap s) (savedCursor s)) :
    SearchContract s ↔ descUsable (efiMmap s)[0] = true ∨ FreeBelow s := by
  have hc := hleft.cursorOk
  rw [← firstUsable_iff]
  constructor
  · intro h
    have hspec := ensures_mmGetFreePage (Q := fun _ _ => FirstUsable (efiMmap s) ∨ FreeBelow s)
      (E := fun e _ => (∀ index, e ≠ .outOfBounds index) → FirstUsable (efiMmap s) ∨ FreeBelow s)
      hc (fun pos hv hf hb => hb.imp id fun hb => ⟨pos, hv, hb, hf⟩)
      (fun _ hfirst _ _ => Or.inl hfirst) (fun index _ _ hne => absurd rfl (hne index))
    unfold Ensures at hspec
    split at hspec
    · exact hspec
    · rename_i e s' he
      exact hspec fun index hi => h.inBounds index s' (hi ▸ he)
  · intro h
    have hspec := ensures_mmGetFreePage
      (Q := fun page _ => UsablePage (efiMmap s) page ∧ mmPageIsFree s page = true)
      (E := fun e _ => (∃ message, e = .panic message) ∧
        ¬∃ page, UsablePage (efiMmap s) page ∧ mmPageIsFree s page = true)
      hc (fun pos hv hf _ => ⟨usablePage_iff.mpr ⟨pos, hv, rfl⟩, hf⟩)
      (fun message _ hnone => ⟨⟨message, rfl⟩, fun ⟨page, hu, hf⟩ => by
        obtain ⟨pos, hv, rfl⟩ := usablePage_iff.mp hu
        rw [hnone pos hv] at hf
        cases hf⟩)
      (fun index hfirst hnone => by
        rcases h with h | ⟨pos, hv, hb, hf⟩
        · exact absurd h hfirst
        · rw [hnone pos hv hb] at hf
          cases hf)
    unfold Ensures at hspec
    split at hspec
    · rename_i page s' hrun
      refine ⟨fun _ _ he => ?_, fun _ he => ?_, fun _ => ⟨page, s', hrun, hspec⟩, ?_⟩
      · rw [hrun] at he
        cases he
      · rw [hrun] at he
        cases he
      · refine ⟨fun ⟨_, _, he⟩ => ?_, fun hnone => absurd ⟨page, hspec⟩ hnone⟩
        rw [hrun] at he
        cases he
    · rename_i e s' hrun
      obtain ⟨⟨message, rfl⟩, hnone⟩ := hspec
      refine ⟨fun _ _ he => ?_, fun _ he => ?_, fun hfree => absurd hfree hnone,
        fun _ => hnone, fun _ => ⟨message, s', hrun⟩⟩
      · rw [hrun] at he
        cases he
      · rw [hrun] at he
        cases he

/-- A processor with all registers zero. -/
def idleCpu : Cpu := ⟨0, fun _ _ => 0, fun _ => 0⟩

/-- A map with a single usable page, in descriptor 0. -/
def firstPageMap : ChainloadPage :=
  { (default : ChainloadPage) with
    efiMmapUsable := (default : ChainloadPage).efiMmapUsable.set 0 ⟨0x1000, 1, true⟩
      rkhvMaxEfiMmapDescriptors_pos }

/-- On a map whose descriptor 0 is usable the first call keeps the promise. -/
theorem mmGetFreePage_contract_first :
    SearchContract (bootState firstPageMap (fun _ => 0) idleCpu) :=
  (mmGetFreePage_contract_iff (bootState firstPageMap (fun _ => 0) idleCpu) .boot).mpr
    (Or.inl (by decide))

/-- On a map without usable descriptors the first call leaves the array
instead of panicking, so the promise does not hold of every call. -/
theorem mmGetFreePage_leaves_array :
    ¬∀ s : Hv, LeftByCalls (efiMmap s) (savedCursor s) → SearchContract s := by
  intro h
  have hs := h (bootState default (fun _ => 0) idleCpu) .boot
  exact hs.inBounds (-1) (bootState default (fun _ => 0) idleCpu) rfl

end Rkhv.FreePageContract
