import Rkhv.HostRuns

/-!
# Space handed out by arenas

Allocations are cut off an arena one after the other, so that the blocks of one
arena lie in a row behind its header, and those of two arenas in two pages. The
used size is the sum of the sizes handed out and never leaves the page; the
subtraction that `arena_allocate` tests therefore never wraps.
-/

namespace Rkhv.ArenaSpace

open ByteMemory HostTypes HostState StateOutcome FreePages FreePageSearch FreePageContract
  Arenas PageTracker HostRuns

/-! ## Blocks -/

/-- A block that `arena_allocate` returned, with the page of its arena. -/
structure Block where
  arena : Word
  ptr : Word
  size : Word
  deriving DecidableEq

/-- Addresses of a block. -/
def Block.addresses (b : Block) : Set ℕ := Set.Ico b.ptr.toNat (b.ptr.toNat + b.size.toNat)

/-- Addresses of the header of an arena. -/
def headerAddresses (page : Word) : Set ℕ :=
  Set.Ico (p2vIdentityMap page).toNat ((p2vIdentityMap page).toNat + sizeofArenaHeader.toNat)

/-- The block lies in the page of its arena, behind the header. -/
structure Block.Inside (b : Block) : Prop where
  behind : (p2vIdentityMap b.arena).toNat + sizeofArenaHeader.toNat ≤ b.ptr.toNat
  before : b.ptr.toNat + b.size.toNat ≤ (p2vIdentityMap b.arena).toNat + pageSize.toNat

/-- Bytes of an arena that its blocks take. -/
def usedBy (page : Word) : List Block → ℕ
  | [] => 0
  | b :: rest => (if b.arena = page then b.size.toNat else 0) + usedBy page rest

/-- Bytes that are left in the page of an arena. -/
def spaceLeft (page : Word) (blocks : List Block) : ℕ :=
  pageSize.toNat - sizeofArenaHeader.toNat - usedBy page blocks

variable {s s' : Hv} {blocks : List Block} {page arena size ptr : Word}

/-- An arena without blocks has nothing used. -/
theorem usedBy_eq_zero (h : ∀ b ∈ blocks, b.arena ≠ page) : usedBy page blocks = 0 := by
  induction blocks with
  | nil => rfl
  | cons b rest ih =>
    obtain ⟨hb, hrest⟩ := List.forall_mem_cons.mp h
    rw [usedBy, if_neg hb, ih hrest]

/-- The window moves a page without a wrap. -/
theorem base_toNat (hpage : PageOk page) :
    (p2vIdentityMap page).toNat = page.toNat + 0x0000010000000000 := by
  have hbase : rkhvPhysicalMemoryBase.toNat = 0x0000010000000000 := rfl
  have hlow := hpage.2
  rw [p2vIdentityMap, BitVec.toNat_add, hbase]
  omega

/-- Two pages share no address. -/
theorem pages_apart {q : Word} (hpage : PageOk page) (hq : PageOk q) (hne : page ≠ q) :
    (p2vIdentityMap page).toNat + 4096 ≤ (p2vIdentityMap q).toNat ∨
      (p2vIdentityMap q).toNat + 4096 ≤ (p2vIdentityMap page).toNat := by
  have hdiffer : page.toNat ≠ q.toNat := fun he => hne (BitVec.eq_of_toNat_eq he)
  have hpageAligned := hpage.1
  have hqAligned := hq.1
  rw [base_toNat hpage, base_toNat hq]
  omega

/-- Intervals one after the other are disjoint. -/
theorem disjoint_of_le {a b c d : ℕ} (h : b ≤ c ∨ d ≤ a) : Disjoint (Set.Ico a b) (Set.Ico c d) := by
  rw [Set.Ico_disjoint_Ico]
  cases h with
  | inl h => exact (min_le_left b d).trans (h.trans (le_max_right a c))
  | inr h => exact (min_le_right b d).trans (h.trans (le_max_left a c))

/-! ## The invariant -/

/-- Arenas are distinct pages, and their blocks lie in a row behind the headers. -/
structure Laid (s : Hv) (blocks : List Block) : Prop where
  map : PhysicalMap (efiMmap s)
  cursor : CursorOk (efiMmap s) (savedCursor s)
  nodup : s.arenaList.Nodup
  physical : ∀ page ∈ s.arenaList, PageOk page
  used : ∀ page ∈ s.arenaList, (s.arenaAt page).usedSize.toNat = usedBy page blocks
  fits : ∀ page ∈ s.arenaList, usedBy page blocks ≤ 4064
  live : ∀ b ∈ blocks, b.arena ∈ s.arenaList
  behind : ∀ b ∈ blocks, (p2vIdentityMap b.arena).toNat + 32 ≤ b.ptr.toNat
  before : ∀ b ∈ blocks, b.ptr.toNat + b.size.toNat ≤
    (p2vIdentityMap b.arena).toNat + 32 + usedBy b.arena blocks
  apart : blocks.Pairwise fun b b' => Disjoint b.addresses b'.addresses

theorem Laid.inside (h : Laid s blocks) {b : Block} (hb : b ∈ blocks) : b.Inside where
  behind := h.behind b hb
  before := by
    have hbefore := h.before b hb
    have hfits := h.fits b.arena (h.live b hb)
    have hpage : pageSize.toNat = 4096 := rfl
    omega

/-- No block meets a header. -/
theorem Laid.header (h : Laid s blocks) {b : Block} (hb : b ∈ blocks) (hpage : page ∈ s.arenaList) :
    Disjoint b.addresses (headerAddresses page) := by
  have hinside := h.inside hb
  have hbehind := hinside.behind
  have hbefore := hinside.before
  have hheader : sizeofArenaHeader.toNat = 32 := rfl
  have hsize : pageSize.toNat = 4096 := rfl
  rw [hheader] at hbehind
  rw [hsize] at hbefore
  refine disjoint_of_le ?_
  rw [hheader]
  by_cases hsame : b.arena = page
  · right
    rw [← hsame]
    exact hbehind
  · cases pages_apart (h.physical _ (h.live b hb)) (h.physical page hpage) hsame with
    | inl hle => exact .inl (hbefore.trans hle)
    | inr hle => exact .inr (by omega)

/-- The room that is tested is the space that is left. -/
theorem Laid.room (h : Laid s blocks) (hpage : page ∈ s.arenaList) :
    (arenaRoom s page).toNat = spaceLeft page blocks := by
  have hused := h.used page hpage
  have hfits := h.fits page hpage
  have hheader : sizeofArenaHeader.toNat = 32 := rfl
  have hsize : pageSize.toNat = 4096 := rfl
  rw [arenaRoom, spaceLeft, BitVec.toNat_sub, BitVec.toNat_add, hused, hheader, hsize]
  omega

/-! ## One call -/

/-- An allocation in a live arena stops without a change, or takes the next block. -/
theorem Laid.allocate (h : Laid s blocks) (harena : arena ∈ s.arenaList) :
    Ensures (arenaAllocate (some arena) size) s
      (fun ptr s' => size.toNat ≤ spaceLeft arena blocks ∧ s'.arenaList = s.arenaList ∧
        Laid s' (⟨arena, ptr, size⟩ :: blocks))
      (fun e s' => spaceLeft arena blocks < size.toNat ∧ s' = s ∧
        e = .panic "subarenas not supported right now") := by
  have hroom := h.room harena
  rw [ensures_arenaAllocate]
  constructor
  · intro hlt
    rw [← hroom]
    exact ⟨hlt, rfl, rfl⟩
  · intro hge
    have hfit : size.toNat ≤ spaceLeft arena blocks := by
      rw [← hroom]
      exact not_lt.mp hge
    have hused := h.used arena harena
    have hfits := h.fits arena harena
    have hbase := base_toNat (h.physical arena harena)
    have hlow := (h.physical arena harena).2
    have hleft : size.toNat ≤ 4064 - usedBy arena blocks := hfit
    have hheader : sizeofArenaHeader.toNat = 32 := rfl
    -- the block begins where the blocks of the arena end
    have hptr : (p2vIdentityMap arena + ((s.arenaAt arena).usedSize + sizeofArenaHeader)).toNat =
        (p2vIdentityMap arena).toNat + 32 + usedBy arena blocks := by
      rw [BitVec.toNat_add, BitVec.toNat_add, hused, hheader]
      omega
    generalize hblock : p2vIdentityMap arena + ((s.arenaAt arena).usedSize + sizeofArenaHeader) = ptr
    rw [hblock] at hptr
    have hself : usedBy arena (⟨arena, ptr, size⟩ :: blocks) = size.toNat + usedBy arena blocks :=
      congrArg (· + usedBy arena blocks) (if_pos rfl)
    have hothers : ∀ p, p ≠ arena → usedBy p (⟨arena, ptr, size⟩ :: blocks) = usedBy p blocks :=
      fun p hp => (congrArg (· + usedBy p blocks) (if_neg hp.symm)).trans (Nat.zero_add _)
    have hgrows : ∀ p, usedBy p blocks ≤ usedBy p (⟨arena, ptr, size⟩ :: blocks) :=
      fun p => Nat.le_add_left _ _
    refine ⟨hfit, rfl, ?_⟩
    refine
      { map := h.map
        cursor := h.cursor
        nodup := h.nodup
        physical := h.physical
        used := fun p hp => ?_
        fits := fun p hp => ?_
        live := List.forall_mem_cons.mpr ⟨harena, h.live⟩
        behind := List.forall_mem_cons.mpr ⟨by dsimp only; omega, h.behind⟩
        before := List.forall_mem_cons.mpr ⟨by dsimp only; omega, fun b hb =>
          (h.before b hb).trans (Nat.add_le_add_left (hgrows b.arena) _)⟩
        apart := List.pairwise_cons.mpr ⟨fun b hb => ?_, h.apart⟩ }
    · by_cases hsame : p = arena
      · dsimp only
        rw [hsame, hself, Function.update_self, BitVec.toNat_add, hused]
        omega
      · dsimp only
        rw [hothers p hsame, Function.update_of_ne hsame]
        exact h.used p hp
    · by_cases hsame : p = arena
      · rw [hsame, hself]
        omega
      · rw [hothers p hsame]
        exact h.fits p hp
    · have hbehind := h.behind b hb
      have hbefore := h.before b hb
      have hlive := h.fits b.arena (h.live b hb)
      refine disjoint_of_le ?_
      dsimp only
      by_cases hsame : b.arena = arena
      · rw [hsame] at hbefore
        omega
      · have hapart := pages_apart (h.physical _ (h.live b hb)) (h.physical arena harena) hsame
        omega

/-- A new arena is a page that holds no block. -/
theorem Laid.create (h : Laid s blocks) :
    Ensures arenaCreate s (fun page s' => Laid s' blocks ∧ s'.arenaList = page :: s.arenaList)
      (fun _ s' => s' = s) := by
  rw [arenaCreate, ensures_bind]
  refine ensures_mmGetFreePage h.cursor (fun pos hv hfree _ => ?_) (fun _ _ _ => rfl) fun _ _ _ => rfl
  have hpage := h.map _ (usablePage_iff.mpr ⟨pos, hv, rfl⟩)
  generalize positionPage (efiMmap s) pos = page at hfree hpage
  have hnew : page ∉ s.arenaList := by
    intro hmem
    have hused : mmPageUsedByArena s page = true :=
      List.any_eq_true.mpr ⟨page, hmem, by rw [and_pageMask hpage.1, beq_self_eq_true]⟩
    rw [mmPageIsFree, hused] at hfree
    simp at hfree
  have hother : ∀ b ∈ blocks, b.arena ≠ page := fun b hb he => hnew (he ▸ h.live b hb)
  have hnone := usedBy_eq_zero hother
  rw [ensures_bind, ensures_modify, ensures_pure]
  refine ⟨?_, rfl⟩
  refine
    { map := h.map
      cursor := Or.inr hv
      nodup := List.nodup_cons.mpr ⟨hnew, h.nodup⟩
      physical := List.forall_mem_cons.mpr ⟨hpage, h.physical⟩
      used := List.forall_mem_cons.mpr ⟨?_, fun p hp => ?_⟩
      fits := List.forall_mem_cons.mpr ⟨by omega, h.fits⟩
      live := fun b hb => List.mem_cons_of_mem page (h.live b hb)
      behind := h.behind
      before := h.before
      apart := h.apart }
  · dsimp only
    rw [Function.update_self, hnone]
    rfl
  · dsimp only
    rw [Function.update_of_ne (ne_of_mem_of_not_mem hp hnew)]
    exact h.used p hp

/-! ## Whole runs -/

/-- Arenas as they were created, which nothing was taken from. -/
structure Untouched (s : Hv) : Prop where
  map : PhysicalMap (efiMmap s)
  cursor : CursorOk (efiMmap s) (savedCursor s)
  nodup : s.arenaList.Nodup
  physical : ∀ page ∈ s.arenaList, PageOk page
  unused : ∀ page ∈ s.arenaList, (s.arenaAt page).usedSize = 0

/-- Calls of `arena_allocate` and `arena_create` that returned, and the blocks, newest first. -/
inductive AllocationRun (s : Hv) : List Block → Hv → Prop
  | start : AllocationRun s [] s
  | allocate {blocks t t' arena size ptr} : AllocationRun s blocks t → arena ∈ t.arenaList →
      arenaAllocate (some arena) size t = .ok ptr t' →
      AllocationRun s (⟨arena, ptr, size⟩ :: blocks) t'
  | create {blocks t t' page} : AllocationRun s blocks t → arenaCreate t = .ok page t' →
      AllocationRun s blocks t'

/-- Nothing is laid in untouched arenas. -/
theorem Untouched.laid (h : Untouched s) : Laid s [] where
  map := h.map
  cursor := h.cursor
  nodup := h.nodup
  physical := h.physical
  used page hpage := congrArg BitVec.toNat (h.unused page hpage)
  fits _ _ := Nat.zero_le _
  live _ hb := by cases hb
  behind _ hb := by cases hb
  before _ hb := by cases hb
  apart := List.Pairwise.nil

/-- The blocks stay in a row over a whole run. -/
theorem AllocationRun.laid (hrun : AllocationRun s blocks s') (h : Untouched s) : Laid s' blocks := by
  induction hrun with
  | start => exact h.laid
  | allocate _ harena hcall ih => exact ((ih.allocate harena).of_ok hcall).2.2
  | create _ hcall ih => exact (ih.create.of_ok hcall).1

/-- The blocks of a run lie in their arenas, meet no header and not each other, and the
next call stops exactly when its size exceeds the space left, without any change. -/
theorem blocks_apart (h : Untouched s) (hrun : AllocationRun s blocks s') :
    (∀ b ∈ blocks, b.Inside ∧ ∀ page ∈ s'.arenaList, Disjoint b.addresses (headerAddresses page)) ∧
    blocks.Pairwise (fun b b' => Disjoint b.addresses b'.addresses) ∧
    ∀ arena ∈ s'.arenaList, ∀ size,
      if spaceLeft arena blocks < size.toNat then
        arenaAllocate (some arena) size s' = .error (.panic "subarenas not supported right now") s'
      else ∃ ptr s'', arenaAllocate (some arena) size s' = .ok ptr s'' ∧
        Block.Inside ⟨arena, ptr, size⟩ := by
  have hlaid := hrun.laid h
  refine ⟨fun b hb => ⟨hlaid.inside hb, fun page hpage => hlaid.header hb hpage⟩, hlaid.apart,
    fun arena harena size => ?_⟩
  have hcall : Ensures (arenaAllocate (some arena) size) s'
      (fun ptr s'' => size.toNat ≤ spaceLeft arena blocks ∧ s''.arenaList = s'.arenaList ∧
        Laid s'' (⟨arena, ptr, size⟩ :: blocks))
      (fun e s'' => spaceLeft arena blocks < size.toNat ∧ s'' = s' ∧
        e = .panic "subarenas not supported right now") := hlaid.allocate harena
  cases hout : arenaAllocate (some arena) size s' with
  | ok ptr s'' =>
    obtain ⟨hfit, _, hlaid'⟩ := hcall.of_ok hout
    rw [if_neg (Nat.not_lt.mpr hfit)]
    exact ⟨ptr, s'', rfl, hlaid'.inside List.mem_cons_self⟩
  | error e s'' =>
    obtain ⟨hlt, rfl, rfl⟩ := hcall.of_error hout
    rw [if_pos hlt]

/-- An arena of a small host is filled to its last byte. -/
def fillArena : HvM Bool := do
  let arena ← arenaCreate
  let first ← arenaAllocate (some arena) 0x20
  let second ← arenaAllocate (some arena) 0xfc0
  return arena == 0x13000 && (first == 0x10000013020 && second == 0x10000013040)

theorem blocks_apart_full : ∃ s,
    AllocationRun (smallHost 4) [⟨0x13000, 0x10000013040, 0xfc0⟩, ⟨0x13000, 0x10000013020, 0x20⟩] s ∧
      arenaAllocate (some 0x13000) 1 s = .error (.panic "subarenas not supported right now") s := by
  have hmap : PhysicalMap (smallMap 4) :=
    physicalMap_smallMap fun page hp => by fin_cases hp <;> exact ⟨by decide, by decide⟩
  have huntouched : Untouched (smallHost 4) :=
    ⟨hmap, Or.inl rfl, List.nodup_nil, fun _ hp => (nomatch hp), fun _ hp => (nomatch hp)⟩
  have hfill : (match fillArena (smallHost 4) with
      | .ok same _ => same
      | .error .. => false) = true := by
    decide +kernel
  generalize smallHost 4 = host at huntouched hfill ⊢
  cases hout : fillArena host with
  | error e s =>
    rw [hout] at hfill
    cases hfill
  | ok same s =>
    rw [hout] at hfill
    obtain ⟨arena, s₁, hcreate, hout⟩ := bind_eq_ok.mp hout
    obtain ⟨first, s₂, hfirst, hout⟩ := bind_eq_ok.mp hout
    obtain ⟨second, s₃, hsecond, hout⟩ := bind_eq_ok.mp hout
    cases hout
    obtain ⟨harena, hblocks⟩ := (Bool.and_eq_true _ _).mp hfill
    obtain ⟨hfirstPtr, hsecondPtr⟩ := (Bool.and_eq_true _ _).mp hblocks
    obtain rfl := beq_iff_eq.mp harena
    obtain rfl := beq_iff_eq.mp hfirstPtr
    obtain rfl := beq_iff_eq.mp hsecondPtr
    have hlist₁ := (huntouched.laid.create.of_ok hcreate).2
    have hmem₁ : (0x13000 : Word) ∈ s₁.arenaList := by
      rw [hlist₁]
      exact List.mem_cons_self
    have hrun₁ : AllocationRun host [] s₁ := .create .start hcreate
    have hlist₂ := ((hrun₁.laid huntouched).allocate hmem₁).of_ok hfirst |>.2.1
    have hmem₂ : (0x13000 : Word) ∈ s₂.arenaList := by rw [hlist₂]; exact hmem₁
    have hrun₂ := AllocationRun.allocate hrun₁ hmem₁ hfirst
    have hlist₃ := ((hrun₂.laid huntouched).allocate hmem₂).of_ok hsecond |>.2.1
    have hrun₃ := AllocationRun.allocate hrun₂ hmem₂ hsecond
    have hnext := (blocks_apart huntouched hrun₃).2.2 0x13000 (by rw [hlist₃]; exact hmem₂) 1
    rw [if_pos (by decide)] at hnext
    exact ⟨s, hrun₃, hnext⟩

end Rkhv.ArenaSpace
